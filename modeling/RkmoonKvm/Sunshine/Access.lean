import RkmoonKvm.Client.Auth
import RkmoonKvm.Sunshine.Password

/-! The password from end to end: the header that the client sends, the gate in front of every route of the
server, and what others may do to the budget for wrong passwords. -/
namespace Sunshine.Access
open Base64 Runs Password

variable {D : Type} [DecidableEq D] (evpDigest : List UInt8 → Option D)

structure Request where
  now : ℚ
  /-- Every value of an `Authorization` field. -/
  authorization : List (List UInt8)

/-- The value that is checked: of more than one none is. -/
def Request.header (r : Request) : List UInt8 :=
  match r.authorization with
  | [value] => value
  | _ => []

structure State (D : Type) where
  auth : PasswordAuth D
  /-- When a request was refused by what it sent, and not for want of a token. -/
  failed : List ℚ := []

/-- The handler in front of a route: whether the route is reached. -/
def gate (r : Request) (s : State D) : Except String Bool × PasswordAuth D :=
  authorize evpDigest r.now r.header s.auth

def fails (r : Request) (s : State D) : Bool :=
  1 ≤ (s.auth.refilled r.now).tokens ∧ (gate evpDigest r s).1 = .ok false

def step (s : State D) (r : Request) : State D where
  auth := (gate evpDigest r s).2
  failed := s.failed ++ if fails evpDigest r s then [r.now] else []

def ask (foldCase : Char → Char) (url : Client.Url) (client : Client.Auth) (now : ℚ) : Request where
  now
  authorization := (client.prepareRequest foldCase url).authorization.toList

def Forward (s : State D) (r : Request) : Prop := s.auth.last ≤ r.now

/-- The budget is exactly what the failures have left of it. -/
structure Level (password : List UInt8) (s : State D) : Prop where
  bounded : Bucket.Bounded 10 1 s.failed s.auth.toBucket
  attained : Bucket.Attained 10 1 s.failed s.auth.toBucket
  expected : evpDigest (right password) = some s.auth.expected

variable {evpDigest} {password : List UInt8} {s : State D}

theorem gate_costs (s : State D) (r : Request) :
    (fails evpDigest r s = false ∧ (gate evpDigest r s).2 = s.auth.refilled r.now) ∨
    (fails evpDigest r s = true ∧ 1 ≤ (s.auth.refilled r.now).tokens ∧
      (gate evpDigest r s).2 = (s.auth.refilled r.now).charged) := by
  have answers := authorize_answers evpDigest s.auth ⟨r.now, r.header⟩
  unfold fails gate
  generalize compares evpDigest s.auth ⟨r.now, r.header⟩ = compared at answers
  generalize authorize evpDigest r.now r.header s.auth = answer at answers ⊢
  obtain ⟨result, after⟩ := answer
  cases answers with
  | refused few => exact .inl ⟨decide_eq_false fun both => absurd both.1 (not_le.mpr few), rfl⟩
  | oversize enough long => exact .inr ⟨decide_eq_true ⟨enough, rfl⟩, enough, rfl⟩
  | thrown error failed => exact .inl ⟨decide_eq_false fun both => (nomatch both.2), rfl⟩
  | right enough same => exact .inl ⟨decide_eq_false fun both => (nomatch both.2), rfl⟩
  | wrong enough other => exact .inr ⟨decide_eq_true ⟨enough, rfl⟩, enough, rfl⟩

omit [DecidableEq D] in
theorem level_refilled (level : Level evpDigest password s) {now : ℚ} (forward : s.auth.last ≤ now) :
    Bucket.Bounded 10 1 s.failed (s.auth.refilled now).toBucket ∧
      Bucket.Attained 10 1 s.failed (s.auth.refilled now).toBucket := by
  rw [refilled_bucket]
  exact ⟨Bucket.bounded_refill (by norm_num) level.bounded forward,
    Bucket.attained_refill (by norm_num) level.bounded level.attained forward⟩

theorem level_step (s : State D) (r : Request) (level : Level evpDigest password s) (forward : Forward s r) :
    Level evpDigest password (step evpDigest s r) := by
  obtain ⟨bounded, attained⟩ := level_refilled level forward
  unfold step
  rcases gate_costs s r with ⟨free, after⟩ | ⟨cost, enough, after⟩
  · rw [free, after]
    simp only [Bool.false_eq_true, if_false, List.append_nil]
    exact ⟨bounded, attained, level.expected⟩
  · rw [cost, after]
    exact ⟨Bucket.bounded_spend (by norm_num) bounded enough, Bucket.attained_spend attained, level.expected⟩

theorem step_last (s : State D) (r : Request) : (step evpDigest s r).auth.last = r.now := by
  unfold step
  rcases gate_costs s r with ⟨-, after⟩ | ⟨-, -, after⟩ <;> (rw [after]; rfl)

theorem meets_forward {requests : List Request}
    (monotone : (s.auth.last :: requests.map Request.now).Pairwise (· ≤ ·)) :
    Meets (step evpDigest) Forward s requests := by
  induction requests generalizing s with
  | nil => exact trivial
  | cons r requests ih =>
    obtain ⟨first, rest⟩ := List.pairwise_cons.mp monotone
    exact ⟨first r.now List.mem_cons_self, ih (by rw [step_last]; exact rest)⟩

omit [DecidableEq D] in
theorem level_initial {auth : PasswordAuth D} {start : ℚ}
    (built : passwordAuth evpDigest password start = .ok auth) : Level evpDigest password { auth } ∧ auth.last = start := by
  obtain ⟨kept, begins⟩ := kept_initial built
  refine ⟨⟨kept.bounded, ?_, kept.expected⟩, begins⟩
  unfold passwordAuth at built
  cases known : digest evpDigest (right password) with
  | error e =>
    rw [known] at built
    cases built
  | ok d =>
    rw [known] at built
    cases built
    exact Bucket.attained_full start

theorem level_run {auth : PasswordAuth D} {start : ℚ} (built : passwordAuth evpDigest password start = .ok auth)
    (requests : List Request) (monotone : (start :: requests.map Request.now).Pairwise (· ≤ ·)) :
    Level evpDigest password (run (step evpDigest) { auth } requests) := by
  obtain ⟨initial, begins⟩ := level_initial built
  rw [← begins] at monotone
  exact meets_invariant _ Forward _ level_step initial requests (meets_forward monotone)

/-! Who is let in. -/

theorem authorize_short {now : ℚ} {header : List UInt8} {auth : PasswordAuth D}
    (admitted : (authorize evpDigest now header auth).1 = .ok true) : header.length ≤ 1024 := by
  unfold authorize at admitted
  dsimp only at admitted
  split at admitted
  · cases admitted
  · split at admitted
    · assumption
    · cases admitted

section admission
variable (injective : ∀ v v' d, evpDigest v = some d → evpDigest v' = some d → v = v')
include injective

theorem gate_admits (level : Level evpDigest password s) (r : Request) (forward : Forward s r) :
    (gate evpDigest r s).1 = .ok true ↔ r.header = right password ∧ (right password).length ≤ 1024 ∧
      ∀ a ≤ r.now, (s.failed.countP (a ≤ ·) : ℚ) + 1 ≤ 10 + (r.now - a) := by
  obtain ⟨bounded, attained⟩ := level_refilled level forward
  have tokens := Bucket.enough_iff bounded attained
  simp only [one_mul] at tokens
  have kept : Kept evpDigest password { auth := s.auth, guesses := s.failed } := ⟨level.bounded, level.expected⟩
  constructor
  · intro admitted
    have same := right_only injective kept admitted
    refine ⟨same, same ▸ authorize_short admitted, tokens.mp ?_⟩
    have answers := authorize_answers evpDigest s.auth ⟨r.now, r.header⟩
    change (authorize evpDigest r.now r.header s.auth).1 = .ok true at admitted
    generalize authorize evpDigest r.now r.header s.auth = answer at answers admitted
    generalize compares evpDigest s.auth ⟨r.now, r.header⟩ = compared at answers
    obtain ⟨result, after⟩ := answer
    cases answers with
    | right enough => exact enough
    | refused | oversize | thrown | wrong => simp at admitted
  · rintro ⟨same, short, windows⟩
    unfold gate
    rw [same, right_answered kept short (tokens.mpr windows)]

omit [DecidableEq D] injective in
theorem ask_header {foldCase : Char → Char} {url : Client.Url} {client : Client.Auth} {now : ℚ} :
    (ask foldCase url client now).header = right password ↔ client.matchesTarget foldCase url = true ∧
      client.password ≠ "" ∧ client.password.toUTF8.data.toList = password := by
  have front : ascii Client.userName ++ ascii ":" = ascii "kvm:" := by decide
  have some_header : right password ≠ [] := by
    intro none
    exact absurd (List.append_eq_nil_iff.mp none).1 (by decide)
  unfold ask Client.Auth.prepareRequest Client.Auth.authorizationValue
  by_cases target : client.matchesTarget foldCase url = true
  · by_cases named : client.password = ""
    · simp [target, named, Request.header, some_header.symm]
    · have value : ascii "Basic " ++ encode (ascii "kvm:" ++ client.password.toUTF8.data.toList) ≠ [] := by
        intro none
        exact absurd (List.append_eq_nil_iff.mp none).1 (by decide)
      simp only [target, Bool.not_true, Bool.false_eq_true, if_false, named, front, value, Option.toList_some,
        Request.header, right, true_and, ne_eq, not_false_eq_true]
      constructor
      · intro same
        exact List.append_cancel_left (encode_injective (List.append_cancel_left same))
      · intro same
        rw [same]
  · simp [target, Request.header, some_header.symm]

/-- Whatever others have sent to the server, in any order of times: the client is let in exactly when it is armed
for this target, has the password of the server, and every window up to now has left a token; and it costs
nothing then. -/
theorem client_admitted {auth : PasswordAuth D} {start : ℚ}
    (built : passwordAuth evpDigest password start = .ok auth) (requests : List Request)
    (monotone : (start :: requests.map Request.now).Pairwise (· ≤ ·)) (foldCase : Char → Char) (url : Client.Url)
    (client : Client.Auth) (now : ℚ) :
    let s := run (step evpDigest) { auth } requests
    let r := ask foldCase url client now
    s.auth.last ≤ now →
    ((gate evpDigest r s).1 = .ok true ↔ client.matchesTarget foldCase url = true ∧ client.password ≠ "" ∧
      client.password.toUTF8.data.toList = password ∧ (right password).length ≤ 1024 ∧
      ∀ a ≤ now, (s.failed.countP (a ≤ ·) : ℚ) + 1 ≤ 10 + (now - a)) ∧
    ((gate evpDigest r s).1 = .ok true → (step evpDigest s r).failed = s.failed) := by
  intro s r forward
  have level : Level evpDigest password s := level_run built requests monotone
  constructor
  · rw [gate_admits injective level r forward, ask_header]
    tauto
  · intro admitted
    have free : fails evpDigest r s = false := by
      unfold fails
      rw [admitted]
      simp
    simp [step, free]

end admission

def host : Client.Url := ⟨"http", "KVM.lan", 47989⟩

def bound : Client.Auth := { password := "kvm", host := "kvm.lan", port := 47989 }

theorem client_admitted_kvm :
    let one := run (step sampleDigest) { auth := fresh } [⟨0, []⟩]
    let ten := run (step sampleDigest) { auth := fresh } (List.replicate 10 ⟨0, []⟩)
    (gate sampleDigest (ask Char.toLower host bound 0) one).1 = .ok true ∧
      (gate sampleDigest (ask Char.toLower host bound (1 / 2)) ten).1 ≠ .ok true := by
  have built : passwordAuth sampleDigest (ascii "kvm") 0 = .ok fresh := rfl
  have armed : bound.matchesTarget Char.toLower host = true := by decide
  have same : bound.password.toUTF8.data.toList = ascii "kvm" := by decide
  constructor
  · have admitted := client_admitted sampleDigest_injective built [⟨0, []⟩] (by decide +kernel) Char.toLower host
      bound 0 (by decide +kernel)
    refine admitted.1.mpr ⟨armed, by decide, same, by decide, fun a before => ?_⟩
    have few : (run (step sampleDigest) { auth := fresh } [⟨0, []⟩]).failed.countP (a ≤ ·) ≤ 1 :=
      List.countP_le_length.trans (by decide +kernel)
    have few : (((run (step sampleDigest) { auth := fresh } [⟨0, []⟩]).failed.countP (a ≤ ·) : ℕ) : ℚ) ≤ 1 := by
      exact_mod_cast few
    linarith
  · intro answer
    have admitted := client_admitted sampleDigest_injective built (List.replicate 10 ⟨0, []⟩) (by decide +kernel)
      Char.toLower host bound (1 / 2) (by decide +kernel)
    obtain ⟨-, -, -, -, windows⟩ := admitted.1.mp answer
    have many : (run (step sampleDigest) { auth := fresh } (List.replicate 10 ⟨0, []⟩)).failed.countP
        (fun t => decide ((0 : ℚ) ≤ t)) = 10 := by decide +kernel
    have bound := windows 0 (by norm_num)
    rw [many] at bound
    norm_num at bound

end Sunshine.Access

import Mathlib.Algebra.Order.Ring.Rat
import RkmoonKvm.Library.Base64
import RkmoonKvm.Library.Bucket
import RkmoonKvm.Library.Runs

/-! The password check of the server: the header it takes, and its budget for wrong ones. -/
namespace Sunshine.Password
open Base64 Runs

/-- The header that the constructor expects; `encode` is `EVP_EncodeBlock`, for a text whose
code has a length that an `int` holds. -/
def right (password : List UInt8) : List UInt8 :=
  ascii "Basic " ++ encode (ascii "kvm:" ++ password)

example : right (ascii "kvm") = ascii "Basic a3ZtOmt2bQ==" := by decide

structure PasswordAuth (D : Type) extends Bucket ℚ where
  expected : D

namespace PasswordAuth
variable {D : Type}

def refilled (now : ℚ) (auth : PasswordAuth D) : PasswordAuth D :=
  { auth with tokens := min 10 (auth.tokens + (now - auth.last)), last := now }

def charged (auth : PasswordAuth D) : PasswordAuth D := { auth with tokens := auth.tokens - 1 }

end PasswordAuth

section auth
variable {D : Type} (evpDigest : List UInt8 → Option D)

def digest (value : List UInt8) : Except String D :=
  match evpDigest value with
  | some result => .ok result
  | none => .error "Password authentication initialization failed"

def passwordAuth (password : List UInt8) (now : ℚ) : Except String (PasswordAuth D) := do
  let expected ← digest evpDigest (right password)
  return { tokens := 10, last := now, expected }

variable [DecidableEq D]

def authorize (now : ℚ) (header : List UInt8) (auth : PasswordAuth D) :
    Except String Bool × PasswordAuth D :=
  let auth := auth.refilled now
  if auth.tokens < 1 then (.ok false, auth)
  else if header.length ≤ 1024 then
    match digest evpDigest header with
    | .error e => (.error e, auth)
    | .ok actual => if actual = auth.expected then (.ok true, auth) else (.ok false, auth.charged)
  else (.ok false, auth.charged)

end auth

structure Call where
  now : ℚ
  header : List UInt8

structure State (D : Type) where
  auth : PasswordAuth D
  /-- When a header other than the right one reached the comparison. -/
  guesses : List ℚ := []

section run
variable {D : Type} (evpDigest : List UInt8 → Option D)

def compares (auth : PasswordAuth D) (c : Call) : Bool :=
  1 ≤ (auth.refilled c.now).tokens ∧ c.header.length ≤ 1024 ∧ (evpDigest c.header).isSome

variable [DecidableEq D] (password : List UInt8)

def step (s : State D) (c : Call) : State D where
  auth := (authorize evpDigest c.now c.header s.auth).2
  guesses := s.guesses ++ if compares evpDigest s.auth c ∧ c.header ≠ right password then [c.now] else []

def Forward (s : State D) (c : Call) : Prop := s.auth.last ≤ c.now

end run

theorem digest_ok {D : Type} {evpDigest : List UInt8 → Option D} {value : List UInt8} {d : D} :
    digest evpDigest value = .ok d ↔ evpDigest value = some d := by
  unfold digest
  cases evpDigest value with
  | none => exact ⟨nofun, nofun⟩
  | some result => exact ⟨fun same => congrArg some (Except.ok.inj same), fun same => congrArg _ (Option.some.inj same)⟩

theorem refilled_bucket {D : Type} (now : ℚ) (auth : PasswordAuth D) :
    (auth.refilled now).toBucket = auth.toBucket.refill 10 1 now := by
  rw [Bucket.refill, one_mul]
  rfl

section proofs
variable {D : Type} [DecidableEq D] {evpDigest : List UInt8 → Option D} {auth : PasswordAuth D}

/-- What a call answers, what it leaves, and whether it came to the comparison. -/
inductive Answers (evpDigest : List UInt8 → Option D) (auth : PasswordAuth D) (c : Call) :
    Except String Bool → PasswordAuth D → (compared : Bool) → Prop
  | refused (few : (auth.refilled c.now).tokens < 1) :
      Answers evpDigest auth c (.ok false) (auth.refilled c.now) false
  | oversize (enough : 1 ≤ (auth.refilled c.now).tokens) (long : 1024 < c.header.length) :
      Answers evpDigest auth c (.ok false) (auth.refilled c.now).charged false
  | thrown (error : String) (failed : evpDigest c.header = none) :
      Answers evpDigest auth c (.error error) (auth.refilled c.now) false
  | right (enough : 1 ≤ (auth.refilled c.now).tokens) (same : evpDigest c.header = some auth.expected) :
      Answers evpDigest auth c (.ok true) (auth.refilled c.now) true
  | wrong (enough : 1 ≤ (auth.refilled c.now).tokens) (other : evpDigest c.header ≠ some auth.expected) :
      Answers evpDigest auth c (.ok false) (auth.refilled c.now).charged true

variable (evpDigest auth) in
theorem authorize_answers (c : Call) :
    Answers evpDigest auth c (authorize evpDigest c.now c.header auth).1
      (authorize evpDigest c.now c.header auth).2 (compares evpDigest auth c) := by
  unfold authorize compares
  dsimp only
  split
  next few =>
    rw [decide_eq_false fun all => absurd all.1 (not_le.mpr few)]
    exact .refused few
  next enough =>
    have enough := not_lt.mp enough
    split
    next short =>
      split
      next error failed =>
        have failed : evpDigest c.header = none := by
          cases known : evpDigest c.header with
          | none => rfl
          | some d => rw [digest_ok.mpr known] at failed; cases failed
        rw [decide_eq_false fun all => by rw [failed] at all; exact Bool.false_ne_true all.2.2]
        exact .thrown error failed
      next actual known =>
        have known := digest_ok.mp known
        rw [decide_eq_true ⟨enough, short, by rw [known]; rfl⟩]
        split
        next same => exact .right enough (same ▸ known)
        next other =>
          exact .wrong enough fun same => other (Option.some.inj (known.symm.trans same))
    next long =>
      rw [decide_eq_false fun all => long all.2.1]
      exact .oversize enough (Nat.lt_of_not_le long)

/-- The invariant: the bucket bounds the guesses, and only the right header is expected. -/
structure Kept (evpDigest : List UInt8 → Option D) (password : List UInt8) (s : State D) : Prop where
  bounded : Bucket.Bounded 10 1 s.guesses s.auth.toBucket
  expected : evpDigest (right password) = some s.auth.expected

variable {password : List UInt8} {s : State D}
variable (injective : ∀ v v' d, evpDigest v = some d → evpDigest v' = some d → v = v')

omit [DecidableEq D] in
theorem kept_initial {now : ℚ} (built : passwordAuth evpDigest password now = .ok auth) :
    Kept evpDigest password { auth } ∧ auth.last = now := by
  unfold passwordAuth at built
  cases known : digest evpDigest (right password) with
  | error e => rw [known] at built; cases built
  | ok d =>
    rw [known] at built
    cases built
    exact ⟨⟨Bucket.bounded_full (by norm_num) (by norm_num) now, digest_ok.mp known⟩, rfl⟩

include injective in
theorem kept_step (s : State D) (c : Call) (kept : Kept evpDigest password s) (forward : Forward s c) :
    Kept evpDigest password (step evpDigest password s c) := by
  have refilled := refilled_bucket c.now s.auth ▸ Bucket.bounded_refill (by norm_num) kept.bounded forward
  have answers := authorize_answers evpDigest s.auth c
  unfold step
  generalize authorize evpDigest c.now c.header s.auth = answer at answers ⊢
  generalize compares evpDigest s.auth c = compared at answers ⊢
  obtain ⟨result, after⟩ := answer
  cases answers with
  | refused few =>
    refine ⟨?_, kept.expected⟩
    rw [if_neg fun both => Bool.false_ne_true both.1, List.append_nil]
    exact refilled
  | oversize enough long =>
    refine ⟨?_, kept.expected⟩
    rw [if_neg fun both => Bool.false_ne_true both.1, List.append_nil]
    exact Bucket.bounded_waste refilled enough
  | thrown error failed =>
    refine ⟨?_, kept.expected⟩
    rw [if_neg fun both => Bool.false_ne_true both.1, List.append_nil]
    exact refilled
  | right enough same =>
    have header := injective _ _ _ same kept.expected
    refine ⟨?_, kept.expected⟩
    rw [if_neg fun both => both.2 header, List.append_nil]
    exact refilled
  | wrong enough other =>
    have header : c.header ≠ Password.right password := fun same => other (same ▸ kept.expected)
    refine ⟨?_, kept.expected⟩
    rw [if_pos ⟨rfl, header⟩]
    exact Bucket.bounded_spend (by norm_num) refilled enough

theorem step_last (c : Call) : (step evpDigest password s c).auth.last = c.now := by
  have answers := authorize_answers evpDigest s.auth c
  unfold step
  generalize authorize evpDigest c.now c.header s.auth = answer at answers ⊢
  generalize compares evpDigest s.auth c = compared at answers
  obtain ⟨result, after⟩ := answer
  cases answers <;> rfl

theorem meets_forward {calls : List Call}
    (monotone : (s.auth.last :: calls.map Call.now).Pairwise (· ≤ ·)) :
    Meets (step evpDigest password) Forward s calls := by
  induction calls generalizing s with
  | nil => exact trivial
  | cons c calls ih =>
    obtain ⟨first, rest⟩ := List.pairwise_cons.mp monotone
    exact ⟨first c.now List.mem_cons_self, ih (by rw [step_last]; exact rest)⟩

include injective in
theorem kept_run {start : ℚ} (built : passwordAuth evpDigest password start = .ok auth)
    (calls : List Call) (monotone : (start :: calls.map Call.now).Pairwise (· ≤ ·)) :
    Kept evpDigest password (run (step evpDigest password) { auth } calls) := by
  obtain ⟨initial, begins⟩ := kept_initial built
  rw [← begins] at monotone
  exact meets_invariant _ Forward _ (kept_step injective) initial calls (meets_forward monotone)

theorem right_answered (kept : Kept evpDigest password s) {now : ℚ}
    (short : (right password).length ≤ 1024) (enough : 1 ≤ (s.auth.refilled now).tokens) :
    authorize evpDigest now (right password) s.auth = (.ok true, s.auth.refilled now) := by
  have answers := authorize_answers evpDigest s.auth ⟨now, right password⟩
  generalize authorize evpDigest now (right password) s.auth = answer at answers ⊢
  generalize compares evpDigest s.auth ⟨now, right password⟩ = compared at answers
  obtain ⟨result, after⟩ := answer
  cases answers with
  | right => rfl
  | refused few => exact absurd enough (not_le.mpr few)
  | oversize _ long => exact absurd short (Nat.not_le.mpr long)
  | thrown _ failed => exact absurd (failed.symm.trans kept.expected) nofun
  | wrong _ other => exact absurd kept.expected other

include injective in
theorem right_only (kept : Kept evpDigest password s) {now : ℚ} {header : List UInt8}
    (answered : (authorize evpDigest now header s.auth).1 = .ok true) : header = right password := by
  have answers := authorize_answers evpDigest s.auth ⟨now, header⟩
  generalize authorize evpDigest now header s.auth = answer at answers answered
  generalize compares evpDigest s.auth ⟨now, header⟩ = compared at answers
  obtain ⟨result, after⟩ := answer
  cases answers with
  | right _ same => exact injective _ _ _ same kept.expected
  | refused | oversize | thrown | wrong => simp at answered

include injective in
/-- Only the right header is let in, and the wrong ones that are compared have a budget. -/
theorem guesses_bounded {start : ℚ} (built : passwordAuth evpDigest password start = .ok auth)
    (calls : List Call) (monotone : (start :: calls.map Call.now).Pairwise (· ≤ ·)) :
    let s := run (step evpDigest password) { auth } calls
    0 ≤ s.auth.tokens ∧ s.auth.tokens ≤ 10 ∧
    (∀ now header, (authorize evpDigest now header s.auth).1 = .ok true → header = right password) ∧
    (∀ a T : ℚ, 0 ≤ T → s.guesses.countP (fun t => a ≤ t ∧ t ≤ a + T) ≤ 10 + T) ∧
    (∀ now, s.auth.last ≤ now → (right password).length ≤ 1024 →
      1 ≤ (s.auth.refilled now).tokens →
      authorize evpDigest now (right password) s.auth = (.ok true, s.auth.refilled now)) := by
  have kept := kept_run injective built calls monotone
  generalize run (step evpDigest password) { auth } calls = s at kept
  refine ⟨kept.bounded.nonneg, kept.bounded.full, fun now header => right_only injective kept,
    fun a T some => ?_, fun now _ => right_answered kept⟩
  have bound := kept.bounded.within a (a + T) (le_add_of_nonneg_right some)
  rwa [add_sub_cancel_left, one_mul] at bound

end proofs

def sampleDigest (value : List UInt8) : Option (List UInt8) :=
  if value = [] then
    some [227, 176, 196, 66, 152, 252, 28, 20, 154, 251, 244, 200, 153, 111, 185, 36,
      39, 174, 65, 228, 100, 155, 147, 76, 164, 149, 153, 27, 120, 82, 184, 85]
  else if value = right (ascii "kvm") then
    some [16, 221, 48, 94, 183, 139, 121, 124, 189, 106, 246, 25, 55, 229, 93, 86,
      148, 126, 26, 8, 72, 63, 14, 19, 186, 133, 57, 168, 49, 111, 78, 134]
  else some (List.replicate 33 0 ++ value)

theorem sampleDigest_injective (v v' d : List UInt8) (same : sampleDigest v = some d)
    (same' : sampleDigest v' = some d) : v = v' := by
  have padded : List.replicate 33 0 ++ v = List.replicate 33 0 ++ v' → v = v' := List.append_cancel_left
  unfold sampleDigest at same same'
  grind

def fresh : PasswordAuth (List UInt8) where
  tokens := 10
  last := 0
  expected := [16, 221, 48, 94, 183, 139, 121, 124, 189, 106, 246, 25, 55, 229, 93, 86,
    148, 126, 26, 8, 72, 63, 14, 19, 186, 133, 57, 168, 49, 111, 78, 134]

theorem guesses_bounded_kvm :
    let s := run (step sampleDigest (ascii "kvm")) { auth := fresh } [⟨0, []⟩, ⟨1 / 2, right (ascii "kvm")⟩]
    s.guesses = [0] ∧ s.guesses.countP (fun t => (0 : ℚ) ≤ t ∧ t ≤ 0 + 1) ≤ (10 : ℚ) + 1 ∧
      authorize sampleDigest (1 / 2) (right (ascii "kvm")) s.auth =
        (.ok true, s.auth.refilled (1 / 2)) := by
  obtain ⟨_, _, _, window, answered⟩ := guesses_bounded sampleDigest_injective
    (show passwordAuth sampleDigest (ascii "kvm") 0 = .ok fresh by rfl)
    [⟨0, []⟩, ⟨1 / 2, right (ascii "kvm")⟩] (by decide +kernel)
  exact ⟨by decide +kernel, window 0 1 (by decide +kernel),
    answered (1 / 2) (by decide +kernel) (by decide) (by decide +kernel)⟩

end Sunshine.Password

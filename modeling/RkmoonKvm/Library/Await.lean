import Mathlib.Logic.Basic

/-! Programs that wait: a method of an object, cut at the points where it awaits
an answer. An operation may take effect although its caller reads an error, or
is cancelled, and it takes effect, if at all, before the answer is read. The rules
below carry an invariant of the object and of the world around it through every
such ending, while the world moves by itself as a rely relation allows. -/
namespace Await

variable {S Op R E A B D : Type}

/-- A finished method, or one suspended at an operation: the object as it is
there, and the rest of the method for each answer. -/
inductive Prog (S Op R E A : Type) where
  | done (result : Except E A) (object : S)
  | wait (op : Op) (object : S) (resume : Except E R → Prog S Op R E A)

namespace Prog

def object : Prog S Op R E A → S
  | .done _ s => s
  | .wait _ s _ => s

def result : Prog S Op R E A → Option (Except E A)
  | .done r _ => some r
  | .wait _ _ _ => none

def bind : Prog S Op R E A → (A → S → Prog S Op R E B) → Prog S Op R E B
  | .done (.ok a) s, f => f a s
  | .done (.error e) s, _ => .done (.error e) s
  | .wait op s k, f => .wait op s fun r => (k r).bind f

def rescue (catches : E → Bool) : Prog S Op R E A → (S → Prog S Op R E A) → Prog S Op R E A
  | .done (.ok a) s, _ => .done (.ok a) s
  | .done (.error e) s, h => if catches e then h s else .done (.error e) s
  | .wait op s k, h => .wait op s fun r => (k r).rescue catches h

def handle : Prog S Op R E A → (E → S → Prog S Op R E A) → Prog S Op R E A
  | .done (.ok a) s, _ => .done (.ok a) s
  | .done (.error e) s, h => h e s
  | .wait op s k, h => .wait op s fun r => (k r).handle h

end Prog

/-- A method reads and writes its object, and may end with an error. -/
def Method (S Op R E A : Type) : Type := S → Prog S Op R E A

namespace Method

instance : Monad (Method S Op R E) where
  pure a := fun s => .done (.ok a) s
  bind m f := fun s => (m s).bind fun a => f a

instance : MonadStateOf S (Method S Op R E) where
  get := fun s => .done (.ok s) s
  set s := fun _ => .done (.ok ()) s
  modifyGet f := fun s => .done (.ok (f s).1) (f s).2

instance : MonadExceptOf E (Method S Op R E) where
  throw e := fun s => .done (.error e) s
  tryCatch m h := fun s => (m s).handle h

def call (op : Op) : Method S Op R E R := fun s => .wait op s fun r => .done r s

/-- Run the body; on an error it catches, run the handler from the object as it then is. -/
def attempt (catches : E → Bool) (body handler : Method S Op R E A) : Method S Op R E A :=
  fun s => (body s).rescue catches handler

section apply
variable (s : S) (m : Method S Op R E A) (f : A → Method S Op R E B)

theorem bind_apply : (m >>= f) s = (m s).bind fun a => f a := rfl
theorem pure_apply (a : A) : (pure a : Method S Op R E A) s = .done (.ok a) s := rfl
theorem get_apply : (get : Method S Op R E S) s = .done (.ok s) s := rfl
theorem modify_apply (g : S → S) : (modify g : Method S Op R E PUnit) s = .done (.ok ()) (g s) := rfl
theorem throw_apply (e : E) : (throw e : Method S Op R E A) s = .done (.error e) s := rfl
theorem call_apply (op : Op) :
    (call op : Method S Op R E R) s = .wait op s fun r => .done r s := rfl
theorem ite_method_apply (c : Prop) [Decidable c] (m' : Method S Op R E A) :
    (if c then m else m') s = if c then m s else m' s := by split <;> rfl

end apply
end Method

/-! An error that nothing catches, such as a cancellation. -/

def Uncaught (e : E) : Prog S Op R E A → Prop
  | .done _ _ => True
  | .wait _ s k => k (.error e) = .done (.error e) s ∧ ∀ r, Uncaught e (k r)

theorem uncaught_bind {e : E} {p : Prog S Op R E A} {f : A → S → Prog S Op R E B}
    (first : Uncaught e p) (next : ∀ a s, Uncaught e (f a s)) : Uncaught e (p.bind f) := by
  induction p with
  | done r s =>
    cases r with
    | ok a => exact next a s
    | error e' => exact trivial
  | wait op s k ih => exact ⟨by simp only [first.1, Prog.bind], fun r => ih r (first.2 r)⟩

theorem uncaught_call (e : E) (op : Op) (s : S) :
    Uncaught e ((Method.call op : Method S Op R E R) s) := ⟨rfl, fun _ => trivial⟩

theorem uncaught_rescue {e : E} {catches : E → Bool} (escapes : catches e = false)
    {p : Prog S Op R E A} {h : S → Prog S Op R E A} (body : Uncaught e p)
    (handler : ∀ s, Uncaught e (h s)) : Uncaught e (p.rescue catches h) := by
  induction p with
  | done r s =>
    cases r with
    | ok a => exact trivial
    | error e' =>
      simp only [Prog.rescue]
      split
      · exact handler s
      · exact trivial
  | wait op s k ih =>
    exact ⟨by simp [body.1, Prog.rescue, escapes], fun r => ih r (body.2 r)⟩

/-- A method that ends well unless it reads an error that it does not catch. -/
def Settles (catches : E → Bool) : Prog S Op R E A → Prop
  | .done r _ => r.isOk
  | .wait _ _ k =>
    (∀ v, Settles catches (k (.ok v))) ∧ ∀ e, catches e → Settles catches (k (.error e))

theorem settles_bind {catches : E → Bool} {p : Prog S Op R E A} {f : A → S → Prog S Op R E B}
    (first : Settles catches p) (next : ∀ a s, Settles catches (f a s)) :
    Settles catches (p.bind f) := by
  induction p with
  | done r s =>
    cases r with
    | ok a => exact next a s
    | error e => cases first
  | wait op s k ih => exact ⟨fun v => ih _ (first.1 v), fun e he => ih _ (first.2 e he)⟩

/-! Partial correctness, with the world left out. -/

/-- However the answers come, the method ends as stated. -/
def Ends (P : Except E A → S → Prop) : Prog S Op R E A → Prop
  | .done r s => P r s
  | .wait _ _ k => ∀ r, Ends P (k r)

def Answered (P : Except E A → S → Prop) : Prog S Op R E A → Prop
  | .done r s => P r s
  | .wait _ _ k => ∀ v, Answered P (k (.ok v))

theorem answered_bind {P : Except E B → S → Prop} {f : A → S → Prog S Op R E B}
    (p : Prog S Op R E A)
    (h : Answered (fun r s => match r with
      | .ok a => Answered P (f a s)
      | .error e => P (.error e) s) p) : Answered P (p.bind f) := by
  induction p with
  | done r s => cases r <;> exact h
  | wait op s k ih => exact fun v => ih (.ok v) (h v)

/-! A method whose operations all succeed. -/

structure Served (S Op E A : Type) where
  ops : List Op
  result : Except E A
  object : S

def Served.after (ops : List Op) (rest : Served S Op E A) : Served S Op E A :=
  { rest with ops := ops ++ rest.ops }

def Prog.served (reply : Op → R) : Prog S Op R E A → Served S Op E A
  | .done r s => ⟨[], r, s⟩
  | .wait op _ k => ((k (.ok (reply op))).served reply).after [op]

theorem served_bind (reply : Op → R) (p : Prog S Op R E A) (f : A → S → Prog S Op R E B) :
    (p.bind f).served reply = match (p.served reply).result with
      | .ok a => ((f a (p.served reply).object).served reply).after (p.served reply).ops
      | .error e => ⟨(p.served reply).ops, .error e, (p.served reply).object⟩ := by
  induction p with
  | done r s => cases r <;> rfl
  | wait op s k ih =>
    simp only [Prog.bind, Prog.served, ih, Served.after]
    split <;> rfl

/-! The world: what an operation does when it takes effect, and what is on
record once its caller has read an ok answer. -/

structure World (Op D : Type) where
  land : Op → D → D
  heard : Op → D → D

/-- A method in progress; `landed` says whether the awaited operation has taken effect. -/
structure Task (S Op R E A D : Type) where
  prog : Prog S Op R E A
  landed : Bool
  world : D

namespace Task

def start (p : Prog S Op R E A) (d : D) : Task S Op R E A D := ⟨p, false, d⟩

def land (w : World Op D) (t : Task S Op R E A D) : Task S Op R E A D :=
  match t.prog with
  | .wait op _ _ => if t.landed then t else ⟨t.prog, true, w.land op t.world⟩
  | .done _ _ => t

/-- The caller reads an answer: an ok only after the effect, an error at any time. -/
def answer (w : World Op D) (r : Except E R) (t : Task S Op R E A D) : Task S Op R E A D :=
  match t.prog, r with
  | .wait op _ k, .ok v => if t.landed then ⟨k (.ok v), false, w.heard op t.world⟩ else t
  | .wait _ _ k, .error e => ⟨k (.error e), false, t.world⟩
  | .done _ _, _ => t

theorem land_done (w : World Op D) {t : Task S Op R E A D} (ended : t.prog.result.isSome) :
    t.land w = t := by
  obtain ⟨p, landed, d⟩ := t
  cases p with
  | done r s => rfl
  | wait op s k => cases ended

theorem answer_done (w : World Op D) (r : Except E R) {t : Task S Op R E A D}
    (ended : t.prog.result.isSome) : t.answer w r = t := by
  obtain ⟨p, landed, d⟩ := t
  cases p with
  | done r' s => rfl
  | wait op s k => cases ended

def move (d : D) (t : Task S Op R E A D) : Task S Op R E A D := { t with world := d }

end Task

section rely

variable (w : World Op D) (rely : D → D → Prop) (I : S → D → Prop) (Q : Except E A → S → D → Prop)

/-- The invariant holds wherever the method waits, before and after the effect,
and the postcondition where it ends. -/
def Keeps : Prog S Op R E A → D → Prop
  | .done r s, d => ∀ d₁, rely d d₁ → I s d₁ ∧ Q r s d₁
  | .wait op s k, d => ∀ d₁, rely d d₁ → I s d₁ ∧ (∀ e, Keeps (k (.error e)) d₁) ∧
      ∀ d₂, rely (w.land op d₁) d₂ →
        I s d₂ ∧ (∀ e, Keeps (k (.error e)) d₂) ∧ ∀ v, Keeps (k (.ok v)) (w.heard op d₂)

def Safe (t : Task S Op R E A D) : Prop :=
  match t.prog, t.landed with
  | .wait op s k, true => ∀ d₂, rely t.world d₂ →
      I s d₂ ∧ (∀ e, Keeps w rely I Q (k (.error e)) d₂) ∧
        ∀ v, Keeps w rely I Q (k (.ok v)) (w.heard op d₂)
  | p, _ => Keeps w rely I Q p t.world

variable {w rely I Q}

theorem keeps_rely (trans : ∀ a b c, rely a b → rely b c → rely a c) {p : Prog S Op R E A}
    {d d' : D} (h : Keeps w rely I Q p d) (moved : rely d d') : Keeps w rely I Q p d' := by
  cases p with
  | done r s => exact fun d₁ h₁ => h d₁ (trans _ _ _ moved h₁)
  | wait op s k => exact fun d₁ h₁ => h d₁ (trans _ _ _ moved h₁)

theorem keeps_bind {Q : Except E B → S → D → Prop} (refl : ∀ d, rely d d)
    {f : A → S → Prog S Op R E B} (p : Prog S Op R E A) {d : D}
    (h : Keeps w rely I (fun r s d => match r with
      | .ok a => I s d → Keeps w rely I Q (f a s) d
      | .error e => Q (.error e) s d) p d) : Keeps w rely I Q (p.bind f) d := by
  induction p generalizing d with
  | done r s =>
    cases r with
    | ok a => exact (h d (refl d)).2 (h d (refl d)).1
    | error e => exact h
  | wait op s k ih =>
    intro d₁ h₁
    obtain ⟨here, failed, landed⟩ := h d₁ h₁
    refine ⟨here, fun e => ih _ (failed e), fun d₂ h₂ => ?_⟩
    obtain ⟨there, failed', answered⟩ := landed d₂ h₂
    exact ⟨there, fun e => ih _ (failed' e), fun v => ih _ (answered v)⟩

theorem keeps_mono {I' : S → D → Prop} {Q' : Except E A → S → D → Prop}
    (impI : ∀ s d, I s d → I' s d) (impQ : ∀ r s d, Q r s d → Q' r s d)
    {p : Prog S Op R E A} {d : D} (h : Keeps w rely I Q p d) : Keeps w rely I' Q' p d := by
  induction p generalizing d with
  | done r s => exact fun d₁ h₁ => ⟨impI _ _ (h d₁ h₁).1, impQ _ _ _ (h d₁ h₁).2⟩
  | wait op s k ih =>
    intro d₁ h₁
    obtain ⟨here, failed, landed⟩ := h d₁ h₁
    refine ⟨impI _ _ here, fun e => ih _ (failed e), fun d₂ h₂ => ?_⟩
    obtain ⟨there, failed', answered⟩ := landed d₂ h₂
    exact ⟨impI _ _ there, fun e => ih _ (failed' e), fun v => ih _ (answered v)⟩

theorem ends_of_keeps {P : Except E A → S → Prop} (refl : ∀ d, rely d d) {p : Prog S Op R E A}
    {d : D} (h : Keeps w rely I (fun r s _ => P r s) p d) : Ends P p := by
  induction p generalizing d with
  | done r s => exact (h d (refl d)).2
  | wait op s k ih =>
    obtain ⟨-, failed, landed⟩ := h d (refl d)
    rintro (e | v)
    · exact ih _ (failed e)
    · exact ih _ ((landed _ (refl _)).2.2 v)

theorem safe_start {p : Prog S Op R E A} {d : D} (h : Keeps w rely I Q p d) :
    Safe w rely I Q (Task.start p d) := by
  cases p <;> exact h

theorem safe_object (refl : ∀ d, rely d d) {t : Task S Op R E A D} (h : Safe w rely I Q t) :
    I t.prog.object t.world := by
  obtain ⟨p, landed, d⟩ := t
  cases p with
  | done r s => exact (h d (refl d)).1
  | wait op s k => cases landed <;> exact (h d (refl d)).1

theorem safe_done (refl : ∀ d, rely d d) {t : Task S Op R E A D} (h : Safe w rely I Q t)
    {r : Except E A} (ended : t.prog.result = some r) : Q r t.prog.object t.world := by
  obtain ⟨p, landed, d⟩ := t
  cases p with
  | done r' s =>
    cases Option.some.inj ended
    exact (h d (refl d)).2
  | wait op s k => cases ended

theorem safe_move (trans : ∀ a b c, rely a b → rely b c → rely a c) {t : Task S Op R E A D}
    (h : Safe w rely I Q t) {d : D} (moved : rely t.world d) : Safe w rely I Q (t.move d) := by
  obtain ⟨p, landed, d₀⟩ := t
  cases p with
  | done r s => exact keeps_rely trans h moved
  | wait op s k =>
    cases landed with
    | false => exact keeps_rely trans h moved
    | true => exact fun d₂ h₂ => h d₂ (trans _ _ _ moved h₂)

theorem safe_land (refl : ∀ d, rely d d) {t : Task S Op R E A D} (h : Safe w rely I Q t) :
    Safe w rely I Q (t.land w) := by
  obtain ⟨p, landed, d⟩ := t
  cases p with
  | done r s => exact h
  | wait op s k =>
    cases landed with
    | false => exact (h d (refl d)).2.2
    | true => exact h

theorem safe_answer (refl : ∀ d, rely d d) {t : Task S Op R E A D} (h : Safe w rely I Q t)
    (r : Except E R) : Safe w rely I Q (t.answer w r) := by
  obtain ⟨p, landed, d⟩ := t
  cases p with
  | done r' s => exact h
  | wait op s k =>
    cases landed with
    | false =>
      cases r with
      | ok v => exact h
      | error e => exact safe_start ((h d (refl d)).2.1 e)
    | true =>
      cases r with
      | ok v => exact safe_start ((h d (refl d)).2.2 v)
      | error e => exact safe_start ((h d (refl d)).2.1 e)

end rely

end Await

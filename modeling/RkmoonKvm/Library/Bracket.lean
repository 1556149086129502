import RkmoonKvm.Library.Await
import RkmoonKvm.Library.Runs

/-! Brackets around awaited operations. Some operations open something and some
close it; a balanced method closes what it opened unless it ends at an error. What
stays open after a run is then decided by the outcomes alone. -/
namespace Await
open Runs

variable {S Op R E A B D : Type}

/-- How an awaited operation ends: acknowledged, or with an error although it took
effect, or with an error and no effect. -/
inductive Outcome (E R : Type) where
  | acked (answer : R)
  | lost (error : E)
  | missed (error : E)

namespace Task

def outcome (w : World Op D) (t : Task S Op R E A D) : Outcome E R → Task S Op R E A D
  | .acked v => (t.land w).answer w (.ok v)
  | .lost e => (t.land w).answer w (.error e)
  | .missed e => t.answer w (.error e)

section start
variable (w : World Op D) (op : Op) (s : S) (k : Except E R → Prog S Op R E A) (d : D)

theorem start_acked (v : R) : (start (.wait op s k) d).outcome w (.acked v) =
    start (k (.ok v)) (w.heard op (w.land op d)) := rfl

theorem start_lost (e : E) : (start (.wait op s k) d).outcome w (.lost e) =
    start (k (.error e)) (w.land op d) := rfl

theorem start_missed (e : E) : (start (.wait op s k) d).outcome w (.missed e) =
    start (k (.error e)) d := rfl

end start

theorem outcome_done (w : World Op D) {t : Task S Op R E A D} (ended : t.prog.result.isSome)
    (o : Outcome E R) : t.outcome w o = t := by
  cases o <;> simp only [outcome, land_done w ended, answer_done w _ ended]

theorem run_done (w : World Op D) {t : Task S Op R E A D} (ended : t.prog.result.isSome)
    (os : List (Outcome E R)) : run (Task.outcome w) t os = t :=
  run_invariant _ (· = t) (fun _ o same => by rw [same, outcome_done w ended]) rfl os

end Task

section bracket

variable (kind : Op → Option Bool)

/-- An opening operation is followed by a closing one before anything else is
opened; an error at either of them ends the method, and otherwise nothing is open
where it ends. -/
def Balanced : Bool → Prog S Op R E A → Prop
  | opened, .done _ _ => opened = false
  | opened, .wait op _ k =>
    match kind op with
    | none => ∀ r, Balanced opened (k r)
    | some opens => opened = !opens ∧ (∀ e, (k (.error e)).result = some (.error e)) ∧
        ∀ v, Balanced opens (k (.ok v))

variable {kind}

theorem balanced_bind {p : Prog S Op R E A} {f : A → S → Prog S Op R E B} {opened : Bool}
    (first : Balanced kind opened p) (next : ∀ a s, Balanced kind false (f a s)) :
    Balanced kind opened (p.bind f) := by
  induction p generalizing opened with
  | done r s =>
    have closed : opened = false := first
    subst closed
    cases r with
    | ok a => exact next a s
    | error e => exact rfl
  | wait op s k ih =>
    simp only [Balanced, Prog.bind] at first ⊢
    cases sort : kind op with
    | none =>
      simp only [sort] at first ⊢
      exact fun r => ih r (first r)
    | some opens =>
      simp only [sort] at first ⊢
      refine ⟨first.1, fun e => ?_, fun v => ih _ (first.2.2 v)⟩
      have ends := first.2.1 e
      cases rest : k (.error e) with
      | done r s' =>
        rw [rest] at ends
        cases Option.some.inj ends
        rfl
      | wait op' s' k' => rw [rest] at ends; cases ends

theorem balanced_call {op : Op} (other : kind op = none) (s : S) :
    Balanced kind false ((Method.call op : Method S Op R E R) s) := by
  simp only [Method.call_apply, Balanced, other]
  exact fun _ => trivial

variable {w : World Op D} {held : D → Bool}

structure Opens (kind : Op → Option Bool) (w : World Op D) (held : D → Bool) : Prop where
  landed : ∀ op d, held (w.land op d) = (kind op).getD (held d)
  heard : ∀ op d, held (w.heard op d) = held d

/-- No opening operation takes effect unacknowledged, and no closing one goes without effect. -/
def Clean (kind : Op → Option Bool) (t : Task S Op R E A D) (o : Outcome E R) : Prop :=
  match t.prog, o with
  | .wait op _ _, .lost _ => kind op ≠ some true
  | .wait op _ _, .missed _ => kind op ≠ some false
  | _, _ => True

instance (t : Task S Op R E A D) (o : Outcome E R) : Decidable (Clean kind t o) := by
  unfold Clean
  split <;> infer_instance

theorem clean_done {t : Task S Op R E A D} (ended : t.prog.result.isSome) (o : Outcome E R) :
    Clean kind t o := by
  obtain ⟨p, landed, d⟩ := t
  cases p with
  | done r s => exact trivial
  | wait op s k => cases ended

theorem meets_clean_done {t : Task S Op R E A D} (ended : t.prog.result.isSome)
    (os : List (Outcome E R)) : Meets (Task.outcome w) (Clean kind) t os := by
  induction os with
  | nil => exact trivial
  | cons o os ih => exact ⟨clean_done ended o, by rwa [Task.outcome_done w ended]⟩

/-- After an error at a bracket the method is over, and what is open then stays so. -/
theorem raised_iff {q : Prog S Op R E A} {e : E} {d : D} (raised : q.result = some (.error e))
    (os : List (Outcome E R)) {clean : Prop} (here : held d = false ↔ clean) :
    held (run (Task.outcome w) (Task.start q d) os).world = false ↔
      clean ∧ Meets (Task.outcome w) (Clean kind) (Task.start q d) os := by
  have ended : (Task.start q d).prog.result.isSome := by
    show q.result.isSome
    rw [raised]
    rfl
  rw [Task.run_done w ended, and_iff_left (meets_clean_done ended os)]
  exact here

/-- Whatever the outcomes, a balanced method that has ended has left something open
exactly if one of its outcomes was not clean. -/
theorem closed_iff_clean (opens : Opens kind w held) {p : Prog S Op R E A} {d : D}
    (balanced : Balanced kind (held d) p) (os : List (Outcome E R))
    (ended : (run (Task.outcome w) (Task.start p d) os).prog.result.isSome) :
    held (run (Task.outcome w) (Task.start p d) os).world = false ↔
      Meets (Task.outcome w) (Clean kind) (Task.start p d) os := by
  induction os generalizing p d with
  | nil =>
    cases p with
    | done r s => exact iff_of_true balanced trivial
    | wait op s k => cases ended
  | cons o os ih =>
    cases p with
    | done r s =>
      rw [Task.run_done w rfl]
      exact iff_of_true balanced (meets_clean_done rfl _)
    | wait op s k =>
      have landed := opens.landed op d
      have heard := opens.heard op (w.land op d)
      cases sort : kind op with
      | none =>
        simp only [Balanced, sort] at balanced
        rw [sort, Option.getD_none] at landed
        rw [run_cons, Meets, and_iff_right (by cases o <;> simp [Clean, Task.start, sort])]
        rw [run_cons] at ended
        cases o with
        | acked v =>
          rw [Task.start_acked] at ended ⊢
          exact ih (by rw [heard, landed]; exact balanced _) ended
        | lost e =>
          rw [Task.start_lost] at ended ⊢
          exact ih (by rw [landed]; exact balanced _) ended
        | missed e =>
          rw [Task.start_missed] at ended ⊢
          exact ih (balanced _) ended
      | some opening =>
        simp only [Balanced, sort] at balanced
        obtain ⟨before, raises, answered⟩ := balanced
        rw [sort, Option.getD_some] at landed
        rw [run_cons, Meets]
        rw [run_cons] at ended
        cases o with
        | acked v =>
          rw [Task.start_acked] at ended ⊢
          rw [and_iff_right (show Clean kind (Task.start (.wait op s k) d) (.acked v) from trivial)]
          exact ih (by rw [heard, landed]; exact answered v) ended
        | lost e =>
          refine raised_iff (raises e) os ?_
          show held (w.land op d) = false ↔ kind op ≠ some true
          simp [landed, sort]
        | missed e =>
          refine raised_iff (raises e) os ?_
          show held d = false ↔ kind op ≠ some false
          simp [before, sort]

end bracket
end Await

import Mathlib.Algebra.BigOperators.Group.List.Basic
import Mathlib.Algebra.Order.Field.Basic
import Mathlib.Tactic.Linarith
import RkmoonKvm.Library.Log

/-! Pacing over an ordered field: each entry keeps the line busy for as long as it costs,
and what is granted before the line is free is owed by the next one. -/
namespace Pacer

variable {K A : Type} [Field K]

def total (cost : A → K) (log : List A) : K := (log.map cost).sum

@[simp] theorem total_nil (cost : A → K) : total cost [] = 0 := rfl

@[simp] theorem total_cons (cost : A → K) (a : A) (log : List A) :
    total cost (a :: log) = cost a + total cost log := List.sum_cons

@[simp] theorem total_append (cost : A → K) (log more : List A) :
    total cost (log ++ more) = total cost log + total cost more := by
  rw [total, List.map_append, List.sum_append, total, total]

theorem total_const (c : K) (log : List A) : total (fun _ => c) log = log.length * c := by
  induction log with
  | nil => simp
  | cons a log ih =>
    rw [total_cons, ih, List.length_cons, Nat.cast_add, Nat.cast_one, add_mul, one_mul, add_comm]

variable [LinearOrder K]

/-- The line is free once everything since any entry is paid for, and any two entries are as
far apart as what came between them costs, up to the error. -/
structure Paced (time cost : A → K) (error : K) (log : List A) (free : K) : Prop where
  owed : ∀ before a after, log = before ++ a :: after → time a + total cost (a :: after) ≤ free
  apart : ∀ before a mid b after, log = before ++ a :: (mid ++ b :: after) →
    total cost (a :: mid) - error ≤ time b - time a

variable {time cost : A → K} {error free : K} {log : List A} {x : A}

theorem paced_nil (free : K) : Paced time cost error [] free where
  owed before a after same := absurd same.symm (by simp)
  apart before a mid b after same := absurd same.symm (by simp)

/-- Entries that all cost the same, where a late one may be followed at once: any two are as far apart
as the ones between them cost. -/
theorem Paced.metronome {c : K} {before mid after : List A} {a b : A}
    (paced : Paced time (fun _ => c) c log free) (same : log = before ++ a :: (mid ++ b :: after)) :
    mid.length * c ≤ time b - time a := by
  have apart := paced.apart before a mid b after same
  rwa [total_cons, total_const, add_sub_cancel_left] at apart

variable [IsStrictOrderedRing K]

/-- An entry no earlier than the line is free, up to the error. -/
theorem Paced.grant (paced : Paced time cost error log free) (soon : free - error ≤ time x) :
    Paced time cost error (log ++ [x]) (max (time x) free + cost x) := by
  have later : time x ≤ max (time x) free := le_max_left _ _
  have kept : free ≤ max (time x) free := le_max_right _ _
  constructor
  · intro before a after same
    rcases Log.concat_split same with ⟨_, rfl, rfl⟩ | ⟨after', front, rfl⟩
    · simpa only [total_cons, total_nil, add_zero, add_le_add_iff_right] using later
    · have owed := paced.owed before a after' front
      simp only [total_cons, total_append, total_nil] at owed ⊢
      linarith
  · intro before a mid b after same
    have shape : log ++ [x] = (before ++ a :: mid) ++ b :: after := by simpa using same
    rcases Log.concat_split shape with ⟨front, rfl, _⟩ | ⟨after', front, _⟩
    · have owed := paced.owed before a mid front
      linarith
    · exact paced.apart before a mid b after' (by simpa using front)

end Pacer

import Mathlib.Data.List.Basic

/-! Runs of a total step function, for lists of labels of every length.
A label that does not fit a state leaves it as it is, so no run gets stuck; a
property of every run is a property of every list of labels. -/
namespace Runs

variable {S L : Type}

def run (step : S → L → S) (s : S) (ls : List L) : S := ls.foldl step s

@[simp] theorem run_nil (step : S → L → S) (s : S) : run step s [] = s := rfl

@[simp] theorem run_cons (step : S → L → S) (s : S) (l : L) (ls : List L) :
    run step s (l :: ls) = run step (step s l) ls := rfl

theorem run_concat (step : S → L → S) (s : S) (ls : List L) (l : L) :
    run step s (ls ++ [l]) = step (run step s ls) l := List.foldl_append

theorem run_append (step : S → L → S) (s : S) (ls ls' : List L) :
    run step s (ls ++ ls') = run step (run step s ls) ls' := List.foldl_append

/-- Every step of the run meets a condition on the state before it and its label. -/
def Meets (step : S → L → S) (cond : S → L → Prop) : S → List L → Prop
  | _, [] => True
  | s, l :: ls => cond s l ∧ Meets step cond (step s l) ls

instance decidableMeets (step : S → L → S) (cond : S → L → Prop) [∀ s l, Decidable (cond s l)] :
    ∀ s ls, Decidable (Meets step cond s ls)
  | _, [] => isTrue trivial
  | s, l :: ls => @instDecidableAnd _ _ _ (decidableMeets step cond (step s l) ls)

theorem meets_and {step : S → L → S} {cond cond' : S → L → Prop} {s : S} {ls : List L}
    (h : Meets step cond s ls) (h' : Meets step cond' s ls) :
    Meets step (fun s l => cond s l ∧ cond' s l) s ls := by
  induction ls generalizing s with
  | nil => exact trivial
  | cons l ls ih => exact ⟨⟨h.1, h'.1⟩, ih h.2 h'.2⟩

theorem meets_append {step : S → L → S} {cond : S → L → Prop} {s : S} {ls ls' : List L} :
    Meets step cond s (ls ++ ls') ↔ Meets step cond s ls ∧ Meets step cond (run step s ls) ls' := by
  induction ls generalizing s with
  | nil => exact (true_and _).symm.to_iff
  | cons l ls ih => exact (and_congr Iff.rfl ih).trans and_assoc.symm

theorem meets_of_forall {step : S → L → S} {cond : L → Prop} {ls : List L} (all : ∀ l ∈ ls, cond l)
    (s : S) : Meets step (fun _ => cond) s ls := by
  induction ls generalizing s with
  | nil => exact trivial
  | cons l ls ih =>
    obtain ⟨first, rest⟩ := List.forall_mem_cons.mp all
    exact ⟨first, ih rest (step s l)⟩

theorem run_invariant (step : S → L → S) (I : S → Prop) (keeps : ∀ s l, I s → I (step s l))
    {s : S} (initial : I s) (ls : List L) : I (run step s ls) := by
  induction ls generalizing s with
  | nil => exact initial
  | cons l ls ih => exact ih (keeps s l initial)

theorem meets_invariant (step : S → L → S) (cond : S → L → Prop) (I : S → Prop)
    (keeps : ∀ s l, I s → cond s l → I (step s l)) {s : S} (initial : I s) (ls : List L)
    (meets : Meets step cond s ls) : I (run step s ls) := by
  induction ls generalizing s with
  | nil => exact initial
  | cons l ls ih => exact ih (keeps s l initial meets.1) meets.2

/-- Two conditions that agree wherever the invariant holds are met by the same runs. -/
theorem meets_congr (step : S → L → S) (I : S → Prop) (keeps : ∀ s l, I s → I (step s l))
    {cond cond' : S → L → Prop} (same : ∀ s l, I s → (cond s l ↔ cond' s l)) {s : S}
    (initial : I s) (ls : List L) : Meets step cond s ls ↔ Meets step cond' s ls := by
  induction ls generalizing s with
  | nil => exact Iff.rfl
  | cons l ls ih => exact and_congr (same s l initial) (ih (keeps s l initial))

/-- While a goal is not reached some step brings it nearer, so some run reaches it. -/
theorem run_reaches (step : S → L → S) (I goal : S → Prop) (fair : L → Prop) (left : S → Nat)
    (nearer : ∀ s, I s → ¬ goal s → ∃ l, fair l ∧ I (step s l) ∧ left (step s l) < left s) {s : S}
    (initial : I s) : ∃ ls, (∀ l ∈ ls, fair l) ∧ I (run step s ls) ∧ goal (run step s ls) := by
  by_cases reached : goal s
  · exact ⟨[], fun l member => absurd member List.not_mem_nil, initial, reached⟩
  · obtain ⟨l, good, kept, less⟩ := nearer s initial reached
    obtain ⟨ls, rest, invariant, ended⟩ := run_reaches step I goal fair left nearer kept
    exact ⟨l :: ls, List.forall_mem_cons.mpr ⟨good, rest⟩, invariant, ended⟩
termination_by left s

/-- The simulation rule: where every step is answered by some steps that keep the relation, so is
every run. -/
theorem run_simulates {S' L' : Type} (step : S → L → S) (step' : S' → L' → S') (R : S → S' → Prop)
    (simulates : ∀ s s' l, R s s' → ∃ ls', R (step s l) (run step' s' ls')) {s : S} {s' : S'}
    (related : R s s') (ls : List L) : ∃ ls', R (run step s ls) (run step' s' ls') := by
  induction ls generalizing s s' with
  | nil => exact ⟨[], related⟩
  | cons l ls ih =>
    obtain ⟨first, related⟩ := simulates s s' l related
    obtain ⟨rest, ended⟩ := ih related
    exact ⟨first ++ rest, run_append step' s' first rest ▸ ended⟩

section rounds

/-- Weak fairness: a helpful step brings the goal nearer, and stays helpful until something does. -/
structure Helps (step : S → L → S) (I goal : S → Prop) (helpful : S → L → Prop) (left : S → Nat) : Prop where
  keeps : ∀ s l, I s → I (step s l)
  stays : ∀ s l, I s → goal s → goal (step s l)
  finished : ∀ s, I s → left s = 0 → goal s
  waits : ∀ s l, I s → ¬ goal s → goal (step s l) ∨ left (step s l) < left s ∨
    left (step s l) = left s ∧ ¬ helpful s l ∧ ∀ l', helpful s l' → helpful (step s l) l'

variable {step : S → L → S} {I goal : S → Prop} {helpful : S → L → Prop} {left : S → Nat}
  (helps : Helps step I goal helpful left)
include helps

theorem goal_stays {s : S} (initial : I s) (reached : goal s) (ls : List L) : goal (run step s ls) :=
  (run_invariant step (fun s => I s ∧ goal s)
    (fun s l both => ⟨helps.keeps s l both.1, helps.stays s l both.1 both.2⟩) ⟨initial, reached⟩ ls).2

theorem never_farther {s : S} (initial : I s) (ls : List L) :
    goal (run step s ls) ∨ left (run step s ls) ≤ left s := by
  induction ls generalizing s with
  | nil => exact .inr (Nat.le_refl _)
  | cons l ls ih =>
    by_cases reached : goal s
    · exact .inl (goal_stays helps initial reached (l :: ls))
    · have kept := helps.keeps s l initial
      rcases helps.waits s l initial reached with finished | nearer | ⟨same, _⟩
      · exact .inl (goal_stays helps kept finished ls)
      · exact (ih kept).imp_right fun further => Nat.le_trans further (Nat.le_of_lt nearer)
      · exact (ih kept).imp_right fun further => Nat.le_trans further (Nat.le_of_eq same)

theorem round_nearer {s : S} (initial : I s) (round : List L) (fair : ∃ l ∈ round, helpful s l) :
    goal (run step s round) ∨ left (run step s round) < left s := by
  induction round generalizing s with
  | nil => exact absurd fair (by simp)
  | cons l round ih =>
    by_cases reached : goal s
    · exact .inl (goal_stays helps initial reached (l :: round))
    · have kept := helps.keeps s l initial
      rcases helps.waits s l initial reached with finished | nearer | ⟨same, idle, keeps⟩
      · exact .inl (goal_stays helps kept finished round)
      · exact (never_farther helps kept round).imp_right fun further => Nat.lt_of_le_of_lt further nearer
      · obtain ⟨l', member, help⟩ := fair
        have later : l' ∈ round := (List.mem_cons.mp member).resolve_left fun first => idle (first ▸ help)
        exact same ▸ ih kept ⟨l', later, keeps l' help⟩

/-- Whatever else the rounds hold, a helpful step in each reaches the goal. -/
theorem rounds_reach {s : S} (initial : I s) (rounds : List (List L))
    (fair : ∀ round ∈ rounds, ∀ s, I s → ¬ goal s → ∃ l ∈ round, helpful s l)
    (enough : left s ≤ rounds.length) : goal (run step s rounds.flatten) := by
  induction rounds generalizing s with
  | nil => exact helps.finished s initial (Nat.le_zero.mp enough)
  | cons round rounds ih =>
    obtain ⟨first, rest⟩ := List.forall_mem_cons.mp fair
    rw [List.flatten_cons, run_append]
    have kept : I (run step s round) := run_invariant step I helps.keeps initial round
    by_cases reached : goal s
    · exact goal_stays helps kept (goal_stays helps initial reached round) _
    · rcases round_nearer helps initial round (first s initial reached) with finished | nearer
      · exact goal_stays helps kept finished _
      · exact ih kept rest (by rw [List.length_cons] at enough; omega)

end rounds

section part
variable {S' L' : Type} {step : S → L → S} {step' : S' → L' → S'} {part : S → S'} {own : L → Option L'}

theorem run_part (moves : ∀ s l, part (step s l) = (own l).elim (part s) (step' (part s)))
    (s : S) (ls : List L) : part (run step s ls) = run step' (part s) (ls.filterMap own) := by
  induction ls generalizing s with
  | nil => rfl
  | cons l ls ih =>
    have moved := moves s l
    rw [run_cons, ih]
    cases mine : own l with
    | none => rw [List.filterMap_cons_none mine, moved, mine, Option.elim_none]
    | some m => rw [List.filterMap_cons_some mine, moved, mine, Option.elim_some, run_cons]

theorem meets_part (moves : ∀ s l, part (step s l) = (own l).elim (part s) (step' (part s)))
    (cond : S' → L' → Prop) (s : S) (ls : List L) :
    Meets step (fun s l => ∀ m ∈ own l, cond (part s) m) s ls ↔
      Meets step' cond (part s) (ls.filterMap own) := by
  induction ls generalizing s with
  | nil => exact Iff.rfl
  | cons l ls ih =>
    have moved := moves s l
    rw [Meets, ih]
    cases mine : own l with
    | none => simp [List.filterMap_cons_none mine, moved, mine]
    | some m => simp [List.filterMap_cons_some mine, moved, mine, Meets]

end part

end Runs

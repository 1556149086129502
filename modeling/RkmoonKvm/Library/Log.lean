import Mathlib.Data.List.Basic

/-! Logs of what happened, oldest first: what is still waiting for the next entry of a
kind, and what that entry must be for everything that waited for it. -/
namespace Log

variable {E : Type}

/-- The entry is in the log, and no closing entry has come after it. -/
def Waits (closes : E → Prop) (a : E) (log : List E) : Prop :=
  ∃ before after, log = before ++ a :: after ∧ ∀ e ∈ after, ¬ closes e

/-- Every entry and the first closing entry after it are related. -/
def Followed (closes : E → Prop) (R : E → E → Prop) (log : List E) : Prop :=
  ∀ before mid after a b, log = before ++ a :: (mid ++ b :: after) → closes b →
    (∀ e ∈ mid, ¬ closes e) → R a b

def Each (P : List E → E → Prop) (log : List E) : Prop :=
  ∀ before e after, log = before ++ e :: after → P before e

variable {closes : E → Prop} {R : E → E → Prop} {P : List E → E → Prop}

theorem waits_nil (a : E) : ¬ Waits closes a [] := by
  rintro ⟨before, after, same, _⟩
  exact absurd same.symm (by simp)

theorem followed_nil : Followed closes R [] := by
  intro before mid after a b same
  exact absurd same.symm (by simp)

theorem concat_split {log before after : List E} {a e : E} (same : log ++ [e] = before ++ a :: after) :
    (log = before ∧ a = e ∧ after = []) ∨
      ∃ after', log = before ++ a :: after' ∧ after = after' ++ [e] := by
  rcases List.eq_nil_or_concat after with rfl | ⟨after', last, rfl⟩
  · obtain ⟨front, one⟩ := List.append_inj' same rfl
    exact .inl ⟨front, (List.cons.inj one).1.symm, rfl⟩
  · have shape : log ++ [e] = (before ++ a :: after') ++ [last] := by simpa using same
    obtain ⟨front, one⟩ := List.append_inj' shape rfl
    exact .inr ⟨after', front, by rw [List.concat_eq_append, (List.cons.inj one).1]⟩

theorem each_nil : Each P [] := by
  intro before e after same
  exact absurd same.symm (by simp)

theorem each_concat (e : E) (log : List E) : Each P (log ++ [e]) ↔ Each P log ∧ P log e := by
  constructor
  · intro each
    refine ⟨fun before x after same => ?_, each log e [] rfl⟩
    exact each before x (after ++ [e]) (by rw [same]; simp)
  · rintro ⟨old, new⟩ before x after same
    rcases concat_split same with ⟨rfl, rfl, _⟩ | ⟨after', front, _⟩
    · exact new
    · exact old before x after' front

theorem each_earlier {log more : List E} (each : Each P (log ++ more)) : Each P log := by
  intro before e after same
  exact each before e (after ++ more) (by rw [same]; simp)

theorem each_iff_getElem {log : List E} :
    Each P log ↔ ∀ (k : Nat) (h : k < log.length), P (log.take k) (log.get ⟨k, h⟩) := by
  constructor
  · intro each k h
    exact each _ _ (log.drop (k + 1)) (by simp)
  · rintro places before e after rfl
    have place := places before.length (by simp)
    simpa using place

instance [∀ before e, Decidable (P before e)] (log : List E) : Decidable (Each P log) :=
  decidable_of_iff (∀ (k : Nat) (h : k < log.length), P (log.take k) (log.get ⟨k, h⟩)) each_iff_getElem.symm

theorem waits_concat (a e : E) (log : List E) :
    Waits closes a (log ++ [e]) ↔ a = e ∨ ¬ closes e ∧ Waits closes a log := by
  constructor
  · rintro ⟨before, after, same, quiet⟩
    rcases concat_split same with ⟨_, last, _⟩ | ⟨after', front, rfl⟩
    · exact .inl last
    · exact .inr ⟨quiet e (by simp), before, after', front, fun x member => quiet x (by simp [member])⟩
  · rintro (rfl | ⟨quiet, before, after, rfl, before_quiet⟩)
    · exact ⟨log, [], rfl, nofun⟩
    · refine ⟨before, after ++ [e], by simp, fun x member => ?_⟩
      rcases List.mem_append.mp member with old | new
      · exact before_quiet x old
      · exact List.mem_singleton.mp new ▸ quiet

theorem waits_before {a e : E} {log : List E} (waits : Waits closes a (log ++ [e])) (other : a ≠ e) :
    ¬ closes e ∧ Waits closes a log := ((waits_concat a e log).mp waits).resolve_left other

theorem followed_concat (e : E) (log : List E) :
    Followed closes R (log ++ [e]) ↔
      Followed closes R log ∧ (closes e → ∀ a, Waits closes a log → R a e) := by
  constructor
  · intro followed
    refine ⟨fun before mid after a b same => ?_, fun closing a waits => ?_⟩
    · exact followed before mid (after ++ [e]) a b (by rw [same]; simp)
    · obtain ⟨before, mid, rfl, quiet⟩ := waits
      exact followed before mid [] a e (by simp) closing quiet
  · rintro ⟨old, new⟩ before mid after a b same closing quiet
    have shape : log ++ [e] = (before ++ a :: mid) ++ b :: after := by simpa using same
    rcases concat_split shape with ⟨front, last, _⟩ | ⟨after', front, _⟩
    · rw [last] at closing ⊢
      exact new closing a ⟨before, mid, front, quiet⟩
    · exact old before mid after' a b (by simpa using front) closing quiet

theorem followed_open {e : E} {log : List E} (followed : Followed closes R log) (neutral : ¬ closes e) :
    Followed closes R (log ++ [e]) :=
  (followed_concat e log).mpr ⟨followed, fun closing => absurd closing neutral⟩

end Log

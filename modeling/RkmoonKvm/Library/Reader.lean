import Mathlib.Logic.Basic

/-! Readers of text: checks made one after the other, and decimal numerals. -/
namespace Reader

variable {E A B : Type}

theorem bind_ok {x : Except E A} {f : A → Except E B} {b : B} (h : x >>= f = .ok b) :
    ∃ a, x = .ok a ∧ f a = .ok b := by
  cases x with
  | ok a => exact ⟨a, rfl, h⟩
  | error e => cases h

theorem ok_bind (a : A) (f : A → Except E B) : Except.ok a >>= f = f a := rfl

theorem bind_ok_iff {x : Except E A} {f : A → Except E B} {b : B} :
    x >>= f = .ok b ↔ ∃ a, x = .ok a ∧ f a = .ok b := by
  constructor
  · exact bind_ok
  · rintro ⟨a, rfl, rest⟩
    exact rest

theorem check_ok {c : Prop} [Decidable c] {e : E} {x : Except E A} {a : A} :
    (if c then throw e else x) = .ok a ↔ ¬ c ∧ x = .ok a := by
  by_cases h : c
  · rw [if_pos h]
    constructor
    · intro refused
      cases refused
    · rintro ⟨passed, _⟩
      exact absurd h passed
  · rw [if_neg h]
    exact ⟨fun passed => ⟨h, passed⟩, And.right⟩

def digits? (cs : List Char) : Option Nat :=
  if cs ≠ [] ∧ cs.all Char.isDigit then some (Nat.ofDigitChars 10 cs 0) else none

theorem digits_toString (n : Nat) : digits? (toString n).toList = some n := by
  have chars : (toString n).toList = Nat.toDigits 10 n := Nat.toList_repr
  have digit : ∀ c ∈ Nat.toDigits 10 n, c.isDigit := fun c member =>
    Nat.isDigit_of_mem_toDigits (by decide) (by decide) member
  have all : (Nat.toDigits 10 n).all Char.isDigit = true := List.all_eq_true.mpr digit
  rw [chars, digits?, if_pos ⟨Nat.toDigits_ne_nil, all⟩, Nat.ofDigitChars_ten_toDigits]

theorem digit_of_toString {n : Nat} {c : Char} (member : c ∈ (toString n).toList) : c.isDigit := by
  have chars : (toString n).toList = Nat.toDigits 10 n := Nat.toList_repr
  rw [chars] at member
  exact Nat.isDigit_of_mem_toDigits (by decide) (by decide) member

end Reader

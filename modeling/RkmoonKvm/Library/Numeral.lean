import Mathlib.Data.List.DropRight

/-! Integers as Python's `int` reads them from ASCII text: blanks around, a sign, the marker
of the base, and single underscores between the digits. -/
namespace Numeral

def space (c : Char) : Bool := c = ' ' || ('\t' ≤ c && c ≤ '\x0d')

def strip (t : List Char) : List Char := (t.dropWhile space).rdropWhile space

def digitValue (c : Char) : Option Nat :=
  if c.isDigit then some (c.toNat - 48)
  else if 'a' ≤ c ∧ c ≤ 'z' then some (c.toNat - 87)
  else if 'A' ≤ c ∧ c ≤ 'Z' then some (c.toNat - 55)
  else none

def digit (base : Nat) (c : Char) : Option Nat := (digitValue c).filter (· < base)

def digits (base : Nat) (n : Nat) : List Char → Option Nat
  | [] => some n
  | c :: t =>
    if c = '_' then
      match t with
      | [] => none
      | d :: t => (digit base d).bind fun k => digits base (n * base + k) t
    else (digit base c).bind fun k => digits base (n * base + k) t

def marker (base : Nat) : List Char :=
  if base = 16 then ['x', 'X'] else if base = 8 then ['o', 'O']
  else if base = 2 then ['b', 'B'] else []

/-- The text behind the marker; an underscore may follow it. -/
def unmarked (base : Nat) : List Char → List Char
  | z :: m :: t =>
    if z = '0' ∧ m ∈ marker base then (if t.head? = some '_' then t.tail else t) else z :: m :: t
  | t => t

/-- Digits that are not of a power of two are no more than these. -/
def maxDigits : Nat := 4300

def binary (base : Nat) : Bool := base ∈ [2, 4, 8, 16, 32]

def natural (base : Nat) (t : List Char) : Option Nat :=
  match unmarked base t with
  | [] => none
  | c :: t =>
    if binary base || (c :: t).countP (· ≠ '_') ≤ maxDigits then
      (digit base c).bind fun k => digits base k t
    else none

/-- `int(t, base)`; `none` where it raises `ValueError`. -/
def int (base : Nat) (t : List Char) : Option Int :=
  match strip t with
  | [] => none
  | c :: t =>
    if c = '-' then (natural base t).map fun n => -(n : Int)
    else if c = '+' then (natural base t).map Int.ofNat
    else (natural base (c :: t)).map Int.ofNat

/-! A numeral of digits alone. -/

def Plain (base : Nat) (t : List Char) : Prop := ∀ c ∈ t, (digit base c).isSome

instance (base : Nat) (t : List Char) : Decidable (Plain base t) :=
  List.decidableBAll _ t

def value (base : Nat) (t : List Char) : Nat :=
  t.foldl (fun n c => n * base + (digit base c).getD 0) 0

section
variable {base : Nat} {c : Char} {t : List Char}

theorem digitValue_bound (is : (digitValue c).isSome) : 48 ≤ c.toNat := by
  unfold digitValue at is
  split at is
  next digit => exact (Char.isDigit_iff_toNat.mp digit).1
  next =>
    split at is
    next lower => exact Nat.le_trans (by decide) (show 97 ≤ c.toNat from lower.1)
    next =>
      split at is
      next upper => exact Nat.le_trans (by decide) (show 65 ≤ c.toNat from upper.1)
      next => cases is

theorem Plain.known (plain : Plain base t) (member : c ∈ t) : (digitValue c).isSome := by
  have known := plain c member
  unfold digit at known
  cases value : digitValue c with
  | none =>
    rw [value] at known
    cases known
  | some k => rfl

theorem Plain.ne {d : Char} (plain : Plain base t) (other : digitValue d = none) (member : c ∈ t) :
    c ≠ d := by
  rintro rfl
  have known := plain.known member
  rw [other] at known
  cases known

theorem Plain.unspaced (plain : Plain base t) : ∀ c ∈ t, space c = false := by
  intro c member
  have high := digitValue_bound (plain.known member)
  refine Bool.eq_false_iff.mpr fun blank => ?_
  rcases (by simpa [space] using blank : c = ' ' ∨ '\t' ≤ c ∧ c ≤ '\x0d') with rfl | ⟨_, low⟩
  · exact absurd high (by decide)
  · have low : c.toNat ≤ 13 := low
    omega

theorem dropWhile_unspaced {t : List Char} (unspaced : ∀ c ∈ t, space c = false) :
    t.dropWhile space = t := by
  cases t with
  | nil => rfl
  | cons c t => exact List.dropWhile_cons_of_neg (by simp [unspaced c List.mem_cons_self])

theorem strip_behind {t blanks : List Char} (unspaced : ∀ c ∈ t, space c = false)
    (blank : ∀ c ∈ blanks, space c) : strip (t ++ blanks) = t := by
  have behind : (t ++ blanks).rdropWhile space = t := by
    rw [List.rdropWhile, List.reverse_append,
      List.dropWhile_append_of_pos fun c member => blank c (List.mem_reverse.mp member),
      dropWhile_unspaced fun c member => unspaced c (List.mem_reverse.mp member),
      List.reverse_reverse]
  cases t with
  | nil =>
    have front : blanks.dropWhile space = [] := List.dropWhile_eq_nil_iff.mpr blank
    rw [strip, List.nil_append, front]
    rfl
  | cons c t =>
    have front : (c :: t ++ blanks).dropWhile space = c :: t ++ blanks :=
      List.dropWhile_cons_of_neg (by simp [unspaced c List.mem_cons_self])
    rw [strip, front, behind]

theorem strip_unspaced (unspaced : ∀ c ∈ t, space c = false) : strip t = t := by
  have alone := @strip_behind t [] unspaced (fun _ member => by cases member)
  rwa [List.append_nil] at alone

theorem marker_not_digit (base : Nat) (marks : c ∈ marker base) : digit base c = none := by
  unfold marker at marks
  split at marks
  next sixteen =>
    subst sixteen
    rcases List.mem_pair.mp marks with rfl | rfl
    · rfl
    · rfl
  next =>
    split at marks
    next eight =>
      subst eight
      rcases List.mem_pair.mp marks with rfl | rfl
      · rfl
      · rfl
    next =>
      split at marks
      next two =>
        subst two
        rcases List.mem_pair.mp marks with rfl | rfl
        · rfl
        · rfl
      next => cases marks

theorem unmarked_plain (plain : Plain base t) : unmarked base t = t := by
  match t with
  | [] => rfl
  | [_] => rfl
  | z :: m :: t =>
    refine if_neg fun ⟨_, marks⟩ => ?_
    have known := plain m (by simp)
    rw [marker_not_digit base marks] at known
    cases known

theorem digits_plain (plain : Plain base t) (n : Nat) : digits base n t =
    some (t.foldl (fun n c => n * base + (digit base c).getD 0) n) := by
  induction t generalizing n with
  | nil => rfl
  | cons c t ih =>
    obtain ⟨k, value⟩ := Option.isSome_iff_exists.mp (plain c List.mem_cons_self)
    have digit : c ≠ '_' := plain.ne (by decide) List.mem_cons_self
    rw [digits.eq_def]
    dsimp only
    rw [if_neg digit, value, Option.bind_some,
      ih fun d member => plain d (List.mem_cons_of_mem c member)]
    simp [value]

theorem int_plain (plain : Plain base t) (some_digit : t ≠ [])
    (short : binary base ∨ t.length ≤ maxDigits) : int base t = some (value base t) := by
  match t with
  | [] => exact absurd rfl some_digit
  | c :: t =>
    have unsigned : c ≠ '-' ∧ c ≠ '+' :=
      ⟨plain.ne (by decide) List.mem_cons_self, plain.ne (by decide) List.mem_cons_self⟩
    obtain ⟨k, first⟩ := Option.isSome_iff_exists.mp (plain c List.mem_cons_self)
    have few : binary base || decide ((c :: t).countP (· ≠ '_') ≤ maxDigits) := by
      rcases short with binary | short
      · simp [binary]
      · simp only [Bool.or_eq_true, decide_eq_true_eq]
        exact Or.inr (Nat.le_trans List.countP_le_length short)
    have read : natural base (c :: t) = some (value base (c :: t)) := by
      rw [natural, unmarked_plain plain]
      dsimp only
      rw [if_pos few, first, Option.bind_some,
        digits_plain fun d member => plain d (List.mem_cons_of_mem c member)]
      simp [value, first]
    rw [int, strip_unspaced plain.unspaced]
    dsimp only
    rw [if_neg unsigned.1, if_neg unsigned.2, read]
    rfl

end

example : int 16 ("-0X_1f ".toList) = some (-31) ∧ int 16 ("1__f".toList) = none ∧
    int 10 ("0x1f".toList) = none := by decide

end Numeral

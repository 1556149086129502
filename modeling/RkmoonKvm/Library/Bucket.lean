import Mathlib.Algebra.Order.Field.Basic
import Mathlib.Tactic.Linarith
import Mathlib.Tactic.Ring

/-! Token buckets over an ordered field: what can be spent in a window of time. -/

structure Bucket (K : Type) where
  tokens : K
  last : K

namespace Bucket

theorem countP_later {K : Type} [LinearOrder K] {spent : List K} {last a : K}
    (past : ∀ t ∈ spent, t ≤ last) (later : last < a) : spent.countP (a ≤ ·) = 0 :=
  List.countP_eq_zero.mpr fun t member => by
    simpa using lt_of_le_of_lt (past t member) later

variable {K : Type} [Field K] [LinearOrder K] [IsStrictOrderedRing K]
variable {capacity rate : K}

def refill (capacity rate now : K) (b : Bucket K) : Bucket K where
  tokens := min capacity (b.tokens + rate * (now - b.last))
  last := now

def spend (b : Bucket K) : Bucket K := { b with tokens := b.tokens - 1 }

/-- The tokens are in their range, and with what was spent they are bounded on every window
of time, given when each token was spent. -/
structure Bounded (capacity rate : K) (spent : List K) (b : Bucket K) : Prop where
  nonneg : 0 ≤ b.tokens
  full : b.tokens ≤ capacity
  past : ∀ t ∈ spent, t ≤ b.last
  since : ∀ a ≤ b.last, spent.countP (a ≤ ·) + b.tokens ≤ capacity + rate * (b.last - a)
  within : ∀ a z, a ≤ z → spent.countP (fun t => a ≤ t ∧ t ≤ z) ≤ capacity + rate * (z - a)

theorem bounded_full (full : 0 ≤ capacity) (growing : 0 ≤ rate) (now : K) :
    Bounded capacity rate [] ⟨capacity, now⟩ where
  nonneg := full
  full := le_refl _
  past := nofun
  since := fun a before => by
    have grown : 0 ≤ rate * (now - a) := mul_nonneg growing (sub_nonneg.mpr before)
    simpa using grown
  within := fun a z before => by
    have grown : 0 ≤ rate * (z - a) := mul_nonneg growing (sub_nonneg.mpr before)
    simpa using add_nonneg full grown

theorem bounded_refill (growing : 0 ≤ rate) {spent : List K} {b : Bucket K}
    (h : Bounded capacity rate spent b) {now : K} (forward : b.last ≤ now) :
    Bounded capacity rate spent (b.refill capacity rate now) := by
  have grown : 0 ≤ rate * (now - b.last) := mul_nonneg growing (sub_nonneg.mpr forward)
  refine ⟨?_, min_le_left _ _, fun t member => le_trans (h.past t member) forward, ?_, h.within⟩
  · exact le_min (le_trans h.nonneg h.full) (add_nonneg h.nonneg grown)
  · intro a before
    rcases le_or_gt a b.last with old | new
    · have bound := h.since a old
      have added : b.tokens + rate * (now - b.last) ≥ (b.refill capacity rate now).tokens := min_le_right _ _
      have parts : rate * (now - a) = rate * (now - b.last) + rate * (b.last - a) := by ring
      show (_ : K) ≤ capacity + rate * (now - a)
      linarith
    · have most : (b.refill capacity rate now).tokens ≤ capacity := min_le_left _ _
      have none := countP_later h.past new
      have waited : 0 ≤ rate * (now - a) := mul_nonneg growing (sub_nonneg.mpr before)
      rw [none]
      show ((0 : ℕ) : K) + _ ≤ capacity + rate * (now - a)
      simp only [Nat.cast_zero, zero_add]
      linarith

theorem bounded_spend (growing : 0 ≤ rate) {spent : List K} {b : Bucket K}
    (h : Bounded capacity rate spent b) (enough : 1 ≤ b.tokens) :
    Bounded capacity rate (spent ++ [b.last]) b.spend := by
  have less : b.spend.tokens = b.tokens - 1 := rfl
  refine ⟨by rw [less]; linarith, by rw [less]; linarith [h.full], ?_, ?_, ?_⟩
  · intro t member
    rcases List.mem_append.mp member with old | new
    · exact h.past t old
    · exact le_of_eq (List.mem_singleton.mp new)
  · intro a before
    have bound := h.since a before
    have counted : (spent ++ [b.last]).countP (a ≤ ·) = spent.countP (a ≤ ·) + 1 := by
      rw [List.countP_append, List.countP_singleton, if_pos (decide_eq_true (show a ≤ b.last from before))]
    rw [counted, less, Nat.cast_add, Nat.cast_one]
    show _ ≤ capacity + rate * (b.last - a)
    linarith
  · intro a z before
    rw [List.countP_append, List.countP_singleton]
    split
    next inside =>
      simp only [decide_eq_true_eq] at inside
      have bound := h.since a inside.1
      have fewer : spent.countP (fun t => a ≤ t ∧ t ≤ z) ≤ spent.countP (a ≤ ·) :=
        List.countP_mono_left fun t _ both => by
          simp only [decide_eq_true_eq] at both ⊢
          exact both.1
      have fewer : ((spent.countP fun t => a ≤ t ∧ t ≤ z : ℕ) : K) ≤ (spent.countP (a ≤ ·) : ℕ) :=
        Nat.cast_le.mpr fewer
      have wider : rate * (b.last - a) ≤ rate * (z - a) :=
        mul_le_mul_of_nonneg_left (sub_le_sub_right inside.2 a) growing
      rw [Nat.cast_add, Nat.cast_one]
      linarith
    next => exact h.within a z before

theorem bounded_waste {spent : List K} {b : Bucket K} (h : Bounded capacity rate spent b)
    (enough : 1 ≤ b.tokens) : Bounded capacity rate spent b.spend := by
  have less : b.spend.tokens = b.tokens - 1 := rfl
  refine ⟨by rw [less]; linarith, by rw [less]; linarith [h.full], h.past, fun a before => ?_, h.within⟩
  have bound := h.since a before
  rw [less]
  show _ ≤ capacity + rate * (b.last - a)
  linarith

/-- Some window that ends with the last use has spent all that it could. -/
def Attained (capacity rate : K) (spent : List K) (b : Bucket K) : Prop :=
  ∃ a ≤ b.last, capacity + rate * (b.last - a) = spent.countP (a ≤ ·) + b.tokens

omit [IsStrictOrderedRing K] in
theorem attained_full (now : K) : Attained capacity rate [] ⟨capacity, now⟩ :=
  ⟨now, le_refl _, by simp⟩

theorem attained_refill (growing : 0 < rate) {spent : List K} {b : Bucket K}
    (h : Bounded capacity rate spent b) (attained : Attained capacity rate spent b) {now : K}
    (forward : b.last ≤ now) : Attained capacity rate spent (b.refill capacity rate now) := by
  obtain ⟨a, before, same⟩ := attained
  have parts : rate * (now - a) = rate * (now - b.last) + rate * (b.last - a) := by ring
  have grown : 0 ≤ rate * (now - b.last) := mul_nonneg growing.le (sub_nonneg.mpr forward)
  rcases le_or_gt capacity (b.tokens + rate * (now - b.last)) with above | under
  · have level : (b.refill capacity rate now).tokens = capacity := min_eq_left above
    rcases forward.eq_or_lt with still | later
    · -- No time has passed, so the bucket was full before.
      refine ⟨a, before.trans forward, ?_⟩
      have full := h.full
      rw [level]
      show capacity + rate * (now - a) = _
      rw [← still, sub_self, mul_zero] at above
      rw [← still, same]
      linarith
    · refine ⟨now, le_refl _, ?_⟩
      rw [level, countP_later h.past later]
      show capacity + rate * (now - now) = _
      simp
  · refine ⟨a, before.trans forward, ?_⟩
    have level : (b.refill capacity rate now).tokens = b.tokens + rate * (now - b.last) := min_eq_right under.le
    rw [level]
    show capacity + rate * (now - a) = _
    linarith

theorem attained_spend {spent : List K} {b : Bucket K} (attained : Attained capacity rate spent b) :
    Attained capacity rate (spent ++ [b.last]) b.spend := by
  obtain ⟨a, before, same⟩ := attained
  have counted : (spent ++ [b.last]).countP (a ≤ ·) = spent.countP (a ≤ ·) + 1 := by
    rw [List.countP_append, List.countP_singleton, if_pos (decide_eq_true (show a ≤ b.last from before))]
  have less : b.spend.tokens = b.tokens - 1 := rfl
  refine ⟨a, before, ?_⟩
  rw [counted, less, Nat.cast_add, Nat.cast_one]
  show capacity + rate * (b.last - a) = _
  linarith

/-- There is a token if and only if no window that ends now has spent too much for one more. -/
theorem enough_iff {spent : List K} {b : Bucket K} (h : Bounded capacity rate spent b)
    (attained : Attained capacity rate spent b) :
    1 ≤ b.tokens ↔ ∀ a ≤ b.last, spent.countP (a ≤ ·) + 1 ≤ capacity + rate * (b.last - a) := by
  constructor
  · intro enough a before
    have bound := h.since a before
    linarith
  · intro windows
    obtain ⟨a, before, same⟩ := attained
    have bound := windows a before
    linarith

end Bucket

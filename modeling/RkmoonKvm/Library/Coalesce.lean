import Mathlib.Algebra.BigOperators.Group.List.Basic
import Mathlib.Data.List.Forall2

/-! Queues that merge adjacent entries. Some entries are edges, which nothing may
cross or merge; two lists match when they have the same edges and related gaps
between them. For a relation of gaps that respects concatenation, matching does too,
and a queue that merges only related neighbours matches what was put into it. -/
namespace Coalesce
open List

variable {A B : Type}

structure Matches (edge : A → Bool) (R : List A → List A → Prop) (xs ys : List A) : Prop where
  edges : xs.filter edge = ys.filter edge
  gaps : Forall₂ R (xs.splitOnP edge) (ys.splitOnP edge)

structure Congruence (R : List A → List A → Prop) : Prop where
  refl : ∀ g, R g g
  trans : ∀ {g h k}, R g h → R h k → R g k
  append : ∀ {g g' h h'}, R g g' → R h h' → R (g ++ h) (g' ++ h')

/-- The gaps of two lists put together: the last of the first and the first of the
second become one. -/
def glue : List (List A) → List (List A) → List (List A)
  | [], hs => hs
  | [g], [] => [g]
  | [g], h :: hs => (g ++ h) :: hs
  | g :: g' :: gs, hs => g :: glue (g' :: gs) hs

theorem glue_cons {g : List A} {gs : List (List A)} (some : gs ≠ []) (hs : List (List A)) :
    glue (g :: gs) hs = g :: glue gs hs := by
  cases gs with
  | nil => exact absurd rfl some
  | cons g' gs => rfl

theorem glue_modifyHead {gs hs : List (List A)} (some : gs ≠ []) (rest : hs ≠ []) (x : A) :
    glue (gs.modifyHead (cons x)) hs = (glue gs hs).modifyHead (cons x) := by
  obtain ⟨g, gs, rfl⟩ := exists_cons_of_ne_nil some
  obtain ⟨h, hs, rfl⟩ := exists_cons_of_ne_nil rest
  cases gs <;> rfl

theorem splitOnP_append (edge : A → Bool) (xs ys : List A) :
    (xs ++ ys).splitOnP edge = glue (xs.splitOnP edge) (ys.splitOnP edge) := by
  have rest := splitOnP_ne_nil edge ys
  induction xs with
  | nil =>
    obtain ⟨h, hs, split⟩ := exists_cons_of_ne_nil rest
    rw [splitOnP_nil, nil_append, split]
    rfl
  | cons x xs ih =>
    have here := splitOnP_ne_nil edge xs
    rw [cons_append, splitOnP_cons_eq_if_modifyHead, splitOnP_cons_eq_if_modifyHead, ih]
    split
    · rw [glue_cons here]
    · rw [glue_modifyHead here rest]

section rules
variable {edge : A → Bool} {R : List A → List A → Prop} (c : Congruence R)
include c

theorem glue_related {gs gs' hs hs' : List (List A)} (first : Forall₂ R gs gs')
    (second : Forall₂ R hs hs') : Forall₂ R (glue gs hs) (glue gs' hs') := by
  induction first with
  | nil => exact second
  | cons here there ih =>
    cases there with
    | nil =>
      cases second with
      | nil => exact .cons here .nil
      | cons h hs => exact .cons (c.append here h) hs
    | cons next rest => exact .cons here ih

theorem matches_refl (xs : List A) : Matches edge R xs xs :=
  ⟨rfl, forall₂_same.mpr fun g _ => c.refl g⟩

theorem gaps_trans {gs hs ks : List (List A)} (first : Forall₂ R gs hs)
    (second : Forall₂ R hs ks) : Forall₂ R gs ks := by
  induction first generalizing ks with
  | nil => exact second
  | cons here _ ih =>
    cases second with
    | cons there rest => exact .cons (c.trans here there) (ih rest)

theorem matches_trans {xs ys zs : List A} (h : Matches edge R xs ys) (h' : Matches edge R ys zs) :
    Matches edge R xs zs :=
  ⟨h.edges.trans h'.edges, gaps_trans c h.gaps h'.gaps⟩

theorem matches_append {xs ys xs' ys' : List A} (h : Matches edge R xs ys)
    (h' : Matches edge R xs' ys') : Matches edge R (xs ++ xs') (ys ++ ys') := by
  constructor
  · rw [filter_append, filter_append, h.edges, h'.edges]
  · rw [splitOnP_append, splitOnP_append]
    exact glue_related c h.gaps h'.gaps

theorem matches_replace (pre post : List A) {old new : List A} (h : Matches edge R new old) :
    Matches edge R (pre ++ new ++ post) (pre ++ old ++ post) :=
  matches_append c (matches_append c (matches_refl c pre) h) (matches_refl c post)

end rules

theorem matches_gap {edge : A → Bool} {R : List A → List A → Prop} {g g' : List A} (h : R g g')
    (clear : ∀ x ∈ g, edge x = false) (clear' : ∀ x ∈ g', edge x = false) :
    Matches edge R g g' := by
  constructor
  · rw [filter_eq_nil_iff.mpr (by simpa using clear), filter_eq_nil_iff.mpr (by simpa using clear')]
  · rw [splitOnP_eq_singleton clear, splitOnP_eq_singleton clear']
    exact .cons h .nil

/-! A bounded queue. -/

/-- The new entry merges with the last one, or is appended while there is room. -/
def push (merge : A → A → Option A) (capacity : Nat) (q : List A) (a : A) : Option (List A) :=
  match q.getLast?.bind (merge · a) with
  | some m => some (q.dropLast ++ [m])
  | none => if q.length < capacity then some (q ++ [a]) else none

theorem push_cases {merge : A → A → Option A} {capacity : Nat} {q q' : List A} {a : A}
    (h : push merge capacity q a = some q') :
    (∃ init last m, q = init ++ [last] ∧ merge last a = some m ∧ q' = init ++ [m]) ∨
      q' = q ++ [a] := by
  unfold push at h
  split at h
  · rename_i m merged
    obtain ⟨last, isLast, fits⟩ := Option.bind_eq_some_iff.mp merged
    obtain ⟨init, rfl⟩ := getLast?_eq_some_iff.mp isLast
    left
    exact ⟨init, last, m, rfl, fits, by simpa using h.symm⟩
  · split at h
    · exact .inr (Option.some.inj h).symm
    · cases h

theorem push_length {merge : A → A → Option A} {capacity : Nat} {q q' : List A} {a : A}
    (h : push merge capacity q a = some q') (fits : q.length ≤ capacity) : q'.length ≤ capacity := by
  unfold push at h
  split at h
  next m merged =>
    obtain ⟨last, isLast, _⟩ := Option.bind_eq_some_iff.mp merged
    obtain ⟨init, rfl⟩ := getLast?_eq_some_iff.mp isLast
    cases h
    simpa using fits
  next =>
    split at h
    next room =>
      cases h
      rw [length_append]
      exact room
    next => cases h

theorem push_forall {merge : A → A → Option A} {P : A → Prop} {capacity : Nat} {q q' : List A} {a : A}
    (merges : ∀ last m, P last → merge last a = some m → P m) (h : push merge capacity q a = some q')
    (new : P a) (all : ∀ x ∈ q, P x) : ∀ x ∈ q', P x := by
  obtain ⟨init, last, m, rfl, fits, rfl⟩ | rfl := push_cases h
  · rw [forall_mem_append] at all ⊢
    refine ⟨all.1, forall_mem_singleton.mpr (merges last m ?_ fits)⟩
    exact all.2 last (mem_singleton.mpr rfl)
  · exact forall_mem_append.mpr ⟨all, forall_mem_singleton.mpr new⟩

theorem push_sum {M : Type} [AddMonoid M] {merge : A → A → Option A} {f : A → M} {capacity : Nat}
    {q q' : List A} {a : A} (merges : ∀ last m, merge last a = some m → f m = f last + f a)
    (h : push merge capacity q a = some q') : (q'.map f).sum = (q.map f).sum + f a := by
  obtain ⟨init, last, m, rfl, fits, rfl⟩ | rfl := push_cases h
  · simp [merges last m fits, add_assoc]
  · simp

theorem push_map {merge : A → A → Option A} {merge' : B → B → Option B} {f : A → B} {a : A}
    (merges : ∀ last, merge' (f last) (f a) = (merge last a).map f) (capacity : Nat) (q : List A) :
    push merge' capacity (q.map f) (f a) = (push merge capacity q a).map (map f) := by
  have same : (q.map f).getLast?.bind (merge' · (f a)) = (q.getLast?.bind (merge · a)).map f := by
    rw [getLast?_map]
    cases q.getLast? with
    | none => rfl
    | some last => exact merges last
  unfold push
  rw [same, length_map]
  cases q.getLast?.bind (merge · a) with
  | some m => simp
  | none =>
    dsimp only [Option.map_none]
    split <;> simp

theorem push_matches {edge : B → Bool} {R : List B → List B → Prop} (c : Congruence R)
    {merge : A → A → Option A} (item : A → B)
    (merges : ∀ a b m, merge a b = some m → Matches edge R [item m] [item a, item b])
    {capacity : Nat} {q q' : List A} {a : A} (h : push merge capacity q a = some q') :
    Matches edge R (q'.map item) (q.map item ++ [item a]) := by
  obtain ⟨init, last, m, rfl, fits, rfl⟩ | rfl := push_cases h
  · have merged := merges last a m fits
    have whole := matches_append c (matches_refl c (init.map item)) merged
    simpa using whole
  · simpa using matches_refl c (q.map item ++ [item a])

end Coalesce

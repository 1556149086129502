import Mathlib.Data.List.Basic

/-! A byte stream that arrives in pieces, and reads that wait for an exact number of
items: what they return depends on the items only, not on how the stream was cut. -/
namespace StreamReader

variable {A : Type}

/-- What has arrived and was not read, and the pieces still to come before the end. -/
structure Source (A : Type) where
  buffered : List A := []
  pieces : List (List A) := []

namespace Source

def bytes (s : Source A) : List A := s.buffered ++ s.pieces.flatten

/-- The next `n` items and the source after them; `none` at an early end. -/
def await (n : Nat) (buffered : List A) : List (List A) → Option (List A × Source A)
  | [] => if n ≤ buffered.length then some (buffered.take n, ⟨buffered.drop n, []⟩) else none
  | piece :: pieces =>
    if n ≤ buffered.length then some (buffered.take n, ⟨buffered.drop n, piece :: pieces⟩)
    else await n (buffered ++ piece) pieces

def readExactly (n : Nat) (s : Source A) : Option (List A × Source A) := await n s.buffered s.pieces

theorem readExactly_here {n : Nat} {s : Source A} (enough : n ≤ s.buffered.length) :
    s.readExactly n = some (s.buffered.take n, ⟨s.buffered.drop n, s.pieces⟩) := by
  obtain ⟨buffered, pieces⟩ := s
  cases pieces with
  | nil => exact if_pos enough
  | cons piece pieces => exact if_pos enough

theorem readExactly_end {n : Nat} {buffered : List A} (short : ¬ n ≤ buffered.length) :
    (⟨buffered, []⟩ : Source A).readExactly n = none := if_neg short

theorem readExactly_wait {n : Nat} {buffered piece : List A} {pieces : List (List A)}
    (short : ¬ n ≤ buffered.length) :
    (⟨buffered, piece :: pieces⟩ : Source A).readExactly n =
      (⟨buffered ++ piece, pieces⟩ : Source A).readExactly n := if_neg short

theorem readExactly_append {s : Source A} {front rest : List A} (stream : s.bytes = front ++ rest) :
    ∃ s' : Source A, s.readExactly front.length = some (front, s') ∧ s'.bytes = rest := by
  obtain ⟨buffered, pieces⟩ := s
  induction pieces generalizing buffered with
  | nil =>
    have stream : buffered = front ++ rest := by simpa [bytes] using stream
    refine ⟨⟨rest, []⟩, ?_, by simp [bytes]⟩
    rw [readExactly_here (by simp [stream]), stream, List.take_left, List.drop_left]
  | cons piece pieces ih =>
    by_cases enough : front.length ≤ buffered.length
    · refine ⟨⟨buffered.drop front.length, piece :: pieces⟩, ?_, ?_⟩
      · have taken : buffered.take front.length = front := by
          have prefixed := congrArg (List.take front.length) stream
          rwa [bytes, List.take_append_of_le_length enough, List.take_left] at prefixed
        rw [readExactly_here enough, taken]
      · have dropped := congrArg (List.drop front.length) stream
        rwa [bytes, List.drop_append_of_le_length enough, List.drop_left] at dropped
    · rw [readExactly_wait enough]
      exact ih (buffered ++ piece) (by simpa [bytes] using stream)

theorem readExactly_short {s : Source A} {n : Nat} (short : s.bytes.length < n) :
    s.readExactly n = none := by
  obtain ⟨buffered, pieces⟩ := s
  induction pieces generalizing buffered with
  | nil =>
    have short : buffered.length < n := by simpa [bytes] using short
    exact readExactly_end (Nat.not_le.mpr short)
  | cons piece pieces ih =>
    have all : buffered.length + (piece :: pieces).flatten.length < n := by
      simpa [bytes] using short
    rw [readExactly_wait (by omega)]
    exact ih (buffered ++ piece) (by simpa [bytes, Nat.add_assoc] using short)

theorem readExactly_split {s s' : Source A} {n : Nat} {front : List A}
    (read : s.readExactly n = some (front, s')) :
    s.bytes = front ++ s'.bytes ∧ front.length = n := by
  by_cases enough : n ≤ s.bytes.length
  · have split : s.bytes = s.bytes.take n ++ s.bytes.drop n := (List.take_append_drop n _).symm
    have length : (s.bytes.take n).length = n := List.length_take_of_le enough
    obtain ⟨s₁, again, rest⟩ := readExactly_append split
    rw [length, read] at again
    cases again
    exact ⟨rest.symm ▸ split, length⟩
  · rw [readExactly_short (Nat.lt_of_not_le enough)] at read
    cases read

/-! Lines. -/

/-- Up to and with the next item that ends a line; what there is at the end of the stream;
`none` where the line is longer than the limit. -/
def awaitLine (ends : A → Bool) (limit : Nat) (buffered : List A) :
    List (List A) → Option (List A × Source A)
  | [] =>
    match buffered.findIdx? ends with
    | some i => if limit < i then none else some (buffered.take (i + 1), ⟨buffered.drop (i + 1), []⟩)
    | none => if limit < buffered.length then none else some (buffered, ⟨[], []⟩)
  | piece :: pieces =>
    match buffered.findIdx? ends with
    | some i =>
      if limit < i then none
      else some (buffered.take (i + 1), ⟨buffered.drop (i + 1), piece :: pieces⟩)
    | none =>
      if limit < buffered.length then none else awaitLine ends limit (buffered ++ piece) pieces

def readLine (ends : A → Bool) (limit : Nat) (s : Source A) : Option (List A × Source A) :=
  awaitLine ends limit s.buffered s.pieces

section
variable {ends : A → Bool} {limit : Nat}

theorem readLine_here {s : Source A} {i : Nat} (found : s.buffered.findIdx? ends = some i)
    (short : i ≤ limit) : s.readLine ends limit =
      some (s.buffered.take (i + 1), ⟨s.buffered.drop (i + 1), s.pieces⟩) := by
  obtain ⟨buffered, pieces⟩ := s
  dsimp only at found
  cases pieces with
  | nil => simp only [readLine, awaitLine, found, if_neg (Nat.not_lt.mpr short)]
  | cons piece pieces => simp only [readLine, awaitLine, found, if_neg (Nat.not_lt.mpr short)]

theorem readLine_wait {buffered piece : List A} {pieces : List (List A)}
    (none : buffered.findIdx? ends = none) (short : buffered.length ≤ limit) :
    (⟨buffered, piece :: pieces⟩ : Source A).readLine ends limit =
      (⟨buffered ++ piece, pieces⟩ : Source A).readLine ends limit := by
  simp only [readLine, awaitLine, none, if_neg (Nat.not_lt.mpr short)]

theorem findIdx_front {front rest : List A} {a : A} (unended : ∀ b ∈ front, ends b = false)
    (last : ends a) : (front ++ a :: rest).findIdx? ends = some front.length := by
  rw [List.findIdx?_append, List.findIdx?_eq_none_iff.mpr unended]
  simp [List.findIdx?_cons, last]

theorem readLine_found {s : Source A} {i : Nat} {front rest : List A} {a : A}
    (stream : s.bytes = front ++ a :: rest) (unended : ∀ b ∈ front, ends b = false) (last : ends a)
    (short : front.length ≤ limit) (found : s.buffered.findIdx? ends = some i) :
    ∃ s' : Source A, s.readLine ends limit = some (front ++ [a], s') ∧ s'.bytes = rest := by
  have first : s.bytes.findIdx? ends = some front.length := by
    rw [stream, findIdx_front unended last]
  rw [bytes, List.findIdx?_append, found] at first
  cases first
  have within : front.length + 1 ≤ s.buffered.length :=
    (List.findIdx?_eq_some_iff_getElem.mp found).1
  have line : front.length + 1 = (front ++ [a]).length := by simp
  have split : s.buffered ++ s.pieces.flatten = front ++ [a] ++ rest := by
    rw [← bytes, stream, List.append_assoc]
    rfl
  have taken := congrArg (List.take (front.length + 1)) split
  have dropped := congrArg (List.drop (front.length + 1)) split
  rw [List.take_append_of_le_length within, line, List.take_left, ← line] at taken
  rw [List.drop_append_of_le_length within, line, List.drop_left, ← line] at dropped
  exact ⟨⟨s.buffered.drop (front.length + 1), s.pieces⟩, by rw [readLine_here found short, taken],
    dropped⟩

theorem readLine_append {s : Source A} {front rest : List A} {a : A}
    (stream : s.bytes = front ++ a :: rest) (unended : ∀ b ∈ front, ends b = false) (last : ends a)
    (short : front.length ≤ limit) :
    ∃ s' : Source A, s.readLine ends limit = some (front ++ [a], s') ∧ s'.bytes = rest := by
  obtain ⟨buffered, pieces⟩ := s
  induction pieces generalizing buffered with
  | nil =>
    have whole : buffered = front ++ a :: rest := by simpa [bytes] using stream
    exact readLine_found stream unended last short (whole ▸ findIdx_front unended last)
  | cons piece pieces ih =>
    cases found : buffered.findIdx? ends with
    | some i => exact readLine_found stream unended last short found
    | none =>
      have first : (⟨buffered, piece :: pieces⟩ : Source A).bytes.findIdx? ends =
          some front.length := by rw [stream, findIdx_front unended last]
      rw [bytes, List.findIdx?_append, found] at first
      obtain ⟨i, _, place⟩ := Option.map_eq_some_iff.mp first
      have within : buffered.length ≤ limit := by
        dsimp only at place
        omega
      rw [readLine_wait found within]
      exact ih (buffered ++ piece) (by simpa [bytes] using stream)

theorem readLine_end {s : Source A} (unended : ∀ b ∈ s.bytes, ends b = false)
    (short : s.bytes.length ≤ limit) :
    ∃ s' : Source A, s.readLine ends limit = some (s.bytes, s') ∧ s'.bytes = [] := by
  obtain ⟨buffered, pieces⟩ := s
  induction pieces generalizing buffered with
  | nil =>
    have all : (⟨buffered, []⟩ : Source A).bytes = buffered := by simp [bytes]
    rw [all] at unended short ⊢
    have none := List.findIdx?_eq_none_iff.mpr unended
    refine ⟨⟨[], []⟩, ?_, rfl⟩
    simp only [readLine, awaitLine, none, if_neg (Nat.not_lt.mpr short)]
  | cons piece pieces ih =>
    have same : (⟨buffered, piece :: pieces⟩ : Source A).bytes =
        (⟨buffered ++ piece, pieces⟩ : Source A).bytes := by simp [bytes]
    have none : buffered.findIdx? ends = none :=
      List.findIdx?_eq_none_iff.mpr fun b member => unended b (List.mem_append_left _ member)
    have within : buffered.length ≤ limit := by
      rw [bytes, List.length_append] at short
      exact Nat.le_trans (Nat.le_add_right _ _) short
    rw [readLine_wait none within, same]
    rw [same] at unended short
    exact ih (buffered ++ piece) unended short

/-- What a read of a line takes off a stream: the line with its end, or the last items
when no end is left. -/
inductive Line (ends : A → Bool) (limit : Nat) : List A → List A → Prop where
  | ended {front rest : List A} {a : A} (unended : ∀ b ∈ front, ends b = false) (last : ends a)
      (short : front.length ≤ limit) : Line ends limit (front ++ [a]) rest
  | final {line : List A} (unended : ∀ b ∈ line, ends b = false) (short : line.length ≤ limit) :
      Line ends limit line []

theorem Line.cases {line rest : List A} (is : Line ends limit line rest) :
    (∃ front a, line = front ++ [a] ∧ (∀ b ∈ front, ends b = false) ∧ ends a ∧
      front.length ≤ limit) ∨
    ((∀ b ∈ line, ends b = false) ∧ line.length ≤ limit ∧ rest = []) := by
  cases is with
  | ended unended last short => exact Or.inl ⟨_, _, rfl, unended, last, short⟩
  | final unended short => exact Or.inr ⟨unended, short, rfl⟩

theorem readLine_line {s : Source A} {line rest : List A} (is : Line ends limit line rest)
    (stream : s.bytes = line ++ rest) :
    ∃ s' : Source A, s.readLine ends limit = some (line, s') ∧ s'.bytes = rest := by
  cases is with
  | ended unended last short =>
    rw [List.append_assoc] at stream
    exact readLine_append stream unended last short
  | final unended short =>
    rw [List.append_nil] at stream
    subst stream
    exact readLine_end unended short

theorem readLine_long {s : Source A} (late : ∀ i ∈ s.bytes.findIdx? ends, limit < i)
    (long : limit < s.bytes.length) : s.readLine ends limit = none := by
  obtain ⟨buffered, pieces⟩ := s
  induction pieces generalizing buffered with
  | nil =>
    have all : (⟨buffered, []⟩ : Source A).bytes = buffered := by simp [bytes]
    rw [all] at late long
    cases found : buffered.findIdx? ends with
    | some i => simp only [readLine, awaitLine, found, if_pos (late i found)]
    | none => simp only [readLine, awaitLine, found, if_pos long]
  | cons piece pieces ih =>
    cases found : buffered.findIdx? ends with
    | some i =>
      have first : (⟨buffered, piece :: pieces⟩ : Source A).bytes.findIdx? ends = some i := by
        rw [bytes, List.findIdx?_append, found, Option.some_or]
      simp only [readLine, awaitLine, found, if_pos (late i first)]
    | none =>
      by_cases full : limit < buffered.length
      · simp only [readLine, awaitLine, found, if_pos full]
      · rw [readLine_wait found (Nat.not_lt.mp full)]
        exact ih (buffered ++ piece) (by simpa [bytes] using late) (by simpa [bytes] using long)

theorem readLine_split {s s' : Source A} {line : List A}
    (read : s.readLine ends limit = some (line, s')) :
    s.bytes = line ++ s'.bytes ∧ Line ends limit line s'.bytes := by
  cases found : s.bytes.findIdx? ends with
  | none =>
    have unended := List.findIdx?_eq_none_iff.mp found
    by_cases long : limit < s.bytes.length
    · have refused : s.readLine ends limit = none := readLine_long (by simp [found]) long
      rw [refused] at read
      cases read
    · have short := Nat.not_lt.mp long
      obtain ⟨s₁, again, rest⟩ := readLine_end unended short
      rw [read] at again
      cases again
      rw [rest, List.append_nil]
      exact ⟨rfl, .final unended short⟩
  | some i =>
    obtain ⟨within, last, before⟩ := List.findIdx?_eq_some_iff_getElem.mp found
    by_cases late : limit < i
    · have refused : s.readLine ends limit = none :=
        readLine_long (by simpa [found] using late) (Nat.lt_trans late within)
      rw [refused] at read
      cases read
    · have length : (s.bytes.take i).length = i := List.length_take_of_le (Nat.le_of_lt within)
      have unended : ∀ b ∈ s.bytes.take i, ends b = false := by
        intro b member
        obtain ⟨j, place, rfl⟩ := List.mem_iff_getElem.mp member
        rw [List.getElem_take]
        exact Bool.eq_false_iff.mpr (before j (length ▸ place))
      have short : (s.bytes.take i).length ≤ limit := length.symm ▸ Nat.not_lt.mp late
      have split : s.bytes = s.bytes.take i ++ s.bytes[i] :: s.bytes.drop (i + 1) := by
        rw [List.getElem_cons_drop, List.take_append_drop]
      obtain ⟨s₁, again, rest⟩ := readLine_append split unended last short
      rw [read] at again
      cases again
      rw [rest, List.append_assoc]
      exact ⟨split, .ended unended last short⟩

end
end Source
end StreamReader

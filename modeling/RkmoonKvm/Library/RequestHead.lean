import Mathlib.Data.List.Basic
import Mathlib.Data.List.DropRight

/-! The head of an HTTP request: a request line and fields, each ended by CRLF, and an empty line behind them.
A head whose parts hold none of its separators is read back, and what follows it is left. -/
namespace RequestHead

structure Head where
  method : List Char
  target : List Char
  fields : List (List Char × List Char)
  deriving DecidableEq

def crlf : List Char := ['\r', '\n']

def version : List Char := "HTTP/1.1".toList

def requestLine (h : Head) : List Char := h.method ++ ' ' :: (h.target ++ ' ' :: version)

def fieldLine (f : List Char × List Char) : List Char := f.1 ++ ": ".toList ++ f.2

def lines (h : Head) : List (List Char) := requestLine h :: h.fields.map fieldLine

def text (h : Head) : List Char := (lines h).flatMap (· ++ crlf) ++ crlf

/-! The way back. -/

def half (c : Char) : Bool := c = '\r' || c = '\n'

/-- The lines up to an empty one, behind the part of a line that was read before, and what follows. -/
def block (line : List Char) : List Char → Option (List (List Char) × List Char)
  | [] => none
  | '\r' :: '\n' :: t => if line = [] then some ([], t) else (block [] t).map fun b => (line :: b.1, b.2)
  | c :: t => if half c then none else block (line ++ [c]) t

def blank (c : Char) : Bool := c = ' ' || c = '\t'

def trim (t : List Char) : List Char := (t.dropWhile blank).rdropWhile blank

def readField (line : List Char) : Option (List Char × List Char) :=
  match line.dropWhile (· ≠ ':') with
  | [] => none
  | _ :: value => some (line.takeWhile (· ≠ ':'), trim value)

def readLines : List (List Char) → Option Head
  | [] => none
  | first :: rest =>
    match first.splitOn ' ' with
    | [method, target, v] => if v = version then (rest.mapM readField).map (⟨method, target, ·⟩) else none
    | _ => none

def read (t : List Char) : Option (Head × List Char) := do
  let (ls, rest) ← block [] t
  let h ← readLines ls
  pure (h, rest)

/-- No part holds a separator of its place. -/
structure Sound (h : Head) : Prop where
  method : ∀ c ∈ h.method, c ≠ ' ' ∧ half c = false
  target : ∀ c ∈ h.target, c ≠ ' ' ∧ half c = false
  names : ∀ f ∈ h.fields, ∀ c ∈ f.1, c ≠ ':' ∧ half c = false
  values : ∀ f ∈ h.fields, ∀ c ∈ f.2, half c = false

def Head.trimmed (h : Head) : Head := { h with fields := h.fields.map fun f => (f.1, trim f.2) }

theorem forall_text {P : Char → Prop} (own : ∀ c ∈ " : HTTP/1.1\r\n".toList, P c) (h : Head) :
    (∀ c ∈ text h, P c) ↔ (∀ c ∈ h.method, P c) ∧ (∀ c ∈ h.target, P c) ∧
      ∀ f ∈ h.fields, (∀ c ∈ f.1, P c) ∧ ∀ c ∈ f.2, P c := by
  have space : P ' ' := own _ (by decide)
  have part {l : List Char} (listed : ∀ c ∈ l, c ∈ " : HTTP/1.1\r\n".toList) : ∀ c ∈ l, P c :=
    fun c member => own c (listed c member)
  have ends : ∀ c ∈ crlf, P c := part (List.forall_iff_forall_mem.mp (by decide))
  have protocol : ∀ c ∈ version, P c := part (List.forall_iff_forall_mem.mp (by decide))
  have colon : ∀ c ∈ ": ".toList, P c := part (List.forall_iff_forall_mem.mp (by decide))
  simp only [text, lines, requestLine, fieldLine, List.flatMap_cons, List.flatMap_map, List.forall_mem_append,
    List.forall_mem_cons, List.forall_mem_flatMap]
  constructor
  · rintro ⟨⟨⟨⟨method, -, target, -⟩, -⟩, fields⟩, -⟩
    exact ⟨method, target, fun f listed => ⟨(fields f listed).1.1.1, (fields f listed).1.2⟩⟩
  · rintro ⟨method, target, fields⟩
    exact ⟨⟨⟨⟨method, space, target, space, protocol⟩, ends⟩,
      fun f listed => ⟨⟨⟨(fields f listed).1, colon⟩, (fields f listed).2⟩, ends⟩⟩, ends⟩

/-! Lines. -/

theorem block_char {c : Char} (other : half c = false) (line t : List Char) :
    block line (c :: t) = block (line ++ [c]) t := by
  rw [block]
  · simp [other]
  · rintro t' rfl
    cases other

theorem block_end (line t : List Char) : block line (crlf ++ t) =
    if line = [] then some ([], t) else (block [] t).map fun b => (line :: b.1, b.2) := rfl

theorem block_line {l : List Char} (whole : ∀ c ∈ l, half c = false) (line t : List Char) :
    block line (l ++ t) = block (line ++ l) t := by
  induction l generalizing line with
  | nil => rw [List.append_nil, List.nil_append]
  | cons c l ih =>
    obtain ⟨other, rest⟩ := List.forall_mem_cons.mp whole
    rw [List.cons_append, block_char other, ih rest, List.append_assoc]
    rfl

theorem block_lines {ls : List (List Char)} (whole : ∀ l ∈ ls, l ≠ [] ∧ ∀ c ∈ l, half c = false) (t : List Char) :
    block [] (ls.flatMap (· ++ crlf) ++ (crlf ++ t)) = some (ls, t) := by
  induction ls with
  | nil => exact (block_end [] t).trans (if_pos rfl)
  | cons l ls ih =>
    obtain ⟨⟨some_text, unended⟩, rest⟩ := List.forall_mem_cons.mp whole
    have first : (l :: ls).flatMap (· ++ crlf) ++ (crlf ++ t) =
        l ++ (crlf ++ (ls.flatMap (· ++ crlf) ++ (crlf ++ t))) := by
      simp [List.append_assoc]
    rw [first, block_line unended, List.nil_append, block_end, if_neg some_text, ih rest]
    rfl

/-! Parts. -/

theorem readField_line {f : List Char × List Char} (name : ∀ c ∈ f.1, c ≠ ':' ∧ half c = false) :
    readField (fieldLine f) = some (f.1, trim f.2) := by
  have plain : ∀ c ∈ f.1, decide (c ≠ ':') = true := fun c member => decide_eq_true (name c member).1
  have shape : fieldLine f = f.1 ++ ':' :: ' ' :: f.2 := by simp [fieldLine]
  have before : (fieldLine f).takeWhile (· ≠ ':') = f.1 := by
    rw [shape, List.takeWhile_append_of_pos plain]
    simp
  have behind : (fieldLine f).dropWhile (· ≠ ':') = ':' :: ' ' :: f.2 := by
    rw [shape, List.dropWhile_append_of_pos plain]
    simp
  have blanks : trim (' ' :: f.2) = trim f.2 := rfl
  simp only [readField, before, behind, blanks]

theorem mapM_readField {fields : List (List Char × List Char)}
    (names : ∀ f ∈ fields, ∀ c ∈ f.1, c ≠ ':' ∧ half c = false) :
    (fields.map fieldLine).mapM readField = some (fields.map fun f => (f.1, trim f.2)) := by
  induction fields with
  | nil => rfl
  | cons f fields ih =>
    obtain ⟨first, rest⟩ := List.forall_mem_cons.mp names
    simp only [List.map_cons, List.mapM_cons, readField_line first, ih rest, Option.bind_eq_bind, Option.bind_some]
    rfl

theorem requestLine_split {h : Head} (sound : Sound h) :
    (requestLine h).splitOn ' ' = [h.method, h.target, version] := by
  have method : ' ' ∉ h.method := fun member => (sound.method _ member).1 rfl
  have target : ' ' ∉ h.target := fun member => (sound.target _ member).1 rfl
  have protocol : ' ' ∉ version := by decide
  rw [requestLine, List.splitOn_append_cons_self_of_not_mem method,
    List.splitOn_append_cons_self_of_not_mem target, List.splitOn_eq_singleton protocol]

theorem readLines_lines {h : Head} (sound : Sound h) : readLines (lines h) = some h.trimmed := by
  simp only [readLines, lines, requestLine_split sound, if_true, mapM_readField sound.names]
  rfl

theorem lines_whole {h : Head} (sound : Sound h) : ∀ l ∈ lines h, l ≠ [] ∧ ∀ c ∈ l, half c = false := by
  intro l member
  rcases List.mem_cons.mp member with rfl | field
  · have protocol : ∀ c ∈ ' ' :: version, half c = false := List.forall_iff_forall_mem.mp (by decide)
    refine ⟨by simp [requestLine], fun c listed => ?_⟩
    rcases List.mem_append.mp listed with method | rest
    · exact (sound.method c method).2
    · rcases List.mem_cons.mp rest with rfl | rest
      · rfl
      · rcases List.mem_append.mp rest with target | rest
        · exact (sound.target c target).2
        · exact protocol c rest
  · have colon : ∀ c ∈ ": ".toList, half c = false := List.forall_iff_forall_mem.mp (by decide)
    obtain ⟨f, written, rfl⟩ := List.mem_map.mp field
    refine ⟨by simp [fieldLine], fun c listed => ?_⟩
    rcases List.mem_append.mp listed with name | value
    · rcases List.mem_append.mp name with name | separator
      · exact (sound.names f written c name).2
      · exact colon c separator
    · exact sound.values f written c value

theorem read_text {h : Head} (sound : Sound h) (rest : List Char) :
    read (text h ++ rest) = some (h.trimmed, rest) := by
  rw [read, text, List.append_assoc, block_lines (lines_whole sound)]
  simp only [Option.bind_eq_bind, Option.bind_some, readLines_lines sound]
  rfl

end RequestHead

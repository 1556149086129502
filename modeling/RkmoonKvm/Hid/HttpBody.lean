import RkmoonKvm.Library.Numeral
import RkmoonKvm.Library.StreamReader

/-! The body of kvmd's answer, as `Kvmd.request` reads it: in chunks, or by its length. Every
exception of `request` becomes the one `BackendError`, which is `none` here. -/
namespace Hid.HttpBody
open StreamReader

/-- The `limit` of the reader, for a line. -/
def lineLimit : Nat := 16384

def maxBody : Nat := 16384

def lineFeed : UInt8 := 0x0A
def semicolon : UInt8 := 0x3B
def crlf : List UInt8 := [0x0D, lineFeed]

abbrev Fields := String → Option (List Char)

def chars (bytes : List UInt8) : List Char := bytes.map fun b => Char.ofNat b.toNat

/-- `int(line.split(b";",1)[0].strip(),16)`. -/
def chunkSize (line : List UInt8) : Option Int :=
  Numeral.int 16 (Numeral.strip (chars (line.takeWhile (· ≠ semicolon))))

def readline (s : Source UInt8) : Option (List UInt8 × Source UInt8) :=
  s.readLine (fun b => b = lineFeed) lineLimit

inductive Round where
  | last
  | chunk (data : List UInt8) (s : Source UInt8)

def round (body : List UInt8) (s : Source UInt8) : Option Round := do
  let (line, s) ← readline s
  let size ← chunkSize line
  if size < 0 ∨ maxBody < body.length + size then none
  else if size = 0 then pure .last
  else
    let (data, s) ← s.readExactly size.toNat
    let (delimiter, s) ← s.readExactly 2
    if delimiter ≠ crlf then none
    else pure (.chunk data s)

/-! What the loop takes off the stream. -/

abbrev Line : List UInt8 → List UInt8 → Prop := Source.Line (fun b => b = lineFeed) lineLimit

structure Chunk where
  /-- Without its line feed. -/
  line : List UInt8
  data : List UInt8
  unended : ∀ b ∈ line, decide (b = lineFeed) = false
  short : line.length ≤ lineLimit
  sized : chunkSize (line ++ [lineFeed]) = some (data.length : Int)
  nonempty : data ≠ []

def Chunk.bytes (c : Chunk) : List UInt8 := (c.line ++ [lineFeed]) ++ (c.data ++ crlf)

variable {body : List UInt8} {s : Source UInt8}

theorem round_some {r : Round} (read : round body s = some r) :
    ∃ (line : List UInt8) (s₁ : Source UInt8) (n : Nat), readline s = some (line, s₁) ∧
      chunkSize line = some (n : Int) ∧ body.length + n ≤ maxBody ∧
      ((n = 0 ∧ r = .last) ∨ (n ≠ 0 ∧ ∃ data s₂ s₃,
        s₁.readExactly n = some (data, s₂) ∧ s₂.readExactly 2 = some (crlf, s₃) ∧
        r = .chunk data s₃)) := by
  simp only [round, Option.bind_eq_bind, Option.bind_eq_some_iff, Prod.exists] at read
  obtain ⟨line, s₁, lined, size, sized, read⟩ := read
  split at read
  next => cases read
  next fits =>
    have natural : ((size.toNat : Nat) : Int) = size := Int.toNat_of_nonneg (by omega)
    have room : body.length + size.toNat ≤ maxBody := by omega
    refine ⟨line, s₁, size.toNat, lined, natural.symm ▸ sized, room, ?_⟩
    split at read
    next zero =>
      cases read
      exact Or.inl ⟨by omega, rfl⟩
    next nonzero =>
      simp only [Option.bind_eq_some_iff, Prod.exists] at read
      obtain ⟨data, s₂, taken, delimiter, s₃, closed, read⟩ := read
      split at read
      next => cases read
      next delimited =>
        cases read
        exact Or.inr ⟨by omega, data, s₂, s₃, taken, Decidable.not_not.mp delimited ▸ closed, rfl⟩

theorem round_chunk {data : List UInt8} {s' : Source UInt8}
    (read : round body s = some (.chunk data s')) :
    ∃ c : Chunk, c.data = data ∧ s.bytes = c.bytes ++ s'.bytes ∧
      body.length + data.length ≤ maxBody := by
  obtain ⟨line, s₁, n, lined, sized, room, ⟨_, other⟩ | ⟨positive, data', s₂, s₃, taken, closed,
    same⟩⟩ := round_some read
  · cases other
  · cases same
    obtain ⟨front, is⟩ := Source.readLine_split lined
    obtain ⟨middle, length⟩ := Source.readExactly_split taken
    obtain ⟨back, _⟩ := Source.readExactly_split closed
    rw [middle, back] at front is
    have nonempty : data ≠ [] := fun empty => positive (by rw [← length, empty, List.length_nil])
    rcases is.cases with ⟨line, b, rfl, unended, last, short⟩ | ⟨_, _, nothing⟩
    · cases of_decide_eq_true last
      exact ⟨⟨line, data, unended, short, length.symm ▸ sized, nonempty⟩, rfl,
        by simpa [Chunk.bytes] using front, length.symm ▸ room⟩
    · exact absurd (List.append_eq_nil_iff.mp nothing).1 nonempty

/-- A line without chunk behind it, whatever follows. -/
structure Last (line rest : List UInt8) : Prop where
  whole : Line line rest
  zero : chunkSize line = some 0

theorem round_last (read : round body s = some .last) :
    ∃ line rest, s.bytes = line ++ rest ∧ Last line rest := by
  obtain ⟨line, s₁, n, lined, sized, _, ⟨zero, _⟩ | ⟨_, _, _, _, _, _, other⟩⟩ := round_some read
  · obtain ⟨front, is⟩ := Source.readLine_split lined
    subst zero
    exact ⟨line, s₁.bytes, front, is, sized⟩
  · cases other

theorem round_of_last {line rest : List UInt8} (last : Last line rest)
    (stream : s.bytes = line ++ rest) (small : body.length ≤ maxBody) : round body s = some .last := by
  obtain ⟨s₁, lined, _⟩ := Source.readLine_line last.whole stream
  have fits : ¬ ((0 : Int) < 0 ∨ (maxBody : Int) < body.length + 0) := by omega
  rw [round, readline, lined]
  simp only [Option.bind_eq_bind, Option.bind_some, last.zero, if_neg fits]
  rfl

theorem round_of_chunk {rest : List UInt8} (c : Chunk) (stream : s.bytes = c.bytes ++ rest)
    (room : body.length + c.data.length ≤ maxBody) :
    ∃ s' : Source UInt8, round body s = some (.chunk c.data s') ∧ s'.bytes = rest := by
  have front : s.bytes = (c.line ++ [lineFeed]) ++ (c.data ++ (crlf ++ rest)) := by
    simpa [Chunk.bytes] using stream
  obtain ⟨s₁, lined, middle⟩ := Source.readLine_line (.ended c.unended (by decide) c.short) front
  obtain ⟨s₂, taken, back⟩ := Source.readExactly_append middle
  obtain ⟨s₃, closed, remains⟩ := Source.readExactly_append back
  have fits : ¬ ((c.data.length : Int) < 0 ∨ (maxBody : Int) < body.length + c.data.length) := by
    omega
  have positive : (c.data.length : Int) ≠ 0 := by
    have := List.length_pos_iff.mpr c.nonempty
    omega
  refine ⟨s₃, ?_, remains⟩
  simp only [round, readline, lined, Option.bind_eq_bind, Option.bind_some, c.sized, if_neg fits,
    if_neg positive, Int.toNat_natCast, taken]
  rw [show 2 = crlf.length from rfl, closed]
  rfl

/-! The whole loop. -/

/-- The loop over the chunks; what is left of the stream gets shorter. -/
def chunks (body : List UInt8) (s : Source UInt8) : Option (List UInt8) :=
  match _read : round body s with
  | none => none
  | some .last => some body
  | some (.chunk data s') => chunks (body ++ data) s'
termination_by s.bytes.length
decreasing_by
  obtain ⟨c, _, stream, _⟩ := round_chunk ‹round body s = some (.chunk data s')›
  have taken : 0 < c.bytes.length := by
    simp only [Chunk.bytes, List.length_append, List.length_cons]
    omega
  rw [stream, List.length_append]
  omega

theorem chunks_eq (body : List UInt8) (s : Source UInt8) : chunks body s =
    match round body s with
    | none => none
    | some .last => some body
    | some (.chunk data s') => chunks (body ++ data) s' := by
  rw [chunks]
  split
  next read => rw [read]
  next read => rw [read]
  next read => rw [read]

/-- The loop returns exactly what chunks that it accepts hold, behind them a last line. -/
theorem chunks_iff (small : body.length ≤ maxBody) {result : List UInt8} :
    chunks body s = some result ↔ ∃ (cs : List Chunk) (line rest : List UInt8),
      s.bytes = cs.flatMap Chunk.bytes ++ (line ++ rest) ∧ Last line rest ∧
      result = body ++ cs.flatMap Chunk.data ∧ result.length ≤ maxBody := by
  constructor
  · intro returned
    induction body, s using chunks.induct with
    | case1 body s raised =>
      rw [chunks_eq, raised] at returned
      cases returned
    | case2 body s last =>
      rw [chunks_eq, last] at returned
      cases returned
      obtain ⟨line, rest, stream, last⟩ := round_last last
      exact ⟨[], line, rest, stream, last, (List.append_nil _).symm, small⟩
    | case3 body s data s' read ih =>
      rw [chunks_eq, read] at returned
      obtain ⟨c, rfl, front, room⟩ := round_chunk read
      have grown : (body ++ c.data).length ≤ maxBody := by rwa [List.length_append]
      obtain ⟨cs, line, rest, stream, last, all, bounded⟩ := ih grown returned
      refine ⟨c :: cs, line, rest, ?_, last, ?_, bounded⟩
      · rw [front, stream, List.flatMap_cons, List.append_assoc]
      · rw [all, List.flatMap_cons, List.append_assoc]
  · rintro ⟨cs, line, rest, stream, last, rfl, bounded⟩
    induction cs generalizing body s with
    | nil => rw [chunks_eq, round_of_last last stream small, List.flatMap_nil, List.append_nil]
    | cons c cs ih =>
      rw [List.flatMap_cons, ← List.append_assoc] at bounded
      have room : body.length + c.data.length ≤ maxBody := by
        rw [List.length_append, List.length_append] at bounded
        exact Nat.le_trans (Nat.le_add_right _ _) bounded
      rw [List.flatMap_cons, List.append_assoc] at stream
      obtain ⟨s', read, remains⟩ := round_of_chunk c stream room
      rw [chunks_eq, read, List.flatMap_cons, ← List.append_assoc]
      exact ih (by rwa [List.length_append]) remains bounded

def readBody (fields : Fields) (s : Source UInt8) : Option (List UInt8) :=
  match fields "transfer-encoding" with
  | some encoding =>
    if encoding.map Char.toLower ≠ "chunked".toList then none else chunks [] s
  | none => do
    let size ← Numeral.int 10 ((fields "content-length").getD "-1".toList)
    if ¬ (0 ≤ size ∧ size ≤ maxBody) then none
    else
      let (bytes, _) ← s.readExactly size.toNat
      pure bytes

/-! What a server sends. -/

/-- A size line: hexadecimal digits in either case, and what extends it behind a semicolon. -/
structure SizeLine where
  digits : List UInt8
  extension : Option (List UInt8)
  hex : Numeral.Plain 16 (chars digits)
  spelled : digits ≠ []
  unended : ∀ e ∈ extension, ∀ b ∈ e, b ≠ lineFeed

namespace SizeLine

def text (l : SizeLine) : List UInt8 :=
  l.digits ++ (l.extension.elim [] fun e => semicolon :: e) ++ [0x0D]

def size (l : SizeLine) : Nat := Numeral.value 16 (chars l.digits)

variable (l : SizeLine)

theorem digit_ne {b : UInt8} (member : b ∈ l.digits) {b' : UInt8}
    (other : Numeral.digitValue (Char.ofNat b'.toNat) = none) : b ≠ b' := by
  rintro rfl
  exact l.hex.ne other (List.mem_map_of_mem member) rfl

theorem text_unended : ∀ b ∈ l.text, decide (b = lineFeed) = false := by
  intro b member
  rw [decide_eq_false_iff_not]
  simp only [text, List.mem_append, List.mem_singleton] at member
  rcases member with (member | member) | rfl
  · exact l.digit_ne member (by decide)
  · cases extension : l.extension with
    | none =>
      rw [extension] at member
      cases member
    | some e =>
      rw [extension] at member
      rcases List.mem_cons.mp member with rfl | member
      · decide
      · exact l.unended e extension b member
  · decide

theorem chunkSize_text : chunkSize (l.text ++ [lineFeed]) = some (l.size : Int) := by
  have plain : Numeral.int 16 (chars l.digits) = some (l.size : Int) :=
    Numeral.int_plain l.hex (by simpa [chars] using l.spelled) (Or.inl (by decide))
  have before : ∀ b ∈ l.digits, decide (b ≠ semicolon) = true :=
    fun b member => decide_eq_true (l.digit_ne member (by decide))
  have stripped : ∀ blanks : List UInt8, (∀ c ∈ chars blanks, Numeral.space c) →
      Numeral.strip (chars (l.digits ++ blanks)) = chars l.digits := by
    intro blanks blank
    rw [chars, List.map_append]
    exact Numeral.strip_behind l.hex.unspaced blank
  cases extension : l.extension with
  | none =>
    have cut : (l.text ++ [lineFeed]).takeWhile (· ≠ semicolon) = l.digits ++ crlf := by
      rw [text, extension, List.append_assoc, List.append_assoc,
        List.takeWhile_append_of_pos before]
      rfl
    rw [chunkSize, cut, stripped crlf (List.all_eq_true.mp rfl), plain]
  | some e =>
    have cut : (l.text ++ [lineFeed]).takeWhile (· ≠ semicolon) = l.digits ++ [] := by
      rw [text, extension, List.append_assoc, List.append_assoc,
        List.takeWhile_append_of_pos before]
      rfl
    rw [chunkSize, cut, stripped [] (fun _ member => by cases member), plain]

end SizeLine

structure Sent extends SizeLine where
  data : List UInt8
  nonempty : data ≠ []
  sized : toSizeLine.size = data.length
  short : toSizeLine.text.length ≤ lineLimit

namespace Sent

def chunk (c : Sent) : Chunk where
  line := c.text
  data := c.data
  unended := c.text_unended
  short := c.short
  sized := c.sized ▸ c.chunkSize_text
  nonempty := c.nonempty

def bytes (c : Sent) : List UInt8 := c.text ++ [lineFeed] ++ c.data ++ crlf

theorem chunk_bytes (c : Sent) : c.chunk.bytes = c.bytes := by simp [Chunk.bytes, bytes, chunk]

end Sent

structure SentLast extends SizeLine where
  zero : toSizeLine.size = 0
  short : toSizeLine.text.length ≤ lineLimit

theorem SentLast.last (l : SentLast) (rest : List UInt8) : Last (l.text ++ [lineFeed]) rest where
  whole := .ended l.text_unended (by decide) l.short
  zero := by rw [l.chunkSize_text, l.zero]; rfl

def Announces (fields : Fields) (n : Nat) : Prop :=
  ∃ digits, fields "content-length" = some digits ∧ digits ≠ [] ∧ Numeral.Plain 10 digits ∧
    digits.length ≤ Numeral.maxDigits ∧ Numeral.value 10 digits = n

theorem readBody_announced {fields : Fields} {front rest : List UInt8}
    (unchunked : fields "transfer-encoding" = none) (announced : Announces fields front.length)
    (bounded : front.length ≤ maxBody) (stream : s.bytes = front ++ rest) :
    readBody fields s = some front := by
  obtain ⟨digits, field, spelled, plain, short, value⟩ := announced
  have size : Numeral.int 10 digits = some (front.length : Int) :=
    value ▸ Numeral.int_plain plain spelled (Or.inr short)
  obtain ⟨s', taken, _⟩ := Source.readExactly_append stream
  have fits : ¬ ¬ ((0 : Int) ≤ front.length ∧ (front.length : Int) ≤ maxBody) := by omega
  simp only [readBody, unchunked, field, Option.getD_some, size, Option.bind_eq_bind,
    Option.bind_some, if_neg fits, Int.toNat_natCast, taken]
  rfl

theorem readBody_chunked {fields : Fields} {cs : List Sent} {last : SentLast} {rest : List UInt8}
    (chunked : (fields "transfer-encoding").map (·.map Char.toLower) = some "chunked".toList)
    (bounded : (cs.flatMap Sent.data).length ≤ maxBody)
    (stream : s.bytes = cs.flatMap Sent.bytes ++ (last.text ++ [lineFeed] ++ rest)) :
    readBody fields s = some (cs.flatMap Sent.data) := by
  obtain ⟨encoding, field, lower⟩ := Option.map_eq_some_iff.mp chunked
  have sent : (cs.map Sent.chunk).flatMap Chunk.bytes = cs.flatMap Sent.bytes := by
    simp [List.flatMap_map, Sent.chunk_bytes]
  have held : (cs.map Sent.chunk).flatMap Chunk.data = cs.flatMap Sent.data := by
    simp [List.flatMap_map, Sent.chunk]
  have whole : chunks [] s = some (cs.flatMap Sent.data) :=
    (chunks_iff (Nat.zero_le _)).mpr ⟨cs.map Sent.chunk, last.text ++ [lineFeed], rest,
      sent.symm ▸ stream, last.last rest, by rw [held, List.nil_append], bounded⟩
  simp only [readBody, field, lower, ne_eq, not_true_eq_false, if_false, whole]

/-- A body of at most `maxBody` bytes is read the same in any chunks as by its length, and the
loop over the chunks of any stream ends: with `BackendError`, or with no more than that and no
byte that an accepted chunk did not delimit. -/
theorem bodies_bounded :
    (∀ (fields fields' : Fields) (s s' : Source UInt8) (body rest rest' : List UInt8)
      (cs : List Sent) (last : SentLast),
      body.length ≤ maxBody → cs.flatMap Sent.data = body →
      (fields "transfer-encoding").map (·.map Char.toLower) = some "chunked".toList →
      s.bytes = cs.flatMap Sent.bytes ++ (last.text ++ [lineFeed] ++ rest) →
      fields' "transfer-encoding" = none → Announces fields' body.length →
      s'.bytes = body ++ rest' →
      readBody fields s = some body ∧ readBody fields' s' = some body) ∧
    ∀ s : Source UInt8, chunks [] s = none ∨ ∃ body, chunks [] s = some body ∧
      body.length ≤ maxBody ∧ ∃ (cs : List Chunk) (line rest : List UInt8),
        s.bytes = cs.flatMap Chunk.bytes ++ (line ++ rest) ∧ Last line rest ∧
        body = cs.flatMap Chunk.data := by
  constructor
  · rintro fields fields' s s' _ rest rest' cs last bounded rfl chunked stream unchunked announced
      stream'
    exact ⟨readBody_chunked chunked bounded stream,
      readBody_announced unchunked announced bounded stream'⟩
  · intro s
    cases returned : chunks [] s with
    | none => exact Or.inl rfl
    | some body =>
      obtain ⟨cs, line, rest, stream, last, all, bounded⟩ :=
        (chunks_iff (Nat.zero_le _)).mp returned
      exact Or.inr ⟨body, rfl, bounded, cs, line, rest, stream, last, all⟩

def sentTrue : List Sent :=
  [{ digits := [0x31], extension := some [0x61, 0x3D, 0x62], hex := by decide,
     spelled := by decide, unended := by decide +kernel, data := [0x74],
     nonempty := by decide, sized := by decide, short := by decide },
   { digits := [0x30, 0x33], extension := none, hex := by decide, spelled := by decide,
     unended := by decide +kernel, data := [0x72, 0x75, 0x65], nonempty := by decide,
     sized := by decide, short := by decide }]

def sentLast : SentLast where
  digits := [0x30]
  extension := none
  hex := by decide
  spelled := by decide
  unended := by decide +kernel
  zero := by decide
  short := by decide

def chunkedFields : Fields := fun name =>
  if name = "transfer-encoding" then some "Chunked".toList else none

def sizedFields : Fields := fun name => if name = "content-length" then some "4".toList else none

theorem true_bounded :
    readBody chunkedFields
      ⟨[], [[0x31, 0x3B, 0x61, 0x3D], [0x62, 0x0D, 0x0A, 0x74, 0x0D, 0x0A, 0x30, 0x33, 0x0D],
        [0x0A, 0x72, 0x75, 0x65, 0x0D, 0x0A, 0x30, 0x0D, 0x0A, 0x0D, 0x0A]]⟩ =
      some [0x74, 0x72, 0x75, 0x65] ∧
    readBody sizedFields ⟨[0x74], [[0x72, 0x75], [0x65]]⟩ = some [0x74, 0x72, 0x75, 0x65] :=
  bodies_bounded.1 chunkedFields sizedFields _ _ _ crlf [] sentTrue sentLast (by decide) rfl
    (by decide) rfl rfl ⟨"4".toList, rfl, by decide, by decide, by decide, by decide⟩ rfl

end Hid.HttpBody

import Mathlib.Data.List.Basic

/-! Form-urlencoded queries: the quoting of bytes, and lists of named values. What is written is read back,
and no separator can come out of a value. -/
namespace Query

def unreserved (b : UInt8) : Bool :=
  (0x30 ≤ b && b ≤ 0x39) || (0x41 ≤ b && b ≤ 0x5A) || (0x61 ≤ b && b ≤ 0x7A) || b ∈ [0x5F, 0x2E, 0x2D, 0x7E]

def hexDigit (n : Nat) : Char := Char.ofNat (if n < 10 then 48 + n else 55 + n)

def quoteByte (b : UInt8) : List Char :=
  if unreserved b then [Char.ofNat b.toNat]
  else if b = 0x20 then ['+']
  else ['%', hexDigit (b.toNat / 16), hexDigit (b.toNat % 16)]

def quote (bytes : List UInt8) : List Char := bytes.flatMap quoteByte

abbrev Params := List (List UInt8 × List UInt8)

def field (p : List UInt8 × List UInt8) : List Char := quote p.1 ++ '=' :: quote p.2

def encode (params : Params) : List Char := ['&'].intercalate (params.map field)

/-! The way back. -/

def hexValue (c : Char) : Option Nat :=
  if '0' ≤ c ∧ c ≤ '9' then some (c.toNat - 48)
  else if 'A' ≤ c ∧ c ≤ 'F' then some (c.toNat - 55)
  else if 'a' ≤ c ∧ c ≤ 'f' then some (c.toNat - 87)
  else none

def unquote : List Char → Option (List UInt8)
  | [] => some []
  | '%' :: a :: b :: t => do
    let high ← hexValue a
    let low ← hexValue b
    let rest ← unquote t
    pure (UInt8.ofNat (high * 16 + low) :: rest)
  | '+' :: t => (unquote t).map (0x20 :: ·)
  | c :: t => if c.toNat < 128 then (unquote t).map (UInt8.ofNat c.toNat :: ·) else none

def unfield (t : List Char) : Option (List UInt8 × List UInt8) :=
  match t.dropWhile (· ≠ '=') with
  | [] => none
  | _ :: value => do
    let name ← unquote (t.takeWhile (· ≠ '='))
    let value ← unquote value
    pure (name, value)

def decode : List Char → Option Params
  | [] => some []
  | t => (t.splitOn '&').mapM unfield

/-! One byte. -/

theorem byte_cases {P : UInt8 → Prop} (all : ∀ n < 256, P (UInt8.ofNat n)) (b : UInt8) : P b := by
  have is := all b.toNat b.toNat_lt
  rwa [UInt8.ofNat_toNat] at is

def plain (c : Char) : Bool := c.isAlphanum || c ∈ ['_', '.', '-', '~', '+', '%']

theorem quoteByte_plain : ∀ b, (quoteByte b).all plain = true := byte_cases (by decide +kernel)

theorem unreserved_char : ∀ b, unreserved b → Char.ofNat b.toNat ≠ '%' ∧ Char.ofNat b.toNat ≠ '+' ∧
    (Char.ofNat b.toNat).toNat < 128 ∧ UInt8.ofNat (Char.ofNat b.toNat).toNat = b :=
  byte_cases (by decide +kernel)

theorem hexValue_digit : ∀ n < 16, hexValue (hexDigit n) = some n := by decide

theorem unquote_char {c : Char} (percent : c ≠ '%') (plus : c ≠ '+') (ascii : c.toNat < 128) (t : List Char) :
    unquote (c :: t) = (unquote t).map (UInt8.ofNat c.toNat :: ·) := by
  rw [unquote]
  · exact if_pos ascii
  · intro a b t' same
    exact absurd same percent
  · exact plus

theorem unquote_byte (b : UInt8) (t : List Char) : unquote (quoteByte b ++ t) = (unquote t).map (b :: ·) := by
  unfold quoteByte
  split
  · rename_i safe
    obtain ⟨percent, plus, ascii, same⟩ := unreserved_char b safe
    have read := unquote_char percent plus ascii t
    rwa [same] at read
  · split
    · rename_i blank
      rw [blank]
      rfl
    · have high : b.toNat / 16 < 16 := by have := b.toNat_lt; omega
      have low : b.toNat % 16 < 16 := Nat.mod_lt _ (by decide)
      have whole : b.toNat / 16 * 16 + b.toNat % 16 = b.toNat := Nat.div_add_mod' b.toNat 16
      simp only [List.cons_append, List.nil_append, unquote, hexValue_digit _ high, hexValue_digit _ low,
        Option.bind_eq_bind, Option.bind_some, whole, UInt8.ofNat_toNat]
      cases unquote t <;> rfl

theorem unquote_quote (bytes : List UInt8) : unquote (quote bytes) = some bytes := by
  induction bytes with
  | nil => rfl
  | cons b bytes ih =>
    have split : quote (b :: bytes) = quoteByte b ++ quote bytes := rfl
    simp only [split, unquote_byte, ih, Option.map_some]

theorem plain_ascii {c : Char} (is : plain c) : c.toNat < 128 := by
  rcases Bool.or_eq_true_iff.mp is with letter | mark
  · have below {top : Char} (most : c.val ≤ top.val) (ascii : top.toNat < 128) : c.toNat < 128 :=
      Nat.lt_of_le_of_lt (UInt32.le_iff_toNat_le.mp most) ascii
    rcases Bool.or_eq_true_iff.mp letter with alpha | digit
    · rcases Bool.or_eq_true_iff.mp alpha with upper | lower
      · have range : 'A'.val ≤ c.val ∧ c.val ≤ 'Z'.val := of_decide_eq_true upper
        exact below range.2 (by decide)
      · have most : decide (c.val ≤ 'z'.val) = true := (Bool.and_eq_true_iff.mp lower).2
        exact below (of_decide_eq_true most) (by decide)
    · have most : decide (c.val ≤ '9'.val) = true := (Bool.and_eq_true_iff.mp digit).2
      exact below (of_decide_eq_true most) (by decide)
  · have marks : ∀ c ∈ ['_', '.', '-', '~', '+', '%'], c.toNat < 128 := List.forall_iff_forall_mem.mp (by decide)
    exact marks c (of_decide_eq_true mark)

/-! Names and values. -/

theorem quote_plain {bytes : List UInt8} {c : Char} (member : c ∈ quote bytes) : plain c = true := by
  obtain ⟨b, -, written⟩ := List.mem_flatMap.mp member
  exact List.all_eq_true.mp (quoteByte_plain b) c written

theorem quote_ne {bytes : List UInt8} {d : Char} (other : plain d = false) : ∀ c ∈ quote bytes, c ≠ d := by
  rintro c member rfl
  rw [quote_plain member] at other
  cases other

theorem unfield_field (p : List UInt8 × List UInt8) : unfield (field p) = some p := by
  have name : ∀ c ∈ quote p.1, (decide (c ≠ '=')) = true :=
    fun c member => decide_eq_true (quote_ne (by decide) c member)
  have before : (field p).takeWhile (· ≠ '=') = quote p.1 := by
    rw [field, List.takeWhile_append_of_pos name]
    simp
  have behind : (field p).dropWhile (· ≠ '=') = '=' :: quote p.2 := by
    rw [field, List.dropWhile_append_of_pos name]
    simp
  simp only [unfield, before, behind, unquote_quote, Option.bind_eq_bind, Option.bind_some]
  rfl

theorem field_joined (p : List UInt8 × List UInt8) : '&' ∉ field p := by
  intro member
  rcases List.mem_append.mp member with name | value
  · exact quote_ne (by decide) _ name rfl
  · rcases List.mem_cons.mp value with equals | value
    · cases equals
    · exact quote_ne (by decide) _ value rfl

theorem field_ne_nil (p : List UInt8 × List UInt8) : field p ≠ [] := by
  simp [field]

theorem mapM_unfield (params : Params) : (params.map field).mapM unfield = some params := by
  induction params with
  | nil => rfl
  | cons p params ih =>
    simp only [List.map_cons, List.mapM_cons, unfield_field, ih, Option.bind_eq_bind, Option.bind_some]
    rfl

theorem decode_encode (params : Params) : decode (encode params) = some params := by
  cases params with
  | nil => rfl
  | cons p params =>
    have split : (encode (p :: params)).splitOn '&' = (p :: params).map field :=
      List.splitOn_intercalate '&' (by
        intro l member
        obtain ⟨q, -, rfl⟩ := List.mem_map.mp member
        exact field_joined q) (by simp)
    have some_text : encode (p :: params) ≠ [] := by
      intro none
      rw [none] at split
      have first : [] = field p := (List.cons.inj split).1
      exact field_ne_nil p first.symm
    cases text : encode (p :: params) with
    | nil => exact absurd text some_text
    | cons c t =>
      rw [← text, decode, split, mapM_unfield]
      exact some_text

theorem encode_chars {params : Params} {c : Char} (member : c ∈ encode params) : plain c ∨ c = '=' ∨ c = '&' := by
  induction params with
  | nil => cases member
  | cons p params ih =>
    have of_field : c ∈ field p → plain c ∨ c = '=' ∨ c = '&' := by
      intro written
      rcases List.mem_append.mp written with name | value
      · exact .inl (quote_plain name)
      · rcases List.mem_cons.mp value with equals | value
        · exact .inr (.inl equals)
        · exact .inl (quote_plain value)
    cases params with
    | nil => exact of_field (by simpa [encode] using member)
    | cons q params =>
      have split : encode (p :: q :: params) = field p ++ '&' :: encode (q :: params) := by
        simp [encode, List.intercalate_cons_cons]
      rw [split] at member
      rcases List.mem_append.mp member with first | rest
      · exact of_field first
      · rcases List.mem_cons.mp rest with joined | rest
        · exact .inr (.inr joined)
        · exact ih rest

end Query

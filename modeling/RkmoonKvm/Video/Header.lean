import RkmoonKvm.Library.LittleEndian
import RkmoonKvm.Library.Reader
import RkmoonKvm.Video.Wire

/-! The 64-byte header of a message: the two functions that write and read it, and the
record of fields that both agree on. -/
namespace Video

open LittleEndian

def headerSize : Nat := 64

def magic : List UInt8 := [0x52, 0x4B, 0x4D, 0x46]

def Header.pack (h : Header) : Except String (List UInt8) :=
  if maxAu < h.size.toNat then
    throw "oversize AU"
  else
    let b := magic ++ (List.replicate headerSize 0).drop magic.length
    let b := put b 4 1 2
    let b := put b 6 h.kind.code.toUInt64 2
    let b := put b 8 h.size.toUInt64 4
    let b := put b 12 h.flags.toUInt64 4
    let b := put b 16 h.seq 8
    let b := put b 24 h.dequeueUs 8
    let b := put b 32 h.submitUs 8
    let b := put b 40 h.doneUs 8
    let b := put b 48 h.width.toUInt64 4
    let b := put b 52 h.height.toUInt64 4
    let b := put b 56 h.codec.code.toUInt64 2
    let b := put b 60 h.extra.toUInt64 4
    pure b

/-- The fields that `unpack` reads, before it checks them. -/
def fieldsOf (p : List UInt8) : Header where
  kind := ⟨(get p 6 2).toUInt16⟩
  size := (get p 8 4).toUInt32
  flags := (get p 12 4).toUInt32
  seq := get p 16 8
  dequeueUs := get p 24 8
  submitUs := get p 32 8
  doneUs := get p 40 8
  width := (get p 48 4).toUInt32
  height := (get p 52 4).toUInt32
  codec := ⟨(get p 56 2).toUInt16⟩
  extra := (get p 60 4).toUInt32

def unpack (p : List UInt8) : Except String Header :=
  if p.length ≠ headerSize ∨ p.take 4 ≠ magic ∨ get p 4 2 ≠ 1 ∨ get p 58 2 ≠ 0 then
    throw "invalid wire version/header"
  else
    let h := fieldsOf p
    if h.kind.code < 1 ∨ 8 < h.kind.code ∨ maxAu < h.size.toNat ∨ h.flags &&& ~~~15 ≠ 0 then
      throw "invalid wire fields"
    else if h.kind ≠ .frame ∧ h.kind ≠ .error ∧ h.size ≠ 0 then
      throw "unexpected control payload"
    else if h.kind = .error ∧ 1024 < h.size then
      throw "oversize diagnostic"
    else
      pure h

/-- The headers that a receiver takes. -/
structure Header.WellFormed (h : Header) : Prop where
  kind : 1 ≤ h.kind.code ∧ h.kind.code ≤ 8
  size : h.size.toNat ≤ maxAu
  flags : h.flags ≤ 15
  control : h.kind ≠ .frame → h.kind ≠ .error → h.size = 0
  diagnostic : h.kind = .error → h.size ≤ 1024

/-- The fields of the header in wire order, the reserved gap included. -/
def Header.fields (h : Header) : List (Nat × Nat) :=
  [(4, value magic), (2, 1), (2, h.kind.code.toNat), (4, h.size.toNat), (4, h.flags.toNat),
    (8, h.seq.toNat), (8, h.dequeueUs.toNat), (8, h.submitUs.toNat), (8, h.doneUs.toNat),
    (4, h.width.toNat), (4, h.height.toNat), (2, h.codec.code.toNat), (2, 0), (4, h.extra.toNat)]

def Header.encoded (h : Header) : List UInt8 := encode h.fields

theorem total_fields (h : Header) : total h.fields = headerSize := by
  simp only [Header.fields, total_cons, total_nil, Nat.reduceAdd, headerSize]

@[simp] theorem length_encoded (h : Header) : h.encoded.length = headerSize := by
  rw [Header.encoded, length_encode, total_fields]

theorem fields_fit (h : Header) : Fits h.fields := by
  have kind := h.kind.code.toNat_lt
  have size := h.size.toNat_lt
  have flags := h.flags.toNat_lt
  have seq := h.seq.toNat_lt
  have dequeue := h.dequeueUs.toNat_lt
  have submit := h.submitUs.toNat_lt
  have done := h.doneUs.toNat_lt
  have width := h.width.toNat_lt
  have height := h.height.toNat_lt
  have codec := h.codec.code.toNat_lt
  have extra := h.extra.toNat_lt
  have magic_fits : value magic < 256 ^ 4 := by decide
  simp only [Fits, Header.fields, List.forall_mem_cons, List.not_mem_nil, false_implies,
    implies_true, and_true]
  omega

theorem pack_eq (h : Header) :
    h.pack = if maxAu < h.size.toNat then throw "oversize AU" else pure h.encoded := by
  have start : magic ++ (List.replicate headerSize 0).drop magic.length =
      encode [(4, value magic)] ++ List.replicate 60 0 := by decide
  rw [Header.pack, start]
  dsimp only
  rw [put_encode (p := 4), put_encode (p := 6), put_encode (p := 8), put_encode (p := 12),
    put_encode (p := 16), put_encode (p := 24), put_encode (p := 32), put_encode (p := 40),
    put_encode (p := 48), put_encode (p := 52), put_encode (p := 56), encode_gap (n := 2),
    put_encode (p := 60)]
  · have one : (1 : UInt64).toNat = 1 := rfl
    simp only [List.cons_append, List.nil_append, Nat.reduceSub, List.replicate_zero, List.append_nil,
      UInt16.toNat_toUInt64, UInt32.toNat_toUInt64, one, Header.encoded, Header.fields]
  all_goals first
    | decide
    | simp only [List.cons_append, List.nil_append, total_cons, total_nil, Nat.reduceAdd]

theorem pack_ok {h : Header} {b : List UInt8} :
    h.pack = .ok b ↔ h.size.toNat ≤ maxAu ∧ h.encoded = b := by
  rw [pack_eq, Reader.check_ok, Nat.not_lt]
  exact and_congr_right fun _ => ⟨Except.ok.inj, congrArg Except.ok⟩

theorem toUInt16_eq {b : List UInt8} {p : Nat} (room : p + 2 ≤ b.length) {x : UInt16} :
    (get b p 2).toNat = x.toNat ↔ (get b p 2).toUInt16 = x := by
  have bound : (get b p 2).toNat < 2 ^ 16 := get_lt b p (n := 2) (by decide) room
  rw [← UInt16.toNat_inj, UInt64.toNat_toUInt16, Nat.mod_eq_of_lt bound]

theorem toUInt32_eq {b : List UInt8} {p : Nat} (room : p + 4 ≤ b.length) {x : UInt32} :
    (get b p 4).toNat = x.toNat ↔ (get b p 4).toUInt32 = x := by
  have bound : (get b p 4).toNat < 2 ^ 32 := get_lt b p (n := 4) (by decide) room
  rw [← UInt32.toNat_inj, UInt64.toNat_toUInt32, Nat.mod_eq_of_lt bound]

theorem magic_eq {b : List UInt8} (room : 4 ≤ b.length) :
    (get b 0 4).toNat = value magic ↔ b.take 4 = magic := by
  have length : (b.take 4).length = 4 := by rw [List.length_take]; omega
  have written : bytes 4 (value magic) = magic := by decide
  rw [get_value b 0 (by decide) (by omega), List.drop_zero,
    ← bytes_eq_iff length (by decide), written, eq_comm]

theorem reads_fields {b : List UInt8} (length : b.length = headerSize) {h : Header} :
    Reads b 0 h.fields ↔
      (b.take 4 = magic ∧ get b 4 2 = 1 ∧ get b 58 2 = 0) ∧ fieldsOf b = h := by
  rw [headerSize] at length
  obtain ⟨⟨kind⟩, size, flags, seq, dequeue, submit, done, width, height, ⟨codec⟩, extra⟩ := h
  have version : (get b 4 2).toNat = 1 ↔ get b 4 2 = 1 := UInt64.toNat_inj (b := 1)
  have reserved : (get b 58 2).toNat = 0 ↔ get b 58 2 = 0 := UInt64.toNat_inj (b := 0)
  simp only [Header.fields, Reads, Nat.zero_add, Nat.reduceAdd, fieldsOf, Header.mk.injEq,
    Kind.mk.injEq, Codec.mk.injEq, and_true, magic_eq (b := b) (by omega), version, reserved,
    UInt64.toNat_inj]
  rw [toUInt16_eq (by omega), toUInt16_eq (by omega), toUInt32_eq (by omega),
    toUInt32_eq (by omega), toUInt32_eq (by omega), toUInt32_eq (by omega), toUInt32_eq (by omega)]
  constructor
  · rintro ⟨magic, version, kind, size, flags, seq, dequeue, submit, done, width, height, codec, gap, extra⟩
    exact ⟨⟨magic, version, gap⟩, kind, size, flags, seq, dequeue, submit, done, width, height, codec, extra⟩
  · rintro ⟨⟨magic, version, gap⟩, kind, size, flags, seq, dequeue, submit, done, width, height, codec, extra⟩
    exact ⟨magic, version, kind, size, flags, seq, dequeue, submit, done, width, height, codec, gap, extra⟩

/-- All 64 bytes are determined by the header: each field, the magic, the version and the gap. -/
theorem encoded_eq {b : List UInt8} (length : b.length = headerSize) {h : Header} :
    h.encoded = b ↔ (b.take 4 = magic ∧ get b 4 2 = 1 ∧ get b 58 2 = 0) ∧ fieldsOf b = h := by
  have whole : b.length = 0 + total h.fields := by rw [length, total_fields, Nat.zero_add]
  rw [← reads_fields length, ← encode_eq_iff (fields_fit h) whole, List.drop_zero, Header.encoded]

theorem fieldsOf_encoded (h : Header) : fieldsOf h.encoded = h :=
  ((encoded_eq (length_encoded h)).mp rfl).2

theorem encoded_injective {h h' : Header} (same : h.encoded = h'.encoded) : h = h' := by
  rw [← fieldsOf_encoded h, same, fieldsOf_encoded]

theorem flags_split (flags : UInt32) : flags &&& 15 ||| flags &&& ~~~15 = flags := by
  apply UInt32.toBitVec_inj.mp
  rw [UInt32.toBitVec_or, UInt32.toBitVec_and, UInt32.toBitVec_and, UInt32.toBitVec_not,
    ← BitVec.and_or_distrib_left, BitVec.or_not_self, BitVec.and_allOnes]

theorem low_flags {flags : UInt32} (small : flags ≤ 15) : flags &&& 15 = flags := by
  have mask := Nat.and_two_pow_sub_one_eq_mod flags.toNat 4
  apply UInt32.toNat_inj.mp
  rw [UInt32.le_iff_toNat_le] at small
  rw [UInt32.toNat_and]
  exact mask.trans (Nat.mod_eq_of_lt (Nat.lt_succ_of_le small))

theorem flags_within {flags : UInt32} : flags &&& ~~~15 = 0 ↔ flags ≤ 15 := by
  constructor
  · intro clear
    have low : flags &&& 15 = flags := by rw [← UInt32.or_zero (a := flags &&& 15), ← clear, flags_split]
    rw [← low, UInt32.le_iff_toNat_le, UInt32.toNat_and]
    exact Nat.and_le_right
  · intro small
    rw [← low_flags small, UInt32.and_assoc, UInt32.and_not_self, UInt32.and_zero]

theorem wellFormed_iff {h : Header} : h.WellFormed ↔
    ¬ (h.kind.code < 1 ∨ 8 < h.kind.code ∨ maxAu < h.size.toNat ∨ h.flags &&& ~~~15 ≠ 0) ∧
    ¬ (h.kind ≠ .frame ∧ h.kind ≠ .error ∧ h.size ≠ 0) ∧ ¬ (h.kind = .error ∧ 1024 < h.size) := by
  simp only [not_or, not_and, not_not, UInt16.not_lt, UInt32.not_lt, Nat.not_lt, flags_within]
  constructor
  · intro formed
    exact ⟨⟨formed.kind.1, formed.kind.2, formed.size, formed.flags⟩, formed.control,
      formed.diagnostic⟩
  · rintro ⟨⟨first, last, size, flags⟩, control, diagnostic⟩
    exact ⟨⟨first, last⟩, size, flags, control, diagnostic⟩

theorem unpack_ok {b : List UInt8} {h : Header} :
    unpack b = .ok h ↔ h.encoded = b ∧ h.WellFormed := by
  have checks : unpack b = .ok h ↔
      (b.length = headerSize ∧ b.take 4 = magic ∧ get b 4 2 = 1 ∧ get b 58 2 = 0) ∧
        (fieldsOf b).WellFormed ∧ fieldsOf b = h := by
    rw [unpack, Reader.check_ok]
    dsimp only
    rw [Reader.check_ok, Reader.check_ok, Reader.check_ok, wellFormed_iff]
    simp only [not_or, not_not, and_assoc, pure, Except.pure, Except.ok.injEq]
  rw [checks]
  constructor
  · rintro ⟨⟨length, wire⟩, formed, same⟩
    exact ⟨(encoded_eq length).mpr ⟨wire, same⟩, same ▸ formed⟩
  · rintro ⟨written, formed⟩
    have length : b.length = headerSize := written ▸ length_encoded h
    obtain ⟨wire, same⟩ := (encoded_eq length).mp written
    exact ⟨⟨length, wire⟩, same.symm ▸ formed, same⟩

/-- The header codec, both ways round, and what it refuses. -/
theorem header_codec :
    (∀ h : Header, h.WellFormed → ∃ b, h.pack = .ok b ∧ b.length = headerSize ∧ unpack b = .ok h) ∧
    (∀ b : List UInt8, b.length = headerSize → ∀ h, unpack b = .ok h → h.pack = .ok b) ∧
    (∀ (h : Header) (b : List UInt8), h.pack = .ok b → ¬ h.WellFormed → ∃ e, unpack b = .error e) := by
  refine ⟨?_, ?_, ?_⟩
  · intro h formed
    exact ⟨h.encoded, pack_ok.mpr ⟨formed.size, rfl⟩, length_encoded h, unpack_ok.mpr ⟨rfl, formed⟩⟩
  · intro b _ h accepted
    obtain ⟨written, formed⟩ := unpack_ok.mp accepted
    exact pack_ok.mpr ⟨formed.size, written⟩
  · intro h b packed malformed
    obtain ⟨_, written⟩ := pack_ok.mp packed
    cases read : unpack b with
    | error e => exact ⟨e, rfl⟩
    | ok h' =>
      obtain ⟨written', formed⟩ := unpack_ok.mp read
      have same : h = h' := encoded_injective (written.trans written'.symm)
      exact absurd (same ▸ formed) malformed

end Video

import RkmoonKvm.Library.LittleEndian

/-! Signed numbers as byte strings of a fixed width, in two's complement and most significant byte
first: one number, and a row of numbers without anything between them. -/
namespace Signed

def InRange (width : Nat) (n : Int) : Prop := -(256 ^ width : Nat) ≤ 2 * n ∧ 2 * n < (256 ^ width : Nat)

instance (width : Nat) (n : Int) : Decidable (InRange width n) :=
  inferInstanceAs (Decidable (_ ∧ _))

/-- `none` for a number that does not fit. -/
def pack (width : Nat) (n : Int) : Option (List UInt8) :=
  if InRange width n then some (LittleEndian.bytes width (n % (256 ^ width : Nat)).toNat).reverse else none

def unpack (bytes : List UInt8) : Int :=
  let v := LittleEndian.value bytes.reverse
  if 2 * v < 256 ^ bytes.length then v else v - (256 ^ bytes.length : Nat)

theorem pack_range {width : Nat} {n : Int} (range : InRange width n) :
    pack width n = some (LittleEndian.bytes width (n % (256 ^ width : Nat)).toNat).reverse := if_pos range

theorem length_pack {width : Nat} {n : Int} {bytes : List UInt8} (packed : pack width n = some bytes) :
    bytes.length = width := by
  unfold pack at packed
  split at packed
  · cases packed
    simp
  · cases packed

theorem unpack_pack {width : Nat} {n : Int} {bytes : List UInt8} (packed : pack width n = some bytes) :
    unpack bytes = n := by
  have length := length_pack packed
  unfold pack at packed
  split at packed
  · rename_i range
    cases packed
    obtain ⟨low, high⟩ := range
    unfold unpack
    dsimp only
    simp only [length, List.reverse_reverse, LittleEndian.value_bytes]
    have positive : 0 < 256 ^ width := Nat.pow_pos (by decide)
    generalize 256 ^ width = w at low high positive
    have residue : (n % (w : Int)).toNat % w = (n % (w : Int)).toNat := by
      have below := Int.emod_lt_of_pos n (show (0 : Int) < w by omega)
      exact Nat.mod_eq_of_lt (by omega)
    rw [residue]
    by_cases up : 0 ≤ n
    · have same : n % (w : Int) = n := Int.emod_eq_of_lt up (by omega)
      rw [same, if_pos (by omega)]
      omega
    · have wrapped : n % (w : Int) = n + w := by
        rw [← Int.add_emod_right]
        exact Int.emod_eq_of_lt (by omega) (by omega)
      rw [wrapped, if_neg (by omega)]
      omega
  · cases packed

def packAll (width : Nat) (ns : List Int) : Option (List UInt8) := (ns.mapM (pack width)).map List.flatten

def unpackFirst (width : Nat) : Nat → List UInt8 → List Int
  | 0, _ => []
  | k + 1, bytes => unpack (bytes.take width) :: unpackFirst width k (bytes.drop width)

def unpackAll (width : Nat) (bytes : List UInt8) : List Int :=
  unpackFirst width (bytes.length / width) bytes

theorem packAll_cons (width : Nat) (n : Int) (ns : List Int) : packAll width (n :: ns) =
    (pack width n).bind fun first => (packAll width ns).map fun rest => first ++ rest := by
  cases one : pack width n with
  | none => simp [packAll, one]
  | some first => cases each : ns.mapM (pack width) <;> simp [packAll, one, each]

theorem packAll_split {width : Nat} {n : Int} {ns : List Int} {bytes : List UInt8}
    (packed : packAll width (n :: ns) = some bytes) :
    ∃ first rest, pack width n = some first ∧ packAll width ns = some rest ∧ bytes = first ++ rest := by
  rw [packAll_cons] at packed
  obtain ⟨first, one, mapped⟩ := Option.bind_eq_some_iff.mp packed
  obtain ⟨rest, others, joined⟩ := Option.map_eq_some_iff.mp mapped
  exact ⟨first, rest, one, others, joined.symm⟩

theorem packAll_range {width : Nat} {ns : List Int} (range : ∀ n ∈ ns, InRange width n) :
    ∃ bytes, packAll width ns = some bytes := by
  induction ns with
  | nil => exact ⟨[], rfl⟩
  | cons n ns ih =>
    obtain ⟨first, others⟩ := List.forall_mem_cons.mp range
    obtain ⟨rest, packed⟩ := ih others
    rw [packAll_cons, pack_range first, packed]
    exact ⟨_, rfl⟩

theorem length_packAll {width : Nat} {ns : List Int} {bytes : List UInt8}
    (packed : packAll width ns = some bytes) : bytes.length = width * ns.length := by
  induction ns generalizing bytes with
  | nil =>
    cases packed
    rfl
  | cons n ns ih =>
    obtain ⟨first, rest, one, others, rfl⟩ := packAll_split packed
    rw [List.length_append, length_pack one, ih others, List.length_cons, Nat.mul_succ, Nat.add_comm]

theorem unpackFirst_packAll {width : Nat} {ns : List Int} {bytes : List UInt8}
    (packed : packAll width ns = some bytes) : unpackFirst width ns.length bytes = ns := by
  induction ns generalizing bytes with
  | nil => rfl
  | cons n ns ih =>
    obtain ⟨first, rest, one, others, rfl⟩ := packAll_split packed
    have width : first.length = width := length_pack one
    rw [List.length_cons, unpackFirst, ← width, List.take_left, List.drop_left, unpack_pack one, width,
      ih others]

theorem unpackAll_packAll {width : Nat} (wide : 0 < width) {ns : List Int} {bytes : List UInt8}
    (packed : packAll width ns = some bytes) : unpackAll width bytes = ns := by
  rw [unpackAll, length_packAll packed, Nat.mul_div_cancel_left _ wide]
  exact unpackFirst_packAll packed

end Signed

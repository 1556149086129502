import Mathlib.Algebra.Order.Ring.Nat
import Mathlib.Data.List.Basic

/-! Numbers as byte strings of a fixed width, least significant byte first, and the
loops that write and read them in place inside a longer buffer. -/
namespace LittleEndian

def bytes : Nat → Nat → List UInt8
  | 0, _ => []
  | n + 1, v => UInt8.ofNat v :: bytes n (v / 256)

def value : List UInt8 → Nat
  | [] => 0
  | b :: bs => b.toNat + 256 * value bs

@[simp] theorem length_bytes (n v : Nat) : (bytes n v).length = n := by
  induction n generalizing v with
  | zero => rfl
  | succ n ih => rw [bytes, List.length_cons, ih]

theorem value_bytes (n v : Nat) : value (bytes n v) = v % 256 ^ n := by
  induction n generalizing v with
  | zero => rw [bytes, value, Nat.pow_zero, Nat.mod_one]
  | succ n ih =>
    have byte : (UInt8.ofNat v).toNat = v % 256 := UInt8.toNat_ofNat'
    rw [bytes, value, ih, byte, Nat.pow_succ' (n := n), Nat.mod_mul]

theorem value_lt (bs : List UInt8) : value bs < 256 ^ bs.length := by
  induction bs with
  | nil => exact Nat.one_pos
  | cons b bs ih =>
    have byte := b.toNat_lt
    rw [value, List.length_cons, Nat.pow_succ]
    omega

theorem bytes_value (bs : List UInt8) : bytes bs.length (value bs) = bs := by
  induction bs with
  | nil => rfl
  | cons b bs ih =>
    have byte := b.toNat_lt
    have high : (b.toNat + 256 * value bs) / 256 = value bs := by omega
    have low : UInt8.ofNat (b.toNat + 256 * value bs) = b := by
      apply UInt8.toNat_inj.mp
      rw [UInt8.toNat_ofNat']
      omega
    rw [List.length_cons, value, bytes, high, low, ih]

theorem value_append (as bs : List UInt8) :
    value (as ++ bs) = value as + 256 ^ as.length * value bs := by
  induction as with
  | nil => rw [List.nil_append, value, List.length_nil, Nat.pow_zero, Nat.one_mul, Nat.zero_add]
  | cons a as ih =>
    rw [List.cons_append, value, value, ih, List.length_cons, Nat.pow_succ', Nat.mul_add,
      Nat.mul_assoc, Nat.add_assoc]

theorem bytes_succ (n v : Nat) : bytes (n + 1) v = bytes n v ++ [UInt8.ofNat (v / 256 ^ n)] := by
  induction n generalizing v with
  | zero => rw [bytes, bytes, bytes, Nat.pow_zero, Nat.div_one, List.nil_append]
  | succ n ih => rw [bytes, ih, bytes, List.cons_append, Nat.div_div_eq_div_mul, Nat.pow_succ']

section buffer

/-- The write loop: byte `i` of `v` goes to place `p + i`. -/
def put (b : List UInt8) (p : Nat) (v : UInt64) (n : Nat) : List UInt8 :=
  (List.range n).foldl (fun b i => b.set (p + i) (v >>> UInt64.ofNat (i * 8)).toUInt8) b

def get (b : List UInt8) (p n : Nat) : UInt64 :=
  (List.range n).foldl
    (fun v i => v ||| (b.getD (p + i) 0).toUInt64 <<< UInt64.ofNat (i * 8)) 0

theorem put_succ (b : List UInt8) (p : Nat) (v : UInt64) (n : Nat) :
    put b p v (n + 1) = (put b p v n).set (p + n) (v >>> UInt64.ofNat (n * 8)).toUInt8 := by
  rw [put, List.range_succ, List.foldl_append, List.foldl_cons, List.foldl_nil, put]

theorem get_succ (b : List UInt8) (p n : Nat) :
    get b p (n + 1) = get b p n ||| (b.getD (p + n) 0).toUInt64 <<< UInt64.ofNat (n * 8) := by
  rw [get, List.range_succ, List.foldl_append, List.foldl_cons, List.foldl_nil, get]

theorem toNat_shift {n : Nat} (small : n < 8) : (UInt64.ofNat (n * 8)).toNat % 64 = n * 8 := by
  rw [UInt64.toNat_ofNat']
  omega

theorem shifted_byte (v : UInt64) {n : Nat} (small : n < 8) :
    (v >>> UInt64.ofNat (n * 8)).toUInt8 = UInt8.ofNat (v.toNat / 256 ^ n) := by
  have power : (2 : Nat) ^ (n * 8) = 256 ^ n := by rw [Nat.mul_comm, Nat.pow_mul]
  apply UInt8.toNat_inj.mp
  rw [UInt64.toNat_toUInt8, UInt64.toNat_shiftRight, toNat_shift small, Nat.shiftRight_eq_div_pow,
    power, UInt8.toNat_ofNat']

theorem put_next (as cs : List UInt8) (v : UInt64) {n : Nat} (small : n ≤ 8)
    (room : n ≤ cs.length) : put (as ++ cs) as.length v n = as ++ bytes n v.toNat ++ cs.drop n := by
  induction n with
  | zero => rw [put, List.range_zero, List.foldl_nil, bytes, List.append_nil, List.drop_zero]
  | succ n ih =>
    have ended : (as ++ bytes n v.toNat).length = as.length + n := by simp
    have rest : cs.drop n = cs[n] :: cs.drop (n + 1) := List.drop_eq_getElem_cons (by omega)
    rw [put_succ, ih (by omega) (by omega), shifted_byte v (by omega), bytes_succ, ← ended,
      List.set_append_right _ _ (Nat.le_refl _), Nat.sub_self, rest, List.set_cons_zero]
    simp only [List.append_assoc, List.cons_append, List.nil_append]

theorem get_value (b : List UInt8) (p : Nat) {n : Nat} (small : n ≤ 8) (room : p + n ≤ b.length) :
    (get b p n).toNat = value ((b.drop p).take n) := by
  induction n with
  | zero => rfl
  | succ n ih =>
    have power : (2 : Nat) ^ (n * 8) = 256 ^ n := by rw [Nat.mul_comm, Nat.pow_mul]
    have length : ((b.drop p).take n).length = n := by
      rw [List.length_take, List.length_drop]
      omega
    have low := value_lt ((b.drop p).take n)
    have inside : n < (b.drop p).length := by
      rw [List.length_drop]
      omega
    have byte : b.getD (p + n) 0 = (b.drop p)[n] := by
      rw [List.getElem_drop, List.getD_eq_getElem?_getD, List.getElem?_eq_getElem (by omega),
        Option.getD_some]
    have fits : (b.drop p)[n].toNat * 256 ^ n < 2 ^ 64 := by
      have bound := (b.drop p)[n].toNat_lt
      calc (b.drop p)[n].toNat * 256 ^ n < 256 * 256 ^ n :=
            Nat.mul_lt_mul_of_pos_right bound (Nat.pow_pos (by decide))
        _ = 256 ^ (n + 1) := (Nat.pow_succ' ..).symm
        _ ≤ 256 ^ 8 := Nat.pow_le_pow_right (by decide) small
        _ = 2 ^ 64 := by decide
    have high : ((b.drop p)[n].toUInt64 <<< UInt64.ofNat (n * 8)).toNat =
        256 ^ n * (b.drop p)[n].toNat := by
      rw [UInt64.toNat_shiftLeft, toNat_shift small, UInt8.toNat_toUInt64, Nat.shiftLeft_eq, power,
        Nat.mod_eq_of_lt fits, Nat.mul_comm]
    rw [length] at low
    have joined := Nat.shiftLeft_add_eq_or_of_lt (i := n * 8) (power ▸ low) (b.drop p)[n].toNat
    rw [get_succ, UInt64.toNat_or, ih (by omega) (by omega), byte, high,
      List.take_succ_eq_append_getElem inside, value_append, length, value, value]
    rw [Nat.shiftLeft_eq, power, Nat.mul_comm] at joined
    rw [Nat.mul_zero, Nat.add_zero, Nat.or_comm, ← joined, Nat.add_comm]

theorem get_lt (b : List UInt8) (p : Nat) {n : Nat} (small : n ≤ 8) (room : p + n ≤ b.length) :
    (get b p n).toNat < 256 ^ n := by
  have bound := value_lt ((b.drop p).take n)
  have length : ((b.drop p).take n).length = n := by
    rw [List.length_take, List.length_drop]
    omega
  rw [length] at bound
  rwa [get_value b p small room]

end buffer

section fields

/-- A record of fields: the width and the value of each, in order. -/
def encode (fs : List (Nat × Nat)) : List UInt8 := fs.flatMap fun f => bytes f.1 f.2

def total (fs : List (Nat × Nat)) : Nat := (fs.map Prod.fst).sum

@[simp] theorem total_nil : total [] = 0 := rfl

@[simp] theorem total_cons (f : Nat × Nat) (fs : List (Nat × Nat)) :
    total (f :: fs) = f.1 + total fs := by
  rw [total, List.map_cons, List.sum_cons, total]

def Fits (fs : List (Nat × Nat)) : Prop := ∀ f ∈ fs, f.1 ≤ 8 ∧ f.2 < 256 ^ f.1

def Reads (b : List UInt8) : Nat → List (Nat × Nat) → Prop
  | _, [] => True
  | p, f :: fs => (get b p f.1).toNat = f.2 ∧ Reads b (p + f.1) fs

@[simp] theorem length_encode (fs : List (Nat × Nat)) : (encode fs).length = total fs := by
  induction fs with
  | nil => rfl
  | cons f fs ih =>
    rw [encode, List.flatMap_cons, List.length_append, length_bytes, ← encode, ih, total_cons]

theorem encode_append (fs gs : List (Nat × Nat)) : encode (fs ++ gs) = encode fs ++ encode gs := by
  rw [encode, List.flatMap_append, encode, encode]

theorem bytes_eq_iff {n v : Nat} {bs : List UInt8} (length : bs.length = n) (fit : v < 256 ^ n) :
    bytes n v = bs ↔ value bs = v := by
  constructor
  · rintro rfl
    rw [value_bytes, Nat.mod_eq_of_lt fit]
  · rintro rfl
    rw [← length, bytes_value]

/-- A buffer is the encoding of a record exactly when each field is read back from its place. -/
theorem encode_eq_iff {b : List UInt8} {fs : List (Nat × Nat)} (fits : Fits fs) {p : Nat}
    (length : b.length = p + total fs) : encode fs = b.drop p ↔ Reads b p fs := by
  induction fs generalizing p with
  | nil =>
    have all : b.drop p = [] := List.drop_eq_nil_of_le (Nat.le_of_eq length)
    rw [all]
    exact ⟨fun _ => trivial, fun _ => rfl⟩
  | cons f fs ih =>
    obtain ⟨⟨small, fit⟩, fits⟩ := List.forall_mem_cons.mp fits
    rw [total_cons] at length
    have head : ((b.drop p).take f.1).length = f.1 := by
      rw [List.length_take, List.length_drop]
      omega
    have halves : b.drop p = (b.drop p).take f.1 ++ b.drop (p + f.1) := by
      rw [← List.drop_drop, List.take_append_drop]
    rw [Reads, get_value b p small (by omega), ← bytes_eq_iff head fit,
      ← ih fits (by rw [length, Nat.add_assoc]), encode, List.flatMap_cons, ← encode]
    constructor
    · intro same
      rw [halves] at same
      exact List.append_inj same (by rw [length_bytes, head])
    · rintro ⟨first, rest⟩
      rw [first, rest, ← halves]

theorem put_encode {fs : List (Nat × Nat)} {m p : Nat} (v : UInt64) {n : Nat} (place : p = total fs)
    (small : n ≤ 8) (room : n ≤ m) : put (encode fs ++ List.replicate m 0) p v n =
      encode (fs ++ [(n, v.toNat)]) ++ List.replicate (m - n) 0 := by
  have next := put_next (encode fs) (List.replicate m 0) v small (by simpa using room)
  rw [length_encode, List.drop_replicate] at next
  rw [place, next, encode_append, encode, encode, List.flatMap_singleton]

theorem bytes_zero (n : Nat) : bytes n 0 = List.replicate n 0 := by
  induction n with
  | zero => rfl
  | succ n ih => rw [bytes, Nat.zero_div, ih, List.replicate_succ]; rfl

theorem encode_gap (fs : List (Nat × Nat)) {m n : Nat} (room : n ≤ m) :
    encode fs ++ List.replicate m 0 = encode (fs ++ [(n, 0)]) ++ List.replicate (m - n) 0 := by
  rw [encode_append, List.append_assoc, encode, encode, List.flatMap_singleton, bytes_zero,
    List.replicate_append_replicate, Nat.add_sub_cancel' room]

end fields

end LittleEndian

import Mathlib.Data.List.Basic

/-! Base64 with padding, on lists of bytes. -/
namespace Base64

def ascii (text : String) : List UInt8 := text.toList.map fun c => c.toNat.toUInt8

def alphabet : List UInt8 := ascii "ABCDEFGHIJKLMNOPQRSTUVWXYZabcdefghijklmnopqrstuvwxyz0123456789+/"

def digit (n : Nat) : UInt8 := alphabet.getD (n % 64) 0

def encode : List UInt8 → List UInt8
  | [] => []
  | [a] => digit (a.toNat / 4) :: digit (a.toNat % 4 * 16) :: ascii "=="
  | [a, b] =>
    digit (a.toNat / 4) :: digit (a.toNat % 4 * 16 + b.toNat / 16) :: digit (b.toNat % 16 * 4) :: ascii "="
  | a :: b :: c :: rest =>
    digit (a.toNat / 4) :: digit (a.toNat % 4 * 16 + b.toNat / 16) ::
      digit (b.toNat % 16 * 4 + c.toNat / 64) :: digit c.toNat :: encode rest

theorem length_encode (plain : List UInt8) : (encode plain).length = 4 * ((plain.length + 2) / 3) := by
  induction plain using encode.induct with
  | case1 => rfl
  | case2 a =>
    have padding : (ascii "==").length = 2 := by decide
    simp only [encode, List.length_cons, List.length_nil, padding]
  | case3 a b =>
    have padding : (ascii "=").length = 1 := by decide
    simp only [encode, List.length_cons, List.length_nil, padding]
  | case4 a b c rest ih =>
    simp only [encode, List.length_cons, ih]
    omega

/-! The way back. -/

def value (d : UInt8) : Nat := alphabet.idxOf d

def padding : UInt8 := 0x3D

def decode : List UInt8 → List UInt8
  | a :: b :: c :: d :: rest =>
    if c = padding then [UInt8.ofNat (value a * 4 + value b / 16)]
    else if d = padding then
      [UInt8.ofNat (value a * 4 + value b / 16), UInt8.ofNat (value b % 16 * 16 + value c / 4)]
    else
      UInt8.ofNat (value a * 4 + value b / 16) :: UInt8.ofNat (value b % 16 * 16 + value c / 4) ::
        UInt8.ofNat (value c % 4 * 64 + value d) :: decode rest
  | _ => []

theorem digits_known : ∀ n < 64, value (digit n) = n ∧ digit n ≠ padding := by decide +kernel

theorem value_digit (n : Nat) : value (digit n) = n % 64 := by
  have same : digit n = digit (n % 64) := by rw [digit, digit, Nat.mod_mod]
  rw [same]
  exact (digits_known (n % 64) (Nat.mod_lt n (by decide))).1

theorem digit_ne_padding (n : Nat) : digit n ≠ padding := by
  have same : digit n = digit (n % 64) := by rw [digit, digit, Nat.mod_mod]
  rw [same]
  exact (digits_known (n % 64) (Nat.mod_lt n (by decide))).2

theorem ofNat_parts {a : UInt8} {n : Nat} (same : n = a.toNat) : UInt8.ofNat n = a := by
  rw [same, UInt8.ofNat_toNat]

theorem first_byte (a : UInt8) (low : Nat) (few : low < 16) :
    UInt8.ofNat (value (digit (a.toNat / 4)) * 4 + value (digit (a.toNat % 4 * 16 + low)) / 16) = a := by
  have small := a.toNat_lt
  rw [value_digit, value_digit]
  exact ofNat_parts (by omega)

theorem second_byte (high : Nat) (b : UInt8) (low : Nat) (few : low < 4) :
    UInt8.ofNat (value (digit (high * 16 + b.toNat / 16)) % 16 * 16 +
      value (digit (b.toNat % 16 * 4 + low)) / 4) = b := by
  have small := b.toNat_lt
  rw [value_digit, value_digit]
  exact ofNat_parts (by omega)

theorem third_byte (high : Nat) (c : UInt8) :
    UInt8.ofNat (value (digit (high * 4 + c.toNat / 64)) % 4 * 64 + value (digit c.toNat)) = c := by
  have small := c.toNat_lt
  rw [value_digit, value_digit]
  exact ofNat_parts (by omega)

theorem decode_encode (plain : List UInt8) : decode (encode plain) = plain := by
  induction plain using encode.induct with
  | case1 => rfl
  | case2 a =>
    have first := first_byte a 0 (by decide)
    rw [Nat.add_zero] at first
    exact congrArg (fun a => [a]) first
  | case3 a b =>
    have first := first_byte a (b.toNat / 16) (by have := b.toNat_lt; omega)
    have second := second_byte (a.toNat % 4) b 0 (by decide)
    rw [Nat.add_zero] at second
    have unpadded := digit_ne_padding (b.toNat % 16 * 4)
    show (if digit (b.toNat % 16 * 4) = padding then _ else if padding = padding then _ else _) = _
    rw [if_neg unpadded, if_pos rfl, first, second]
  | case4 a b c rest ih =>
    have first := first_byte a (b.toNat / 16) (by have := b.toNat_lt; omega)
    have second := second_byte (a.toNat % 4) b (c.toNat / 64) (by have := c.toNat_lt; omega)
    have third := third_byte (b.toNat % 16) c
    rw [encode, decode, if_neg (digit_ne_padding _), if_neg (digit_ne_padding _), first, second, third, ih]

theorem encode_injective {plain plain' : List UInt8} (same : encode plain = encode plain') : plain = plain' := by
  rw [← decode_encode plain, same, decode_encode]

end Base64

import Mathlib.Data.List.Basic
import Mathlib.Tactic.Linarith

/-! Blocks one behind the other, each a byte of tag and length and as many bytes, read back by a walk
over the positions of a longer string; and strings whose bytes add up to a multiple of 256. -/
namespace Blocks

def total (bytes : List UInt8) : Nat := (bytes.map UInt8.toNat).sum

def checksum (bytes : List UInt8) : UInt8 := UInt8.ofNat ((-(total bytes : Int)) % 256).toNat

theorem total_append (front rest : List UInt8) : total (front ++ rest) = total front + total rest := by
  simp [total]

theorem total_checksum (bytes : List UInt8) : total (bytes ++ [checksum bytes]) % 256 = 0 := by
  have last : total [checksum bytes] = ((-(total bytes : Int)) % 256).toNat := by
    have small : ((-(total bytes : Int)) % 256).toNat < 256 := by omega
    rw [total, List.map_singleton, List.sum_singleton, checksum, UInt8.toNat_ofNat']
    exact Nat.mod_eq_of_lt small
  rw [total_append, last]
  omega

structure Block where
  tag : Fin 8
  payload : List UInt8
  short : payload.length < 32

def Block.header (b : Block) : UInt8 := UInt8.ofNat (b.tag * 32 + b.payload.length)

def encode (blocks : List Block) : List UInt8 := blocks.flatMap fun b => b.header :: b.payload

theorem length_le_encode (blocks : List Block) : blocks.length ≤ (encode blocks).length := by
  induction blocks with
  | nil => exact Nat.le_refl 0
  | cons b blocks ih =>
    rw [encode, List.flatMap_cons, ← encode, List.length_append, List.length_cons, List.length_cons]
    omega

theorem encode_append (blocks others : List Block) : encode (blocks ++ others) = encode blocks ++ encode others := by
  simp [encode]

theorem header_parts (b : Block) :
    (b.header &&& 31).toNat = b.payload.length ∧ (b.header >>> 5).toNat = b.tag := by
  have all : ∀ (tag : Fin 8) (length : Fin 32),
      (UInt8.ofNat (tag * 32 + length) &&& 31).toNat = length ∧
        (UInt8.ofNat (tag * 32 + length) >>> 5).toNat = tag := by decide
  exact all b.tag ⟨b.payload.length, b.short⟩

section walk
variable {A : Type} (read : Nat → List UInt8 → Option (List A))

/-- From a place to the stop, for at most the given number of blocks. -/
def walk (bytes : List UInt8) (stop : Nat) : Nat → Nat → Option (List A)
  | 0, pos => if pos < stop then none else some []
  | fuel + 1, pos =>
    if pos < stop then do
      let header ← bytes[pos]?
      let length := (header &&& 31).toNat
      let found ← read (header >>> 5).toNat ((bytes.drop (pos + 1)).take length)
      let rest ← walk bytes stop fuel (pos + 1 + length)
      return found ++ rest
    else some []

theorem walk_encode (front : List UInt8) {entries : List (Block × List A)} {bytes rest : List UInt8}
    {fuel stop : Nat} (reads : ∀ e ∈ entries, read e.1.tag e.1.payload = some e.2)
    (around : bytes = front ++ encode (entries.map Prod.fst) ++ rest)
    (end_ : stop = front.length + (encode (entries.map Prod.fst)).length) (enough : entries.length ≤ fuel) :
    walk read bytes stop fuel front.length = some (entries.flatMap Prod.snd) := by
  induction entries generalizing front fuel with
  | nil =>
    have done : ¬ front.length < stop := by simp [end_, encode]
    cases fuel <;> simp [walk, done]
  | cons e entries ih =>
    obtain ⟨b, found⟩ := e
    obtain ⟨first, others⟩ := List.forall_mem_cons.mp reads
    cases fuel with
    | zero => cases enough
    | succ fuel =>
      have split : encode (((b, found) :: entries).map Prod.fst) =
          b.header :: (b.payload ++ encode (entries.map Prod.fst)) := rfl
      rw [split] at around end_
      obtain ⟨length, tag⟩ := header_parts b
      have more : front.length < stop := by simp [end_]
      have header : bytes[front.length]? = some b.header := by simp [around]
      have payload : (bytes.drop (front.length + 1)).take b.payload.length = b.payload := by
        simp [around, ← List.drop_drop]
      have next : walk read bytes stop fuel (front.length + 1 + b.payload.length) =
          some (entries.flatMap Prod.snd) := by
        have place : (front ++ b.header :: b.payload).length = front.length + 1 + b.payload.length := by
          simp only [List.length_append, List.length_cons]
          omega
        rw [← place]
        apply ih _ others
        · simp [around]
        · rw [end_, place]
          simp only [List.length_cons, List.length_append]
          omega
        · exact Nat.le_of_succ_le_succ enough
      simp only [walk, if_pos more, header, Option.bind_eq_bind, Option.bind_some, length, tag, payload, first, next]
      rfl

end walk

end Blocks

import Mathlib.Data.List.Basic

/-! A buffer moved in pieces of any size: the place in it and the number of items
still to move. -/
namespace Transfer

variable {A : Type}

structure Io (A : Type) where
  data : List A
  place : Nat
  n : Nat
  within : place + n = data.length

namespace Io

def start (data : List A) : Io A := ⟨data, 0, data.length, Nat.zero_add _⟩

def moved (io : Io A) : List A := io.data.take io.place

def left (io : Io A) : List A := io.data.drop io.place

/-- The first `k` of the items that are left have gone out. -/
def advance (io : Io A) (k : Nat) (room : k ≤ io.n) : Io A where
  data := io.data
  place := io.place + k
  n := io.n - k
  within := by
    have within := io.within
    omega

def fill (io : Io A) (items : List A) (room : items.length ≤ io.n) : Io A where
  data := io.data.take io.place ++ items ++ io.data.drop (io.place + items.length)
  place := io.place + items.length
  n := io.n - items.length
  within := by
    have within := io.within
    simp only [List.length_append, List.length_take, List.length_drop]
    omega

@[simp] theorem start_n (data : List A) : (start data).n = data.length := rfl

@[simp] theorem start_moved (data : List A) : (start data).moved = [] := rfl

@[simp] theorem start_left (data : List A) : (start data).left = data := rfl

@[simp] theorem advance_n (io : Io A) (k : Nat) (room : k ≤ io.n) :
    (io.advance k room).n = io.n - k := rfl

theorem length_moved (io : Io A) : io.moved.length = io.place := by
  have within := io.within
  rw [moved, List.length_take]
  omega

theorem length_left (io : Io A) : io.left.length = io.n := by
  have within := io.within
  rw [left, List.length_drop]
  omega

theorem advance_left (io : Io A) (k : Nat) (room : k ≤ io.n) :
    io.left.take k ++ (io.advance k room).left = io.left := by
  rw [left, left, advance, ← List.drop_drop, List.take_append_drop]

theorem fill_moved (io : Io A) (items : List A) (room : items.length ≤ io.n) :
    (io.fill items room).moved = io.moved ++ items := by
  have length : (io.moved ++ items).length = io.place + items.length := by
    rw [List.length_append, length_moved]
  exact List.take_left' length

theorem fill_length (io : Io A) (items : List A) (room : items.length ≤ io.n) :
    (io.fill items room).data.length = io.data.length := by
  have within := io.within
  have filled : io.place + items.length + (io.n - items.length) =
      (io.fill items room).data.length := (io.fill items room).within
  omega

theorem moved_all (io : Io A) (finished : io.n = 0) : io.moved = io.data := by
  have within := io.within
  rw [moved, List.take_of_length_le (by omega)]

theorem left_none (io : Io A) (finished : io.n = 0) : io.left = [] := by
  have length := io.length_left
  exact List.eq_nil_of_length_eq_zero (length.trans finished)

end Io

end Transfer

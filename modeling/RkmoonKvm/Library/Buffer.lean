import Mathlib.Data.List.Basic
import Mathlib.Logic.Basic

/-! Byte buffers of a fixed size, whose accesses are defined inside the buffer only,
and programs that fill a set of places with the values of a function. -/
namespace Buffers

/-- A buffer and its contents; nothing is read from the places behind its end. -/
structure Buffer where
  size : Nat
  byte : Nat → UInt8

namespace Buffer

def get (b : Buffer) (i : Nat) : Option UInt8 := if i < b.size then some (b.byte i) else none

def set (i : Nat) (v : UInt8) (b : Buffer) : Option Buffer :=
  if i < b.size then some { b with byte := fun k => if k = i then v else b.byte k } else none

def fill (start : Nat) (v : UInt8) (len : Nat) (b : Buffer) : Option Buffer :=
  if start + len ≤ b.size then
    some { b with byte := fun k => if start ≤ k ∧ k < start + len then v else b.byte k }
  else none

def copy (start : Nat) (src : Buffer) (origin len : Nat) (b : Buffer) : Option Buffer :=
  if start + len ≤ b.size ∧ origin + len ≤ src.size then
    some { b with byte := fun k =>
      if start ≤ k ∧ k < start + len then src.byte (origin + (k - start)) else b.byte k }
  else none

end Buffer

/-- The program is defined on every buffer of the size, writes the values of `f` in the
places of `A`, and leaves the others as they were. -/
def Fills (n : Nat) (A : Nat → Prop) (f : Nat → UInt8) (op : Buffer → Option Buffer) : Prop :=
  ∀ b : Buffer, b.size = n → ∃ b' : Buffer, op b = some b' ∧ b'.size = n ∧
    ∀ i, (A i → b'.byte i = f i) ∧ (¬ A i → b'.byte i = b.byte i)

variable {n : Nat} {A B : Nat → Prop} {f g : Nat → UInt8} {op op' : Buffer → Option Buffer}

theorem fills_set {i : Nat} (inside : i < n) : Fills n (· = i) f (Buffer.set i (f i)) := by
  rintro b rfl
  refine ⟨_, if_pos inside, rfl, fun k => ⟨?_, ?_⟩⟩
  · rintro rfl
    exact if_pos rfl
  · exact fun other => if_neg other

theorem fills_fill {start len : Nat} {v : UInt8} (inside : start + len ≤ n)
    (value : ∀ k, start ≤ k → k < start + len → f k = v) :
    Fills n (fun k => start ≤ k ∧ k < start + len) f (Buffer.fill start v len) := by
  rintro b rfl
  refine ⟨_, if_pos inside, rfl, fun k => ⟨fun within => ?_, fun other => if_neg other⟩⟩
  exact (if_pos within).trans (value k within.1 within.2).symm

theorem fills_copy {start origin len : Nat} {src : Buffer} (inside : start + len ≤ n)
    (read : origin + len ≤ src.size) (value : ∀ j, j < len → f (start + j) = src.byte (origin + j)) :
    Fills n (fun k => start ≤ k ∧ k < start + len) f (Buffer.copy start src origin len) := by
  rintro b rfl
  refine ⟨_, if_pos ⟨inside, read⟩, rfl, fun k => ⟨fun within => ?_, fun other => if_neg other⟩⟩
  obtain ⟨j, rfl⟩ := Nat.exists_eq_add_of_le within.1
  refine (if_pos within).trans ?_
  rw [Nat.add_sub_cancel_left, value j (by omega)]

theorem fills_skip : Fills n (fun _ => False) f some :=
  fun b size => ⟨b, rfl, size, fun _ => ⟨False.elim, fun _ => rfl⟩⟩

theorem fills_congr (h : Fills n A f op) (same : ∀ i, A i ↔ B i) : Fills n B f op := by
  obtain rfl : A = B := funext fun i => propext (same i)
  exact h

theorem fills_then (h : Fills n A f op) (h' : Fills n B f op') :
    Fills n (fun i => A i ∨ B i) f (fun b => op b >>= op') := by
  intro b size
  obtain ⟨b₁, run, size₁, bytes₁⟩ := h b size
  obtain ⟨b₂, run', size₂, bytes₂⟩ := h' b₁ size₁
  have both : (op b >>= op') = some b₂ := by
    rw [run]
    exact run'
  refine ⟨b₂, both, size₂, fun i => ⟨fun either => ?_, fun neither => ?_⟩⟩
  · by_cases second : B i
    · exact (bytes₂ i).1 second
    · rw [(bytes₂ i).2 second]
      exact (bytes₁ i).1 (either.resolve_right second)
  · obtain ⟨first, second⟩ := not_or.mp neither
    rw [(bytes₂ i).2 second, (bytes₁ i).2 first]

theorem fills_loop {α : Type} {as : List α} {body : α → Buffer → Option Buffer}
    {A : α → Nat → Prop} (h : ∀ a ∈ as, Fills n (A a) f (body a)) :
    Fills n (fun i => ∃ a ∈ as, A a i) f (fun b => as.foldlM (fun b a => body a b) b) := by
  induction as with
  | nil => exact fills_congr fills_skip (by simp)
  | cons a as ih =>
    obtain ⟨first, rest⟩ := List.forall_mem_cons.mp h
    exact fills_congr (fills_then first (ih rest)) (by simp)

theorem fills_unique (h : Fills n A f op) (h' : Fills n A f op') (b : Buffer) (size : b.size = n) :
    op b = op' b := by
  obtain ⟨b₁, run, size₁, bytes₁⟩ := h b size
  obtain ⟨b₂, run', size₂, bytes₂⟩ := h' b size
  have same : b₁ = b₂ := by
    cases b₁
    cases b₂
    simp only [Buffer.mk.injEq]
    refine ⟨size₁.trans size₂.symm, funext fun i => ?_⟩
    by_cases filled : A i
    · exact ((bytes₁ i).1 filled).trans ((bytes₂ i).1 filled).symm
    · exact ((bytes₁ i).2 filled).trans ((bytes₂ i).2 filled).symm
  rw [run, run', same]

theorem fills_over (h : Fills n A f op) (h' : Fills n B g op') (b : Buffer) (size : b.size = n) :
    ∃ b' : Buffer, (op b >>= op') = some b' ∧ b'.size = n ∧
      ∀ i, (B i → b'.byte i = g i) ∧ (¬ B i → A i → b'.byte i = f i) ∧
        (¬ B i → ¬ A i → b'.byte i = b.byte i) := by
  obtain ⟨b₁, run, size₁, bytes₁⟩ := h b size
  obtain ⟨b₂, run', size₂, bytes₂⟩ := h' b₁ size₁
  refine ⟨b₂, by rw [run]; exact run', size₂, fun i => ⟨(bytes₂ i).1, ?_, ?_⟩⟩
  · intro second first
    rw [(bytes₂ i).2 second, (bytes₁ i).1 first]
  · intro second first
    rw [(bytes₂ i).2 second, (bytes₁ i).2 first]

/-! Places in rows of one length. -/

theorem row_div {y x w : Nat} (inside : x < w) : (y * w + x) / w = y := by
  rw [Nat.mul_comm, Nat.mul_add_div (Nat.zero_lt_of_lt inside), Nat.div_eq_of_lt inside,
    Nat.add_zero]

theorem row_mod {y x w : Nat} (inside : x < w) : (y * w + x) % w = x := by
  rw [Nat.mul_comm, Nat.mul_add_mod, Nat.mod_eq_of_lt inside]

theorem row_lt {y x w h : Nat} (row : y < h) (inside : x < w) : y * w + x < h * w := by
  have next : (y + 1) * w ≤ h * w := Nat.mul_le_mul_right w row
  rw [Nat.succ_mul] at next
  omega

end Buffers

import Mathlib.Data.Fin.VecNotation
import RkmoonKvm.Library.Buffer
import RkmoonKvm.Video.Colour
import RkmoonKvm.Video.Display

/-! The conversion of a captured picture to NV12: three loops over buffers with
strides of their own. -/
namespace Video
open Buffers Colour

inductive Pixels where
  | nv12
  | bgr24
  deriving DecidableEq

/-- `fullRange` is that of the encoded picture, `rgbLimited` that of the RGB input. -/
structure Layout where
  width : UInt32 := 0
  height : UInt32 := 0
  stride : UInt32 := 0
  sizeimage : UInt32 := 0
  pixels : Pixels := .nv12
  fullRange : Bool := false
  rgbLimited : Bool := false
  deriving DecidableEq

namespace Layout

def rowBytes (l : Layout) : UInt64 := l.width.toUInt64 * if l.pixels = .bgr24 then 3 else 1

def bytes (l : Layout) : UInt64 :=
  l.stride.toUInt64 * l.height.toUInt64 * (if l.pixels = .bgr24 then 2 else 3) / 2

end Layout

def destBytes (ds vs : UInt32) : UInt64 := ds.toUInt64 * vs.toUInt64 * 3 / 2

def mismatch (l : Layout) (src dst : Buffer) (ds vs : UInt32) : Prop :=
  l.width = 0 ∨ l.height = 0 ∨ l.width &&& 1 ≠ 0 ∨ l.height &&& 1 ≠ 0 ∨ ds &&& 1 ≠ 0 ∨
    vs &&& 1 ≠ 0 ∨ l.stride.toUInt64 < l.rowBytes ∨ ds < l.width ∨ vs < l.height ∨
    src.size < l.bytes.toNat ∨ dst.size < (destBytes ds vs).toNat

instance (l : Layout) (src dst : Buffer) (ds vs : UInt32) : Decidable (mismatch l src dst ds vs) :=
  inferInstanceAs (Decidable (_ ∨ _))

def evens (n : Nat) : List Nat := List.range' 0 ((n + 1) / 2) 2

section Loops

variable (l : Layout) (src : Buffer) (ds vs : Nat)

def copyLuma (b : Buffer) : Option Buffer :=
  (List.range l.height.toNat).foldlM
    (fun b y => Buffer.copy (y * ds) src (y * l.stride.toNat) l.width.toNat b) b

def copyChroma (b : Buffer) : Option Buffer :=
  (List.range (l.height.toNat / 2)).foldlM
    (fun b y => Buffer.copy (ds * vs + y * ds) src
      (l.stride.toNat * l.height.toNat + y * l.stride.toNat) l.width.toNat b) b

def getPixel (y x : Nat) : Option Pixel := do
  let p := y * l.stride.toNat + x * 3
  let r ← src.get (p + 2)
  let g ← src.get (p + 1)
  let b ← src.get p
  pure { b, g, r }

def putLuma (y x : Nat) (p : Pixel) (b : Buffer) : Option Buffer :=
  b.set (y * ds + x) (lumaByte l.rgbLimited p)

def convertBlock (y x : Nat) (b : Buffer) : Option Buffer := do
  let p₀ ← getPixel l src y x
  let b ← putLuma l ds y x p₀ b
  let p₁ ← getPixel l src y (x + 1)
  let b ← putLuma l ds y (x + 1) p₁ b
  let p₂ ← getPixel l src (y + 1) x
  let b ← putLuma l ds (y + 1) x p₂ b
  let p₃ ← getPixel l src (y + 1) (x + 1)
  let b ← putLuma l ds (y + 1) (x + 1) p₃ b
  let uv := ds * vs + y / 2 * ds + x
  let b ← b.set uv (cbByte l.rgbLimited ![p₀, p₁, p₂, p₃])
  b.set (uv + 1) (crByte l.rgbLimited ![p₀, p₁, p₂, p₃])

def convertBgr (b : Buffer) : Option Buffer :=
  (evens l.height.toNat).foldlM
    (fun b y => (evens l.width.toNat).foldlM (fun b x => convertBlock l src ds vs y x b) b) b

def black (b : Buffer) : Option Buffer := do
  let b ← b.fill 0 (if l.fullRange then 0 else 16) (ds * vs)
  b.fill (ds * vs) 128 (ds * vs / 2)

def convert (b : Buffer) : Option Buffer :=
  if l.pixels = .nv12 then copyLuma l src ds b >>= copyChroma l src ds vs
  else convertBgr l src ds vs b

end Loops

/-- An exception, or a run: `none` where it would leave a buffer. -/
def toNv12 (l : Layout) (src dst : Option Buffer) (ds vs : UInt32) :
    Except String (Option Buffer) :=
  match src, dst with
  | some src, some dst =>
    if mismatch l src dst ds vs then throw "pixel bounds/stride mismatch"
    else if l.pixels = .bgr24 ∧ l.fullRange then
      throw "BGR output range must be explicit limited BT709"
    else pure (black l ds.toNat vs.toNat dst >>= convert l src ds.toNat vs.toNat)
  | _, _ => throw "pixel bounds/stride mismatch"

/-! What the destination holds afterwards. -/

def pixel (l : Layout) (src : Buffer) (y x : Nat) : Pixel where
  b := src.byte (y * l.stride.toNat + x * 3)
  g := src.byte (y * l.stride.toNat + x * 3 + 1)
  r := src.byte (y * l.stride.toNat + x * 3 + 2)

def blockAt (l : Layout) (src : Buffer) (y x : Nat) : Block :=
  ![pixel l src y x, pixel l src y (x + 1), pixel l src (y + 1) x, pixel l src (y + 1) (x + 1)]

def visibleLuma (l : Layout) (src : Buffer) (y x : Nat) : UInt8 :=
  if l.pixels = .nv12 then src.byte (y * l.stride.toNat + x)
  else lumaByte l.rgbLimited (pixel l src y x)

/-- Row `y` of the chroma plane; blue at the even columns, red at the odd ones. -/
def visibleChroma (l : Layout) (src : Buffer) (y x : Nat) : UInt8 :=
  if l.pixels = .nv12 then
    src.byte (l.stride.toNat * l.height.toNat + y * l.stride.toNat + x)
  else if x % 2 = 0 then cbByte l.rgbLimited (blockAt l src (2 * y) x)
  else crByte l.rgbLimited (blockAt l src (2 * y) (x - 1))

/-- The places that show the picture: in the luma plane, and in the chroma plane behind it. -/
def Visible (l : Layout) (ds vs i : Nat) : Prop :=
  (i < ds * vs ∧ i / ds < l.height.toNat ∧ i % ds < l.width.toNat) ∨
    (ds * vs ≤ i ∧ (i - ds * vs) / ds < l.height.toNat / 2 ∧ (i - ds * vs) % ds < l.width.toNat)

def shown (l : Layout) (src : Buffer) (ds vs i : Nat) : UInt8 :=
  if i < ds * vs then visibleLuma l src (i / ds) (i % ds)
  else visibleChroma l src ((i - ds * vs) / ds) ((i - ds * vs) % ds)

def blank (l : Layout) (ds vs i : Nat) : UInt8 :=
  if i < ds * vs then (if l.fullRange then 0 else 16) else 128

structure Sized (l : Layout) (src : Buffer) (n ds vs : Nat) : Prop where
  width : 0 < l.width.toNat ∧ l.width.toNat % 2 = 0 ∧ l.width.toNat ≤ ds
  height : 0 < l.height.toNat ∧ l.height.toNat % 2 = 0 ∧ l.height.toNat ≤ vs
  even : vs % 2 = 0
  row : l.width.toNat * (if l.pixels = .bgr24 then 3 else 1) ≤ l.stride.toNat
  source : l.stride.toNat * l.height.toNat * (if l.pixels = .bgr24 then 2 else 3) / 2 ≤ src.size
  dest : ds * vs + ds * vs / 2 ≤ n

section Places

variable {l : Layout} {src : Buffer} {n ds vs : Nat}

theorem shown_luma {y x : Nat} (h : Sized l src n ds vs) (row : y < l.height.toNat)
    (column : x < l.width.toNat) : shown l src ds vs (y * ds + x) = visibleLuma l src y x := by
  have inside : x < ds := by have := h.width.2.2; omega
  have plane : y * ds + x < ds * vs := by
    rw [Nat.mul_comm ds]
    exact row_lt (Nat.lt_of_lt_of_le row h.height.2.2) inside
  rw [shown, if_pos plane, row_div inside, row_mod inside]

theorem shown_chroma {y x : Nat} (h : Sized l src n ds vs) (column : x < l.width.toNat) :
    shown l src ds vs (ds * vs + y * ds + x) = visibleChroma l src y x := by
  have inside : x < ds := by have := h.width.2.2; omega
  have behind : ¬ ds * vs + y * ds + x < ds * vs := by omega
  have offset : ds * vs + y * ds + x - ds * vs = y * ds + x := by omega
  rw [shown, if_neg behind, offset, row_div inside, row_mod inside]

theorem chroma_rows (h : Sized l src n ds vs) {y x : Nat} (row : y < l.height.toNat / 2)
    (column : x < l.width.toNat) : ds * vs + y * ds + x < n := by
  have inside : x < ds := by have := h.width.2.2; omega
  have rows : y * ds + x < vs / 2 * ds := row_lt (by have := h.height.2.2; omega) inside
  have half : vs / 2 * ds = ds * vs / 2 := by
    obtain ⟨k, rfl⟩ := Nat.dvd_of_mod_eq_zero h.even
    rw [Nat.mul_div_cancel_left k (by decide), Nat.mul_comm 2 k, ← Nat.mul_assoc,
      Nat.mul_div_cancel _ (by decide), Nat.mul_comm]
  have dest := h.dest
  omega

theorem luma_rows (h : Sized l src n ds vs) {y x : Nat} (row : y < l.height.toNat)
    (column : x < l.width.toNat) : y * ds + x < ds * vs := by
  have inside : x < ds := by have := h.width.2.2; omega
  rw [Nat.mul_comm ds]
  exact row_lt (Nat.lt_of_lt_of_le row h.height.2.2) inside

theorem luma_places (h : Sized l src n ds vs) (i : Nat) :
    (∃ y ∈ List.range l.height.toNat, y * ds ≤ i ∧ i < y * ds + l.width.toNat) ↔
      i < ds * vs ∧ i / ds < l.height.toNat ∧ i % ds < l.width.toNat := by
  constructor
  · rintro ⟨y, row, below, above⟩
    obtain ⟨x, rfl⟩ := Nat.exists_eq_add_of_le below
    have column : x < l.width.toNat := by omega
    have row := List.mem_range.mp row
    rw [row_div (by have := h.width.2.2; omega), row_mod (by have := h.width.2.2; omega)]
    exact ⟨luma_rows h row column, row, column⟩
  · rintro ⟨-, row, column⟩
    have split := Nat.div_add_mod' i ds
    exact ⟨i / ds, List.mem_range.mpr row, by omega, by omega⟩

theorem chroma_places (h : Sized l src n ds vs) (i : Nat) :
    (∃ y ∈ List.range (l.height.toNat / 2),
      ds * vs + y * ds ≤ i ∧ i < ds * vs + y * ds + l.width.toNat) ↔
      ds * vs ≤ i ∧ (i - ds * vs) / ds < l.height.toNat / 2 ∧
        (i - ds * vs) % ds < l.width.toNat := by
  constructor
  · rintro ⟨y, row, below, above⟩
    obtain ⟨x, rfl⟩ := Nat.exists_eq_add_of_le below
    have column : x < l.width.toNat := by omega
    have offset : ds * vs + y * ds + x - ds * vs = y * ds + x := by omega
    rw [offset, row_div (by have := h.width.2.2; omega), row_mod (by have := h.width.2.2; omega)]
    exact ⟨by omega, List.mem_range.mp row, column⟩
  · rintro ⟨behind, row, column⟩
    have split := Nat.div_add_mod' (i - ds * vs) ds
    exact ⟨(i - ds * vs) / ds, List.mem_range.mpr row, by omega, by omega⟩

theorem copyLuma_fills (h : Sized l src n ds vs) (nv12 : l.pixels = .nv12) :
    Fills n (fun i => i < ds * vs ∧ i / ds < l.height.toNat ∧ i % ds < l.width.toNat)
      (shown l src ds vs) (copyLuma l src ds) := by
  refine fills_congr (fills_loop (A := fun y i => y * ds ≤ i ∧ i < y * ds + l.width.toNat)
    fun y row => ?_) (luma_places h)
  have row := List.mem_range.mp row
  have column : l.width.toNat - 1 < l.width.toNat := by have := h.width.1; omega
  have last := luma_rows h row column
  have dest := h.dest
  have rows : y * l.stride.toNat + (l.width.toNat - 1) < l.height.toNat * l.stride.toNat := by
    have wide := h.row
    rw [nv12, if_neg (by decide), Nat.mul_one] at wide
    exact row_lt row (by omega)
  have source := h.source
  rw [nv12, if_neg (by decide)] at source
  apply fills_copy
  · omega
  · rw [Nat.mul_comm l.height.toNat] at rows
    omega
  · intro x column
    rw [shown_luma h row column, visibleLuma, if_pos nv12]

theorem copyChroma_fills (h : Sized l src n ds vs) (nv12 : l.pixels = .nv12) :
    Fills n (fun i => ds * vs ≤ i ∧ (i - ds * vs) / ds < l.height.toNat / 2 ∧
        (i - ds * vs) % ds < l.width.toNat)
      (shown l src ds vs) (copyChroma l src ds vs) := by
  refine fills_congr (fills_loop
    (A := fun y i => ds * vs + y * ds ≤ i ∧ i < ds * vs + y * ds + l.width.toNat)
    fun y row => ?_) (chroma_places h)
  have row := List.mem_range.mp row
  have column : l.width.toNat - 1 < l.width.toNat := by have := h.width.1; omega
  have last := chroma_rows h row column
  have rows : y * l.stride.toNat + (l.width.toNat - 1) <
      l.height.toNat / 2 * l.stride.toNat := by
    have wide := h.row
    rw [nv12, if_neg (by decide), Nat.mul_one] at wide
    exact row_lt row (by omega)
  have source := h.source
  rw [nv12, if_neg (by decide)] at source
  have half : l.stride.toNat * l.height.toNat * 3 / 2 =
      l.stride.toNat * l.height.toNat + l.height.toNat / 2 * l.stride.toNat := by
    obtain ⟨k, even⟩ := Nat.dvd_of_mod_eq_zero h.height.2.1
    rw [even, Nat.mul_div_cancel_left k (by decide), Nat.mul_left_comm, Nat.mul_comm k]
    omega
  apply fills_copy
  · omega
  · omega
  · intro x column
    rw [shown_chroma h column, visibleChroma, if_pos nv12]

theorem getPixel_eq (h : Sized l src n ds vs) (bgr : l.pixels ≠ .nv12) {y x : Nat}
    (row : y < l.height.toNat) (column : x < l.width.toNat) :
    getPixel l src y x = some (pixel l src y x) := by
  have bgr : l.pixels = .bgr24 := by
    cases pixels : l.pixels
    · exact absurd pixels bgr
    · rfl
  have wide := h.row
  have source := h.source
  rw [if_pos bgr] at wide source
  have inside : y * l.stride.toNat + (x * 3 + 2) < l.height.toNat * l.stride.toNat :=
    row_lt row (by omega)
  rw [Nat.mul_comm l.height.toNat] at inside
  unfold getPixel Buffer.get
  dsimp only
  rw [if_pos (by omega), if_pos (by omega), if_pos (by omega)]
  rfl

theorem putLuma_fills (h : Sized l src n ds vs) (bgr : l.pixels ≠ .nv12) {y x : Nat}
    (row : y < l.height.toNat) (column : x < l.width.toNat) :
    Fills n (· = y * ds + x) (shown l src ds vs) (putLuma l ds y x (pixel l src y x)) := by
  have dest := h.dest
  have inside := luma_rows h row column
  have value : shown l src ds vs (y * ds + x) = lumaByte l.rgbLimited (pixel l src y x) := by
    rw [shown_luma h row column, visibleLuma, if_neg bgr]
  have fills := fills_set (f := shown l src ds vs) (show y * ds + x < n by omega)
  rwa [value] at fills

def Covers (ds vs y x i : Nat) : Prop :=
  i = y * ds + x ∨ i = y * ds + (x + 1) ∨ i = (y + 1) * ds + x ∨ i = (y + 1) * ds + (x + 1) ∨
    i = ds * vs + y / 2 * ds + x ∨ i = ds * vs + y / 2 * ds + x + 1

theorem convertBlock_fills (h : Sized l src n ds vs) (bgr : l.pixels ≠ .nv12) {y x : Nat}
    (row : y + 1 < l.height.toNat) (row_even : y % 2 = 0) (column : x + 1 < l.width.toNat)
    (column_even : x % 2 = 0) :
    Fills n (Covers ds vs y x) (shown l src ds vs) (convertBlock l src ds vs y x) := by
  have upper : y < l.height.toNat := by omega
  have left : x < l.width.toNat := by omega
  have double : 2 * (y / 2) = y := by omega
  have odd : ¬ (x + 1) % 2 = 0 := by omega
  have blue : shown l src ds vs (ds * vs + y / 2 * ds + x) =
      cbByte l.rgbLimited (blockAt l src y x) := by
    rw [shown_chroma h left, visibleChroma, if_neg bgr, if_pos column_even, double]
  have red : shown l src ds vs (ds * vs + y / 2 * ds + x + 1) =
      crByte l.rgbLimited (blockAt l src y x) := by
    rw [Nat.add_assoc _ x, shown_chroma h column, visibleChroma, if_neg bgr, if_neg odd, double,
      Nat.add_sub_cancel]
  have last := chroma_rows h (show y / 2 < l.height.toNat / 2 by omega) column
  have first_chroma := fills_set (f := shown l src ds vs)
    (show ds * vs + y / 2 * ds + x < n by omega)
  have second_chroma := fills_set (f := shown l src ds vs)
    (show ds * vs + y / 2 * ds + x + 1 < n by omega)
  rw [blue] at first_chroma
  rw [red] at second_chroma
  have run : convertBlock l src ds vs y x = fun b =>
      putLuma l ds y x (pixel l src y x) b >>= fun b =>
      putLuma l ds y (x + 1) (pixel l src y (x + 1)) b >>= fun b =>
      putLuma l ds (y + 1) x (pixel l src (y + 1) x) b >>= fun b =>
      putLuma l ds (y + 1) (x + 1) (pixel l src (y + 1) (x + 1)) b >>= fun b =>
      b.set (ds * vs + y / 2 * ds + x) (cbByte l.rgbLimited (blockAt l src y x)) >>=
      Buffer.set (ds * vs + y / 2 * ds + x + 1) (crByte l.rgbLimited (blockAt l src y x)) := by
    funext b
    unfold convertBlock
    rw [getPixel_eq h bgr upper left, getPixel_eq h bgr upper column, getPixel_eq h bgr row left,
      getPixel_eq h bgr row column]
    rfl
  rw [run]
  exact fills_then (putLuma_fills h bgr upper left) (fills_then (putLuma_fills h bgr upper column)
    (fills_then (putLuma_fills h bgr row left) (fills_then (putLuma_fills h bgr row column)
      (fills_then first_chroma second_chroma))))

theorem mem_evens {m k : Nat} : k ∈ evens m ↔ k < m ∧ k % 2 = 0 := by
  unfold evens
  rw [List.mem_range']
  constructor
  · rintro ⟨i, small, rfl⟩
    omega
  · rintro ⟨small, even⟩
    exact ⟨k / 2, by omega, by omega⟩

theorem block_places (h : Sized l src n ds vs) (i : Nat) :
    (∃ y ∈ evens l.height.toNat, ∃ x ∈ evens l.width.toNat, Covers ds vs y x i) ↔
      Visible l ds vs i := by
  unfold Visible
  rw [← luma_places h, ← chroma_places h]
  constructor
  · rintro ⟨y, row, x, column, covers⟩
    obtain ⟨row, row_even⟩ := mem_evens.mp row
    obtain ⟨column, column_even⟩ := mem_evens.mp column
    have height_even := h.height.2.1
    have width_even := h.width.2.1
    rcases covers with rfl | rfl | rfl | rfl | rfl | rfl
    · exact .inl ⟨y, List.mem_range.mpr row, by omega, by omega⟩
    · exact .inl ⟨y, List.mem_range.mpr row, by omega, by omega⟩
    · exact .inl ⟨y + 1, List.mem_range.mpr (by omega), by omega, by omega⟩
    · exact .inl ⟨y + 1, List.mem_range.mpr (by omega), by omega, by omega⟩
    · exact .inr ⟨y / 2, List.mem_range.mpr (by omega), by omega, by omega⟩
    · exact .inr ⟨y / 2, List.mem_range.mpr (by omega), by omega, by omega⟩
  · rintro (⟨y, row, below, above⟩ | ⟨y, row, below, above⟩)
    · have row := List.mem_range.mp row
      obtain ⟨x, rfl⟩ := Nat.exists_eq_add_of_le below
      refine ⟨y - y % 2, mem_evens.mpr ⟨by omega, by omega⟩, x - x % 2,
        mem_evens.mpr ⟨by omega, by omega⟩, ?_⟩
      unfold Covers
      rcases Nat.mod_two_eq_zero_or_one y with even | odd
      · have here : y - y % 2 = y := by omega
        rw [here]
        omega
      · have here : y - y % 2 + 1 = y := by omega
        rw [here]
        omega
    · have row := List.mem_range.mp row
      obtain ⟨x, rfl⟩ := Nat.exists_eq_add_of_le below
      refine ⟨2 * y, mem_evens.mpr ⟨by omega, by omega⟩, x - x % 2,
        mem_evens.mpr ⟨by omega, by omega⟩, ?_⟩
      have half : 2 * y / 2 = y := by omega
      unfold Covers
      rw [half]
      omega

theorem convert_fills (h : Sized l src n ds vs) :
    Fills n (Visible l ds vs) (shown l src ds vs) (convert l src ds vs) := by
  by_cases nv12 : l.pixels = .nv12
  · have run : convert l src ds vs = fun b => copyLuma l src ds b >>= copyChroma l src ds vs :=
      funext fun b => if_pos nv12
    rw [run]
    exact fills_then (copyLuma_fills h nv12) (copyChroma_fills h nv12)
  · have run : convert l src ds vs = convertBgr l src ds vs := funext fun b => if_neg nv12
    rw [run]
    refine fills_congr (fills_loop (A := fun y i => ∃ x ∈ evens l.width.toNat, Covers ds vs y x i)
      fun y row => fills_loop fun x column => ?_) (block_places h)
    obtain ⟨row, row_even⟩ := mem_evens.mp row
    obtain ⟨column, column_even⟩ := mem_evens.mp column
    have height_even := h.height.2.1
    have width_even := h.width.2.1
    exact convertBlock_fills h nv12 (by omega) row_even (by omega) column_even

theorem black_fills (dest : ds * vs + ds * vs / 2 ≤ n) :
    Fills n (· < ds * vs + ds * vs / 2) (blank l ds vs) (black l ds vs) := by
  have luma_plane : Fills n (fun k => 0 ≤ k ∧ k < 0 + ds * vs) (blank l ds vs)
      (Buffer.fill 0 (if l.fullRange then 0 else 16) (ds * vs)) :=
    fills_fill (by omega) fun k _ inside => if_pos (by omega)
  have chroma_plane : Fills n (fun k => ds * vs ≤ k ∧ k < ds * vs + ds * vs / 2) (blank l ds vs)
      (Buffer.fill (ds * vs) 128 (ds * vs / 2)) :=
    fills_fill (by omega) fun k behind _ => if_neg (by omega)
  have planes := fills_then luma_plane chroma_plane
  exact fills_congr planes fun i => by omega

end Places

/-- The sizes computed in 64 bits are those of the natural numbers; the places are below them. -/
structure SizesFit (l : Layout) (ds vs : UInt32) : Prop where
  row : l.rowBytes.toNat = l.width.toNat * if l.pixels = .bgr24 then 3 else 1
  source : l.stride.toNat * l.height.toNat * 3 < 2 ^ 64 ∧ l.bytes.toNat =
    l.stride.toNat * l.height.toNat * (if l.pixels = .bgr24 then 2 else 3) / 2
  dest : ds.toNat * vs.toNat * 3 < 2 ^ 64 ∧ (destBytes ds vs).toNat = ds.toNat * vs.toNat * 3 / 2

theorem toNat_product {a b : UInt32} {k : UInt64} (small : a.toNat * b.toNat * 3 < 2 ^ 64)
    (factor : k.toNat ≤ 3) :
    (a.toUInt64 * b.toUInt64 * k / 2).toNat = a.toNat * b.toNat * k.toNat / 2 := by
  have two : (2 : UInt64).toNat = 2 := rfl
  have whole : a.toNat * b.toNat * k.toNat ≤ a.toNat * b.toNat * 3 :=
    Nat.mul_le_mul_left _ factor
  rw [UInt64.toNat_div, UInt64.toNat_mul, UInt64.toNat_mul, UInt32.toNat_toUInt64,
    UInt32.toNat_toUInt64, two, Nat.mod_eq_of_lt (a := a.toNat * b.toNat) (by omega),
    Nat.mod_eq_of_lt (by omega)]

theorem sizes_fit {l : Layout} {ds vs : UInt32} (tall : l.height.toNat ≤ 2160)
    (ds_le : ds.toNat ≤ 12288) (vs_le : vs.toNat ≤ 12288) : SizesFit l ds vs := by
  have width := l.width.toNat_lt
  have stride := l.stride.toNat_lt
  have source : l.stride.toNat * l.height.toNat ≤ 2 ^ 32 * 2160 :=
    Nat.mul_le_mul stride.le tall
  have dest : ds.toNat * vs.toNat ≤ 12288 * 12288 := Nat.mul_le_mul ds_le vs_le
  refine ⟨?_, ⟨by omega, ?_⟩, by omega, toNat_product (by omega) (by decide)⟩
  · unfold Layout.rowBytes
    cases l.pixels
    · exact UInt32.toNat_toUInt64 _ ▸ by simp
    · have three : (3 : UInt64).toNat = 3 := rfl
      rw [if_pos rfl, if_pos rfl, UInt64.toNat_mul, UInt32.toNat_toUInt64, three]
      exact Nat.mod_eq_of_lt (by omega)
  · unfold Layout.bytes
    cases l.pixels
    · exact toNat_product (by omega) (by decide)
    · exact toNat_product (by omega) (by decide)

theorem sized {l : Layout} {src dst : Buffer} {ds vs : UInt32} (fit : SizesFit l ds vs)
    (passed : ¬ mismatch l src dst ds vs) :
    Sized l src dst.size ds.toNat vs.toNat := by
  simp only [mismatch, not_or, ne_eq, not_not, UInt32.not_lt, UInt64.not_lt, Nat.not_lt] at passed
  obtain ⟨width, height, width_even, height_even, -, vs_even, row, wide, tall, source, dest⟩ :=
    passed
  have width_pos : l.width.toNat ≠ 0 := fun zero => width (UInt32.toNat_inj.mp zero)
  have height_pos : l.height.toNat ≠ 0 := fun zero => height (UInt32.toNat_inj.mp zero)
  rw [UInt64.le_iff_toNat_le, fit.row, UInt32.toNat_toUInt64] at row
  rw [fit.source.2] at source
  rw [fit.dest.2] at dest
  exact ⟨⟨Nat.pos_of_ne_zero width_pos, toNat_even width_even, wide⟩,
    ⟨Nat.pos_of_ne_zero height_pos, toNat_even height_even, tall⟩, toNat_even vs_even, row, source,
    by omega⟩

theorem visible_lt {l : Layout} {src : Buffer} {n ds vs i : Nat} (h : Sized l src n ds vs)
    (visible : Visible l ds vs i) : i < ds * vs + ds * vs / 2 := by
  rcases visible with ⟨luma, -⟩ | ⟨behind, row, column⟩
  · omega
  · have split := Nat.div_add_mod' (i - ds * vs) ds
    have last := chroma_rows { h with dest := Nat.le_refl _ } row column
    omega

/-- Where the conversion does not throw, it stays inside both buffers; its planes hold
the picture at their own stride, black everywhere else, and nothing behind them is written. -/
theorem toNv12_layout {l : Layout} {src dst : Buffer} {ds vs : UInt32} {r : Option Buffer}
    (tall : l.height.toNat ≤ 2160) (ds_le : ds.toNat ≤ 12288) (vs_le : vs.toNat ≤ 12288)
    (done : toNv12 l (some src) (some dst) ds vs = .ok r) :
    SizesFit l ds vs ∧ ∃ out : Buffer, r = some out ∧ out.size = dst.size ∧
      (∀ y x, y < l.height.toNat → x < l.width.toNat →
        out.byte (y * ds.toNat + x) = visibleLuma l src y x) ∧
      (∀ y x, y < l.height.toNat / 2 → x < l.width.toNat →
        out.byte (ds.toNat * vs.toNat + y * ds.toNat + x) = visibleChroma l src y x) ∧
      (∀ i, i < ds.toNat * vs.toNat * 3 / 2 → ¬ Visible l ds.toNat vs.toNat i →
        out.byte i = blank l ds.toNat vs.toNat i) ∧
      ∀ i, ds.toNat * vs.toNat * 3 / 2 ≤ i → out.byte i = dst.byte i := by
  have fit := sizes_fit (l := l) tall ds_le vs_le
  refine ⟨fit, ?_⟩
  unfold toNv12 at done
  dsimp only at done
  split at done
  · cases done
  rename_i passed
  split at done
  · cases done
  have h := sized fit passed
  obtain ⟨out, run, size, bytes⟩ := fills_over (black_fills h.dest) (convert_fills h) dst rfl
  cases done
  refine ⟨out, run, size, ?_, ?_, ?_, ?_⟩
  · intro y x row column
    have place := (luma_places h _).mp ⟨y, List.mem_range.mpr row, Nat.le_add_right _ x, by omega⟩
    rw [(bytes _).1 (.inl place), shown_luma h row column]
  · intro y x row column
    have place := (chroma_places h _).mp
      ⟨y, List.mem_range.mpr row, Nat.le_add_right _ x, by omega⟩
    rw [(bytes _).1 (.inr place), shown_chroma h column]
  · intro i inside hidden
    exact (bytes i).2.1 hidden (by omega)
  · intro i behind
    exact (bytes i).2.2 (fun visible => by have := visible_lt h visible; omega) (by omega)

theorem toNv12_layout_small :
    let l : Layout := { width := 2, height := 2, stride := 4 }
    let src : Buffer := { size := 12, byte := fun i => i.toUInt8 }
    ∃ out : Buffer, toNv12 l (some src) (some { size := 18, byte := fun _ => 7 }) 6 2 =
        .ok (some out) ∧ out.byte 7 = visibleLuma l src 1 1 := by
  intro l src
  have accepted : toNv12 l (some src) (some { size := 18, byte := fun _ => 7 }) 6 2 =
      .ok (black l 6 2 { size := 18, byte := fun _ => 7 } >>= convert l src 6 2) :=
    (if_neg (by decide)).trans (if_neg (by decide))
  obtain ⟨-, out, run, -, luma, -⟩ :=
    toNv12_layout (by decide) (by decide) (by decide) accepted
  exact ⟨out, accepted.trans (congrArg Except.ok run), luma 1 1 (by decide) (by decide)⟩

end Video

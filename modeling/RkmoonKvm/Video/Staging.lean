import Mathlib.Data.Nat.Bitwise
import RkmoonKvm.Video.Level
import RkmoonKvm.Video.Pixels

/-! The copy of captured BGR rows to the staging buffer of the encoder, from the layout
that the capture has checked to the buffer that the encoder has allocated. -/
namespace Video
open Buffers Reader

/-! The checks of the capture. -/

def fieldNone : UInt32 := 1
def colorspaceSmpte240m : UInt32 := 2
def colorspaceRec709 : UInt32 := 3
def colorspaceSrgb : UInt32 := 8
def colorspaceBt2020 : UInt32 := 10
def colorspaceDciP3 : UInt32 := 12
def xferFuncDefault : UInt8 := 0
def xferFunc709 : UInt8 := 1
def xferFuncSrgb : UInt8 := 2
def quantizationLimRange : UInt8 := 2
def ycbcrEncDefault : UInt8 := 0
def ycbcrEnc601 : UInt8 := 1
def ycbcrEnc709 : UInt8 := 2
def ycbcrEncBt2020 : UInt8 := 6
def ycbcrEncSmpte240m : UInt8 := 8

structure Format where
  field : UInt32
  numPlanes : UInt8
  colorspace : UInt32
  xferFunc : UInt8
  quantization : UInt8
  ycbcrEnc : UInt8

def mapYcbcrEncDefault (colorspace : UInt32) : UInt8 :=
  if colorspace = colorspaceRec709 ∨ colorspace = colorspaceDciP3 then ycbcrEnc709
  else if colorspace = colorspaceBt2020 then ycbcrEncBt2020
  else if colorspace = colorspaceSmpte240m then ycbcrEncSmpte240m
  else ycbcrEnc601

/-- An opened source. `steady` says of a rate whether the measured one is finite and
within 0.15 Hz of it: a comparison of floating point numbers. -/
structure Capture where
  layout : Layout
  timings : DvTimings
  format : Format
  steady : UInt32 → Bool

namespace Capture

def encoding (s : Capture) : UInt8 :=
  if s.format.ycbcrEnc = ycbcrEncDefault then mapYcbcrEncDefault s.format.colorspace
  else s.format.ycbcrEnc

/-- The bytes of the packed planes, with the chroma plane right behind the luma rows. -/
def packedBytes (l : Layout) : UInt64 :=
  l.stride.toUInt64 * l.height.toUInt64 * (if l.pixels = .nv12 then 3 else 2) / 2

def validate (s : Capture) (c : Config) : Except String Unit := do
  c.validate
  if s.timings.type ≠ dvBt6561120 ∨ s.timings.bt.interlaced ≠ 0 ∨ s.format.field ≠ fieldNone ∨
      s.format.numPlanes ≠ 1 then
    throw "unsupported interlaced/multiplane layout"
  else if c.width ≠ s.layout.width ∨ c.height ≠ s.layout.height ∨
      s.timings.bt.width ≠ c.width ∨ s.timings.bt.height ≠ c.height then
    throw "client/source dimensions do not match; no scaling or modeset"
  else if s.steady c.fpsX100 = false then
    throw "source/client cadence mismatch"
  else if s.format.colorspace ≠ colorspaceRec709 ∧ s.format.colorspace ≠ colorspaceSrgb then
    throw "v1 requires explicitly identified BT709/sRGB SDR input"
  else if s.format.xferFunc ≠ xferFuncDefault ∧ s.format.xferFunc ≠ xferFunc709 ∧
      s.format.xferFunc ≠ xferFuncSrgb then
    throw "HDR/unknown transfer rejected"
  else if quantizationLimRange < s.format.quantization then
    throw "unknown quantization range"
  else if s.layout.pixels = .nv12 ∧ s.encoding ≠ ycbcrEnc709 then
    throw "v1 NV12 requires BT709 matrix"
  else if s.layout.stride.toUInt64 < s.layout.rowBytes ∨
      packedBytes s.layout ≠ s.layout.sizeimage.toUInt64 then
    throw "ambiguous packed plane layout/sizeimage"
  else
    pure ()

end Capture

/-! The encoder's staging buffer. -/

def align64 (n : UInt32) : UInt32 := (n + 63) &&& ~~~63

def hardwareBgr (l : Layout) : Bool := l.pixels = .bgr24 && !l.rgbLimited

def horStride (c : Config) (l : Layout) : UInt32 :=
  align64 (c.width * if hardwareBgr l then 3 else 1)

def verStride (c : Config) : UInt32 := align64 c.height

def stagingBytes (c : Config) (l : Layout) : UInt64 :=
  (horStride c l).toUInt64 * (verStride c).toUInt64 * (if hardwareBgr l then 2 else 3) / 2

section Copy

variable (c : Config) (l : Layout) (src : Buffer)

def rowSize : Nat := c.width.toNat * 3

def copyWhole (b : Buffer) : Option Buffer :=
  Buffer.copy 0 src 0 (rowSize c * c.height.toNat) b

def copyRow (y : Nat) (b : Buffer) : Option Buffer := do
  let hs := (horStride c l).toNat
  let b ← Buffer.copy (y * hs) src (y * l.stride.toNat) (rowSize c) b
  if rowSize c < hs then b.fill (y * hs + rowSize c) 0 (hs - rowSize c) else some b

def copyRows (b : Buffer) : Option Buffer :=
  (List.range c.height.toNat).foldlM (fun b y => copyRow c l src y b) b

/-- One copy will do: no row has padding, on either side. -/
def whole : Prop := horStride c l = l.stride ∧ rowSize c = (horStride c l).toNat

instance : Decidable (whole c l) := inferInstanceAs (Decidable (_ ∧ _))

def padBelow (b : Buffer) : Option Buffer :=
  let hs := (horStride c l).toNat
  let vs := (verStride c).toNat
  if c.height.toNat < vs then b.fill (c.height.toNat * hs) 0 (hs * (vs - c.height.toNat)) else some b

def copyBgr (b : Buffer) : Option Buffer :=
  (if whole c l then copyWhole c src b else copyRows c l src b) >>= padBelow c l

end Copy

structure RawFrame where
  offset : UInt32
  bytes : UInt32

def RawFrame.plane (raw : RawFrame) (data : Nat → UInt8) : Buffer where
  size := (raw.bytes - raw.offset).toNat
  byte i := data (raw.offset.toNat + i)

/-- The staging of one frame by the encoder, for hardware RGB: an exception, or a run,
`none` where it would leave a buffer. -/
def stage (c : Config) (l : Layout) (raw : RawFrame) (data : Nat → UInt8) (staging : Buffer) :
    Except String (Option Buffer) :=
  if raw.bytes < raw.offset ∨ raw.bytes - raw.offset < l.sizeimage then
    throw "short capture input"
  else
    pure (copyBgr c l (raw.plane data) staging)

theorem and_align {n : Nat} (small : n < 2 ^ 32) : n &&& 4294967232 = n / 64 * 64 := by
  apply Nat.eq_of_testBit_eq
  intro i
  have mask : 4294967232 = (2 ^ 26 - 1) * 2 ^ 6 := by norm_num
  have unit : n / 64 * 64 = n / 2 ^ 6 * 2 ^ 6 := by norm_num
  rw [Nat.testBit_and, mask, unit, Nat.testBit_mul_two_pow, Nat.testBit_mul_two_pow,
    Nat.testBit_div_two_pow, Nat.testBit_two_pow_sub_one]
  by_cases high : 6 ≤ i
  · rw [Nat.sub_add_cancel high]
    by_cases inside : i < 32
    · have short : i - 6 < 26 := by omega
      simp [high, short]
    · have zero : n.testBit i = false :=
        Nat.testBit_lt_two_pow (small.trans_le (Nat.pow_le_pow_right (by decide) (by omega)))
      simp [zero]
  · simp [high]

theorem toNat_align64 {n : UInt32} (small : n.toNat ≤ 11520) :
    (align64 n).toNat = (n.toNat + 63) / 64 * 64 := by
  have mask : (~~~63 : UInt32).toNat = 4294967232 := rfl
  have carry : (63 : UInt32).toNat = 63 := rfl
  rw [align64, UInt32.toNat_and, UInt32.toNat_add, mask, carry,
    and_align (Nat.mod_lt _ (by decide)), Nat.mod_eq_of_lt (by omega)]

structure Staged (c : Config) (l : Layout) (src : Buffer) (n : Nat) : Prop where
  row : 0 < rowSize c ∧ rowSize c ≤ (horStride c l).toNat ∧ rowSize c ≤ l.stride.toNat
  height : 0 < c.height.toNat ∧ c.height.toNat ≤ (verStride c).toNat
  source : l.stride.toNat * c.height.toNat ≤ src.size
  dest : n = (horStride c l).toNat * (verStride c).toNat

theorem Capture.validate_layout {s : Capture} {c : Config} (accepted : s.validate c = .ok ()) :
    c.Checked ∧ c.width = s.layout.width ∧ c.height = s.layout.height ∧
      s.layout.rowBytes ≤ s.layout.stride.toUInt64 ∧
      Capture.packedBytes s.layout = s.layout.sizeimage.toUInt64 := by
  unfold Capture.validate at accepted
  cases valid : c.validate with
  | error e =>
    rw [valid] at accepted
    cases accepted
  | ok u =>
    rw [valid] at accepted
    obtain ⟨-, accepted⟩ := check_ok.mp accepted
    obtain ⟨same, accepted⟩ := check_ok.mp accepted
    obtain ⟨-, accepted⟩ := check_ok.mp accepted
    obtain ⟨-, accepted⟩ := check_ok.mp accepted
    obtain ⟨-, accepted⟩ := check_ok.mp accepted
    obtain ⟨-, accepted⟩ := check_ok.mp accepted
    obtain ⟨-, accepted⟩ := check_ok.mp accepted
    obtain ⟨packed, -⟩ := check_ok.mp accepted
    simp only [not_or, ne_eq, not_not, UInt64.not_lt] at same packed
    exact ⟨Config.checked valid, same.1, same.2.1, packed.1, packed.2⟩

theorem toNat_horStride {c : Config} {l : Layout} (h : c.Checked) (hardware : hardwareBgr l) :
    (horStride c l).toNat = (rowSize c + 63) / 64 * 64 := by
  have three : (3 : UInt32).toNat = 3 := rfl
  have wide := h.width.2.1
  have row : (c.width * 3).toNat = rowSize c := by
    rw [UInt32.toNat_mul, three]
    exact Nat.mod_eq_of_lt (by omega)
  unfold rowSize at row
  rw [horStride, if_pos hardware, toNat_align64 (by omega), row, rowSize]

theorem toNat_stagingBytes {c : Config} {l : Layout} (h : c.Checked) (hardware : hardwareBgr l) :
    (stagingBytes c l).toNat = (horStride c l).toNat * (verStride c).toNat := by
  have wide := h.width.2.1
  have tall := h.height.2.1
  have hs : (horStride c l).toNat ≤ 11520 := by
    rw [toNat_horStride h hardware, rowSize]
    omega
  have vs : (verStride c).toNat ≤ 2176 := by
    rw [verStride, toNat_align64 (by omega)]
    omega
  have area : (horStride c l).toNat * (verStride c).toNat ≤ 11520 * 2176 := Nat.mul_le_mul hs vs
  have two : (2 : UInt64).toNat = 2 := rfl
  rw [stagingBytes, if_pos hardware, toNat_product (by omega) (by decide), two,
    Nat.mul_div_cancel _ (by decide)]

theorem staged {s : Capture} {c : Config} {src : Buffer} {n : Nat}
    (accepted : s.validate c = .ok ()) (bgr : s.layout.pixels = .bgr24)
    (full : s.layout.rgbLimited = false) (long : s.layout.sizeimage.toNat ≤ src.size)
    (allocated : n = (stagingBytes c s.layout).toNat) : Staged c s.layout src n := by
  obtain ⟨checked, width, height, row, packed⟩ := Capture.validate_layout accepted
  have hardware : hardwareBgr s.layout = true := by simp [hardwareBgr, bgr, full]
  have wide := checked.width
  have tall := checked.height
  have fit : SizesFit s.layout 0 0 :=
    sizes_fit (by rw [← height]; exact tall.2.1) (by decide) (by decide)
  have planes : Capture.packedBytes s.layout = s.layout.bytes := by
    simp [Capture.packedBytes, Layout.bytes, bgr]
  have size := congrArg UInt64.toNat packed
  rw [planes, fit.source.2, if_pos bgr, Nat.mul_div_cancel _ (by decide),
    UInt32.toNat_toUInt64, ← height] at size
  rw [UInt64.le_iff_toNat_le, fit.row, if_pos bgr, UInt32.toNat_toUInt64, ← width] at row
  have hs := toNat_horStride checked hardware
  have vs : (verStride c).toNat = (c.height.toNat + 63) / 64 * 64 := toNat_align64 (by omega)
  refine ⟨⟨?_, ?_, row⟩, ⟨by omega, by omega⟩, by omega, ?_⟩
  · unfold rowSize
    omega
  · omega
  · rw [allocated, toNat_stagingBytes checked hardware]

/-- The staging buffer: the rows of the picture, and zeros around them. -/
def stagedByte (c : Config) (l : Layout) (src : Buffer) (i : Nat) : UInt8 :=
  let hs := (horStride c l).toNat
  if i / hs < c.height.toNat ∧ i % hs < rowSize c then
    src.byte (i / hs * l.stride.toNat + i % hs)
  else 0

section Rows

variable {c : Config} {l : Layout} {src : Buffer} {n : Nat}

theorem stagedByte_row (h : Staged c l src n) {y x : Nat} (row : y < c.height.toNat)
    (column : x < rowSize c) :
    stagedByte c l src (y * (horStride c l).toNat + x) = src.byte (y * l.stride.toNat + x) := by
  have inside : x < (horStride c l).toNat := Nat.lt_of_lt_of_le column h.row.2.1
  unfold stagedByte
  dsimp only
  rw [row_div inside, row_mod inside, if_pos ⟨row, column⟩]

theorem stagedByte_pad {y x : Nat} (column : x < (horStride c l).toNat)
    (outside : ¬ (y < c.height.toNat ∧ x < rowSize c)) :
    stagedByte c l src (y * (horStride c l).toNat + x) = 0 := by
  unfold stagedByte
  dsimp only
  rw [row_div column, row_mod column, if_neg outside]

theorem copyRow_fills (h : Staged c l src n) {y : Nat} (row : y < c.height.toNat) :
    Fills n (fun i => y * (horStride c l).toNat ≤ i ∧ i < (y + 1) * (horStride c l).toNat)
      (stagedByte c l src) (copyRow c l src y) := by
  obtain ⟨pos, le, le_stride⟩ := h.row
  have last : (y + 1) * (horStride c l).toNat ≤ n := by
    rw [h.dest, Nat.mul_comm (horStride c l).toNat]
    exact Nat.mul_le_mul_right _ (Nat.le_trans row h.height.2)
  have read : (y + 1) * l.stride.toNat ≤ src.size := by
    have rows := Nat.mul_le_mul_right l.stride.toNat row
    have source := h.source
    rw [Nat.mul_comm] at source
    exact Nat.le_trans rows source
  rw [Nat.succ_mul] at last read ⊢
  have copies : Fills n (fun i => y * (horStride c l).toNat ≤ i ∧
      i < y * (horStride c l).toNat + rowSize c) (stagedByte c l src)
      (Buffer.copy (y * (horStride c l).toNat) src (y * l.stride.toNat) (rowSize c)) :=
    fills_copy (by omega) (by omega) fun x column => stagedByte_row h row column
  by_cases padded : rowSize c < (horStride c l).toNat
  · have pads : Fills n (fun i => y * (horStride c l).toNat + rowSize c ≤ i ∧
        i < y * (horStride c l).toNat + rowSize c + ((horStride c l).toNat - rowSize c))
        (stagedByte c l src)
        (Buffer.fill (y * (horStride c l).toNat + rowSize c) 0
          ((horStride c l).toNat - rowSize c)) := by
      refine fills_fill (by omega) fun i below above => ?_
      obtain ⟨x, rfl⟩ := Nat.exists_eq_add_of_le (show y * (horStride c l).toNat ≤ i by omega)
      exact stagedByte_pad (by omega) (by omega)
    have run : copyRow c l src y = fun b =>
        Buffer.copy (y * (horStride c l).toNat) src (y * l.stride.toNat) (rowSize c) b >>=
          Buffer.fill (y * (horStride c l).toNat + rowSize c) 0
            ((horStride c l).toNat - rowSize c) := by
      funext b
      unfold copyRow
      simp only [if_pos padded]
    rw [run]
    exact fills_congr (fills_then copies pads) fun i => by omega
  · have run : copyRow c l src y =
        Buffer.copy (y * (horStride c l).toNat) src (y * l.stride.toNat) (rowSize c) := by
      funext b
      unfold copyRow
      simp only [if_neg padded]
      exact Option.bind_fun_some _
    rw [run]
    exact fills_congr copies fun i => by omega

theorem row_places (c : Config) (l : Layout) (i : Nat) :
    (∃ y ∈ List.range c.height.toNat,
      y * (horStride c l).toNat ≤ i ∧ i < (y + 1) * (horStride c l).toNat) ↔
      i < c.height.toNat * (horStride c l).toNat := by
  constructor
  · rintro ⟨y, row, -, above⟩
    exact Nat.lt_of_lt_of_le above (Nat.mul_le_mul_right _ (List.mem_range.mp row))
  · intro inside
    have pos : 0 < (horStride c l).toNat := Nat.pos_of_mul_pos_left (Nat.zero_lt_of_lt inside)
    exact ⟨i / (horStride c l).toNat, List.mem_range.mpr (Nat.div_lt_of_lt_mul (by
      rwa [Nat.mul_comm] at inside)), Nat.div_mul_le_self i _, Nat.lt_mul_of_div_lt
        (Nat.lt_succ_self _) pos⟩

theorem copyRows_fills (h : Staged c l src n) :
    Fills n (· < c.height.toNat * (horStride c l).toNat) (stagedByte c l src)
      (copyRows c l src) :=
  fills_congr (fills_loop fun _ row => copyRow_fills h (List.mem_range.mp row)) (row_places c l)

theorem copyWhole_fills (h : Staged c l src n) (fast : whole c l) :
    Fills n (· < c.height.toNat * (horStride c l).toNat) (stagedByte c l src)
      (copyWhole c src) := by
  obtain ⟨stride, row⟩ := fast
  have dest := h.dest
  have source := h.source
  have rows : rowSize c * c.height.toNat ≤ rowSize c * (verStride c).toNat :=
    Nat.mul_le_mul_left _ h.height.2
  rw [← stride, ← row] at source
  rw [← row] at dest
  refine fills_congr (fills_copy (by omega) (by omega) fun i inside => ?_) fun i => ?_
  · have column : i % rowSize c < rowSize c := Nat.mod_lt _ h.row.1
    have place : i / rowSize c < c.height.toNat := Nat.div_lt_of_lt_mul inside
    have byte := stagedByte_row h place column
    rw [← stride, ← row, Nat.div_add_mod'] at byte
    rw [Nat.zero_add]
    exact byte
  · rw [← row, Nat.zero_add, Nat.mul_comm]
    exact ⟨fun inside => inside.2, fun inside => ⟨Nat.zero_le i, inside⟩⟩

theorem padBelow_fills (h : Staged c l src n) :
    Fills n (fun i => c.height.toNat * (horStride c l).toNat ≤ i ∧ i < n) (stagedByte c l src)
      (padBelow c l) := by
  have dest := h.dest
  by_cases padded : c.height.toNat < (verStride c).toNat
  · have split : c.height.toNat * (horStride c l).toNat +
        (horStride c l).toNat * ((verStride c).toNat - c.height.toNat) = n := by
      rw [dest, Nat.mul_comm c.height.toNat, ← Nat.mul_add, Nat.add_sub_cancel' h.height.2]
    have run : padBelow c l = Buffer.fill (c.height.toNat * (horStride c l).toNat) 0
        ((horStride c l).toNat * ((verStride c).toNat - c.height.toNat)) :=
      funext fun b => if_pos padded
    rw [run]
    refine fills_congr (fills_fill (by omega) fun i below above => ?_) fun i => by omega
    have hs_pos : 0 < (horStride c l).toNat := Nat.lt_of_lt_of_le h.row.1 h.row.2.1
    have row : c.height.toNat ≤ i / (horStride c l).toNat := (Nat.le_div_iff_mul_le hs_pos).mpr below
    unfold stagedByte
    exact if_neg fun visible => Nat.not_le.mpr visible.1 row
  · have full : (verStride c).toNat = c.height.toNat := Nat.le_antisymm (by omega) h.height.2
    have run : padBelow c l = some := funext fun b => if_neg padded
    rw [run]
    refine fills_congr fills_skip fun i => ?_
    rw [dest, full, Nat.mul_comm (horStride c l).toNat]
    exact ⟨False.elim, fun inside => absurd inside.2 (Nat.not_lt.mpr inside.1)⟩

theorem copyBgr_fills (h : Staged c l src n) :
    Fills n (· < n) (stagedByte c l src) (copyBgr c l src) := by
  have rows : c.height.toNat * (horStride c l).toNat ≤ n := by
    rw [h.dest, Nat.mul_comm (horStride c l).toNat]
    exact Nat.mul_le_mul_right _ h.height.2
  have picture : Fills n (· < c.height.toNat * (horStride c l).toNat) (stagedByte c l src)
      fun b => if whole c l then copyWhole c src b else copyRows c l src b := by
    by_cases fast : whole c l
    · simp only [if_pos fast]
      exact copyWhole_fills h fast
    · simp only [if_neg fast]
      exact copyRows_fills h
  exact fills_congr (fills_then picture (padBelow_fills h)) fun i => by omega

end Rows

/-- The staging of a captured frame stays inside both buffers, fills the allocated one
whatever it held before with the rows of the picture and zeros, and does not depend on
the path where both are open. -/
theorem staging_copy {s : Capture} {c : Config} {raw : RawFrame} {data : Nat → UInt8}
    {staging : Buffer} (accepted : s.validate c = .ok ()) (bgr : s.layout.pixels = .bgr24)
    (full : s.layout.rgbLimited = false) (inside : raw.offset ≤ raw.bytes)
    (long : s.layout.sizeimage ≤ raw.bytes - raw.offset)
    (allocated : staging.size = (stagingBytes c s.layout).toNat) :
    staging.size = (horStride c s.layout).toNat * (verStride c).toNat ∧
    (∃ out : Buffer, stage c s.layout raw data staging = .ok (some out) ∧
      out.size = staging.size ∧
      (∀ y x, y < c.height.toNat → x < (horStride c s.layout).toNat →
        out.byte (y * (horStride c s.layout).toNat + x) =
          if x < c.width.toNat * 3 then
            data (raw.offset.toNat + (y * s.layout.stride.toNat + x))
          else 0) ∧
      ∀ y x, c.height.toNat ≤ y → y < (verStride c).toNat → x < (horStride c s.layout).toNat →
        out.byte (y * (horStride c s.layout).toNat + x) = 0) ∧
    (whole c s.layout →
      copyWhole c (raw.plane data) staging = copyRows c s.layout (raw.plane data) staging) := by
  have h : Staged c s.layout (raw.plane data) staging.size :=
    staged accepted bgr full long allocated
  obtain ⟨out, run, size, bytes⟩ := copyBgr_fills h staging rfl
  have passed : ¬ (raw.bytes < raw.offset ∨ raw.bytes - raw.offset < s.layout.sizeimage) :=
    not_or.mpr ⟨UInt32.not_lt.mpr inside, UInt32.not_lt.mpr long⟩
  refine ⟨h.dest, ⟨out, (if_neg passed).trans (congrArg Except.ok run), size, ?_, ?_⟩, ?_⟩
  · intro y x row column
    have place : y * (horStride c s.layout).toNat + x < staging.size := by
      rw [h.dest, Nat.mul_comm (horStride c s.layout).toNat]
      exact row_lt (Nat.lt_of_lt_of_le row h.height.2) column
    rw [(bytes _).1 place]
    split
    · rename_i visible
      exact stagedByte_row h row visible
    · rename_i hidden
      exact stagedByte_pad column fun visible => hidden visible.2
  · intro y x below row column
    have place : y * (horStride c s.layout).toNat + x < staging.size := by
      rw [h.dest, Nat.mul_comm (horStride c s.layout).toNat]
      exact row_lt row column
    rw [(bytes _).1 place]
    exact stagedByte_pad column fun visible => Nat.not_le.mpr visible.1 below
  · intro fast
    exact fills_unique (copyWhole_fills h fast) (copyRows_fills h) staging rfl

def narrow : Capture where
  layout := { width := 66, height := 64, stride := 200, sizeimage := 12800, pixels := .bgr24 }
  timings := { type := dvBt6561120, bt := ⟨66, 64, 0, 2592000, 10, 10, 14, 2, 2, 4⟩ }
  format := { field := fieldNone, numPlanes := 1, colorspace := colorspaceSrgb,
              xferFunc := xferFuncSrgb, quantization := 1, ycbcrEnc := ycbcrEncDefault }
  steady := fun _ => true

theorem staging_copy_narrow :
    ∃ out : Buffer, stage { width := 66, height := 64 } narrow.layout ⟨8, 12808⟩ Nat.toUInt8
        ⟨16384, fun _ => 9⟩ = .ok (some out) ∧ out.byte (256 + 197) = 149 ∧
      out.byte (256 + 198) = 0 := by
  obtain ⟨-, ⟨out, run, -, rows, -⟩, -⟩ :=
    @staging_copy narrow { width := 66, height := 64 } ⟨8, 12808⟩ Nat.toUInt8 ⟨16384, fun _ => 9⟩
      rfl rfl rfl (by decide) (by decide) rfl
  exact ⟨out, run, rows 1 197 (by decide) (by decide), rows 1 198 (by decide) (by decide)⟩

end Video

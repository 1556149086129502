import Mathlib.Tactic.Linarith
import RkmoonKvm.Video.Display
import RkmoonKvm.Video.Worker

/-! The level that the encoder signals: enough for the stream, no more than it
needs, and kept by every later bitrate. -/
namespace Video
open Reader

structure Config.Checked (c : Config) : Prop where
  codec : c.codec = .h264 ∨ c.codec = .hevc
  width : 64 ≤ c.width.toNat ∧ c.width.toNat ≤ 3840 ∧ c.width.toNat % 2 = 0
  height : 64 ≤ c.height.toNat ∧ c.height.toNat ≤ 2160 ∧ c.height.toNat % 2 = 0
  rate : 100 ≤ c.fpsX100.toNat ∧ c.fpsX100.toNat ≤ 12010
  budget : c.width.toNat * c.height.toNat * c.fpsX100.toNat ≤ 3840 * 2160 * 6010
  bitrate : 1000000 ≤ c.bitrate.toNat ∧ c.bitrate.toNat ≤ 35000000
  gop : 1 ≤ c.gop.toNat ∧ c.gop.toNat ≤ 120

theorem Config.checked {c : Config} (valid : c.validate = .ok ()) : c.Checked := by
  unfold Config.validate at valid
  obtain ⟨codec, valid⟩ := check_ok.mp valid
  obtain ⟨active, valid⟩ := check_ok.mp valid
  obtain ⟨rate, valid⟩ := check_ok.mp valid
  obtain ⟨budget, valid⟩ := check_ok.mp valid
  obtain ⟨limits, -⟩ := check_ok.mp valid
  simp only [not_or, UInt32.not_lt, UInt64.not_lt, ne_eq, not_not] at active rate budget limits
  obtain ⟨wide, tall, wide_le, tall_le, wide_even, tall_even⟩ := active
  obtain ⟨bitrate_ge, bitrate_le, gop_pos, gop_le⟩ := limits
  have fps_le : c.fpsX100.toUInt64 ≤ 12010 := by
    rw [UInt64.le_iff_toNat_le, UInt32.toNat_toUInt64]
    exact rate.2
  rw [UInt64.le_iff_toNat_le, toNat_throughput wide_le tall_le fps_le, UInt32.toNat_toUInt64]
    at budget
  refine ⟨by tauto, ⟨wide, wide_le, toNat_even wide_even⟩, ⟨tall, tall_le, toNat_even tall_even⟩,
    rate, budget, ⟨bitrate_ge, bitrate_le⟩, ⟨?_, gop_le⟩⟩
  exact Nat.pos_of_ne_zero fun zero => gop_pos (UInt32.toNat_inj.mp zero)

def pixels (c : Config) : UInt64 := c.width.toUInt64 * c.height.toUInt64

def macroblocks (c : Config) : UInt64 :=
  ((c.width + 15) / 16).toUInt64 * ((c.height + 15) / 16).toUInt64

def mppVideoLevel (c : Config) : Except String Int := do
  c.validate
  if c.codec = .hevc then
    let rate := pixels c * c.fpsX100.toUInt64
    if pixels c ≤ 2228224 ∧ rate ≤ 13369344000 ∧ c.bitrate ≤ 20000000 then pure 123
    else if pixels c ≤ 8912896 ∧ rate ≤ 26738688000 ∧ c.bitrate ≤ 25000000 then pure 150
    else pure 153
  else
    let mbpsX100 := macroblocks c * c.fpsX100.toUInt64
    pure (if 98304000 < mbpsX100 then 52
      else if 8704 < macroblocks c ∨ 52224000 < mbpsX100 then 51
      else 42)

/-- A level of the standard: what it is called in the stream, and which streams it admits. -/
structure Level where
  code : Int
  Admits : Config → Prop

/-- A level of the Main tier, by its luma samples a picture and a second, and its bits. -/
def mainTier (code : Int) (picture rate bitrate : Nat) : Level where
  code := code
  Admits c := c.width.toNat * c.height.toNat ≤ picture ∧
    c.width.toNat * c.height.toNat * c.fpsX100.toNat ≤ 100 * rate ∧ c.bitrate.toNat ≤ bitrate

def blocks (c : Config) : Nat := ((c.width.toNat + 15) / 16) * ((c.height.toNat + 15) / 16)

def blockLevel (code : Int) (frame rate : Nat) : Level where
  code := code
  Admits c := blocks c ≤ frame ∧ blocks c * c.fpsX100.toNat ≤ 100 * rate

def levels (c : Codec) : List Level :=
  if c = .hevc then
    [mainTier 123 2228224 133693440 20000000, mainTier 150 8912896 267386880 25000000,
      mainTier 153 8912896 534773760 40000000]
  else
    [blockLevel 42 8704 522240, blockLevel 51 36864 983040, blockLevel 52 36864 2073600]

/-- The products in 64 bits are those of the natural numbers. -/
structure Fits (c : Config) : Prop where
  pixels : (pixels c).toNat = c.width.toNat * c.height.toNat
  rate : (Video.pixels c * c.fpsX100.toUInt64).toNat =
    c.width.toNat * c.height.toNat * c.fpsX100.toNat
  macroblocks : (macroblocks c).toNat = blocks c
  mbps : (Video.macroblocks c * c.fpsX100.toUInt64).toNat = blocks c * c.fpsX100.toNat

theorem toNat_blocks {n : UInt32} (small : n.toNat ≤ 3840) :
    ((n + 15) / 16).toUInt64.toNat = (n.toNat + 15) / 16 := by
  have fifteen : (15 : UInt32).toNat = 15 := rfl
  have sixteen : (16 : UInt32).toNat = 16 := rfl
  rw [UInt32.toNat_toUInt64, UInt32.toNat_div, UInt32.toNat_add, fifteen, sixteen]
  omega

theorem checked_fits {c : Config} (h : c.Checked) : Fits c := by
  obtain ⟨-, wide_le, -⟩ := h.width
  obtain ⟨-, tall_le, -⟩ := h.height
  have fps_le := h.rate.2
  have area : c.width.toNat * c.height.toNat ≤ 3840 * 2160 := Nat.mul_le_mul wide_le tall_le
  have area_rate := Nat.mul_le_mul area fps_le
  have count : blocks c ≤ 240 * 135 := Nat.mul_le_mul (by omega) (by omega)
  have count_rate := Nat.mul_le_mul count fps_le
  have pixels : (pixels c).toNat = c.width.toNat * c.height.toNat := by
    unfold Video.pixels
    rw [UInt64.toNat_mul, UInt32.toNat_toUInt64, UInt32.toNat_toUInt64]
    exact Nat.mod_eq_of_lt (by omega)
  have macroblocks : (macroblocks c).toNat = blocks c := by
    unfold Video.macroblocks
    rw [UInt64.toNat_mul, toNat_blocks wide_le, toNat_blocks (by omega)]
    exact Nat.mod_eq_of_lt (show blocks c < 2 ^ 64 by omega)
  refine ⟨pixels, ?_, macroblocks, ?_⟩
  · rw [UInt64.toNat_mul, pixels, UInt32.toNat_toUInt64]
    exact Nat.mod_eq_of_lt (by omega)
  · rw [UInt64.toNat_mul, macroblocks, UInt32.toNat_toUInt64]
    exact Nat.mod_eq_of_lt (by omega)

theorem blocks_area {w h a b : ℤ} (wide : 16 * a ≤ w + 14) (tall : 16 * b ≤ h + 14)
    (a_pos : 1 ≤ a) (h_pos : 0 ≤ h) : 256 * (a * b) ≤ w * h + 224 * (a + b) := by
  have across : 0 ≤ (w + 14 - 16 * a) * h := mul_nonneg (by linarith) h_pos
  have down : 0 ≤ (16 * a - 14) * (h + 14 - 16 * b) := mul_nonneg (by linarith) (by linarith)
  linarith

theorem sides_area {a b : ℤ} (a_le : a ≤ 240) (b_le : b ≤ 240) :
    240 * (a + b) ≤ 57600 + a * b := by
  have corner : 0 ≤ (240 - a) * (240 - b) := mul_nonneg (by linarith) (by linarith)
  linarith

/-- Rounding the sides up costs a mode within the budget less than the highest level
has to spare: the border adds to a rate of blocks what the sides allow, and the
sides are bounded by the area. -/
theorem block_rate {w h a b f : ℤ} (wide : 16 * a ≤ w + 14) (tall : 16 * b ≤ h + 14)
    (a_pos : 1 ≤ a) (h_pos : 0 ≤ h) (a_le : a ≤ 240) (b_le : b ≤ 240) (f_pos : 0 ≤ f)
    (f_le : f ≤ 12010) (budget : w * h * f ≤ 49849344000) : a * b * f ≤ 207360000 := by
  have area := mul_le_mul_of_nonneg_right (blocks_area wide tall a_pos h_pos) f_pos
  have sides := mul_le_mul_of_nonneg_right (sides_area a_le b_le) f_pos
  linarith

theorem checked_blocks {c : Config} (h : c.Checked) :
    blocks c ≤ 32400 ∧ blocks c * c.fpsX100.toNat ≤ 207360000 := by
  obtain ⟨wide_ge, wide_le, wide_even⟩ := h.width
  obtain ⟨tall_ge, tall_le, tall_even⟩ := h.height
  have budget : (c.width.toNat : ℤ) * c.height.toNat * c.fpsX100.toNat ≤ 49849344000 := by
    exact_mod_cast h.budget
  have bound := block_rate (w := c.width.toNat) (h := c.height.toNat)
    (a := ((c.width.toNat + 15) / 16 : Nat)) (b := ((c.height.toNat + 15) / 16 : Nat))
    (f := c.fpsX100.toNat) (by omega) (by omega) (by omega) (by omega) (by omega) (by omega)
    (by omega) (by exact_mod_cast h.rate.2) budget
  have count : blocks c ≤ 240 * 135 := Nat.mul_le_mul (by omega) (by omega)
  refine ⟨count, ?_⟩
  unfold blocks
  exact_mod_cast bound

theorem lowest_level {c : Config} {l₁ l₂ l₃ : Level} {x : Except String Int}
    (upward : l₁.code < l₂.code ∧ l₂.code < l₃.code) (enough : l₃.Admits c)
    (first : l₁.Admits c → x = .ok l₁.code)
    (second : ¬ l₁.Admits c → l₂.Admits c → x = .ok l₂.code)
    (third : ¬ l₁.Admits c → ¬ l₂.Admits c → x = .ok l₃.code) :
    ∃ l ∈ [l₁, l₂, l₃], x = .ok l.code ∧ l.Admits c ∧
      ∀ l' ∈ [l₁, l₂, l₃], l'.code < l.code → ¬ l'.Admits c := by
  obtain ⟨low, high⟩ := upward
  simp only [List.mem_cons, List.not_mem_nil, or_false, exists_eq_or_imp, exists_eq_left,
    forall_eq_or_imp, forall_eq]
  by_cases admits₁ : l₁.Admits c
  · exact .inl ⟨first admits₁, admits₁, by omega, by omega, by omega⟩
  by_cases admits₂ : l₂.Admits c
  · exact .inr (.inl ⟨second admits₁ admits₂, admits₂, fun _ => admits₁, by omega, by omega⟩)
  · exact .inr (.inr ⟨third admits₁ admits₂, enough, fun _ => admits₁, fun _ => admits₂,
      by omega⟩)

theorem hevc_level {c : Config} (valid : c.validate = .ok ()) (hevc : c.codec = .hevc) :
    ∃ l ∈ levels c.codec, mppVideoLevel c = .ok l.code ∧ l.Admits c ∧
      ∀ l' ∈ levels c.codec, l'.code < l.code → ¬ l'.Admits c := by
  have checked := Config.checked valid
  obtain ⟨pixels, rate, -, -⟩ := checked_fits checked
  have budget := checked.budget
  have bitrate := checked.bitrate.2
  have area : c.width.toNat * c.height.toNat ≤ 3840 * 2160 :=
    Nat.mul_le_mul checked.width.2.1 checked.height.2.1
  have first : Video.pixels c ≤ 2228224 ∧ Video.pixels c * c.fpsX100.toUInt64 ≤ 13369344000 ∧
      c.bitrate ≤ 20000000 ↔ (mainTier 123 2228224 133693440 20000000).Admits c := by
    rw [UInt64.le_iff_toNat_le, UInt64.le_iff_toNat_le, UInt32.le_iff_toNat_le, pixels, rate]
    rfl
  have second : Video.pixels c ≤ 8912896 ∧ Video.pixels c * c.fpsX100.toUInt64 ≤ 26738688000 ∧
      c.bitrate ≤ 25000000 ↔ (mainTier 150 8912896 267386880 25000000).Admits c := by
    rw [UInt64.le_iff_toNat_le, UInt64.le_iff_toNat_le, UInt32.le_iff_toNat_le, pixels, rate]
    rfl
  rw [levels, if_pos hevc, mppVideoLevel, valid]
  apply lowest_level
  · exact ⟨by decide, by decide⟩
  · exact ⟨by omega, by omega, by omega⟩
  · intro admits
    rw [if_pos hevc]
    exact if_pos (first.mpr admits)
  · intro refused admits
    rw [if_pos hevc]
    exact (if_neg (mt first.mp refused)).trans (if_pos (second.mpr admits))
  · intro refused refused'
    rw [if_pos hevc]
    exact (if_neg (mt first.mp refused)).trans (if_neg (mt second.mp refused'))

theorem h264_level {c : Config} (valid : c.validate = .ok ()) (h264 : c.codec ≠ .hevc) :
    ∃ l ∈ levels c.codec, mppVideoLevel c = .ok l.code ∧ l.Admits c ∧
      ∀ l' ∈ levels c.codec, l'.code < l.code → ¬ l'.Admits c := by
  have checked := Config.checked valid
  obtain ⟨-, -, macroblocks, mbps⟩ := checked_fits checked
  obtain ⟨count, rate⟩ := checked_blocks checked
  have over52 : 98304000 < Video.macroblocks c * c.fpsX100.toUInt64 ↔
      98304000 < blocks c * c.fpsX100.toNat := by
    rw [UInt64.lt_iff_toNat_lt, mbps]
    rfl
  have over51 : 8704 < Video.macroblocks c ∨
      52224000 < Video.macroblocks c * c.fpsX100.toUInt64 ↔
      8704 < blocks c ∨ 52224000 < blocks c * c.fpsX100.toNat := by
    rw [UInt64.lt_iff_toNat_lt, UInt64.lt_iff_toNat_lt, macroblocks, mbps]
    rfl
  have low : (blockLevel 42 8704 522240).Admits c ↔
      ¬ (8704 < blocks c ∨ 52224000 < blocks c * c.fpsX100.toNat) := by
    simp only [blockLevel]
    omega
  have middle : (blockLevel 51 36864 983040).Admits c ↔
      ¬ 98304000 < blocks c * c.fpsX100.toNat := by
    simp only [blockLevel]
    omega
  have chosen : mppVideoLevel c = .ok (if 98304000 < blocks c * c.fpsX100.toNat then 52
      else if 8704 < blocks c ∨ 52224000 < blocks c * c.fpsX100.toNat then 51 else 42) := by
    rw [mppVideoLevel, valid]
    exact (if_neg h264).trans (congrArg Except.ok (if_congr over52 rfl (if_congr over51 rfl rfl)))
  rw [levels, if_neg h264, chosen]
  apply lowest_level
  · exact ⟨by decide, by decide⟩
  · exact ⟨by omega, by omega⟩
  · intro admits
    have small := low.mp admits
    rw [if_neg (by omega), if_neg small]
    rfl
  · intro refused admits
    have large := not_not.mp (mt low.mpr refused)
    rw [if_neg (middle.mp admits), if_pos large]
    rfl
  · intro _ refused
    rw [if_pos (not_not.mp (mt middle.mpr refused))]
    rfl

/-! Bitrates that are set on an open encoder. -/

namespace Worker.Encoder

/-- The statements of `bitrate` and `set_rate` one by one, with the encoder that an
exception leaves; what MPP says to the new rate is given. -/
def bitrateStatements (e : Encoder) (bps : UInt32) (mpp : Except String Unit) :
    Except String Unit × Encoder :=
  if e.config.bitrate < bps then (.error "live bitrate increase requires reconnect in v1", e)
  else
    let e := { e with config := { e.config with bitrate := bps } }
    (e.config.validate >>= fun _ => mpp, e)

/-- Where MPP takes the rate, nothing but the assignment ahead of the check sets these
statements apart from a call that leaves no trace when it throws. -/
theorem bitrate_statements (e : Encoder) (bps : UInt32) :
    e.bitrate bps = (e.bitrateStatements bps (.ok ())).1.map
      fun _ => (e.bitrateStatements bps (.ok ())).2 := by
  unfold bitrate setRate bitrateStatements
  split
  · rfl
  · dsimp only
    cases Config.validate { e.config with bitrate := bps } with
    | error text => rfl
    | ok u => rfl

def rates (e : Encoder) (calls : List (UInt32 × Except String Unit)) : Encoder :=
  Runs.run (fun e call => (e.bitrateStatements call.1 call.2).2) e calls

end Worker.Encoder

def Lowered (c c' : Config) : Prop :=
  c' = { c with bitrate := c'.bitrate } ∧ c'.bitrate ≤ c.bitrate

theorem bitrate_lowers {c : Config} {e : Worker.Encoder} {bps : UInt32}
    {mpp : Except String Unit} (h : Lowered c e.config) :
    Lowered c (e.bitrateStatements bps mpp).2.config := by
  unfold Worker.Encoder.bitrateStatements
  split
  · exact h
  · rename_i lower
    refine ⟨?_, UInt32.le_trans (UInt32.not_lt.mp lower) h.2⟩
    rw [h.1]

theorem rates_lower {c : Config} {e : Worker.Encoder} (h : Lowered c e.config)
    (calls : List (UInt32 × Except String Unit)) : Lowered c (e.rates calls).config :=
  Runs.run_invariant _ (fun e : Worker.Encoder => Lowered c e.config)
    (fun _ _ => bitrate_lowers) h calls

theorem admits_lowered {c : Config} {l : Level} {bps : UInt32} (member : l ∈ levels c.codec)
    (admits : l.Admits c) (lower : bps ≤ c.bitrate) : l.Admits { c with bitrate := bps } := by
  have fewer : bps.toNat ≤ c.bitrate.toNat := lower
  unfold levels at member
  split at member <;> simp only [List.mem_cons, List.not_mem_nil, or_false] at member <;>
    rcases member with rfl | rfl | rfl
  · exact ⟨admits.1, admits.2.1, fewer.trans admits.2.2⟩
  · exact ⟨admits.1, admits.2.1, fewer.trans admits.2.2⟩
  · exact ⟨admits.1, admits.2.1, fewer.trans admits.2.2⟩
  · exact admits
  · exact admits
  · exact admits

/-- The level signalled at open admits the stream, as no lower one does; it is computed
without a wrap, and every bitrate that is accepted later stays inside it. -/
theorem signalled_level {c : Config} (valid : c.validate = .ok ()) :
    Fits c ∧ ∃ l ∈ levels c.codec, mppVideoLevel c = .ok l.code ∧ l.Admits c ∧
      (∀ l' ∈ levels c.codec, l'.code < l.code → ¬ l'.Admits c) ∧
      ∀ direct fullRange e calls bps mpp, Worker.openEncoder c direct fullRange = .ok e →
        ((e.rates calls).bitrateStatements bps mpp).1 = .ok () →
          l.Admits { c with bitrate := bps } := by
  have chosen : ∃ l ∈ levels c.codec, mppVideoLevel c = .ok l.code ∧ l.Admits c ∧
      ∀ l' ∈ levels c.codec, l'.code < l.code → ¬ l'.Admits c := by
    by_cases hevc : c.codec = .hevc
    · exact hevc_level valid hevc
    · exact h264_level valid hevc
  obtain ⟨l, member, signalled, admits, minimal⟩ := chosen
  refine ⟨checked_fits (Config.checked valid), l, member, signalled, admits, minimal, ?_⟩
  intro direct fullRange e calls bps mpp opened accepted
  have config : e.config = c := by
    rw [Worker.openEncoder, valid] at opened
    cases opened
    rfl
  have lowered := rates_lower (c := c) (e := e) ⟨by rw [config], by rw [config]; exact UInt32.le_refl _⟩ calls
  unfold Worker.Encoder.bitrateStatements at accepted
  split at accepted
  · cases accepted
  · rename_i lower
    exact admits_lowered member admits (UInt32.le_trans (UInt32.not_lt.mp lower) lowered.2)

theorem signalled_level_full : ∃ l ∈ levels .h264,
    mppVideoLevel { width := 3840, height := 2160, fpsX100 := 6010, codec := .h264 } =
      .ok l.code ∧
    l.Admits { width := 3840, height := 2160, fpsX100 := 6010, codec := .h264 } := by
  obtain ⟨-, l, member, signalled, admits, -⟩ := signalled_level
    (c := { width := 3840, height := 2160, fpsX100 := 6010, codec := .h264 }) rfl
  exact ⟨l, member, signalled, admits⟩

end Video

import Mathlib.Tactic.Ring
import RkmoonKvm.Library.Reader
import RkmoonKvm.Library.Rounding
import RkmoonKvm.Video.Wire

/-! The mode that the server advertises and the one that it configures: the V4L2
timings as `describe_timing` reads them, in 64 bit arithmetic, and the translation of
a client's request. -/
namespace Video
open Reader Rounding

inductive Signal where
  | unavailable | unsupported | noSignal | ready
  deriving DecidableEq, Repr

def Signal.text : Signal → String
  | .unavailable => "unavailable"
  | .unsupported => "unsupported"
  | .noSignal => "no_signal"
  | .ready => "ready"

structure DisplayInfo where
  status : Signal := .unavailable
  width : UInt32 := 0
  height : UInt32 := 0
  fpsX100 : UInt32 := 0
  deriving DecidableEq

structure BtTimings where
  width : UInt32
  height : UInt32
  interlaced : UInt32
  pixelclock : UInt64
  hfrontporch : UInt32
  hsync : UInt32
  hbackporch : UInt32
  vfrontporch : UInt32
  vsync : UInt32
  vbackporch : UInt32

structure DvTimings where
  type : UInt32
  bt : BtTimings

def dvBt6561120 : UInt32 := 0

namespace BtTimings

def totalWidth (b : BtTimings) : UInt64 :=
  b.width.toUInt64 + b.hfrontporch.toUInt64 + b.hsync.toUInt64 + b.hbackporch.toUInt64

def totalHeight (b : BtTimings) : UInt64 :=
  b.height.toUInt64 + b.vfrontporch.toUInt64 + b.vsync.toUInt64 + b.vbackporch.toUInt64

def total (b : BtTimings) : UInt64 := b.totalWidth * b.totalHeight

/-- The frame rate in hundredths of a hertz, rounded. -/
def fps (b : BtTimings) : UInt64 := (b.pixelclock * 100 + b.total / 2) / b.total

def frequency (b : BtTimings) : ℚ := b.pixelclock.toNat / b.total.toNat

end BtTimings

def pixelBudget : UInt64 := 3840 * 2160 * 6010

/-- The flag for 1440p90 is accepted and no longer read. -/
def describeTiming (t : DvTimings) (high _ninety : Bool) : DisplayInfo :=
  let b := t.bt
  let unsupported : DisplayInfo := { status := .unsupported }
  if t.type ≠ dvBt6561120 ∨ b.interlaced ≠ 0 then unsupported
  else if b.totalWidth = 0 ∨ b.totalHeight = 0 ∨ 100000 < b.totalWidth ∨ 100000 < b.totalHeight ∨
      10000000000 < b.pixelclock then unsupported
  else if b.width < 64 ∨ 3840 < b.width ∨ b.height < 64 ∨ 2160 < b.height ∨
      b.width &&& 1 ≠ 0 ∨ b.height &&& 1 ≠ 0 then unsupported
  else if high = false ∧ (b.width ≠ 1920 ∨ b.height ≠ 1080) then unsupported
  else if b.fps < 100 ∨ 12010 < b.fps ∨
      pixelBudget < b.width.toUInt64 * b.height.toUInt64 * b.fps then unsupported
  else { status := .ready, width := b.width, height := b.height, fpsX100 := b.fps.toUInt32 }

/-- What `describe_timing` has checked of a mode that it calls ready. -/
structure Supported (t : DvTimings) (high : Bool) : Prop where
  progressive : t.type = dvBt6561120 ∧ t.bt.interlaced = 0
  blanked : t.bt.totalWidth ≠ 0 ∧ t.bt.totalHeight ≠ 0 ∧
    t.bt.totalWidth ≤ 100000 ∧ t.bt.totalHeight ≤ 100000 ∧ t.bt.pixelclock ≤ 10000000000
  active : 64 ≤ t.bt.width ∧ t.bt.width ≤ 3840 ∧ 64 ≤ t.bt.height ∧ t.bt.height ≤ 2160 ∧
    t.bt.width &&& 1 = 0 ∧ t.bt.height &&& 1 = 0
  allowed : high = false → t.bt.width = 1920 ∧ t.bt.height = 1080
  rate : 100 ≤ t.bt.fps ∧ t.bt.fps ≤ 12010 ∧
    t.bt.width.toUInt64 * t.bt.height.toUInt64 * t.bt.fps ≤ pixelBudget

theorem refused_ready {c : Prop} [Decidable c] {d : DisplayInfo}
    (ready : (if c then { status := .unsupported } else d : DisplayInfo).status = .ready) :
    ¬ c ∧ (if c then { status := .unsupported } else d : DisplayInfo) = d := by
  by_cases refused : c
  · rw [if_pos refused] at ready
    cases ready
  · exact ⟨refused, if_neg refused⟩

theorem describeTiming_ready {t : DvTimings} {high ninety : Bool}
    (ready : (describeTiming t high ninety).status = .ready) :
    Supported t high ∧ describeTiming t high ninety =
      { status := .ready, width := t.bt.width, height := t.bt.height, fpsX100 := t.bt.fps.toUInt32 } := by
  unfold describeTiming at ready ⊢
  dsimp only at ready ⊢
  obtain ⟨progressive, same₁⟩ := refused_ready ready
  rw [same₁] at ready ⊢
  obtain ⟨blanked, same₂⟩ := refused_ready ready
  rw [same₂] at ready ⊢
  obtain ⟨active, same₃⟩ := refused_ready ready
  rw [same₃] at ready ⊢
  obtain ⟨allowed, same₄⟩ := refused_ready ready
  rw [same₄] at ready ⊢
  obtain ⟨rate, same₅⟩ := refused_ready ready
  refine ⟨?_, same₅⟩
  simp only [not_or, not_and, UInt32.not_lt, UInt64.not_lt, ne_eq, not_not] at progressive blanked active allowed rate
  exact { progressive, blanked, active, allowed, rate }

/-- The arithmetic of the mode is that of the natural numbers. -/
structure Exact (b : BtTimings) : Prop where
  totalWidth : b.totalWidth.toNat =
    b.width.toNat + b.hfrontporch.toNat + b.hsync.toNat + b.hbackporch.toNat
  totalHeight : b.totalHeight.toNat =
    b.height.toNat + b.vfrontporch.toNat + b.vsync.toNat + b.vbackporch.toNat
  total : b.total.toNat = b.totalWidth.toNat * b.totalHeight.toNat
  divisor : 0 < b.total.toNat
  dividend : (b.pixelclock * 100 + b.total / 2).toNat = b.pixelclock.toNat * 100 + b.total.toNat / 2
  fps : b.fps.toNat = roundDiv (b.pixelclock.toNat * 100) b.total.toNat
  narrowed : b.fps.toUInt32.toNat = b.fps.toNat
  throughput : (b.width.toUInt64 * b.height.toUInt64 * b.fps).toNat =
    b.width.toNat * b.height.toNat * b.fps.toNat

theorem toNat_sum (a b c d : UInt32) :
    (a.toUInt64 + b.toUInt64 + c.toUInt64 + d.toUInt64).toNat =
      a.toNat + b.toNat + c.toNat + d.toNat := by
  simp only [UInt64.toNat_add, UInt32.toNat_toUInt64]
  have := a.toNat_lt
  have := b.toNat_lt
  have := c.toNat_lt
  have := d.toNat_lt
  omega

theorem toNat_pos {n : UInt64} (h : n ≠ 0) : 0 < n.toNat :=
  Nat.pos_of_ne_zero fun zero => h (UInt64.toNat_inj.mp zero)

theorem toNat_even {n : UInt32} (even : n &&& 1 = 0) : n.toNat % 2 = 0 := by
  have one : (1 : UInt32).toNat = 1 := rfl
  rw [← Nat.and_one_is_mod, ← one, ← UInt32.toNat_and, even]
  rfl

theorem toNat_dividend {clock total : UInt64} (clock_le : clock ≤ 10000000000)
    (total_le : total.toNat ≤ 100000 * 100000) :
    (clock * 100 + total / 2).toNat = clock.toNat * 100 + total.toNat / 2 := by
  have clock_le : clock.toNat ≤ 10000000000 := clock_le
  have hundred : (100 : UInt64).toNat = 100 := rfl
  have two : (2 : UInt64).toNat = 2 := rfl
  rw [UInt64.toNat_add, UInt64.toNat_mul, UInt64.toNat_div, hundred, two]
  omega

theorem toNat_throughput {width height : UInt32} {fps : UInt64} (width_le : width ≤ 3840)
    (height_le : height ≤ 2160) (fps_le : fps ≤ 12010) :
    (width.toUInt64 * height.toUInt64 * fps).toNat = width.toNat * height.toNat * fps.toNat := by
  have pixels : width.toNat * height.toNat ≤ 3840 * 2160 := Nat.mul_le_mul width_le height_le
  have work : width.toNat * height.toNat * fps.toNat ≤ 3840 * 2160 * 12010 :=
    Nat.mul_le_mul pixels fps_le
  rw [UInt64.toNat_mul, UInt64.toNat_mul, UInt32.toNat_toUInt64, UInt32.toNat_toUInt64]
  rw [Nat.mod_eq_of_lt (a := width.toNat * height.toNat) (by omega), Nat.mod_eq_of_lt (by omega)]

theorem supported_exact {t : DvTimings} {high : Bool} (h : Supported t high) : Exact t.bt := by
  obtain ⟨wide, tall, wide_le, tall_le, clock_le⟩ := h.blanked
  obtain ⟨_, width_le, _, height_le, _, _⟩ := h.active
  obtain ⟨_, fps_le, _⟩ := h.rate
  have area : t.bt.totalWidth.toNat * t.bt.totalHeight.toNat ≤ 100000 * 100000 :=
    Nat.mul_le_mul wide_le tall_le
  have total : t.bt.total.toNat = t.bt.totalWidth.toNat * t.bt.totalHeight.toNat := by
    rw [BtTimings.total, UInt64.toNat_mul, Nat.mod_eq_of_lt (by omega)]
  have dividend := toNat_dividend clock_le (Nat.le_trans (Nat.le_of_eq total) area)
  have fps_nat : t.bt.fps.toNat ≤ 12010 := fps_le
  exact {
    totalWidth := toNat_sum _ _ _ _
    totalHeight := toNat_sum _ _ _ _
    total
    divisor := total ▸ Nat.mul_pos (toNat_pos wide) (toNat_pos tall)
    dividend
    fps := by rw [BtTimings.fps, UInt64.toNat_div, dividend, roundDiv]
    narrowed := by rw [UInt64.toNat_toUInt32, Nat.mod_eq_of_lt (by omega)]
    throughput := toNat_throughput width_le height_le fps_le }

theorem rate_error {b : BtTimings} (h : Exact b) :
    |b.frequency - (b.fps.toNat : ℚ) / 100| ≤ 5 / 1000 := by
  have error := roundDiv_error (b.pixelclock.toNat * 100) h.divisor
  have scaled : ((b.pixelclock.toNat * 100 : Nat) : ℚ) / b.total.toNat = b.frequency * 100 := by
    rw [BtTimings.frequency]
    push_cast
    ring
  rw [scaled, ← h.fps, abs_sub_le_iff] at error
  rw [abs_sub_le_iff]
  constructor <;> linarith

/-- Only integer transport aliases may normalize. -/
def effectiveCaptureFps (width height requested : UInt32) (source : DisplayInfo) : UInt32 :=
  if source.status = .ready ∧ source.width = width ∧ source.height = height ∧
      requested % 100 = 0 ∧ requested / 100 = (source.fpsX100 + 50) / 100 then source.fpsX100
  else requested

structure Environment where
  allowHighRes : Bool
  allow1440p90Experiment : Bool
  allowAbsoluteMouse : Bool
  allowCopy : Bool := false
  videoDevice : String := "/dev/video0"

structure StreamConfig where
  width : Int
  height : Int
  framerate : Int
  framerateX100 : Int
  bitrate : Int
  videoFormat : Int
  dynamicRange : Int
  chromaSamplingType : Int
  enableIntraRefresh : Int
  rkmoonAbsoluteMouse : Bool

def translate (env : Environment) (source : DisplayInfo) (c : StreamConfig) : Except String Config :=
  if c.rkmoonAbsoluteMouse ∧ env.allowAbsoluteMouse = false then
    throw "absolute mouse not authorized"
  else if c.videoFormat < 0 ∨ 1 < c.videoFormat ∨ c.dynamicRange ≠ 0 ∨ c.chromaSamplingType ≠ 0 ∨
      c.enableIntraRefresh ≠ 0 then
    throw "RKMoon only supports SDR 8-bit 4:2:0 H264/HEVC, IDR recovery"
  else if c.bitrate < 1000 ∨ 35000 < c.bitrate then
    throw "RKMoon negotiated video bitrate must be 1..35 Mbps"
  else if c.framerateX100 ≤ 0 ∧ (c.framerate < 1 ∨ 120 < c.framerate) then
    throw "invalid integer framerate"
  else
    let width := UInt32.ofInt c.width
    let height := UInt32.ofInt c.height
    let requested := UInt32.ofInt (if 0 < c.framerateX100 then c.framerateX100 else c.framerate * 100)
    if env.allowHighRes = false ∧ (width ≠ 1920 ∨ height ≠ 1080) then
      throw "RKMoon first-stage mode is 1920x1080; higher modes require explicit acceptance gate"
    else do
      let out : Config := {
        width, height
        fpsX100 := effectiveCaptureFps width height requested source
        bitrate := UInt32.ofInt c.bitrate * 1000
        codec := if c.videoFormat = 1 then .hevc else .h264
        allow1440p90Experiment := env.allow1440p90Experiment && env.allowHighRes }
      out.validate
      return out

/-- `std::clamp((c.fps_x100+50)/100,1U,120U)` -/
def gop (c : Config) : UInt32 :=
  let rounded := (c.fpsX100 + 50) / 100
  if rounded < 1 then 1 else if 120 < rounded then 120 else rounded

def args (env : Environment) (c : Config) (placeholder : Bool) : List String :=
  ["--device", env.videoDevice, "--codec", if c.codec = .hevc then "hevc" else "h264",
    "--width", toString c.width.toNat, "--height", toString c.height.toNat,
    "--fps-x100", toString c.fpsX100.toNat, "--bitrate", toString c.bitrate.toNat,
    "--gop", toString (gop c).toNat, "--ack-capture-ownership"] ++
  (if c.allow1440p90Experiment ∧ 8900 ≤ c.fpsX100 then ["--allow-1440p90-experiment"] else []) ++
  (if env.allowCopy then ["--allow-copy"] else []) ++
  (if placeholder then ["--no-signal-placeholder"] else [])

/-- The worker's comparison of the source with the configured rate, in exact numbers. -/
def cadenceMatches (b : BtTimings) (c : Config) : Prop :=
  |b.frequency - c.fpsX100.toNat / 100| ≤ 15 / 100

theorem gop_range (c : Config) : 1 ≤ gop c ∧ gop c ≤ 120 := by
  unfold gop
  dsimp only
  split
  · decide
  split
  · decide
  · next low high => exact ⟨UInt32.not_lt.mp low, UInt32.not_lt.mp high⟩

theorem args_gop (env : Environment) (out : Config) (placeholder : Bool) :
    ["--gop", toString (gop out).toNat] <:+: args env out placeholder := by
  unfold args
  apply List.infix_append_of_infix_left
  apply List.infix_append_of_infix_left
  apply List.infix_append_of_infix_left
  exact ⟨[_, _, _, _, _, _, _, _, _, _, _, _], [_], rfl⟩

/-- A request of a whole number of hertz, with the settings that the client has. -/
structure Asks (width height fps : Int) (absolute : Bool) (c : StreamConfig) : Prop where
  width : c.width = width
  height : c.height = height
  framerate : c.framerate = fps
  whole : c.framerateX100 ≤ 0
  format : c.videoFormat = 0 ∨ c.videoFormat = 1
  sdr : c.dynamicRange = 0 ∧ c.chromaSamplingType = 0 ∧ c.enableIntraRefresh = 0
  bitrate : 1000 ≤ c.bitrate ∧ c.bitrate ≤ 35000
  mouse : c.rkmoonAbsoluteMouse = true → absolute = true

theorem effectiveCaptureFps_alias {d : DisplayInfo} {fps : UInt32} (ready : d.status = .ready)
    (rate : d.fpsX100.toNat ≤ 12010) (named : fps.toNat = (d.fpsX100.toNat + 50) / 100 * 100) :
    effectiveCaptureFps d.width d.height fps d = d.fpsX100 := by
  have hundred : (100 : UInt32).toNat = 100 := rfl
  have fifty : (50 : UInt32).toNat = 50 := rfl
  have whole : fps % 100 = 0 := by
    apply UInt32.toNat_inj.mp
    rw [UInt32.toNat_mod, hundred, named, Nat.mul_mod_left]
    rfl
  have rounded : fps / 100 = (d.fpsX100 + 50) / 100 := by
    apply UInt32.toNat_inj.mp
    rw [UInt32.toNat_div, UInt32.toNat_div, UInt32.toNat_add, hundred, fifty, named]
    omega
  exact if_pos ⟨ready, rfl, rfl, whole, rounded⟩

theorem toNat_ofInt {n : Nat} (small : n < 2 ^ 32) : (UInt32.ofInt n).toNat = n := by
  simp only [UInt32.ofInt, UInt32.toNat_ofNat']
  omega

theorem ofInt_toNat (n : UInt32) : UInt32.ofInt n.toNat = n :=
  UInt32.toNat_inj.mp (toNat_ofInt n.toNat_lt)

theorem toNat_bitrate {kbps : Int} (range : 1000 ≤ kbps ∧ kbps ≤ 35000) :
    (UInt32.ofInt kbps * 1000).toNat = kbps.toNat * 1000 := by
  have thousand : (1000 : UInt32).toNat = 1000 := rfl
  have natural : kbps = kbps.toNat := by omega
  rw [UInt32.toNat_mul, thousand, natural, toNat_ofInt (by omega)]
  omega

theorem supported_validate {t : DvTimings} {high : Bool} {c : Config} (h : Supported t high)
    (width : c.width = t.bt.width) (height : c.height = t.bt.height)
    (rate : c.fpsX100 = t.bt.fps.toUInt32)
    (bitrate : 1000000 ≤ c.bitrate ∧ c.bitrate ≤ 35000000) (gop : c.gop = 60)
    (codec : c.codec = .h264 ∨ c.codec = .hevc) : c.validate = .ok () := by
  obtain ⟨width_ge, width_le, height_ge, height_le, width_even, height_even⟩ := h.active
  obtain ⟨fps_ge, fps_le, budget⟩ := h.rate
  have narrowed := (supported_exact h).narrowed
  have widened : t.bt.fps.toUInt32.toUInt64 = t.bt.fps :=
    UInt64.toNat_inj.mp (by rw [UInt32.toNat_toUInt64, narrowed])
  have rate_ge : 100 ≤ t.bt.fps.toUInt32 := by
    rw [UInt32.le_iff_toNat_le, narrowed]
    exact fps_ge
  have rate_le : t.bt.fps.toUInt32 ≤ 12010 := by
    rw [UInt32.le_iff_toNat_le, narrowed]
    exact fps_le
  unfold Config.validate
  rw [width, height, rate, widened]
  refine check_ok.mpr ⟨fun neither => codec.elim neither.1 neither.2, ?_⟩
  refine check_ok.mpr ⟨?_, check_ok.mpr ⟨?_, check_ok.mpr ⟨?_, check_ok.mpr ⟨?_, rfl⟩⟩⟩⟩
  · simp only [not_or, UInt32.not_lt, ne_eq, not_not]
    exact ⟨width_ge, height_ge, width_le, height_le, width_even, height_even⟩
  · simp only [not_or, UInt32.not_lt]
    exact ⟨rate_ge, rate_le⟩
  · exact UInt64.not_lt.mpr budget
  · rw [gop]
    simp only [not_or, UInt32.not_lt]
    exact ⟨bitrate.1, bitrate.2, by decide, by decide⟩

theorem effective_ready {t : DvTimings} {high ninety : Bool} {framerate : Int}
    (ready : (describeTiming t high ninety).status = .ready)
    (whole : framerate = ((t.bt.fps.toNat + 50) / 100 : Nat)) :
    effectiveCaptureFps t.bt.width t.bt.height (UInt32.ofInt (framerate * 100))
      (describeTiming t high ninety) = t.bt.fps.toUInt32 := by
  obtain ⟨supported, described⟩ := describeTiming_ready ready
  have narrowed := (supported_exact supported).narrowed
  have fps_le : t.bt.fps.toNat ≤ 12010 := supported.rate.2.1
  have product : framerate * 100 = ((t.bt.fps.toNat + 50) / 100 * 100 : Nat) := by omega
  rw [described, product]
  apply effectiveCaptureFps_alias rfl
  · rw [narrowed]
    exact fps_le
  · rw [narrowed]
    exact toNat_ofInt (by omega)

theorem codec_supported (format : Int) :
    (if format = 1 then Codec.hevc else .h264) = .h264 ∨
      (if format = 1 then Codec.hevc else .h264) = .hevc := by
  by_cases hevc : format = 1
  · exact .inr (if_pos hevc)
  · exact .inl (if_neg hevc)

theorem translate_ready {env : Environment} {t : DvTimings} {ninety : Bool} {c : StreamConfig}
    (ready : (describeTiming t env.allowHighRes ninety).status = .ready)
    (asks : Asks t.bt.width.toNat t.bt.height.toNat ((t.bt.fps.toNat + 50) / 100 : Nat)
      env.allowAbsoluteMouse c) :
    ∃ out, translate env (describeTiming t env.allowHighRes ninety) c = .ok out ∧
      out.width = t.bt.width ∧ out.height = t.bt.height ∧ out.fpsX100 = t.bt.fps.toUInt32 ∧
      out.validate = .ok () := by
  have supported := (describeTiming_ready ready).1
  have fps_ge : 100 ≤ t.bt.fps.toNat := supported.rate.1
  have fps_le : t.bt.fps.toNat ≤ 12010 := supported.rate.2.1
  have width : UInt32.ofInt c.width = t.bt.width := by rw [asks.width, ofInt_toNat]
  have height : UInt32.ofInt c.height = t.bt.height := by rw [asks.height, ofInt_toNat]
  have fraction : ¬ 0 < c.framerateX100 := Int.not_lt.mpr asks.whole
  have framerate := asks.framerate
  have format := asks.format
  obtain ⟨dynamic, sampling, refresh⟩ := asks.sdr
  obtain ⟨bitrate_ge, bitrate_le⟩ := asks.bitrate
  have mouse : ¬ (c.rkmoonAbsoluteMouse ∧ env.allowAbsoluteMouse = false) := by
    rintro ⟨absolute, refused⟩
    rw [asks.mouse absolute] at refused
    cases refused
  have allowed : ¬ (env.allowHighRes = false ∧ (t.bt.width ≠ 1920 ∨ t.bt.height ≠ 1080)) := by
    rintro ⟨low, other⟩
    obtain ⟨wide, tall⟩ := supported.allowed low
    exact other.elim (absurd wide) (absurd tall)
  let out : Config := {
    width := t.bt.width, height := t.bt.height, fpsX100 := t.bt.fps.toUInt32
    bitrate := UInt32.ofInt c.bitrate * 1000
    codec := if c.videoFormat = 1 then .hevc else .h264
    allow1440p90Experiment := env.allow1440p90Experiment && env.allowHighRes }
  have valid : out.validate = .ok () := by
    refine supported_validate supported rfl rfl rfl ?_ rfl (codec_supported c.videoFormat)
    rw [UInt32.le_iff_toNat_le, UInt32.le_iff_toNat_le, toNat_bitrate asks.bitrate]
    exact ⟨by simp; omega, by simp; omega⟩
  refine ⟨out, check_ok.mpr ⟨mouse, check_ok.mpr ⟨by omega, check_ok.mpr ⟨by omega,
    check_ok.mpr ⟨by omega, ?_⟩⟩⟩⟩, rfl, rfl, rfl, valid⟩
  dsimp only
  rw [width, height, if_neg fraction, effective_ready ready framerate]
  refine check_ok.mpr ⟨allowed, ?_⟩
  change out.validate >>= _ = _
  rw [valid]
  rfl

theorem cadence_matches {t : DvTimings} {high : Bool} {c : Config} (h : Supported t high)
    (rate : c.fpsX100 = t.bt.fps.toUInt32) : cadenceMatches t.bt c := by
  have exact := supported_exact h
  have error := rate_error exact
  unfold cadenceMatches
  rw [rate, exact.narrowed]
  exact error.trans (by norm_num)

def putDisplayInfo (env : Environment) (d : DisplayInfo) : List (String × String) :=
  [("RKMoonMouseModes", if env.allowAbsoluteMouse then "relative,absolute" else "relative"),
   ("RKMoonDisplayVersion", "1"),
   ("RKMoonDisplayStatus", d.status.text),
   ("RKMoonDisplayWidth", toString d.width.toNat),
   ("RKMoonDisplayHeight", toString d.height.toNat),
   ("RKMoonDisplayFpsX100", toString d.fpsX100.toNat)]

end Video

import RkmoonKvm.Client.Window
import RkmoonKvm.Video.Display

/-! The server and the client agree about every mode that is advertised as ready:
what the client reads, asks for and gets is the mode that the source has. -/
namespace Agreement
open Video Client

/-- The reader of the reply finds what the server has put into it. -/
def Delivered (get : String → String) (elements : List (String × String)) : Prop :=
  ∀ e ∈ elements, get e.1 = e.2

structure Configured (env : Environment) (b : BtTimings) (d : DisplayInfo) (out : Video.Config) : Prop where
  width : out.width = b.width
  height : out.height = b.height
  rate : out.fpsX100 = d.fpsX100
  valid : out.validate = .ok ()
  gop : ∀ placeholder, ∃ n : Nat, 1 ≤ n ∧ n ≤ 120 ∧ ["--gop", toString n] <:+: args env out placeholder
  cadence : cadenceMatches b out

structure Agrees (t : DvTimings) (env : Environment) (d : DisplayInfo) (get : String → String)
    (info : Info) : Prop where
  exact : Exact t.bt
  rate : |t.bt.frequency - (d.fpsX100.toNat : ℚ) / 100| ≤ 5 / 1000
  parsed : Display.parse get = .ok info.display
  display : info.display =
    { status := .ready, width := t.bt.width.toNat, height := t.bt.height.toNat, fpsX100 := d.fpsX100.toNat }
  requested : 1 ≤ (Window.requested info.display).fps ∧ (Window.requested info.display).fps ≤ 120
  configured : ∀ c, Asks (Window.requested info.display).width (Window.requested info.display).height
    (Window.requested info.display).fps info.absolute c →
      ∃ out, translate env d c = .ok out ∧ Configured env t.bt d out

theorem absolute_advertised (env : Environment) :
    ((if env.allowAbsoluteMouse then "relative,absolute" else "relative").toList.splitOn ',').contains
      "absolute".toList = env.allowAbsoluteMouse := by
  cases env.allowAbsoluteMouse <;> decide

theorem limits_of_supported {t : DvTimings} {high : Bool} (h : Supported t high) :
    Display.Limits {
      status := .ready, width := t.bt.width.toNat, height := t.bt.height.toNat,
      fpsX100 := t.bt.fps.toUInt32.toNat } := by
  obtain ⟨width_ge, width_le, height_ge, height_le, width_even, height_even⟩ := h.active
  have fps_ge : 100 ≤ t.bt.fps.toNat := h.rate.1
  have fps_le : t.bt.fps.toNat ≤ 12010 := h.rate.2.1
  have narrowed := (supported_exact h).narrowed
  have width_ge : 64 ≤ t.bt.width.toNat := width_ge
  have width_le : t.bt.width.toNat ≤ 3840 := width_le
  have height_ge : 64 ≤ t.bt.height.toNat := height_ge
  have height_le : t.bt.height.toNat ≤ 2160 := height_le
  have width_even := toNat_even width_even
  have height_even := toNat_even height_even
  exact { width := by dsimp only; omega, height := by dsimp only; omega, rate := by dsimp only; omega }

theorem ready_mode_agrees (t : DvTimings) (env : Environment) (ninety : Bool) (get : String → String)
    (ready : (describeTiming t env.allowHighRes ninety).status = .ready)
    (delivered : Delivered get (putDisplayInfo env (describeTiming t env.allowHighRes ninety))) :
    ∃ info, Info.read get = .ok info ∧
      Agrees t env (describeTiming t env.allowHighRes ninety) get info := by
  obtain ⟨supported, described⟩ := describeTiming_ready ready
  have exact := supported_exact supported
  have version := delivered ("RKMoonDisplayVersion", "1") (by simp [putDisplayInfo])
  have status := delivered ("RKMoonDisplayStatus", "ready") (by simp [putDisplayInfo, ready, Signal.text])
  have modes := delivered ("RKMoonMouseModes", _) (List.mem_cons_self ..)
  rw [described] at delivered
  have width := delivered ("RKMoonDisplayWidth", toString t.bt.width.toNat) (by simp [putDisplayInfo])
  have height := delivered ("RKMoonDisplayHeight", toString t.bt.height.toNat) (by simp [putDisplayInfo])
  have rate := delivered ("RKMoonDisplayFpsX100", toString t.bt.fps.toUInt32.toNat)
    (by simp [putDisplayInfo])
  have parsed := Display.parse_ready version status width height rate (limits_of_supported supported)
  obtain ⟨info, read, display, absolute⟩ := Info.read_ok parsed
  rw [modes, absolute_advertised] at absolute
  have narrowed := exact.narrowed
  have rate_ge : 100 ≤ t.bt.fps.toNat := supported.rate.1
  refine ⟨info, read, {
    exact
    rate := by
      rw [described]
      dsimp only
      rw [narrowed]
      exact rate_error exact
    parsed := by rw [display, parsed]
    display := by rw [display, described]
    requested := Window.requested_fps (display ▸ parsed)
    configured := ?_ }⟩
  intro c asks
  have requested : Window.requested info.display = {
      width := t.bt.width.toNat, height := t.bt.height.toNat,
      fps := ((t.bt.fps.toNat + 50) / 100 : Nat) } := by
    rw [display, ← narrowed]
    rfl
  rw [requested, absolute] at asks
  obtain ⟨out, configured, width_same, height_same, rate_same, valid⟩ := translate_ready ready asks
  refine ⟨out, configured, {
    width := width_same
    height := height_same
    rate := by rw [rate_same, described]
    valid
    gop := fun placeholder => ⟨_, (gop_range out).1, (gop_range out).2, args_gop env out placeholder⟩
    cadence := cadence_matches supported rate_same }⟩

def fullHd : DvTimings where
  type := dvBt6561120
  bt := {
    width := 1920, height := 1080, interlaced := 0, pixelclock := 148350000
    hfrontporch := 88, hsync := 44, hbackporch := 148
    vfrontporch := 4, vsync := 5, vbackporch := 36 }

def plain : Environment where
  allowHighRes := false
  allow1440p90Experiment := false
  allowAbsoluteMouse := true

def serverInfo (tag : String) : String :=
  ((putDisplayInfo plain (describeTiming fullHd false false)).lookup tag).getD ""

theorem serverInfo_delivers :
    Delivered serverInfo (putDisplayInfo plain (describeTiming fullHd false false)) := by
  intro e member
  simp only [putDisplayInfo, List.mem_cons, List.not_mem_nil, or_false] at member
  rcases member with rfl | rfl | rfl | rfl | rfl | rfl <;> rfl

theorem fullHd_agrees : (describeTiming fullHd false false).status = .ready ∧
    ∃ info, Info.read serverInfo = .ok info ∧
      Agrees fullHd plain (describeTiming fullHd false false) serverInfo info :=
  ⟨by decide, ready_mode_agrees fullHd plain false serverInfo (by decide) serverInfo_delivers⟩

end Agreement

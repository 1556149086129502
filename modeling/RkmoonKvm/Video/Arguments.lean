import Mathlib.Data.List.Basic
import RkmoonKvm.Library.Reader
import RkmoonKvm.Video.Display

/-! The command line between the bridge and its worker: what the worker reads of it, which of its
modes it then starts, and the READY message that closes the negotiation. -/
namespace Video.Arguments
open Reader

structure Options where
  c : Config := {}
  device : String := "/dev/video0"
  output : String := ""
  stats : String := ""
  seconds : UInt32 := 60
  idrAt : UInt32 := 30
  ipc : Int32 := -1
  probe : Bool := false
  allowCopy : Bool := false
  authorized : Bool := false
  placeholder : Bool := false
  deriving DecidableEq

/-- The whole text is an unsigned number in 32 bit. -/
def number (s : String) : Except String UInt32 :=
  match digits? s.toList with
  | some n => if n < 2 ^ 32 then pure (UInt32.ofNat n) else throw "invalid numeric argument"
  | none => throw "invalid numeric argument"

def flag (k : String) (o : Options) : Option Options :=
  if k = "--probe" then some { o with probe := true }
  else if k = "--allow-copy" then some { o with allowCopy := true }
  else if k = "--ack-capture-ownership" then some { o with authorized := true }
  else if k = "--no-signal-placeholder" then some { o with placeholder := true }
  else if k = "--allow-1440p90-experiment" then
    some { o with c := { o.c with allow1440p90Experiment := true } }
  else none

def assign (k v : String) (o : Options) : Except String Options :=
  if k = "--device" then pure { o with device := v }
  else if k = "--output" then pure { o with output := v }
  else if k = "--stats" then pure { o with stats := v }
  else if k = "--width" then do pure { o with c := { o.c with width := ← number v } }
  else if k = "--height" then do pure { o with c := { o.c with height := ← number v } }
  else if k = "--fps-x100" then do pure { o with c := { o.c with fpsX100 := ← number v } }
  else if k = "--bitrate" then do pure { o with c := { o.c with bitrate := ← number v } }
  else if k = "--gop" then do pure { o with c := { o.c with gop := ← number v } }
  else if k = "--seconds" then do pure { o with seconds := ← number v }
  else if k = "--idr-at" then do pure { o with idrAt := ← number v }
  else if k = "--ipc-fd" then do pure { o with ipc := (← number v).toInt32 }
  else if k = "--codec" then
    if v = "hevc" then pure { o with c := { o.c with codec := .hevc } }
    else if v = "h264" then pure { o with c := { o.c with codec := .h264 } }
    else throw "unknown codec"
  else throw "unknown argument"

/-- The loop over the arguments; `none` after `--help`. -/
def parse : List String → Options → Except String (Option Options)
  | [], o => pure (some o)
  | k :: rest, o =>
    if k = "--help" then pure none
    else match flag k o with
      | some o => parse rest o
      | none =>
        match rest with
        | [] => throw "missing option value"
        | v :: rest => do parse rest (← assign k v o)

inductive Mode where
  | help
  | probe (o : Options)
  | placeholder (o : Options)
  /-- The capture loop, on the socket of a session or into a file. -/
  | capture (o : Options)
  deriving DecidableEq

/-- What the worker does with its arguments, up to the devices. -/
def main (argv : List String) : Except String Mode := do
  match ← parse argv {} with
  | none => pure .help
  | some o =>
    o.c.validate
    if 86400 < o.seconds ∨ o.seconds = 0 ∧ o.ipc < 0 then throw "invalid duration"
    else if o.probe then pure (.probe o)
    else if o.authorized = false then throw "capture ownership not authorized; no device opened"
    else if o.placeholder then
      if o.ipc < 0 then throw "placeholder mode is session-only" else pure (.placeholder o)
    else if o.ipc < 0 ∧ o.output = "" then throw "standalone mode requires --output"
    else pure (.capture o)

def ready (c : Config) : Message where
  h := { kind := .ready, width := c.width, height := c.height, codec := c.codec, extra := c.fpsX100 }

/-- The arguments of the child: `Child` puts its own before those of the bridge. -/
def childArguments (arguments : List String) : List String := "--ipc-fd" :: "3" :: arguments

/-- How `capture` starts its worker; the display is read once for the mode and once for the signal. -/
def launch (authorized : Bool) (env : Environment) (source signal : DisplayInfo) (request : StreamConfig) :
    Except String (Config × List String) := do
  if authorized = false then throw "capture ownership has not been granted"
  else
    let c ← translate env source request
    pure (c, childArguments (args env c (signal.status = .noSignal)))

def negotiate (c : Config) (m : Message) : Except String Unit :=
  if m.h.kind ≠ .ready ∨ m.h.width ≠ c.width ∨ m.h.height ≠ c.height ∨ m.h.codec ≠ c.codec ∨
      m.h.extra ≠ c.fpsX100 then throw "capture negotiation failed"
  else pure ()

theorem number_toString (n : UInt32) : number (toString n.toNat) = .ok n := by
  have small : n.toNat < 2 ^ 32 := n.toNat_lt
  simp only [number, digits_toString, if_pos small, UInt32.ofNat_toNat]
  rfl

theorem number_repr (n : UInt32) : number n.toNat.repr = .ok n := number_toString n

section parse
variable {o : Options} {rest : List String}

theorem parse_flag {k : String} {o' : Options} (other : k ≠ "--help") (set : flag k o = some o') :
    parse (k :: rest) o = parse rest o' := by
  rw [parse.eq_def]
  simp only [if_neg other, set]

theorem parse_assign {k v : String} {o' : Options} (other : k ≠ "--help") (none : flag k o = none)
    (set : assign k v o = .ok o') : parse (k :: v :: rest) o = parse rest o' := by
  rw [parse.eq_def]
  simp only [if_neg other, none, set, bind, Except.bind]

theorem flag_authorized {k : String} {o o' : Options} (set : flag k o = some o')
    (other : k ≠ "--ack-capture-ownership") : o'.authorized = o.authorized := by
  simp only [flag, if_neg other] at set
  split at set
  next => cases set; rfl
  next =>
    split at set
    next => cases set; rfl
    next =>
      split at set
      next => cases set; rfl
      next =>
        split at set
        next => cases set; rfl
        next => cases set

def Keeps (o : Options) (set : Except String Options) : Prop :=
  ∀ o', set = .ok o' → o'.authorized = o.authorized

theorem keeps_ite {c : Prop} [Decidable c] {set other : Except String Options} (first : Keeps o set)
    (second : Keeps o other) : Keeps o (if c then set else other) := by
  split
  · exact first
  · exact second

theorem keeps_pure {o₁ : Options} (same : o₁.authorized = o.authorized) : Keeps o (pure o₁) := by
  intro o' set
  cases set
  exact same

theorem keeps_number {v : String} {f : UInt32 → Options} (same : ∀ n, (f n).authorized = o.authorized) :
    Keeps o (do return f (← number v)) := by
  intro o' set
  obtain ⟨n, _, done⟩ := bind_ok set
  cases done
  exact same n

theorem keeps_throw (e : String) : Keeps o (throw e) := fun o' set => by cases set

theorem assign_authorized (k v : String) (o : Options) : Keeps o (assign k v o) := by
  have text {o₁ : Options} {other : Except String Options} {c : Prop} [Decidable c]
      (second : Keeps o other) (same : o₁.authorized = o.authorized) :
      Keeps o (if c then pure o₁ else other) := keeps_ite (keeps_pure same) second
  have count {f : UInt32 → Options} {other : Except String Options} {c : Prop} [Decidable c]
      (second : Keeps o other) (same : ∀ n, (f n).authorized = o.authorized) :
      Keeps o (if c then do return f (← number v) else other) := keeps_ite (keeps_number same) second
  unfold assign
  iterate 3 refine text ?_ rfl
  iterate 8 refine count ?_ fun _ => rfl
  refine keeps_ite ?_ (keeps_throw _)
  exact text (text (keeps_throw _) rfl) rfl

/-- Ownership of the capture is only taken from an option of its own. -/
theorem parse_authorized (xs : List String) (o o' : Options) (read : parse xs o = .ok (some o'))
    (was : o.authorized = false) (authorized : o'.authorized) :
    ∃ before after o₁, xs = before ++ "--ack-capture-ownership" :: after ∧
      parse before o = .ok (some o₁) := by
  fun_induction parse xs o with
  | case1 o =>
    cases read
    cases was.symm.trans authorized
  | case2 rest o => cases read
  | case3 k rest o other o₁ set ih =>
    by_cases here : k = "--ack-capture-ownership"
    · exact ⟨[], rest, o, by rw [here]; rfl, rfl⟩
    · obtain ⟨before, after, o₂, split, parsed⟩ := ih read ((flag_authorized set here).trans was)
      exact ⟨k :: before, after, o₂, by rw [split]; rfl, by rw [parse_flag other set, parsed]⟩
  | case4 o k other none => cases read
  | case5 k o other none v rest ih =>
    obtain ⟨o₁, set, read⟩ := bind_ok read
    obtain ⟨before, after, o₂, split, parsed⟩ := ih o₁ read ((assign_authorized k v o o₁ set).trans was)
    exact ⟨k :: v :: before, after, o₂, by rw [split]; rfl, by rw [parse_assign other none set, parsed]⟩

end parse

theorem flag_ownership (o : Options) :
    flag "--ack-capture-ownership" o = some { o with authorized := true } := by simp [flag]

theorem flag_copy (o : Options) : flag "--allow-copy" o = some { o with allowCopy := true } := by
  simp [flag]

theorem flag_placeholder (o : Options) :
    flag "--no-signal-placeholder" o = some { o with placeholder := true } := by simp [flag]

theorem flag_experiment (o : Options) : flag "--allow-1440p90-experiment" o =
    some { o with c := { o.c with allow1440p90Experiment := true } } := by simp [flag]

def session (device : String) (c : Config) (experiment allowCopy placeholder : Bool) : Options where
  c := { c with gop := gop c, allow1440p90Experiment := experiment }
  device
  ipc := 3
  allowCopy
  authorized := true
  placeholder

def received (env : Environment) (c : Config) (placeholder : Bool) : Options :=
  session env.videoDevice c (c.allow1440p90Experiment ∧ 8900 ≤ c.fpsX100) env.allowCopy placeholder

theorem parse_given {k : String} {f : Bool → Options} {given : Prop} [Decidable given]
    (other : k ≠ "--help") (set : flag k (f false) = some (f true)) (rest : List String) :
    parse ((if given then [k] else []) ++ rest) (f false) = parse rest (f (decide given)) := by
  by_cases here : given
  · rw [if_pos here, List.singleton_append, parse_flag other set, decide_eq_true here]
  · rw [if_neg here, List.nil_append, decide_eq_false here]

theorem parse_last (device : String) (c : Config) (experiment copy placeholder : Prop)
    [Decidable experiment] [Decidable copy] [Decidable placeholder] :
    parse ((if experiment then ["--allow-1440p90-experiment"] else []) ++
      ((if copy then ["--allow-copy"] else []) ++
        ((if placeholder then ["--no-signal-placeholder"] else []) ++ [])))
      (session device c false false false) = .ok (some (session device c experiment copy placeholder)) := by
  have first := @parse_given "--allow-1440p90-experiment" (fun b => session device c b false false)
    experiment _ (by decide) (flag_experiment _)
  have second := @parse_given "--allow-copy" (fun b => session device c experiment b false)
    copy _ (by decide) (flag_copy _)
  have third := @parse_given "--no-signal-placeholder" (fun b => session device c experiment copy b)
    placeholder _ (by decide) (flag_placeholder _)
  rw [first, second, third]
  rfl

theorem valid_codec {c : Config} (valid : c.validate = .ok ()) : c.codec = .h264 ∨ c.codec = .hevc := by
  unfold Config.validate at valid
  have known := (check_ok.mp valid).1
  by_cases h264 : c.codec = .h264
  · exact .inl h264
  · exact .inr (not_not.mp fun hevc => known ⟨h264, hevc⟩)

theorem parse_args (env : Environment) {c : Config} (valid : c.validate = .ok ()) (placeholder : Bool) :
    parse (childArguments (args env c placeholder)) {} = .ok (some (received env c placeholder)) := by
  have codec (o : Options) : assign "--codec" (if c.codec = .hevc then "hevc" else "h264") o =
      .ok { o with c := { o.c with codec := c.codec } } := by
    have other : Codec.h264 ≠ .hevc := by decide
    rcases valid_codec valid with h264 | hevc
    · rw [h264]
      simp [assign, other, pure, Except.pure]
    · rw [hevc]
      simp [assign, pure, Except.pure]
  have width (o : Options) : assign "--width" (toString c.width.toNat) o =
      .ok { o with c := { o.c with width := c.width } } := by
    simp [assign, number_repr, bind, Except.bind, pure, Except.pure]
  have height (o : Options) : assign "--height" (toString c.height.toNat) o =
      .ok { o with c := { o.c with height := c.height } } := by
    simp [assign, number_repr, bind, Except.bind, pure, Except.pure]
  have rate (o : Options) : assign "--fps-x100" (toString c.fpsX100.toNat) o =
      .ok { o with c := { o.c with fpsX100 := c.fpsX100 } } := by
    simp [assign, number_repr, bind, Except.bind, pure, Except.pure]
  have bitrate (o : Options) : assign "--bitrate" (toString c.bitrate.toNat) o =
      .ok { o with c := { o.c with bitrate := c.bitrate } } := by
    simp [assign, number_repr, bind, Except.bind, pure, Except.pure]
  have group (o : Options) : assign "--gop" (toString (gop c).toNat) o =
      .ok { o with c := { o.c with gop := gop c } } := by
    simp [assign, number_repr, bind, Except.bind, pure, Except.pure]
  have device (o : Options) : assign "--device" env.videoDevice o =
      .ok { o with device := env.videoDevice } := by simp [assign, pure, Except.pure]
  have socket : assign "--ipc-fd" "3" {} = .ok { ipc := 3 } := by
    have three : number "3" = .ok 3 := number_toString 3
    simp [assign, three, bind, Except.bind, pure, Except.pure]
  have last := parse_last env.videoDevice c (c.allow1440p90Experiment ∧ 8900 ≤ c.fpsX100) env.allowCopy
    placeholder
  rw [List.append_nil, Bool.decide_eq_true, Bool.decide_eq_true] at last
  rw [childArguments, args, List.append_assoc, List.append_assoc]
  simp only [List.cons_append, List.nil_append]
  rw [parse_assign (by decide) rfl socket, parse_assign (by decide) rfl (device _),
    parse_assign (by decide) rfl (codec _), parse_assign (by decide) rfl (width _),
    parse_assign (by decide) rfl (height _), parse_assign (by decide) rfl (rate _),
    parse_assign (by decide) rfl (bitrate _), parse_assign (by decide) rfl (group _),
    parse_flag (by decide) (flag_ownership _)]
  exact last

theorem validate_session {c : Config} (valid : c.validate = .ok ()) (experiment : Bool) :
    ({ c with gop := gop c, allow1440p90Experiment := experiment } : Config).validate = .ok () := by
  obtain ⟨low, high⟩ := gop_range c
  unfold Config.validate at valid ⊢
  obtain ⟨codec, valid⟩ := check_ok.mp valid
  obtain ⟨dimensions, valid⟩ := check_ok.mp valid
  obtain ⟨rate, valid⟩ := check_ok.mp valid
  obtain ⟨budget, valid⟩ := check_ok.mp valid
  obtain ⟨bits, _⟩ := check_ok.mp valid
  refine check_ok.mpr ⟨codec, check_ok.mpr ⟨dimensions, check_ok.mpr ⟨rate, check_ok.mpr ⟨budget,
    check_ok.mpr ⟨?_, rfl⟩⟩⟩⟩⟩
  rintro (less | more | zero | long)
  · exact bits (.inl less)
  · exact bits (.inr (.inl more))
  · rw [show gop c = 0 from zero] at low
    exact absurd low (by decide)
  · exact UInt32.not_lt.mpr high long

theorem translate_valid {env : Environment} {source : DisplayInfo} {request : StreamConfig} {c : Config}
    (translated : translate env source request = .ok c) : c.validate = .ok () := by
  unfold translate at translated
  obtain ⟨_, translated⟩ := check_ok.mp translated
  obtain ⟨_, translated⟩ := check_ok.mp translated
  obtain ⟨_, translated⟩ := check_ok.mp translated
  obtain ⟨_, translated⟩ := check_ok.mp translated
  obtain ⟨_, translated⟩ := check_ok.mp translated
  obtain ⟨u, valid, same⟩ := bind_ok translated
  cases same
  exact valid

theorem negotiate_iff (c c' : Config) : negotiate c (ready c') = .ok () ↔
    c'.width = c.width ∧ c'.height = c.height ∧ c'.codec = c.codec ∧ c'.fpsX100 = c.fpsX100 := by
  unfold negotiate
  constructor
  · intro agreed
    have none := (check_ok.mp agreed).1
    simp only [not_or, not_not, ne_eq] at none
    exact none.2
  · intro same
    refine check_ok.mpr ⟨?_, rfl⟩
    simp only [not_or, not_not, ne_eq]
    exact ⟨rfl, same⟩

/-- Whatever mode the bridge translates and launches: the worker that gets its arguments starts the
capture loop, or the placeholder if the display is without a signal; it does so with exactly that mode,
device and permissions; and its READY message closes the negotiation, which no other mode would. -/
theorem launch_starts (authorized : Bool) (env : Environment) (source signal : DisplayInfo)
    (request : StreamConfig) (c : Config) (argv : List String)
    (launched : launch authorized env source signal request = .ok (c, argv)) :
    ∃ o : Options,
      main argv = .ok (if signal.status = .noSignal then .placeholder o else .capture o) ∧
      o.c = { c with gop := gop c, allow1440p90Experiment := c.allow1440p90Experiment && 8900 ≤ c.fpsX100 } ∧
      o.c.validate = .ok () ∧ o.device = env.videoDevice ∧ o.ipc = 3 ∧ o.output = "" ∧
      o.allowCopy = env.allowCopy ∧ authorized ∧
      ∀ c', negotiate c (ready c') = .ok () ↔
        c'.width = o.c.width ∧ c'.height = o.c.height ∧ c'.codec = o.c.codec ∧ c'.fpsX100 = o.c.fpsX100 := by
  unfold launch at launched
  obtain ⟨granted, launched⟩ := check_ok.mp launched
  obtain ⟨c₁, translated, same⟩ := bind_ok launched
  cases same
  have valid := translate_valid translated
  have parsed := parse_args env valid (signal.status = .noSignal)
  refine ⟨received env c (signal.status = .noSignal), ?_, ?_, validate_session valid _, rfl, rfl, rfl, rfl,
    by simpa using granted, negotiate_iff c⟩
  · have checked : (received env c (signal.status = .noSignal)).c.validate = .ok () :=
      validate_session valid _
    simp only [main, parsed, bind, Except.bind, checked]
    by_cases missing : signal.status = .noSignal
    · simp only [missing, received, session, decide_true, if_true]
      rfl
    · simp only [missing, received, session, decide_false, if_false]
      rfl
  · rw [received, session, Bool.decide_and]
    simp

def defaultRequest : StreamConfig where
  width := 1920
  height := 1080
  framerate := 60
  framerateX100 := 0
  bitrate := 20000
  videoFormat := 1
  dynamicRange := 0
  chromaSamplingType := 0
  enableIntraRefresh := 0
  rkmoonAbsoluteMouse := false

theorem launch_starts_default : ∃ (c : Config) (argv : List String) (o : Options),
    main argv = .ok (.capture o) ∧ negotiate c (ready o.c) = .ok () ∧ o.c.gop = 60 := by
  have launched : ∃ c argv, launch true ⟨false, false, false, true, "/dev/video1"⟩ {} { status := .ready }
      defaultRequest = .ok (c, argv) ∧ gop c = 60 := ⟨_, _, rfl, by decide⟩
  obtain ⟨c, argv, launched, group⟩ := launched
  obtain ⟨o, started, mode, _, _, _, _, _, _, agrees⟩ := launch_starts _ _ _ _ _ c argv launched
  exact ⟨c, argv, o, started, (agrees o.c).mpr ⟨rfl, rfl, rfl, rfl⟩, by rw [mode]; exact group⟩

theorem main_starts {argv : List String} {m : Mode} (started : main argv = .ok m) :
    m = .help ∨ (∃ o, m = .probe o) ∨ ∃ o, parse argv {} = .ok (some o) ∧ o.c.validate = .ok () ∧
      o.authorized ∧ (m = .placeholder o ∧ 0 ≤ o.ipc ∨ m = .capture o ∧ (0 ≤ o.ipc ∨ o.output ≠ "")) := by
  unfold main at started
  obtain ⟨read, parsed, started⟩ := bind_ok started
  cases read with
  | none =>
    cases started
    exact .inl rfl
  | some o =>
    obtain ⟨u, valid, started⟩ := bind_ok started
    obtain ⟨_, started⟩ := check_ok.mp started
    split at started
    next =>
      cases started
      exact .inr (.inl ⟨o, rfl⟩)
    next =>
      obtain ⟨owned, started⟩ := check_ok.mp started
      refine .inr (.inr ⟨o, parsed, valid, by simpa using owned, ?_⟩)
      split at started
      next =>
        obtain ⟨socket, started⟩ := check_ok.mp started
        cases started
        exact .inl ⟨rfl, Int32.not_lt.mp socket⟩
      next =>
        obtain ⟨target, started⟩ := check_ok.mp started
        cases started
        refine .inr ⟨rfl, ?_⟩
        by_cases socket : o.ipc < 0
        · exact .inr fun empty => target ⟨socket, empty⟩
        · exact .inl (Int32.not_lt.mp socket)

/-- Whatever its arguments: a worker that starts one of its loops has read the option that hands it the
capture, as an option and not as the value of another, and has a valid mode and somewhere to send its
frames. -/
theorem loops_owned (argv : List String) (o : Options)
    (started : main argv = .ok (.capture o) ∨ main argv = .ok (.placeholder o)) :
    (∃ before after o₁, argv = before ++ "--ack-capture-ownership" :: after ∧
      parse before {} = .ok (some o₁)) ∧
    o.c.validate = .ok () ∧ (0 ≤ o.ipc ∨ o.output ≠ "") := by
  have opens : ∃ m, main argv = .ok m ∧ (m = .capture o ∨ m = .placeholder o) := by
    rcases started with capture | placeholder
    · exact ⟨_, capture, .inl rfl⟩
    · exact ⟨_, placeholder, .inr rfl⟩
  obtain ⟨m, started, loop⟩ := opens
  rcases main_starts started with help | ⟨o₁, probe⟩ | ⟨o₁, parsed, valid, owned, target⟩
  · rcases loop with same | same <;> cases help.symm.trans same
  · rcases loop with same | same <;> cases probe.symm.trans same
  · have same : o₁ = o := by
      rcases target with ⟨at_, _⟩ | ⟨at_, _⟩ <;> rcases loop with same | same <;>
        cases at_.symm.trans same <;> rfl
    subst same
    refine ⟨parse_authorized argv {} o₁ parsed rfl owned, valid, ?_⟩
    rcases target with ⟨_, socket⟩ | ⟨_, somewhere⟩
    · exact .inl socket
    · exact somewhere

theorem loops_owned_default : ∃ argv before after,
    argv = before ++ "--ack-capture-ownership" :: after ∧ ∃ o, main argv = .ok (.capture o) := by
  have started : ∃ o, main ["--output", "--ack-capture-ownership", "--ack-capture-ownership"] =
      .ok (.capture o) := ⟨_, rfl⟩
  obtain ⟨o, started⟩ := started
  obtain ⟨⟨before, after, _, split, _⟩, _⟩ := loops_owned _ o (.inl started)
  exact ⟨_, before, after, split, o, started⟩

/-- A path that spells the option does not hand over the capture. -/
example : main ["--output", "--ack-capture-ownership"] =
    .error "capture ownership not authorized; no device opened" := rfl

end Video.Arguments

import RkmoonKvm.Library.Reader
import RkmoonKvm.Tools.Document

/-! The configuration of the supervisor: what `run.load` accepts of a document, and what
`hid_command` and `base_env` make of it. -/
namespace Tools.Config
open Value Dict Reader

def required : List String :=
  ["schema", "sunshine_binary", "worker_binary", "state_directory", "capture_device",
    "capture_ownership_authorized", "allow_cpu_pixel_copy", "allow_high_resolution", "input"]

def optional : List String := ["audio", "allow_1440p90_experiment", "allow_absolute_mouse"]

def permissions : List String :=
  ["capture_ownership_authorized", "allow_cpu_pixel_copy", "allow_high_resolution"]

def paths : List String :=
  ["sunshine_binary", "worker_binary", "state_directory", "capture_device"]

def inputNames : List String :=
  ["enabled", "exclusive_hid_authorized", "kvmd_socket", "auth_headers_file"]

def complete (names : List (Option Str)) : Bool :=
  required.all (fun k => names.contains (some (text k))) &&
    names.all fun n => (required ++ optional).any fun k => n = some (text k)

/-! The checks; each is refused with its own text. -/

def demand (holds : Bool) (message : String) : Except PyError Unit :=
  if holds then .ok () else .error (.refused message)

def expect {A : Type} (as : Value → Option A) (message : String) (v : Value) : Except PyError A :=
  match as v with
  | some a => .ok a
  | none => .error (.refused message)

def dict : String → Value → Except PyError Dict := expect dict?
def boolean : String → Value → Except PyError Bool := expect bool?
def string : String → Value → Except PyError Str := expect str?

def each (check : String → Except PyError Unit) : List String → Except PyError Unit
  | [] => .ok ()
  | k :: ks => do
    check k
    each check ks

def clean (s : Str) : Bool := s.all fun c => c ∉ [13, 10, 0]

def startsWith (front : String) (s : Str) : Bool := (text front).isPrefixOf s

def hardware (device : Str) : Bool :=
  (startsWith "hw:" device || startsWith "plughw:" device) && device.length ≤ 128 && clean device

/-- `os.path.isabs`, and no character that ends a line or a text. -/
def localPath (s : Str) : Bool := startsWith "/" s && clean s

def noAudio : Value :=
  .dict [(text "enabled", .bool false), (text "alsa_device", .str [])]

def invalidAudio : String := "invalid HDMI audio configuration"

def checkAudio (audio : Value) : Except PyError Unit := do
  let a ← dict invalidAudio audio
  demand (a.named ["enabled", "alsa_device"]) invalidAudio
  let enabled ← boolean invalidAudio (← a.item "enabled")
  let device ← string invalidAudio (← a.item "alsa_device")
  demand (!enabled || hardware device)
    "explicit hw:/plughw: HDMI capture device required (never default microphone)"

def checkInput (input : Value) : Except PyError Unit := do
  let i ← dict "invalid input configuration" input
  demand (i.named inputNames) "invalid input configuration"
  let _ ← boolean "invalid input permissions" (← i.item "enabled")
  let _ ← boolean "invalid input permissions" (← i.item "exclusive_hid_authorized")

def checkPermission (c : Dict) (k : String) : Except PyError Unit := do
  let _ ← boolean "configuration booleans must be true/false" (← c.item k)

def checkPath (c : Dict) (k : String) : Except PyError Unit := do
  let s ← string "absolute local paths required" (← c.item k)
  demand (localPath s) "absolute local paths required"

/-- `load`, of what `json.loads` has made of the file. -/
def load (document : Value) : Except PyError Dict := do
  let names ← document.set
  demand (complete names) "unknown/missing configuration fields"
  let c ← mapping document
  demand (← c.item "schema").isOne "unknown/missing configuration fields"
  let _ ← boolean "experimental 90 Hz permission must be true/false"
    ((c.get "allow_1440p90_experiment").getD (.bool false))
  let c := c.setDefault "allow_1440p90_experiment" (.bool false)
  let _ ← boolean "absolute mouse permission must be true/false"
    ((c.get "allow_absolute_mouse").getD (.bool false))
  let c := c.setDefault "allow_absolute_mouse" (.bool false)
  let audio := (c.get "audio").getD noAudio
  checkAudio audio
  let c := c.setItem "audio" audio
  each (checkPermission c) permissions
  checkInput (← c.item "input")
  each (checkPath c) paths
  let device ← string "capture_device must be under /dev" (← c.item "capture_device")
  demand (startsWith "/dev/" device) "capture_device must be under /dev"
  pure c

def join (state : Str) (name : String) : Str :=
  if state.getLast? = some 47 then state ++ text name else state ++ text "/" ++ text name

def hidCommand (executable state : Str) (release : Bool) (c : Dict) :
    Except PyError (List Value) := do
  let i ← mapping (← c.item "input")
  demand (← i.item "enabled").truthy "explicit exclusive HID authorization required"
  demand (← i.item "exclusive_hid_authorized").truthy
    "explicit exclusive HID authorization required"
  let socket ← i.item "kvmd_socket"
  let headers ← i.item "auth_headers_file"
  pure ([.str executable, .str (text "-m"), .str (text "rkmoon_hid"), .str (text "--socket"),
      .str (join state "hid.sock"), .str (text "--kvmd-socket"), socket,
      .str (text "--exclusive-hid-authorized")] ++
    (if headers.truthy then [.str (text "--headers"), headers] else []) ++
    if release then [.str (text "--release-all")] else [])

def flag (v : Value) : Except PyError Value := do
  pure (.str (text (toString (← v.toInt))))

/-- `c.get('allow_absolute_mouse',False) and c['input']['enabled']`. -/
def absoluteMouse (c : Dict) : Except PyError Value :=
  let allowed := (c.get "allow_absolute_mouse").getD (.bool false)
  if allowed.truthy then do (← mapping (← c.item "input")).item "enabled"
  else pure allowed

def audioDevice (c e : Dict) : Except PyError Dict := do
  let audio ← mapping (← c.item "audio")
  if (← audio.item "enabled").truthy then
    pure (e.setItem "RKMOON_AUDIO_DEVICE" (← audio.item "alsa_device"))
  else pure e

def hidSocket (state : Str) (c e : Dict) : Except PyError Dict := do
  let input ← mapping (← c.item "input")
  if (← input.item "enabled").truthy then
    pure (e.setItem "RKMOON_HID_SOCKET" (.str (join state "hid.sock")))
  else pure e

/-- What is not passed on of the caller's own environment. -/
def dropped : List String :=
  ["CONFIGURATION_DIRECTORY", "SUNSHINE_MIGRATE_CONFIG", "RKMOON_HID_SOCKET",
    "RKMOON_AUDIO_DEVICE", "RKMOON_ADMIN_SOCKET"]

def baseEnv (environ : List (Str × Str)) (root state : Str) (c : Dict) : Except PyError Dict := do
  let e : Dict := environ.map fun p => (p.1, .str p.2)
  let e := e.update [("PYTHONPATH", .str (join root "python")), ("HOME", .str state),
    ("XDG_CONFIG_HOME", .str (join state "xdg"))]
  let worker ← c.item "worker_binary"
  let device ← c.item "capture_device"
  let copy ← flag (← c.item "allow_cpu_pixel_copy")
  let high ← flag (← c.item "allow_high_resolution")
  let experiment ← flag ((c.get "allow_1440p90_experiment").getD (.bool false))
  let absolute ← flag (← absoluteMouse c)
  let e := e.update [("RKMOON_WORKER", worker), ("RKMOON_VIDEO_DEVICE", device),
    ("RKMOON_CAPTURE_AUTHORIZED", .str (text "1")), ("RKMOON_ALLOW_COPY", copy),
    ("RKMOON_ALLOW_HIGH_RES", high), ("RKMOON_ALLOW_1440P90_EXPERIMENT", experiment),
    ("RKMOON_ALLOW_ABSOLUTE_MOUSE", absolute)]
  let e := dropped.foldl pop e
  let e ← audioDevice c e
  hidSocket state c e

/-! What `load` accepts, as conditions on the document. -/

variable {A B : Type} {c i : Dict} {v : Value} {message : String}

theorem demand_ok {holds : Bool} {u : Unit} : demand holds message = .ok u ↔ holds = true := by
  cases holds with
  | true => simp [demand]
  | false => simp [demand]

theorem expect_ok {as : Value → Option A} {a : A} :
    expect as message v = .ok a ↔ as v = some a := by
  unfold expect
  cases as v with
  | none => simp
  | some a' => simp

theorem dict_ok {d : Dict} : dict message v = .ok d ↔ v = .dict d := expect_ok.trans dict?_eq
theorem boolean_ok {b : Bool} : boolean message v = .ok b ↔ v = .bool b := expect_ok.trans bool?_eq
theorem string_ok {s : Str} : string message v = .ok s ↔ v = .str s := expect_ok.trans str?_eq

theorem each_ok {check : String → Except PyError Unit} {ks : List String} {u : Unit} :
    each check ks = .ok u ↔ ∀ k ∈ ks, check k = .ok () := by
  induction ks with
  | nil => simp [each]
  | cons k ks ih =>
    rw [each, bind_ok_iff, List.forall_mem_cons, ← ih]
    exact ⟨fun ⟨_, both⟩ => both, fun both => ⟨(), both⟩⟩

def AudioSound (audio : Value) : Prop :=
  ∃ (a : Dict) (enabled : Bool) (device : Str),
    audio = .dict a ∧ a.named ["enabled", "alsa_device"] ∧
    a.get "enabled" = some (.bool enabled) ∧ a.get "alsa_device" = some (.str device) ∧
    (enabled → hardware device)

def InputSound (i : Dict) : Prop :=
  i.named inputNames ∧ (∃ b, i.get "enabled" = some (.bool b)) ∧
    ∃ b, i.get "exclusive_hid_authorized" = some (.bool b)

structure Accepted (c : Dict) : Prop where
  complete : complete (c.map fun p => some p.1)
  schema : ∃ v, c.get "schema" = some v ∧ v.isOne
  experiment : ∃ b, (c.get "allow_1440p90_experiment").getD (.bool false) = .bool b
  absolute : ∃ b, (c.get "allow_absolute_mouse").getD (.bool false) = .bool b
  audio : AudioSound ((c.get "audio").getD noAudio)
  permitted : ∀ k ∈ permissions, ∃ b, c.get k = some (.bool b)
  input : ∃ i : Dict, c.get "input" = some (.dict i) ∧ InputSound i
  located : ∀ k ∈ paths, ∃ s, c.get k = some (.str s) ∧ localPath s
  device : ∃ s, c.get "capture_device" = some (.str s) ∧ startsWith "/dev/" s

def settled (c : Dict) : Dict :=
  ((c.setDefault "allow_1440p90_experiment" (.bool false)).setDefault "allow_absolute_mouse"
    (.bool false)).setItem "audio" ((c.get "audio").getD noAudio)

theorem get_settled {k : String} (other : k ∉ optional) : (settled c).get k = c.get k := by
  simp only [optional, List.mem_cons, List.not_mem_nil, or_false, not_or] at other
  rw [settled, get_setItem, if_neg other.1, get_setDefault, if_neg other.2.2, get_setDefault,
    if_neg other.2.1]

theorem item_settled {k : String} (other : k ∉ optional) (found : c.get k = some v) :
    (settled c).item k = .ok v := item_ok.mpr ((get_settled other).trans found)

theorem checkAudio_ok {u : Unit} : checkAudio v = .ok u ↔ AudioSound v := by
  simp only [checkAudio, bind_ok_iff, dict_ok, demand_ok, item_ok, boolean_ok, string_ok]
  constructor
  · rintro ⟨a, rfl, _, named, _, enabled, b, rfl, _, device, s, rfl, explicit⟩
    exact ⟨a, b, s, rfl, named, enabled, device, by cases b <;> simp_all⟩
  · rintro ⟨a, b, s, rfl, named, enabled, device, explicit⟩
    exact ⟨a, rfl, (), named, _, enabled, b, rfl, _, device, s, rfl,
      by cases b <;> simp_all⟩

theorem checkInput_ok {u : Unit} :
    checkInput v = .ok u ↔ ∃ i : Dict, v = .dict i ∧ InputSound i := by
  simp only [checkInput, bind_ok_iff, dict_ok, demand_ok, item_ok, boolean_ok]
  constructor
  · rintro ⟨i, rfl, _, named, _, enabled, b, rfl, _, exclusive, b', rfl, _⟩
    exact ⟨i, rfl, named, ⟨b, enabled⟩, b', exclusive⟩
  · rintro ⟨i, rfl, named, ⟨b, enabled⟩, b', exclusive⟩
    exact ⟨i, rfl, (), named, _, enabled, b, rfl, _, exclusive, b', rfl, rfl⟩

theorem checkPermission_ok {k : String} {u : Unit} :
    checkPermission c k = .ok u ↔ ∃ b, c.get k = some (.bool b) := by
  simp only [checkPermission, bind_ok_iff, item_ok, boolean_ok]
  constructor
  · rintro ⟨_, found, b, rfl, _⟩
    exact ⟨b, found⟩
  · rintro ⟨b, found⟩
    exact ⟨_, found, b, rfl, rfl⟩

theorem checkPath_ok {k : String} {u : Unit} :
    checkPath c k = .ok u ↔ ∃ s, c.get k = some (.str s) ∧ localPath s := by
  simp only [checkPath, bind_ok_iff, item_ok, string_ok, demand_ok]
  constructor
  · rintro ⟨_, found, s, rfl, absolute⟩
    exact ⟨s, found, absolute⟩
  · rintro ⟨s, found, absolute⟩
    exact ⟨_, found, s, rfl, absolute⟩

theorem load_eq (c : Dict) : load (.dict c) = (do
    demand (complete (c.map fun p => some p.1)) "unknown/missing configuration fields"
    demand (← c.item "schema").isOne "unknown/missing configuration fields"
    let _ ← boolean "experimental 90 Hz permission must be true/false"
      ((c.get "allow_1440p90_experiment").getD (.bool false))
    let _ ← boolean "absolute mouse permission must be true/false"
      ((c.get "allow_absolute_mouse").getD (.bool false))
    checkAudio ((c.get "audio").getD noAudio)
    each (checkPermission (settled c)) permissions
    checkInput (← (settled c).item "input")
    each (checkPath (settled c)) paths
    let device ← string "capture_device must be under /dev" (← (settled c).item "capture_device")
    demand (startsWith "/dev/" device) "capture_device must be under /dev"
    pure (settled c)) := by
  have absolute : (c.setDefault "allow_1440p90_experiment" (.bool false)).get
      "allow_absolute_mouse" = c.get "allow_absolute_mouse" := by
    rw [get_setDefault, if_neg (by decide)]
  have audio : ((c.setDefault "allow_1440p90_experiment" (.bool false)).setDefault
      "allow_absolute_mouse" (.bool false)).get "audio" = c.get "audio" := by
    rw [get_setDefault, if_neg (by decide), get_setDefault, if_neg (by decide)]
  simp only [load, Value.set, mapping_dict, ok_bind, absolute, audio]
  rfl

theorem load_dict {c' : Dict} : load (.dict c) = .ok c' ↔ Accepted c ∧ settled c = c' := by
  have permitted : (∀ k ∈ permissions, ∃ b, (settled c).get k = some (.bool b)) ↔
      ∀ k ∈ permissions, ∃ b, c.get k = some (.bool b) :=
    forall₂_congr fun k member => by rw [get_settled]; revert k; decide
  have located : (∀ k ∈ paths, ∃ s, (settled c).get k = some (.str s) ∧ localPath s) ↔
      ∀ k ∈ paths, ∃ s, c.get k = some (.str s) ∧ localPath s :=
    forall₂_congr fun k member => by rw [get_settled]; revert k; decide
  have input : (settled c).get "input" = c.get "input" := get_settled (by decide)
  have device : (settled c).get "capture_device" = c.get "capture_device" := get_settled (by decide)
  rw [load_eq]
  simp only [bind_ok_iff, demand_ok, item_ok, boolean_ok, string_ok, checkAudio_ok, each_ok,
    checkInput_ok, checkPermission_ok, checkPath_ok, permitted, located, input, device]
  constructor
  · rintro ⟨_, complete, v, schema, _, one, b, experiment, b', absolute, _, audio, _, permitted,
      _, input, _, ⟨i, rfl, sound⟩, _, located, _, device, s, rfl, _, dev, same⟩
    exact ⟨⟨complete, ⟨v, schema, one⟩, ⟨b, experiment⟩, ⟨b', absolute⟩, audio, permitted,
      ⟨i, input, sound⟩, located, s, device, dev⟩, Except.ok.inj same⟩
  · rintro ⟨⟨complete, ⟨v, schema, one⟩, ⟨b, experiment⟩, ⟨b', absolute⟩, audio, permitted,
      ⟨i, input, sound⟩, located, s, device, dev⟩, rfl⟩
    exact ⟨(), complete, v, schema, (), one, b, experiment, b', absolute, (), audio, (), permitted,
      _, input, (), ⟨i, rfl, sound⟩, (), located, _, device, s, rfl, (), dev, rfl⟩

/-! No document that is a `dict` is refused with another error than the supervisor reports. -/

def Reported (x : Except PyError A) : Prop := ∀ e, x = .error e → e.handled

theorem reported_ok (a : A) : Reported (.ok a : Except PyError A) := by
  intro e failed
  cases failed

theorem reported_bind {x : Except PyError A} {f : A → Except PyError B} (first : Reported x)
    (rest : ∀ a, Reported (f a)) : Reported (x >>= f) := by
  cases x with
  | ok a => exact rest a
  | error e =>
    intro e' failed
    cases failed
    exact first e rfl

theorem reported_demand (holds : Bool) (message : String) : Reported (demand holds message) := by
  intro e failed
  cases holds with
  | true => cases failed
  | false =>
    cases failed
    rfl

theorem reported_expect (as : Value → Option A) (message : String) (v : Value) :
    Reported (expect as message v) := by
  intro e failed
  unfold expect at failed
  cases read : as v with
  | some a =>
    rw [read] at failed
    cases failed
  | none =>
    rw [read] at failed
    cases failed
    rfl

theorem reported_item (d : Dict) (k : String) : Reported (d.item k) := by
  intro e failed
  unfold item at failed
  cases found : d.get k with
  | some v =>
    rw [found] at failed
    cases failed
  | none =>
    rw [found] at failed
    cases failed
    rfl

theorem reported_each {check : String → Except PyError Unit} (checked : ∀ k, Reported (check k))
    (ks : List String) : Reported (each check ks) := by
  induction ks with
  | nil => exact reported_ok ()
  | cons k ks ih => exact reported_bind (checked k) fun _ => ih

theorem load_reported (c : Dict) : Reported (load (.dict c)) := by
  have audio : Reported (checkAudio ((c.get "audio").getD noAudio)) :=
    reported_bind (reported_expect _ _ _) fun a => reported_bind (reported_demand _ _) fun _ =>
      reported_bind (reported_item a _) fun _ => reported_bind (reported_expect _ _ _) fun _ =>
        reported_bind (reported_item a _) fun _ => reported_bind (reported_expect _ _ _) fun _ =>
          reported_demand _ _
  have input : ∀ v, Reported (checkInput v) := fun v =>
    reported_bind (reported_expect _ _ v) fun i => reported_bind (reported_demand _ _) fun _ =>
      reported_bind (reported_item i _) fun _ => reported_bind (reported_expect _ _ _) fun _ =>
        reported_bind (reported_item i _) fun _ => reported_bind (reported_expect _ _ _) fun _ =>
          reported_ok ()
  have permission : ∀ k, Reported (checkPermission (settled c) k) := fun k =>
    reported_bind (reported_item _ k) fun _ => reported_bind (reported_expect _ _ _) fun _ =>
      reported_ok ()
  have path : ∀ k, Reported (checkPath (settled c) k) := fun k =>
    reported_bind (reported_item _ k) fun _ => reported_bind (reported_expect _ _ _) fun _ =>
      reported_demand _ _
  rw [load_eq]
  exact reported_bind (reported_demand _ _) fun _ => reported_bind (reported_item c _) fun _ =>
    reported_bind (reported_demand _ _) fun _ => reported_bind (reported_expect _ _ _) fun _ =>
      reported_bind (reported_expect _ _ _) fun _ => reported_bind audio fun _ =>
        reported_bind (reported_each permission _) fun _ =>
          reported_bind (reported_item _ _) fun v => reported_bind (input v) fun _ =>
            reported_bind (reported_each path _) fun _ => reported_bind (reported_item _ _) fun _ =>
              reported_bind (reported_expect _ _ _) fun _ =>
                reported_bind (reported_demand _ _) fun _ => reported_ok _

/-! What the consumers make of an accepted configuration. -/

def Yields (P : A → Prop) (x : Except PyError A) : Prop := ∃ a, x = .ok a ∧ P a

theorem yields_bind {P : A → Prop} {Q : B → Prop} {x : Except PyError A} {f : A → Except PyError B}
    (first : Yields P x) (rest : ∀ a, P a → Yields Q (f a)) : Yields Q (x >>= f) := by
  obtain ⟨a, rfl, holds⟩ := first
  exact rest a holds

theorem yields_ok {P : A → Prop} {a : A} (holds : P a) : Yields P (.ok a : Except PyError A) :=
  ⟨a, rfl, holds⟩

def Texts (e : Dict) : Prop := ∀ p ∈ e, p.2.isStr

theorem texts_setItem {e : Dict} (texts : Texts e) (k : String) (is : v.isStr) :
    Texts (e.setItem k v) := by
  intro p member
  rcases List.mem_append.mp member with member | member
  · exact texts p member
  · cases List.mem_singleton.mp member
    exact is

theorem texts_update {e : Dict} (texts : Texts e) {items : List (String × Value)}
    (all : ∀ p ∈ items, p.2.isStr) : Texts (e.update items) := by
  induction items generalizing e with
  | nil => exact texts
  | cons p items ih =>
    exact ih (texts_setItem texts p.1 (all p List.mem_cons_self))
      fun q member => all q (List.mem_cons_of_mem p member)

theorem texts_pops {e : Dict} (texts : Texts e) (ks : List String) : Texts (ks.foldl pop e) := by
  induction ks generalizing e with
  | nil => exact texts
  | cons k ks ih => exact ih fun p member => texts p (List.mem_of_mem_filter member)

theorem texts_environ (environ : List (Str × Str)) :
    Texts (environ.map fun p => (p.1, .str p.2)) := by
  intro p member
  obtain ⟨q, _, rfl⟩ := List.mem_map.mp member
  rfl

def IsBool (v : Value) : Prop := ∃ b, v = .bool b

theorem yields_flag (is : IsBool v) : Yields (fun w => w.isStr) (flag v) := by
  obtain ⟨b, rfl⟩ := is
  exact yields_ok rfl

section
variable (accepted : Accepted c)
include accepted

theorem yields_permission {k : String} (member : k ∈ permissions) (other : k ∉ optional) :
    Yields IsBool ((settled c).item k) := by
  obtain ⟨b, found⟩ := accepted.permitted k member
  exact ⟨.bool b, item_settled other found, b, rfl⟩

theorem yields_path {k : String} (member : k ∈ paths) (other : k ∉ optional) :
    Yields (fun w => w.isStr) ((settled c).item k) := by
  obtain ⟨s, found, _⟩ := accepted.located k member
  exact ⟨.str s, item_settled other found, rfl⟩

theorem experiment_settled :
    IsBool (((settled c).get "allow_1440p90_experiment").getD (.bool false)) := by
  obtain ⟨b, is⟩ := accepted.experiment
  rw [settled, get_setItem, if_neg (by decide), get_setDefault, if_neg (by decide),
    get_setDefault, if_pos rfl]
  exact ⟨b, is⟩

theorem absolute_settled :
    IsBool (((settled c).get "allow_absolute_mouse").getD (.bool false)) := by
  obtain ⟨b, is⟩ := accepted.absolute
  rw [settled, get_setItem, if_neg (by decide), get_setDefault, if_pos rfl, get_setDefault,
    if_neg (by decide)]
  exact ⟨b, is⟩

theorem yields_input {Q : B → Prop} {f : Dict → Except PyError B}
    (rest : ∀ i, InputSound i → Yields Q (f i)) :
    Yields Q (do f (← mapping (← (settled c).item "input"))) := by
  obtain ⟨i, found, sound⟩ := accepted.input
  rw [item_settled (by decide) found, ok_bind, mapping_dict, ok_bind]
  exact rest i sound

theorem yields_enabled :
    Yields IsBool (do (← mapping (← (settled c).item "input")).item "enabled") :=
  yields_input accepted fun _ ⟨_, ⟨b, enabled⟩, _⟩ => ⟨.bool b, item_ok.mpr enabled, b, rfl⟩

theorem yields_absolute : Yields IsBool (absoluteMouse (settled c)) := by
  obtain ⟨b, is⟩ := absolute_settled accepted
  rw [absoluteMouse, is]
  cases b with
  | true => exact yields_enabled accepted
  | false => exact yields_ok ⟨false, rfl⟩

theorem yields_audio {e : Dict} (texts : Texts e) : Yields Texts (audioDevice (settled c) e) := by
  obtain ⟨a, enabled, device, is, _, enabledIs, deviceIs, _⟩ := accepted.audio
  have audio : (settled c).item "audio" = .ok (.dict a) := by
    rw [item_ok, settled, get_setItem, if_pos rfl, is]
  rw [audioDevice, audio, ok_bind, mapping_dict, ok_bind, item_ok.mpr enabledIs, ok_bind,
    item_ok.mpr deviceIs]
  cases enabled with
  | true => exact yields_ok (texts_setItem texts _ rfl)
  | false => exact yields_ok texts

theorem yields_socket {e : Dict} (texts : Texts e) (state : Str) :
    Yields Texts (hidSocket state (settled c) e) := by
  refine yields_input accepted fun i ⟨_, ⟨b, enabled⟩, _⟩ => ?_
  rw [item_ok.mpr enabled, ok_bind]
  cases b with
  | true => exact yields_ok (texts_setItem texts _ rfl)
  | false => exact yields_ok texts

theorem yields_baseEnv (environ : List (Str × Str)) (root state : Str) :
    Yields Texts (baseEnv environ root state (settled c)) := by
  unfold baseEnv
  refine yields_bind (yields_path accepted (by decide) (by decide)) fun worker workerIs => ?_
  refine yields_bind (yields_path accepted (by decide) (by decide)) fun device deviceIs => ?_
  refine yields_bind (yields_permission accepted (by decide) (by decide)) fun _ permission => ?_
  refine yields_bind (yields_flag permission) fun copy copyIs => ?_
  refine yields_bind (yields_permission accepted (by decide) (by decide)) fun _ permission => ?_
  refine yields_bind (yields_flag permission) fun high highIs => ?_
  refine yields_bind (yields_flag (experiment_settled accepted)) fun experiment experimentIs => ?_
  refine yields_bind (yields_absolute accepted) fun _ permission => ?_
  refine yields_bind (yields_flag permission) fun absolute absoluteIs => ?_
  have own : Texts (update (environ.map fun p => (p.1, Value.str p.2))
      [("PYTHONPATH", .str (join root "python")), ("HOME", .str state),
        ("XDG_CONFIG_HOME", .str (join state "xdg"))]) :=
    texts_update (texts_environ environ) (by simp [isStr, str?])
  have given : ∀ p ∈ [("RKMOON_WORKER", worker), ("RKMOON_VIDEO_DEVICE", device),
      ("RKMOON_CAPTURE_AUTHORIZED", .str (text "1")), ("RKMOON_ALLOW_COPY", copy),
      ("RKMOON_ALLOW_HIGH_RES", high), ("RKMOON_ALLOW_1440P90_EXPERIMENT", experiment),
      ("RKMOON_ALLOW_ABSOLUTE_MOUSE", absolute)], p.2.isStr := by
    simp only [List.forall_mem_cons]
    exact ⟨workerIs, deviceIs, rfl, copyIs, highIs, experimentIs, absoluteIs,
      fun _ member => by cases member⟩
  have all : Texts _ := texts_pops (texts_update own given) dropped
  exact yields_bind (yields_audio accepted all) fun e texts => yields_socket accepted texts state

end

structure Granted (c i : Dict) : Prop where
  input : c.get "input" = some (.dict i)
  enabled : i.get "enabled" = some (.bool true)
  exclusive : i.get "exclusive_hid_authorized" = some (.bool true)

/-- The socket is a string, and the headers' file too, unless it says that there is none. -/
def Typed (i : Dict) : Prop :=
  (∀ v, i.get "kvmd_socket" = some v → v.isStr) ∧
    ∀ v, i.get "auth_headers_file" = some v → v.truthy → v.isStr

theorem hidCommand_granted (granted : Granted c i) {socket headers : Value}
    (socketIs : i.get "kvmd_socket" = some socket)
    (headersAre : i.get "auth_headers_file" = some headers)
    (executable state : Str) (release : Bool) : hidCommand executable state release (settled c) =
      .ok ([.str executable, .str (text "-m"), .str (text "rkmoon_hid"), .str (text "--socket"),
          .str (join state "hid.sock"), .str (text "--kvmd-socket"), socket,
          .str (text "--exclusive-hid-authorized")] ++
        (if headers.truthy then [.str (text "--headers"), headers] else []) ++
        if release then [.str (text "--release-all")] else []) := by
  rw [hidCommand, item_settled (by decide) granted.input, ok_bind, mapping_dict, ok_bind,
    item_ok.mpr granted.enabled, ok_bind, item_ok.mpr granted.exclusive, item_ok.mpr socketIs,
    item_ok.mpr headersAre]
  rfl

theorem hidCommand_typed (accepted : Accepted c) (granted : Granted c i)
    (executable state : Str) (release : Bool) :
    (∃ args, hidCommand executable state release (settled c) = .ok args ∧ ∀ a ∈ args, a.isStr) ↔
      Typed i := by
  obtain ⟨i', found, named, _⟩ := accepted.input
  cases granted.input.symm.trans found
  obtain ⟨socket, socketIs⟩ := get_of_named named (k := "kvmd_socket") (by decide)
  obtain ⟨headers, headersAre⟩ := get_of_named named (k := "auth_headers_file") (by decide)
  have typed : Typed i ↔ socket.isStr ∧ (headers.truthy → headers.isStr) := by
    simp [Typed, socketIs, headersAre]
  have command := hidCommand_granted granted socketIs headersAre executable state release
  rw [typed]
  constructor
  · rintro ⟨args, made, texts⟩
    cases command.symm.trans made
    refine ⟨texts socket (by simp), fun truthy => texts headers ?_⟩
    rw [if_pos truthy]
    simp
  · rintro ⟨socketText, headersText⟩
    refine ⟨_, command, fun a member => ?_⟩
    rcases List.mem_append.mp member with member | member
    · rcases List.mem_append.mp member with member | member
      · simp only [List.mem_cons, List.not_mem_nil, or_false] at member
        rcases member with rfl | rfl | rfl | rfl | rfl | rfl | rfl | rfl
        all_goals first | rfl | exact socketText
      · split at member
        next truthy =>
          rcases List.mem_cons.mp member with rfl | member
          · rfl
          · exact List.mem_singleton.mp member ▸ headersText truthy
        next => cases member
    · split at member
      next =>
        cases List.mem_singleton.mp member
        rfl
      next => cases member

/-- `base_env` gives strings only, and so does `hid_command` where the input is granted, to
start as well as to release. -/
structure Usable (c : Dict) : Prop where
  environment : ∀ environ root state, ∃ e, baseEnv environ root state c = .ok e ∧ Texts e
  command : ∀ i : Dict, Granted c i → ∀ executable state release,
    ∃ args, hidCommand executable state release c = .ok args ∧ ∀ a ∈ args, a.isStr

/-- The document is refused with an error that the supervisor reports, or can be used. -/
def Sound (document : Value) : Prop :=
  (∃ e, load document = .error e ∧ e.handled) ∨ ∃ c, load document = .ok c ∧ Usable c

/-- No scalar but a string, no list that `set` refuses or that is one of the names, and no
accepted document whose granted input is not typed. -/
def Loadable : Value → Prop
  | .str _ => True
  | .list vs => vs.all hashable ∧ ¬ complete (vs.map str?)
  | .dict c => Accepted c → ∀ i, Granted c i → Typed i
  | _ => False

theorem granted_settled : Granted (settled c) i ↔ Granted c i := by
  have input : (settled c).get "input" = c.get "input" := get_settled (by decide)
  constructor
  · rintro ⟨found, enabled, exclusive⟩
    exact ⟨input ▸ found, enabled, exclusive⟩
  · rintro ⟨found, enabled, exclusive⟩
    exact ⟨input.symm ▸ found, enabled, exclusive⟩

theorem usable_settled (accepted : Accepted c) :
    Usable (settled c) ↔ ∀ i, Granted c i → Typed i := by
  constructor
  · intro usable i granted
    exact (hidCommand_typed accepted granted [] [] false).mp
      (usable.command i (granted_settled.mpr granted) [] [] false)
  · intro typed
    refine ⟨yields_baseEnv accepted, fun i granted executable state release => ?_⟩
    have granted := granted_settled.mp granted
    exact (hidCommand_typed accepted granted executable state release).mpr (typed i granted)

theorem incomplete_chars (s : Str) : complete (s.map fun c => some [c]) = false := by
  refine Bool.eq_false_iff.mpr fun all => ?_
  have there := List.all_eq_true.mp (Bool.and_eq_true_iff.mp all).1 "schema" (by decide)
  have member := List.contains_iff_mem.mp there
  obtain ⟨c, _, same⟩ := List.mem_map.mp member
  cases same

theorem load_list (vs : List Value) : load (.list vs) =
    if vs.all hashable then
      (if complete (vs.map str?) then .error .typeError
        else .error (.refused "unknown/missing configuration fields"))
    else .error .typeError := by
  unfold load Value.set
  dsimp only
  cases hashed : vs.all hashable with
  | false => rfl
  | true =>
    cases named : complete (vs.map str?) with
    | false => simp [ok_bind, named, demand]; rfl
    | true => simp [ok_bind, named, demand]; rfl

theorem load_str (s : Str) :
    load (.str s) = .error (.refused "unknown/missing configuration fields") := by
  unfold load Value.set
  rw [ok_bind, incomplete_chars]
  rfl

theorem not_sound {document : Value} {e : PyError} (raised : load document = .error e)
    (unreported : e.handled = false) : ¬ Sound document := by
  rintro (⟨e', failed, handled⟩ | ⟨c, loaded, _⟩)
  · cases raised.symm.trans failed
    rw [unreported] at handled
    cases handled
  · cases raised.symm.trans loaded

/-- A loaded configuration can be used exactly if its document is so typed. -/
theorem load_sound_iff (document : Value) : Sound document ↔ Loadable document := by
  cases document with
  | null => exact iff_of_false (not_sound (e := .typeError) rfl rfl) id
  | bool b => exact iff_of_false (not_sound (e := .typeError) rfl rfl) id
  | int n => exact iff_of_false (not_sound (e := .typeError) rfl rfl) id
  | float q => exact iff_of_false (not_sound (e := .typeError) rfl rfl) id
  | infinity => exact iff_of_false (not_sound (e := .typeError) rfl rfl) id
  | nan => exact iff_of_false (not_sound (e := .typeError) rfl rfl) id
  | str s => exact iff_of_true (Or.inl ⟨_, load_str s, rfl⟩) trivial
  | list vs =>
    have raised := load_list vs
    cases hashed : vs.all hashable with
    | false =>
      rw [hashed, if_neg (by decide)] at raised
      exact iff_of_false (not_sound raised rfl) fun ⟨all, _⟩ => by simp [hashed] at all
    | true =>
      rw [hashed, if_pos rfl] at raised
      cases named : complete (vs.map str?) with
      | false =>
        rw [named, if_neg (by decide)] at raised
        exact iff_of_true (Or.inl ⟨_, raised, rfl⟩) ⟨hashed, by simp [named]⟩
      | true =>
        rw [named, if_pos rfl] at raised
        exact iff_of_false (not_sound raised rfl) fun ⟨_, other⟩ => other named
  | dict c =>
    constructor
    · rintro (⟨e, failed, _⟩ | ⟨c', loaded, usable⟩) accepted
      · cases (load_dict.mpr ⟨accepted, rfl⟩).symm.trans failed
      · obtain ⟨_, rfl⟩ := load_dict.mp loaded
        exact (usable_settled accepted).mp usable
    · intro typed
      cases loaded : load (.dict c) with
      | error e => exact Or.inl ⟨e, loaded, load_reported c e loaded⟩
      | ok c' =>
        obtain ⟨accepted, rfl⟩ := load_dict.mp loaded
        exact Or.inr ⟨settled c, loaded, (usable_settled accepted).mpr (typed accepted)⟩

def numberedInput : Dict :=
  [(text "enabled", .bool true), (text "exclusive_hid_authorized", .bool true),
    (text "kvmd_socket", .int 5), (text "auth_headers_file", .null)]

def numberedSocket : Dict :=
  [(text "schema", .int 1), (text "sunshine_binary", .str (text "/opt/rkmoon-kvm")),
    (text "worker_binary", .str (text "/opt/rkmoon-worker")),
    (text "state_directory", .str (text "/var/rkmoon")),
    (text "capture_device", .str (text "/dev/video0")),
    (text "capture_ownership_authorized", .bool false), (text "allow_cpu_pixel_copy", .bool false),
    (text "allow_high_resolution", .bool false), (text "input", .dict numberedInput)]

/-- It is accepted, and the number is among the arguments. -/
theorem numberedSocket_unsound : ¬ Sound (.dict numberedSocket) := by
  have accepted : (load (.dict numberedSocket)).toBool = true := by decide +kernel
  rintro (⟨e, failed, _⟩ | ⟨c, loaded, usable⟩)
  · rw [failed] at accepted
    cases accepted
  · obtain ⟨accepted, rfl⟩ := load_dict.mp loaded
    have input : numberedSocket.get "input" = some (.dict numberedInput) := rfl
    have granted : Granted numberedSocket numberedInput := ⟨input, rfl, rfl⟩
    obtain ⟨args, made, texts⟩ :=
      usable.command numberedInput (granted_settled.mpr granted) [] [] false
    obtain ⟨socket, _⟩ := (hidCommand_typed accepted granted [] [] false).mp ⟨args, made, texts⟩
    exact Bool.false_ne_true (socket (.int 5) rfl)

end Tools.Config

import RkmoonKvm.Library.Runs

/-! The local audio hotkeys: the events that the client consumes, the changes they make to
the mute flag and the volume, and the events that go on to the remote machine. -/
namespace Client.AudioKeys
open Runs

def sdlKeydown : UInt32 := 0x300
def sdlKeyup : UInt32 := 0x301
def sdlkF9 : UInt32 := 0x40000042
def sdlkF10 : UInt32 := 0x40000043
def sdlkF11 : UInt32 := 0x40000044
def kmodShift : UInt16 := 0x0003
def kmodCtrl : UInt16 := 0x00c0
def kmodAlt : UInt16 := 0x0300

structure Event where
  kind : UInt32
  sym : UInt32
  mod : UInt16
  repeated : UInt8

inductive Change where
  | setMuted (muted : Bool)
  | setVolumePercent (percent : Int)

structure AudioControl where
  volumePercent : Int := 100
  muted : Bool := false

def AudioControl.change (c : AudioControl) : Change → AudioControl
  | .setMuted muted => { c with muted := muted }
  | .setVolumePercent percent => { c with volumePercent := max 0 (min 100 percent) }

structure Keys where
  held : Fin 3 → Bool := fun _ => false
  control : AudioControl := {}

inductive Verdict where
  | forwarded | consumed
  deriving DecidableEq

structure Result where
  verdict : Verdict
  changes : List Change
  keys : Keys

def index (sym : UInt32) : Option (Fin 3) :=
  if sym = sdlkF9 then some 0 else if sym = sdlkF10 then some 1 else if sym = sdlkF11 then some 2 else none

def Event.modifiers (e : Event) : Bool :=
  e.mod &&& kmodCtrl ≠ 0 && e.mod &&& kmodAlt ≠ 0 && e.mod &&& kmodShift ≠ 0

namespace Keys

def set (s : Keys) (i : Fin 3) (value : Bool) : Keys := { s with held := Function.update s.held i value }

def pass (s : Keys) : Result := ⟨.forwarded, [], s⟩

def swallow (s : Keys) : Result := ⟨.consumed, [], s⟩

def wanted (s : Keys) (i : Fin 3) : Change :=
  match i with
  | 0 => .setMuted (!s.control.muted)
  | 1 => .setVolumePercent (s.control.volumePercent - 10)
  | 2 => .setVolumePercent (s.control.volumePercent + 10)

def perform (s : Keys) (i : Fin 3) : Result :=
  ⟨.consumed, [s.wanted i], { s with control := s.control.change (s.wanted i) }⟩

def filter (s : Keys) (e : Event) : Result :=
  if e.kind ≠ sdlKeydown ∧ e.kind ≠ sdlKeyup then s.pass
  else match index e.sym with
    | none => s.pass
    | some i =>
      if e.kind = sdlKeyup then (if s.held i then (s.set i false).swallow else (s.set i false).pass)
      -- Repeats are consumed even if the modifiers were released.
      else if s.held i then s.swallow
      else if !e.modifiers then s.pass
      else if e.repeated ≠ 0 then s.swallow
      else if s.held i then (s.set i true).swallow
      else (s.set i true).perform i

def step (s : Keys) (e : Event) : Keys := (s.filter e).keys

end Keys

/-- The keys after these events, with the control as it was when the session began. -/
def after (control : AudioControl) (evs : List Event) : Keys := run Keys.step { control } evs

/-! The events of each key come in presses. -/

def press (down : UInt32 → Bool) (e : Event) : UInt32 → Bool :=
  if e.kind = sdlKeydown then Function.update down e.sym true
  else if e.kind = sdlKeyup then Function.update down e.sym false
  else down

/-- The first event of a press is the only one that is not a repeat, and a key that is up does
not go up. -/
def Follows (down : UInt32 → Bool) (e : Event) : Prop :=
  (e.kind = sdlKeydown → (e.repeated ≠ 0 ↔ down e.sym = true)) ∧
    (e.kind = sdlKeyup → down e.sym = true)

def WellFormed (evs : List Event) : Prop := Meets press Follows (fun _ => false) evs

instance (down : UInt32 → Bool) (e : Event) : Decidable (Follows down e) :=
  inferInstanceAs (Decidable (_ ∧ _))

instance (evs : List Event) : Decidable (WellFormed evs) := inferInstanceAs (Decidable (Meets _ _ _ _))

/-! What one event does. -/

def reserved : Fin 3 → UInt32
  | 0 => sdlkF9
  | 1 => sdlkF10
  | 2 => sdlkF11

section one
variable (s : Keys) (e : Event)

variable {s e} {i : Fin 3}

end one

/-! The run of the events. -/

def AudioControl.InRange (c : AudioControl) : Prop := 0 ≤ c.volumePercent ∧ c.volumePercent ≤ 100

end Client.AudioKeys

import RkmoonKvm.Library.Bracket
import RkmoonKvm.Hid.Handler

/-! The handshake's probe of kvmd: `check`, `wake` and `select_mouse` press ShiftLeft
outside any lease, and the handler that awaits them then frees the lease. -/
namespace Hid.Probe
open Await Runs

inductive Json where
  | null
  | bool (b : Bool)
  | number
  | str (s : String)
  | list (items : List Json)
  | object (fields : List (String × Json))

namespace Json

def get (j : Json) (name : String) (default : Json) : Except PyError Json :=
  match j with
  | .object fields => .ok ((fields.lookup name).getD default)
  | _ => .error .otherException

def isTrue : Json → Bool
  | .bool b => b
  | _ => false

def isStr (s : String) : Json → Bool
  | .str s' => s = s'
  | _ => false

/-- `in {"", target}`; lists and dicts have no hash. -/
def oneOf (names : List String) : Json → Except PyError Bool
  | .str s => .ok (names.contains s)
  | .list _ => .error .otherException
  | .object _ => .error .otherException
  | _ => .ok false

def lists (target : String) : Json → Except PyError Bool
  | .list items => .ok (items.any (isStr target))
  | .object fields => .ok ((fields.lookup target).isSome)
  | .str s => .ok (s.toList.tails.any target.toList.isPrefixOf)
  | _ => .error .otherException

def enabled (state : Json) : Except PyError Bool := do
  return (← state.get "enabled" .null).isTrue

def online (name : String) (state : Json) : Except PyError Bool := do
  let device ← state.get name (.object [])
  return (← device.get "online" .null).isTrue

def bothOnline (state : Json) : Except PyError Bool := do
  if ← state.online "keyboard" then state.online "mouse" else return false

def absolute (mouse : Json) : Except PyError (Option Bool) := do
  match ← mouse.get "absolute" .null with
  | .bool b => return some b
  | _ => return none

end Json

/-- What the probe awaits: kvmd's replies, and its own sleeps. -/
inductive Request where
  | getHid
  | setParams (mouseOutput : String)
  | send (report : Report)
  | sleep

abbrev Code := Method Unit Request Json PyError

def lift {A : Type} : Except PyError A → Code A
  | .ok a => pure a
  | .error e => throw e

def key (key : Key) (down : Bool) : Code Unit := do
  let _ ← Method.call (.send (.key key down))

def wheel (x y : Int) : Code Unit := do
  let _ ← Method.call (.send (.wheel x y))

def sleep : Code Unit := do
  let _ ← Method.call .sleep

def wake (keyboard mouse : Bool) : Code Unit := do
  if keyboard then
    key .shiftLeft true
    key .shiftLeft false
  if mouse then wheel 0 0
  sleep

/-- The first part of `check`: a device that is enabled but not online is woken. -/
def recheck (state : Json) : Code Json := do
  if ← lift state.enabled then
    if ← lift state.bothOnline then return state
    else
      let keyboard ← lift (state.online "keyboard")
      let mouse ← lift (state.online "mouse")
      wake (!keyboard) (!mouse)
      Method.call .getHid
  else return state

def check : Code Json := do
  let state ← Method.call .getHid
  let state ← recheck state
  if ← lift state.enabled then
    if ← lift state.bothOnline then
      let mouse ← lift (state.get "mouse" (.object []))
      match ← lift mouse.absolute with
      | some _ => return state
      | none => throw (.backendError "USB mouse mode is unknown")
    else throw (.backendError "USB HID is not reported online")
  else throw (.backendError "USB HID is not reported online")

def chosen (absolute : Bool) (outputs : Json → Except PyError Bool) (mouse : Json) :
    Except PyError Bool := do
  if (← mouse.absolute) = some absolute then outputs (← mouse.get "outputs" (.object []))
  else return false

/-- The remaining rounds of the loop that reads the selection back. -/
def confirm (absolute : Bool) (target : String) : Nat → Code Unit
  | 0 => throw (.backendError "USB mouse output selection was not confirmed")
  | n + 1 => do
    let state ← check
    let mouse ← lift (state.get "mouse" (.object []))
    let active (outputs : Json) := do return (← outputs.get "active" .null).isStr target
    if ← lift (chosen absolute active mouse) then return
    else
      sleep
      confirm absolute target n

def selectMouse (mode : MouseMode) : Code Unit := do
  let absolute := mode = .absolute
  let target := if absolute then "usb" else "usb_rel"
  let state ← check
  let mouse ← lift (state.get "mouse" (.object []))
  let active (outputs : Json) := do (← outputs.get "active" (.str "")).oneOf ["", target]
  if ← lift (chosen absolute active mouse) then return
  else
    let outputs ← lift (mouse.get "outputs" (.object []))
    if ← lift ((← lift (outputs.get "available" (.list []))).lists target) then
      let _ ← Method.call (.setParams target)
      confirm absolute target 5
    else throw (.backendError "requested USB mouse output is unavailable")

/-! What the requests do at the device, and to ShiftLeft. -/

def world : World Request Device where
  land
    | .send report, d => d.press report
    | _, d => d
  heard _ d := d

def shiftKind : Request → Option Bool
  | .send (.key .shiftLeft down) => some down
  | _ => none

def shiftDown (d : Device) : Bool := .shiftLeft ∈ d.keys

theorem shift_opens : Opens shiftKind world shiftDown where
  landed op d := by
    cases op with
    | send report =>
      cases report with
      | key k down =>
        by_cases shift : k = .shiftLeft
        · subst shift
          cases down <;> simp [world, shiftDown, shiftKind, Device.press]
        · have other : shiftKind (.send (.key k down)) = none := by
            unfold shiftKind
            split
            · rename_i same
              cases same
              exact absurd rfl shift
            · rfl
          cases down <;> simp [world, shiftDown, other, Device.press, Ne.symm shift]
      | button b down => cases down <;> rfl
      | _ => rfl
    | _ => rfl
  heard _ _ := rfl

section balanced
variable {A : Type}

theorem lift_balanced (x : Except PyError A) (s : Unit) : Balanced shiftKind false (lift x s) := by
  cases x <;> exact rfl

theorem wheel_balanced (x y : Int) (s : Unit) : Balanced shiftKind false (wheel x y s) :=
  balanced_bind (balanced_call rfl s) fun _ _ => rfl

theorem sleep_balanced (s : Unit) : Balanced shiftKind false (sleep s) :=
  balanced_bind (balanced_call rfl s) fun _ _ => rfl

theorem tap_balanced {rest : Code A} (next : ∀ s, Balanced shiftKind false (rest s)) (s : Unit) :
    Balanced shiftKind false ((do key .shiftLeft true; key .shiftLeft false; rest) s) :=
  ⟨rfl, fun _ => rfl, fun _ => ⟨rfl, fun _ => rfl, fun _ => next s⟩⟩

theorem ite_balanced (c : Prop) [Decidable c] {m m' : Code A} (s : Unit)
    (yes : Balanced shiftKind false (m s)) (no : Balanced shiftKind false (m' s)) :
    Balanced shiftKind false ((if c then m else m') s) := by
  split <;> assumption

open Method in
theorem wake_balanced (keyboard mouse : Bool) (s : Unit) :
    Balanced shiftKind false (wake keyboard mouse s) := by
  have rest (s : Unit) : Balanced shiftKind false ((do
      if mouse then wheel 0 0
      sleep : Code Unit) s) := by
    cases mouse with
    | false => exact sleep_balanced s
    | true => exact balanced_bind (wheel_balanced 0 0 s) fun _ => sleep_balanced
  cases keyboard with
  | false => exact rest s
  | true => exact tap_balanced rest s

theorem recheck_balanced (state : Json) (s : Unit) :
    Balanced shiftKind false (recheck state s) := by
  apply balanced_bind (lift_balanced _ s)
  intro on s
  apply ite_balanced
  · apply balanced_bind (lift_balanced _ s)
    intro both s
    apply ite_balanced
    · exact rfl
    · apply balanced_bind (lift_balanced _ s)
      intro keyboard s
      apply balanced_bind (lift_balanced _ s)
      intro mouse s
      exact balanced_bind (wake_balanced _ _ s) fun _ => balanced_call rfl
  · exact rfl

theorem check_balanced (s : Unit) : Balanced shiftKind false (check s) := by
  apply balanced_bind (balanced_call rfl s)
  intro state s
  apply balanced_bind (recheck_balanced state s)
  intro state s
  apply balanced_bind (lift_balanced _ s)
  intro on s
  apply ite_balanced
  · apply balanced_bind (lift_balanced _ s)
    intro both s
    apply ite_balanced
    · apply balanced_bind (lift_balanced _ s)
      intro mouse s
      apply balanced_bind (lift_balanced _ s)
      intro absolute s
      cases absolute <;> exact rfl
    · exact rfl
  · exact rfl

theorem confirm_balanced (absolute : Bool) (target : String) (n : Nat) (s : Unit) :
    Balanced shiftKind false (confirm absolute target n s) := by
  induction n generalizing s with
  | zero => exact rfl
  | succ n ih =>
    apply balanced_bind (check_balanced s)
    intro state s
    apply balanced_bind (lift_balanced _ s)
    intro mouse s
    apply balanced_bind (lift_balanced _ s)
    intro settled s
    apply ite_balanced
    · exact rfl
    · exact balanced_bind (sleep_balanced s) fun _ => ih

theorem selectMouse_balanced (mode : MouseMode) (s : Unit) :
    Balanced shiftKind false (selectMouse mode s) := by
  apply balanced_bind (check_balanced s)
  intro state s
  apply balanced_bind (lift_balanced _ s)
  intro mouse s
  apply balanced_bind (lift_balanced _ s)
  intro settled s
  apply ite_balanced
  · exact rfl
  · apply balanced_bind (lift_balanced _ s)
    intro outputs s
    apply balanced_bind (lift_balanced _ s)
    intro available s
    apply balanced_bind (lift_balanced _ s)
    intro listed s
    apply ite_balanced
    · exact balanced_bind (balanced_call rfl s) fun _ => confirm_balanced _ _ 5
    · exact rfl

end balanced

/-! The handler around it, from the hello line to the end of the connection. -/

open Server (Conn Act Effect)

structure State where
  select : Task Unit Request Json PyError Unit Device
  conn : Conn
  busy : Bool

inductive Label where
  | outcome (o : Outcome PyError Json)
  | act (stopping streams : Bool) (a : Act)
  | cancel

namespace State

def ended (s : State) : Bool := s.select.prog.result.isSome

def returned (s : State) : Bool :=
  match s.select.prog.result with
  | some (.ok _) => true
  | _ => false

/-- The handler reads from `select_mouse` whether it has returned or raised. -/
def reads (s : State) : Act → Bool
  | .selected ok => ok = s.returned
  | _ => true

def busyAfter (s : State) : Effect → Bool
  | .claims => true
  | .frees => false
  | _ => s.busy

/-- ShiftLeft is recorded as possibly down, and no other lease is granted. -/
def blocked (s : State) : Prop := s.busy ∧ ∃ l ∈ s.conn.lease, .shiftLeft ∈ l.possiblyDown

end State

def step (s : State) : Label → State
  | .outcome o => { s with select := s.select.outcome world o }
  | .act stopping streams a =>
    -- Until `select_mouse` has ended the handler waits for it.
    if s.ended ∧ s.reads a then
      let r := s.conn.act ⟨s.busy, stopping, streams⟩ a
      { s with conn := r.1, busy := s.busyAfter r.2 }
    else s
  | .cancel => { s with conn := { s.conn with cancelled := true } }

def greeted (mode : MouseMode) (d : Device) : State where
  select := .start (selectMouse mode ()) d
  conn := { phase := .selecting mode, owns := true }
  busy := true

def Label.outcome? : Label → Option (Outcome PyError Json)
  | .outcome o => some o
  | _ => none

/-- A request that presses ShiftLeft does not take effect without its acknowledgement,
and one that releases it does not end without effect. -/
def Acknowledged (s : State) (l : Label) : Prop := ∀ o ∈ l.outcome?, Clean shiftKind s.select o

instance (s : State) (l : Label) : Decidable (Acknowledged s l) := by
  unfold Acknowledged
  infer_instance

theorem step_select (s : State) (l : Label) :
    (step s l).select = l.outcome?.elim s.select (s.select.outcome world) := by
  cases l with
  | outcome o => rfl
  | act stopping streams a =>
    simp only [step]
    split <;> rfl
  | cancel => rfl

theorem freed_step (s : State) (l : Label) (h : s.busy = false → s.ended = true) :
    (step s l).busy = false → (step s l).ended = true := by
  cases l with
  | outcome o =>
    intro freed
    have ended := h freed
    have same := Task.outcome_done world ended o
    simpa only [step, same] using ended
  | act stopping streams a =>
    simp only [step]
    split
    · rename_i goes
      exact fun _ => goes.1
    · exact h
  | cancel => exact h

/-- Once the lease is free, the ShiftLeft of the probe is up, or recorded, exactly if
every one of its requests was acknowledged as above. -/
theorem probe_neutral_iff (mode : MouseMode) (d : Device) (up : .shiftLeft ∉ d.keys)
    (ls : List Label) (freed : (run step (greeted mode d) ls).busy = false) :
    let s := run step (greeted mode d) ls
    (.shiftLeft ∉ s.select.world.keys ∨ s.blocked) ↔ Meets step Acknowledged (greeted mode d) ls := by
  intro s
  have ended : s.ended = true :=
    run_invariant step (fun s => s.busy = false → s.ended = true) freed_step (by simp [greeted]) ls freed
  have unblocked : ¬ s.blocked := fun h => by simp [s, h.1] at freed
  have part : s.select = run (Task.outcome world) (Task.start (selectMouse mode ()) d)
      (ls.filterMap Label.outcome?) := run_part step_select _ ls
  have balanced : Balanced shiftKind (shiftDown d) (selectMouse mode ()) := by
    have : shiftDown d = false := decide_eq_false up
    rw [this]
    exact selectMouse_balanced mode ()
  rw [State.ended, part] at ended
  have closed := closed_iff_clean shift_opens balanced _ ended
  have whole := meets_part step_select (Clean shiftKind) (greeted mode d) ls
  rw [← part] at closed
  rw [or_iff_left unblocked, ← decide_eq_false_iff_not]
  exact closed.trans whole.symm

def keyboardOffline : Json := .object [
  ("enabled", .bool true), ("keyboard", .object [("online", .bool false)]),
  ("mouse", .object [("online", .bool true), ("absolute", .bool false)])]

def disconnected : List Label :=
  [.act false false (.selected false), .act false false .joined, .act false false (.closed [] [])]

def offlineRun : List Label :=
  ([.acked keyboardOffline, .acked .null, .acked .null, .acked .null, .acked keyboardOffline].map
    Label.outcome) ++ disconnected

theorem offlineRun_neutral :
    let s := run step (greeted .relative {}) offlineRun
    .shiftLeft ∉ s.select.world.keys ∨ s.blocked :=
  (probe_neutral_iff .relative {} (by decide) offlineRun (by decide)).mpr (by decide)

/-- The down is acknowledged and the up never reaches kvmd. -/
def stuckRun : List Label :=
  ([.acked keyboardOffline, .acked .null, .missed (.backendError "kvmd operation failed or timed out")].map
    Label.outcome) ++ disconnected

theorem probe_leaves_shift_down :
    let s := run step (greeted .relative {}) stuckRun
    s.busy = false ∧ .shiftLeft ∈ s.select.world.keys ∧ ¬ s.blocked := by
  have freed : (run step (greeted .relative {}) stuckRun).busy = false := by decide
  have down : .shiftLeft ∈ (run step (greeted .relative {}) stuckRun).select.world.keys := by decide
  exact ⟨freed, down, fun h => Bool.noConfusion (freed.symm.trans h.1)⟩

end Hid.Probe

import Mathlib.Data.List.Basic
import RkmoonKvm.Hid.Probe
import RkmoonKvm.Hid.Server

/-! The neutralization of the device: every key and button is released, whatever the device was left with.
The bridge starts with it, and refuses its leases until it has succeeded. -/
namespace Hid.Neutral
open Await Runs Probe

def sortedF : List (Fin 12) := [0, 9, 10, 11, 1, 2, 3, 4, 5, 6, 7, 8]

/-- `sorted(set(KEYS.values()))` -/
def sortedKeys : List Key := List.flatten
  [[.altLeft, .altRight, .arrowDown, .arrowLeft, .arrowRight, .arrowUp, .backquote, .backslash, .backspace,
      .bracketLeft, .bracketRight, .capsLock, .comma, .contextMenu, .controlLeft, .controlRight, .delete],
    (List.finRange 10).map Key.digit,
    [.end_, .enter, .equal, .escape],
    sortedF.map Key.f,
    [.home, .insert, .intlBackslash],
    (List.finRange 26).map Key.key,
    [.metaLeft, .metaRight, .minus, .numLock],
    (List.finRange 10).map Key.numpad,
    [.numpadAdd, .numpadDecimal, .numpadDivide, .numpadMultiply, .numpadSubtract, .pageDown, .pageUp, .pause,
      .period, .printScreen, .quote, .scrollLock, .semicolon, .shiftLeft, .shiftRight, .slash, .space, .tab]]

def buttonValues : List Button := [.left, .middle, .right, .up, .down]

def isBackendError : PyError → Bool
  | .backendError _ => true
  | _ => false

def upEach (failed : Bool) : List Control → Code Bool
  | [] => pure failed
  | c :: rest => do
    let failed ← Method.attempt isBackendError
      (do
        let _ ← Method.call (.send (c.report false))
        return failed)
      (pure true)
    upEach failed rest

def neutralize : Code Unit := do
  let failed ← upEach false (sortedKeys.map .key)
  let failed ← upEach failed (buttonValues.map .button)
  if failed then throw (.backendError "neutralization incomplete; exclusive input must remain blocked")

def Below (d d' : Device) : Prop := ∀ c, d'.down c → d.down c

theorem keys_listed (k : Key) : k ∈ sortedKeys := by
  have fs : ∀ i, i ∈ sortedF := by decide
  cases k with
  | f i => simp [sortedKeys, fs]
  | key i | digit i | numpad i => simp [sortedKeys]
  | _ => simp [sortedKeys]

theorem controls_listed (c : Control) : c ∈ sortedKeys.map Control.key ++ buttonValues.map Control.button := by
  cases c with
  | key k => simp [keys_listed k]
  | button b => cases b <;> simp [buttonValues]

theorem up_pressed {d : Device} {c c' : Control} (up : ¬ d.down c' ∨ c' = c) :
    ¬ (d.press (c.report false)).down c' := by
  rw [Device.down_press, edge_report]
  rintro (same | ⟨was, other⟩)
  · simp at same
  · rcases up with up | rfl
    · exact up was
    · exact other rfl

theorem below_refl (d : Device) : Below d d := fun _ => id

theorem below_trans (d d' d'' : Device) (first : Below d d') (next : Below d' d'') : Below d d'' :=
  fun c => first c ∘ next c

theorem below_up (d : Device) (c : Control) : Below d (d.press (c.report false)) := by
  intro c' down
  rw [Device.down_press, edge_report] at down
  rcases down with same | ⟨was, _⟩
  · simp at same
  · exact was

/-- A loop that ends without a failure has released what it went through, and whatever was up already;
however it ends, it has pressed nothing. -/
theorem keeps_upEach {failed : Bool} (cs before : List Control) {d₀ d : Device} (below : Below d₀ d)
    (up : failed = false → ∀ c ∈ before, ¬ d.down c) :
    Keeps world Below (fun _ d' => Below d₀ d')
      (fun r _ d' => r = .ok false → ∀ c ∈ before ++ cs, ¬ d'.down c) (upEach failed cs ()) d := by
  induction cs generalizing failed before d with
  | nil =>
    intro d' further
    refine ⟨below_trans _ _ _ below further, fun same c member down => ?_⟩
    cases same
    rw [List.append_nil] at member
    exact up rfl c member (further c down)
  | cons c rest ih =>
    have caught (e : PyError) (d' : Device) (below : Below d₀ d') :
        Keeps world Below (fun _ d' => Below d₀ d')
          (fun r _ d' => r = .ok false → ∀ c' ∈ before ++ c :: rest, ¬ d'.down c')
          ((if isBackendError e then .done (.ok true) () else .done (.error e) () :
            Prog Unit Request Json PyError Bool).bind fun failed => upEach failed rest) d' := by
      split
      · refine keeps_mono (fun _ _ => id) ?_ (@ih true (before ++ [c]) d' below nofun)
        simp only [List.append_assoc, List.singleton_append, imp_self, implies_true]
      · exact fun _ further => ⟨below_trans _ _ _ below further, nofun⟩
    intro d₁ further₁
    have below₁ := below_trans _ _ _ below further₁
    refine ⟨below₁, fun e => caught e d₁ below₁, fun d₂ further₂ => ?_⟩
    have below₂ := below_trans _ _ _ (below_trans _ _ _ below₁ (below_up d₁ c)) further₂
    refine ⟨below₂, fun e => caught e d₂ below₂, fun _ => ?_⟩
    refine keeps_mono (fun _ _ => id) ?_
      (@ih failed (before ++ [c]) _ below₂ fun none c' member down => ?_)
    · simp only [List.append_assoc, List.singleton_append, imp_self, implies_true]
    · have released := further₂ c' down
      rcases List.mem_append.mp member with was | here
      · exact up_pressed (.inl fun still => up none c' was (further₁ c' still)) released
      · exact up_pressed (.inr (List.mem_singleton.mp here)) released

/-- A neutralization that returns leaves an empty device, whatever it found; it never presses anything. -/
theorem keeps_neutralize {d₀ d : Device} (below : Below d₀ d) : Keeps world Below (fun _ d' => Below d₀ d')
    (fun r _ d' => r = .ok () → d' = {}) (neutralize ()) d := by
  refine keeps_bind below_refl _ ?_
  refine keeps_mono (fun _ _ => id) ?_ (keeps_upEach (sortedKeys.map .key) [] below fun _ => nofun)
  intro r s d up
  cases r with
  | error e => exact nofun
  | ok failed =>
    intro below
    refine keeps_bind below_refl _ ?_
    refine keeps_mono (fun _ _ => id) ?_ (keeps_upEach (buttonValues.map .button) (sortedKeys.map .key) below
      fun none => by simpa [none] using up)
    intro r s d up
    cases r with
    | error e => exact nofun
    | ok failed =>
      cases failed with
      | true => exact fun below _ further => ⟨below_trans _ _ _ below further, nofun⟩
      | false =>
        intro below d' further
        refine ⟨below_trans _ _ _ below further, fun _ => ?_⟩
        exact Device.eq_empty fun c down => up rfl c (controls_listed c) (further c down)

theorem keeps_anything {A : Type} (p : Prog Unit Request Json PyError A) (d : Device) :
    Keeps world Below (fun _ _ => True) (fun _ _ _ => True) p d := by
  induction p generalizing d with
  | done r s => exact fun _ _ => ⟨trivial, trivial⟩
  | wait op s k ih =>
    exact fun _ _ => ⟨trivial, fun _ => ih _ _, fun _ _ => ⟨trivial, fun _ => ih _ _, fun _ => ih _ _⟩⟩

/-- What both the start and the recovery do. -/
def readied : Code Unit := do
  let _ ← check
  neutralize

theorem keeps_readied (d : Device) : Keeps world Below (fun _ _ => True)
    (fun r _ d' => r = .ok () → d' = {}) (readied ()) d := by
  refine keeps_bind below_refl _ (keeps_mono (fun _ _ => id) ?_ (keeps_anything (check ()) d))
  intro r s d _
  cases r with
  | error e => exact nofun
  | ok state =>
    exact fun _ => keeps_mono (fun _ _ _ => trivial) (fun _ _ _ => id) (keeps_neutralize (below_refl d))

/-! The start of the bridge: one attempt before the server listens, and if it fails, one after another
while the server refuses every lease. -/

abbrev Attempt := Task Unit Request Json PyError Unit Device

inductive Main where
  | trying
  | up
  | failed
  deriving DecidableEq

structure State where
  server : Server.State
  main : Main := .trying
  attempt : Option Attempt
  device : Device
  /-- The device as the first lease found it. -/
  first : Option Device := none

inductive Label where
  | outcome (o : Outcome PyError Json)
  | mainEnds
  | server (l : Server.Label)

def boot (streams : Bool) (d : Device) : State where
  server := Server.fresh streams
  attempt := some (.start (readied ()) d)
  device := d

/-- What the recovery makes of the end of its attempt; only an exception is caught. -/
def caught : Except PyError Unit → Option Bool
  | .ok () => some true
  | .error e => if e.isException then some false else none

def State.ended (s : State) : Option (Except PyError Unit) := s.attempt.bind fun t => t.prog.result

def State.serve (s : State) (l : Server.Label) : State :=
  let server := Server.step s.server l
  match l with
  | .blockUntilNeutral => s
  | .startupTurn =>
    if s.server.startup = .top ∧ server.startup = .trying then
      { s with server, attempt := some (.start (readied ()) s.device) }
    else { s with server }
  | .attempt ok =>
    if s.server.startup = .trying ∧ s.ended.bind caught = some ok then { s with server, attempt := none }
    else s
  | .conn _ _ =>
    if s.server.busy = false ∧ server.busy then { s with server, first := s.first <|> some s.device }
    else { s with server }
  | _ => { s with server }

def step (s : State) : Label → State
  | .outcome o =>
    match s.attempt with
    | some t => { s with attempt := some (t.outcome world o), device := (t.outcome world o).world }
    | none => s
  | .mainEnds =>
    match s.main, s.ended with
    | .trying, some (.ok ()) => { s with main := .up, attempt := none }
    | .trying, some (.error e) =>
      if isBackendError e then
        { s with main := .up, attempt := none, server := Server.step s.server .blockUntilNeutral }
      else { s with main := .failed, attempt := none }
    | _, _ => s
  | .server l => if s.main = .up then s.serve l else s

structure Inv (s : State) : Prop where
  server : Server.Inv s.server
  unused : s.main ≠ .up → s.server.startup = .unused ∧ s.server.listening = false ∧ s.server.busy = false
  safe : ∀ t ∈ s.attempt, t.world = s.device ∧
    Safe world Below (fun _ _ => True) (fun r _ d => r = .ok () → d = {}) t
  asked : s.attempt ≠ none → s.main = .trying ∨ s.server.startup = .trying
  ready : s.main = .up → s.server.startup.pending = false → s.device = {}
  first : ∀ d ∈ s.first, d = {}
  claimed : s.server.busy → s.server.startup.pending ∨ s.first ≠ none

theorem inv_rest {s : State} (server : Server.Inv s.server) (up : s.main = .up) (free : s.attempt = none)
    (ready : s.server.startup.pending = false → s.device = {}) (first : ∀ d ∈ s.first, d = {})
    (claimed : s.server.busy → s.server.startup.pending ∨ s.first ≠ none) : Inv s where
  server := server
  unused down := absurd up down
  safe t here := by
    rw [free] at here
    cases here
  asked some := absurd free some
  ready _ := ready
  first := first
  claimed := claimed

theorem ended_empty {s : State} (inv : Inv s) (ended : s.ended = some (.ok ())) : s.device = {} := by
  obtain ⟨t, here, result⟩ := Option.bind_eq_some_iff.mp ended
  obtain ⟨same, safe⟩ := inv.safe t here
  exact same ▸ safe_done below_refl safe result rfl

theorem inv_outcome {s : State} (inv : Inv s) (o : Outcome PyError Json) : Inv (step s (.outcome o)) := by
  cases here : s.attempt with
  | none => simpa only [step, here] using inv
  | some t =>
    obtain ⟨same, safe⟩ := inv.safe t here
    have asked := inv.asked (by simp [here])
    simp only [step, here]
    refine ⟨inv.server, inv.unused, fun t' now => ?_, fun _ => asked, fun up idle => ?_, inv.first, inv.claimed⟩
    · cases now
      refine ⟨rfl, ?_⟩
      cases o with
      | acked v => exact safe_answer below_refl (safe_land below_refl safe) _
      | lost e => exact safe_answer below_refl (safe_land below_refl safe) _
      | missed e => exact safe_answer below_refl safe _
    · rcases asked with trying | trying
      · have up : s.main = .up := up
        cases trying.symm.trans up
      · have idle : s.server.startup.pending = false := idle
        simp [trying, Server.Startup.pending] at idle

theorem inv_mainEnds {s : State} (inv : Inv s) : Inv (step s .mainEnds) := by
  simp only [step]
  split
  · rename_i trying ended
    obtain ⟨unused, quiet, free⟩ := inv.unused (by simp [trying])
    have empty := ended_empty inv ended
    exact inv_rest inv.server rfl rfl (fun _ => empty) inv.first inv.claimed
  · rename_i e trying ended
    obtain ⟨unused, quiet, free⟩ := inv.unused (by simp [trying])
    split
    · have server : Server.step s.server .blockUntilNeutral =
          { s.server with busy := true, startup := .top, recovery := some .startup } := by
        simp [Server.step, unused, quiet]
      have stepped := Server.inv_step s.server .blockUntilNeutral inv.server
      refine inv_rest stepped rfl rfl (fun idle => ?_) inv.first fun _ => ?_
      · simp [server, Server.Startup.pending] at idle
      · simp [server, Server.Startup.pending]
    · exact ⟨inv.server, fun _ => ⟨unused, quiet, free⟩, fun t here => (by cases here),
        fun no => absurd rfl no, fun up => (by cases up), inv.first, inv.claimed⟩
  · exact inv

/-- What a step of the server that is not one of the startup's leaves as it is. -/
structure Aside (s s' : Server.State) : Prop where
  startup : s'.startup = s.startup
  busy : s'.busy = s.busy

theorem conn_startup (s : Server.State) (i : Nat) (a : Server.Act) :
    (Server.step s (.conn i a)).startup = s.startup := by
  have effect (s : Server.State) (e : Server.Effect) : (s.effect i e).startup = s.startup := by cases e <;> rfl
  simp only [Server.step]
  split
  · exact effect _ _
  · rfl

section serve
variable {s : State} (inv : Inv s) (up : s.main = .up)
include inv up

theorem inv_aside {l : Server.Label} (aside : Aside s.server (Server.step s.server l)) :
    Inv { s with server := Server.step s.server l } where
  server := Server.inv_step s.server l inv.server
  unused := fun no => absurd up no
  safe := inv.safe
  asked := fun some => by simpa only [aside.startup] using inv.asked some
  ready := fun _ idle => inv.ready up (by simpa only [aside.startup] using idle)
  first := inv.first
  claimed := fun busy => by simpa only [aside.startup] using inv.claimed (aside.busy ▸ busy)

theorem inv_serveTurn : Inv (s.serve .startupTurn) := by
  have turned := Server.inv_step s.server .startupTurn inv.server
  simp only [State.serve]
  by_cases top : s.server.startup = .top
  · have pending : (Server.step s.server .startupTurn).startup.pending := by
      simp only [Server.step, if_pos top]
      split <;> rfl
    have free : s.attempt = none := by
      by_contra some
      rcases inv.asked some with trying | trying
      · cases trying.symm.trans up
      · cases trying.symm.trans top
    split
    · rename_i started
      refine ⟨turned, fun no => absurd up no, fun t here => ?_, fun _ => .inr started.2, fun _ idle => ?_,
        inv.first, fun _ => .inl pending⟩
      · cases here
        exact ⟨rfl, safe_start (keeps_readied s.device)⟩
      · simp [pending] at idle
    · refine ⟨turned, fun no => absurd up no, inv.safe, fun some => absurd free some, fun _ idle => ?_,
        inv.first, fun _ => .inl pending⟩
      simp [pending] at idle
  · have same : Server.step s.server .startupTurn = s.server := by simp only [Server.step, if_neg top]
    rw [if_neg fun both => top both.1, same]
    exact inv

theorem inv_serveAttempt (ok : Bool) : Inv (s.serve (.attempt ok)) := by
  have stepped := Server.inv_step s.server (.attempt ok) inv.server
  simp only [State.serve]
  split
  · rename_i now
    obtain ⟨trying, told⟩ := now
    obtain ⟨r, ended, caught⟩ := Option.bind_eq_some_iff.mp told
    cases ok with
    | true =>
      have returned : r = .ok () := by
        cases r with
        | ok _ => rfl
        | error e => simp [Neutral.caught] at caught
      have empty := ended_empty inv (returned ▸ ended)
      simp only [Server.step, trying, if_true] at stepped ⊢
      exact inv_rest stepped up rfl (fun _ => empty) inv.first fun busy => (by cases busy)
    | false =>
      simp only [Server.step, trying, if_true, Bool.false_eq_true, if_false] at stepped ⊢
      exact inv_rest stepped up rfl (fun idle => (by cases idle)) inv.first fun _ => .inl rfl
  · exact inv

theorem inv_serveConn (i : Nat) (a : Server.Act) : Inv (s.serve (.conn i a)) := by
  have stepped := Server.inv_step s.server (.conn i a) inv.server
  have startup := conn_startup s.server i a
  have asked (some : s.attempt ≠ none) :
      s.main = .trying ∨ (Server.step s.server (.conn i a)).startup = .trying := by
    simpa only [startup] using inv.asked some
  have ready (idle : (Server.step s.server (.conn i a)).startup.pending = false) : s.device = {} :=
    inv.ready up (by simpa only [startup] using idle)
  simp only [State.serve]
  split
  · rename_i claims
    have idle : s.server.startup.pending = false := by
      cases pending : s.server.startup.pending with
      | false => rfl
      | true => cases claims.1.symm.trans (inv.server.startup pending).1
    refine ⟨stepped, fun no => absurd up no, inv.safe, asked, fun _ => ready, fun d here => ?_,
      fun _ => .inr ?_⟩
    · cases before : s.first with
      | none =>
        rw [before] at here
        cases here
        exact inv.ready up idle
      | some d' =>
        rw [before] at here
        cases here
        exact inv.first _ before
    · cases s.first <;> simp
  · rename_i other
    refine ⟨stepped, fun no => absurd up no, inv.safe, asked, fun _ => ready, inv.first, fun busy => ?_⟩
    have was : s.server.busy := by
      by_contra free
      exact other ⟨by simpa using free, busy⟩
    simpa only [startup] using inv.claimed was

theorem inv_serve (l : Server.Label) : Inv (s.serve l) := by
  cases l with
  | blockUntilNeutral => exact inv
  | startupTurn => exact inv_serveTurn inv up
  | attempt ok => exact inv_serveAttempt inv up ok
  | conn i a => exact inv_serveConn inv up i a
  | startupWake =>
    simp only [State.serve]
    by_cases sleeping : s.server.startup = .sleeping
    · have stepped := Server.inv_step s.server .startupWake inv.server
      simp only [Server.step, if_pos sleeping] at stepped ⊢
      refine ⟨stepped, fun no => absurd up no, inv.safe, fun some => ?_, fun _ idle => (by cases idle),
        inv.first, fun _ => .inl rfl⟩
      rcases inv.asked some with trying | trying
      · exact .inl trying
      · cases trying.symm.trans sleeping
    · have same : Server.step s.server .startupWake = s.server := by simp only [Server.step, if_neg sleeping]
      rw [same]
      exact inv
  | listen => exact inv_aside inv up ⟨rfl, rfl⟩
  | close =>
    refine inv_aside inv up ?_
    simp only [Server.step]
    split <;> exact ⟨rfl, rfl⟩
  | serverClosed =>
    refine inv_aside inv up ?_
    simp only [Server.step]
    split <;> exact ⟨rfl, rfl⟩
  | gathered | recovered =>
    refine inv_aside inv up ?_
    simp only [Server.step]
    (repeat' split) <;> exact ⟨rfl, rfl⟩

end serve

theorem inv_step (s : State) (l : Label) (inv : Inv s) : Inv (step s l) := by
  cases l with
  | outcome o => exact inv_outcome inv o
  | mainEnds => exact inv_mainEnds inv
  | server l =>
    simp only [step]
    split
    · rename_i up
      exact inv_serve inv up l
    · exact inv

theorem inv_boot (streams : Bool) (d : Device) : Inv (boot streams d) := by
  refine ⟨Server.inv_fresh streams, fun _ => ⟨rfl, rfl, rfl⟩, fun t here => ?_, fun _ => .inl rfl, nofun,
    nofun, nofun⟩
  cases here
  exact ⟨rfl, safe_start (keeps_readied d)⟩

/-- Whatever the device was left with, however kvmd answers and however the connections come in: no
connection holds a lease before every key and button has been released and acknowledged, so the first
lease finds an empty device. -/
theorem first_lease_empty (streams : Bool) (d : Device) (ls : List Label) :
    let s := run step (boot streams d) ls
    ∀ i, (s.server.conns i).holds → s.first = some {} := by
  intro s i holds
  have inv : Inv s := run_invariant step Inv inv_step (inv_boot streams d) ls
  have busy := inv.server.busy i holds
  have idle : ¬ s.server.startup.pending := fun pending => by
    have none := (inv.server.startup pending).2 i
    cases none.symm.trans holds
  cases here : s.first with
  | none => exact absurd here ((inv.claimed busy).resolve_left idle)
  | some d' => rw [inv.first d' here]

def ready : Json := .object [
  ("enabled", .bool true), ("keyboard", .object [("online", .bool true)]),
  ("mouse", .object [("online", .bool true), ("absolute", .bool false)])]

def offlineStart : List Label :=
  [.outcome (.missed (.backendError "kvmd operation failed or timed out")), .mainEnds, .server .listen,
    .server .startupTurn, .outcome (.acked ready), .server (.conn 0 (.start true))] ++
  List.replicate 120 (.outcome (.acked .null)) ++
  [.server (.attempt true), .server (.conn 1 (.start true))]

theorem offlineStart_empty :
    (run step (boot true { keys := {.shiftLeft} }) offlineStart).first = some {} :=
  first_lease_empty true { keys := {.shiftLeft} } offlineStart 1 (by decide +kernel)

end Hid.Neutral

import Mathlib.Data.List.Nodup
import RkmoonKvm.Library.Runs

/-! The input of a session: the owner of the capture, the thread that keeps a HID lease for it, and the
calls that forward events, which share the clients by counting who holds them. Every section under the
mutex is one step. -/
namespace Sunshine.Keeper
open Runs

/-- A lease of the HID bridge: the session that it was acquired for, and its mouse mode. -/
structure Client where
  id : Nat
  session : Nat
  absolute : Bool
  deriving DecidableEq

/-- Where `maintain_input` is. -/
inductive Phase where
  | top
  | release
  | drop (old : Option Client)
  | connect
  | fresh (c : Client)
  | install (c : Client)
  | idle
  deriving DecidableEq

structure Thread where
  session : Nat
  absolute : Bool
  stop : Bool := false
  phase : Phase := .top
  deriving DecidableEq

/-- Where `capture` is, from the lock of `video_owner` to its release. -/
inductive Stage where
  | starting
  | running
  | joining
  | cleaning
  | drop (old : Option Client)
  | unlocking
  deriving DecidableEq

structure Owner where
  session : Nat
  absolute : Bool
  /-- Whether there is a HID socket. -/
  socket : Bool
  stage : Stage := .starting
  deriving DecidableEq

/-- A call of `forward` that holds a client, with the owner when it was taken. -/
structure Call where
  id : Nat
  client : Client
  owner : Option Nat
  deriving DecidableEq

inductive Event where
  | created (c : Client)
  | destroyed (c : Client)
  | submitted (call : Call)
  deriving DecidableEq

structure State where
  owner : Option Owner := none
  keeper : Option Thread := none
  input : Option Client := none
  calls : List Call := []
  /-- The sessions and the clients so far, which number the next ones. -/
  sessions : Nat := 0
  next : Nat := 0
  log : List Event := []
  deriving DecidableEq

inductive Label where
  | capture (absolute socket : Bool)
  | started
  | leave
  | joined
  | cleanTake
  | cleanDrop
  | unlock
  | keeperCheck (healthy : Bool)
  | keeperTake
  | keeperDrop
  | keeperConnect (accepted : Bool)
  | keeperFresh
  | keeperInstall
  | keeperWake
  | forwardTake (id : Nat)
  | forwardSubmit (id : Nat)
  | forwardDrop (id : Nat)
  deriving DecidableEq

def Phase.held : Phase → List Client
  | .drop (some c) | .fresh c | .install c => [c]
  | .top | .release | .drop none | .connect | .idle => []

def Stage.held : Stage → List Client
  | .drop (some c) => [c]
  | .starting | .running | .joining | .cleaning | .drop none | .unlocking => []

namespace State

/-- The clients that the session holds: the shared one, and those in the hands of its two threads. -/
def served (s : State) : List Client :=
  s.input.toList ++ (s.keeper.toList.flatMap fun k => k.phase.held) ++
    s.owner.toList.flatMap fun o => o.stage.held

def holders (s : State) : List Client := s.served ++ s.calls.map Call.client

/-- The last reference destroys the client. -/
def release (s : State) : Option Client → State
  | some c => if c ∈ s.holders then s else { s with log := s.log ++ [.destroyed c] }
  | none => s

def stage (s : State) (o : Owner) (stage : Stage) : State := { s with owner := some { o with stage } }

def phase (s : State) (k : Thread) (phase : Phase) : State := { s with keeper := some { k with phase } }

end State

def step (s : State) : Label → State
  | .capture absolute socket =>
    match s.owner with
    | none => { s with owner := some { session := s.sessions, absolute, socket }, sessions := s.sessions + 1 }
    | some _ => s
  | .started =>
    match s.owner with
    | some o =>
      if o.stage = .starting then
        let s := s.stage o .running
        if o.socket then { s with keeper := some { session := o.session, absolute := o.absolute } } else s
      else s
    | none => s
  | .leave =>
    match s.owner with
    | some o =>
      if o.stage = .starting then s.stage o .cleaning
      else if o.stage = .running then
        { s.stage o .joining with keeper := s.keeper.map fun k => { k with stop := true } }
      else s
    | none => s
  | .joined =>
    match s.owner, s.keeper with
    | some o, none => if o.stage = .joining then s.stage o .cleaning else s
    | _, _ => s
  | .cleanTake =>
    match s.owner with
    | some o => if o.stage = .cleaning then { s.stage o (.drop s.input) with input := none } else s
    | none => s
  | .cleanDrop =>
    match s.owner with
    | some o => match o.stage with
      | .drop old => (s.stage o .unlocking).release old
      | _ => s
    | none => s
  | .unlock =>
    match s.owner with
    | some o => if o.stage = .unlocking then { s with owner := none } else s
    | none => s
  | .keeperCheck healthy =>
    match s.keeper with
    | some k =>
      if k.phase = .top then
        if k.stop then { s with keeper := none }
        else s.phase k (if s.input.isNone || !healthy then .release else .idle)
      else s
    | none => s
  | .keeperTake =>
    match s.keeper with
    | some k => if k.phase = .release then { s.phase k (.drop s.input) with input := none } else s
    | none => s
  | .keeperDrop =>
    match s.keeper with
    | some k => match k.phase with
      | .drop old => (s.phase k .connect).release old
      | _ => s
    | none => s
  | .keeperConnect accepted =>
    match s.keeper with
    | some k =>
      if k.phase = .connect then
        if accepted then
          let c : Client := { id := s.next, session := k.session, absolute := k.absolute }
          { s.phase k (.fresh c) with next := s.next + 1, log := s.log ++ [.created c] }
        else s.phase k .idle
      else s
    | none => s
  | .keeperFresh =>
    match s.keeper with
    | some k => match k.phase with
      | .fresh c =>
        if k.stop then ({ s with keeper := none } : State).release (some c) else s.phase k (.install c)
      | _ => s
    | none => s
  | .keeperInstall =>
    match s.keeper with
    | some k => match k.phase with
      | .install c => ({ s.phase k .idle with input := some c }).release s.input
      | _ => s
    | none => s
  | .keeperWake =>
    match s.keeper with
    | some k => if k.phase = .idle then s.phase k .top else s
    | none => s
  | .forwardTake id =>
    match s.input with
    | some c =>
      if id ∈ s.calls.map Call.id then s
      else { s with calls := s.calls ++ [⟨id, c, s.owner.map Owner.session⟩] }
    | none => s
  | .forwardSubmit id =>
    match s.calls.find? (·.id = id) with
    | some call => { s with log := s.log ++ [.submitted call] }
    | none => s
  | .forwardDrop id =>
    match s.calls.find? (·.id = id) with
    | some call => ({ s with calls := s.calls.erase call }).release (some call.client)
    | none => s

def Event.created? : Event → Option Client
  | .created c => some c
  | .destroyed _ | .submitted _ => none

def Event.destroyed? : Event → Option Client
  | .destroyed c => some c
  | .created _ | .submitted _ => none

def created (s : State) : List Client := s.log.filterMap Event.created?
def destroyed (s : State) : List Client := s.log.filterMap Event.destroyed?

/-! Who serves whom. -/

def Mine (o : Owner) (c : Client) : Prop := c.session = o.session ∧ c.absolute = o.absolute

/-- A keeper of the owner's, with what it has in hand; while it has taken the shared client there is none. -/
structure Keeps (o : Owner) (stop : Bool) (input : Option Client) (k : Thread) : Prop where
  session : k.session = o.session
  absolute : k.absolute = o.absolute
  told : k.stop = stop
  phase : match k.phase with
    | .top | .release | .idle => True
    | .drop old => input = none ∧ ∀ c ∈ old, Mine o c
    | .connect => input = none
    | .fresh c | .install c => input = none ∧ Mine o c

def Served (keeper : Option Thread) (input : Option Client) : Option Owner → Prop
  | none => keeper = none ∧ input = none
  | some o => (∀ c ∈ input, Mine o c) ∧ match o.stage with
    | .starting | .unlocking => keeper = none ∧ input = none
    | .running => ∀ k ∈ keeper, Keeps o false input k
    | .joining => ∀ k ∈ keeper, Keeps o true input k
    | .cleaning => keeper = none
    | .drop old => keeper = none ∧ input = none ∧ ∀ c ∈ old, Mine o c

structure Inv (s : State) : Prop where
  served : Served s.keeper s.input s.owner
  calls : ∀ call ∈ s.calls, call.owner = some call.client.session
  submitted : ∀ call, .submitted call ∈ s.log → call.owner = some call.client.session

@[simp] theorem release_owner (s : State) (old : Option Client) : (s.release old).owner = s.owner := by
  unfold State.release
  split
  · split <;> rfl
  · rfl

@[simp] theorem release_keeper (s : State) (old : Option Client) : (s.release old).keeper = s.keeper := by
  unfold State.release
  split
  · split <;> rfl
  · rfl

@[simp] theorem release_sessions (s : State) (old : Option Client) :
    (s.release old).sessions = s.sessions := by
  unfold State.release
  split
  · split <;> rfl
  · rfl

@[simp] theorem release_input (s : State) (old : Option Client) : (s.release old).input = s.input := by
  unfold State.release
  split
  · split <;> rfl
  · rfl

@[simp] theorem release_calls (s : State) (old : Option Client) : (s.release old).calls = s.calls := by
  unfold State.release
  split
  · split <;> rfl
  · rfl

theorem release_submitted {s : State} {old : Option Client} {call : Call} :
    .submitted call ∈ (s.release old).log ↔ .submitted call ∈ s.log := by
  unfold State.release
  split
  · split
    · exact Iff.rfl
    · simp
  · exact Iff.rfl

theorem inv_release {s : State} (inv : Inv s) (old : Option Client) : Inv (s.release old) where
  served := by simpa using inv.served
  calls := by simpa using inv.calls
  submitted := fun call member => inv.submitted call (release_submitted.mp member)

theorem keeper_owner {s : State} (inv : Inv s) {k : Thread} (here : s.keeper = some k) :
    ∃ o stop, s.owner = some o ∧ (o.stage = .running ∧ stop = false ∨ o.stage = .joining ∧ stop = true) ∧
      Keeps o stop s.input k ∧ ∀ c ∈ s.input, Mine o c := by
  have served := inv.served
  rw [here] at served
  cases owner : s.owner with
  | none =>
    rw [owner] at served
    cases served.1
  | some o =>
    rw [owner] at served
    obtain ⟨mine, rest⟩ := served
    cases stage : o.stage with
    | running =>
      rw [stage] at rest
      exact ⟨o, false, rfl, .inl ⟨stage, rfl⟩, rest k rfl, mine⟩
    | joining =>
      rw [stage] at rest
      exact ⟨o, true, rfl, .inr ⟨stage, rfl⟩, rest k rfl, mine⟩
    | starting | unlocking | cleaning | drop old => simp [stage] at rest

theorem served_keeper {o : Owner} {stop : Bool} {keeper : Option Thread} {input : Option Client}
    (stage : o.stage = .running ∧ stop = false ∨ o.stage = .joining ∧ stop = true)
    (mine : ∀ c ∈ input, Mine o c) (keeps : ∀ k ∈ keeper, Keeps o stop input k) :
    Served keeper input (some o) := by
  refine ⟨mine, ?_⟩
  rcases stage with ⟨at_, rfl⟩ | ⟨at_, rfl⟩
  · rw [at_]
    exact keeps
  · rw [at_]
    exact keeps

section owner
variable {s : State}

attribute [local simp] step

theorem inv_capture (inv : Inv s) (absolute socket : Bool) : Inv (step s (.capture absolute socket)) := by
  have served := inv.served
  cases owner : s.owner with
  | none =>
    rw [owner] at served
    simp only [step, owner]
    exact ⟨⟨fun c some => by simp [served.2] at some, served⟩, inv.calls, inv.submitted⟩
  | some o => simpa only [step, owner] using inv

theorem inv_started (inv : Inv s) : Inv (step s .started) := by
  have served := inv.served
  cases owner : s.owner with
  | none => simpa only [step, owner] using inv
  | some o =>
    rw [owner] at served
    obtain ⟨mine, rest⟩ := served
    simp only [step, owner]
    split
    next starting =>
      rw [starting] at rest
      split
      next =>
        refine ⟨⟨mine, fun k same => ?_⟩, inv.calls, inv.submitted⟩
        cases same
        exact ⟨rfl, rfl, rfl, trivial⟩
      next =>
        refine ⟨⟨mine, fun k same => ?_⟩, inv.calls, inv.submitted⟩
        cases rest.1.symm.trans same
    next => exact inv

theorem inv_leave (inv : Inv s) : Inv (step s .leave) := by
  have served := inv.served
  cases owner : s.owner with
  | none => simpa only [step, owner] using inv
  | some o =>
    rw [owner] at served
    obtain ⟨mine, rest⟩ := served
    simp only [step, owner]
    split
    next starting =>
      rw [starting] at rest
      exact ⟨⟨mine, rest.1⟩, inv.calls, inv.submitted⟩
    next =>
      split
      next running =>
        rw [running] at rest
        refine ⟨⟨mine, fun k same => ?_⟩, inv.calls, inv.submitted⟩
        obtain ⟨k', here, rfl⟩ := Option.map_eq_some_iff.mp same
        have keeps := rest k' here
        exact ⟨keeps.session, keeps.absolute, rfl, keeps.phase⟩
      next => exact inv

theorem inv_joined (inv : Inv s) : Inv (step s .joined) := by
  have served := inv.served
  cases owner : s.owner with
  | none => simpa only [step, owner] using inv
  | some o =>
    rw [owner] at served
    cases keeper : s.keeper with
    | some k => simpa only [step, owner, keeper] using inv
    | none =>
      simp only [step, owner, keeper]
      split
      next => exact ⟨⟨served.1, keeper⟩, inv.calls, inv.submitted⟩
      next => exact inv

theorem inv_cleanTake (inv : Inv s) : Inv (step s .cleanTake) := by
  have served := inv.served
  cases owner : s.owner with
  | none => simpa only [step, owner] using inv
  | some o =>
    rw [owner] at served
    obtain ⟨mine, rest⟩ := served
    simp only [step, owner]
    split
    next cleaning =>
      rw [cleaning] at rest
      exact ⟨⟨nofun, rest, rfl, mine⟩, inv.calls, inv.submitted⟩
    next => exact inv

theorem inv_cleanDrop (inv : Inv s) : Inv (step s .cleanDrop) := by
  have served := inv.served
  cases owner : s.owner with
  | none => simpa only [step, owner] using inv
  | some o =>
    rw [owner] at served
    obtain ⟨mine, rest⟩ := served
    simp only [step, owner]
    split
    next old drop =>
      rw [drop] at rest
      have gone : Inv (s.stage o .unlocking) := ⟨⟨mine, rest.1, rest.2.1⟩, inv.calls, inv.submitted⟩
      exact inv_release gone old
    next => exact inv

theorem inv_unlock (inv : Inv s) : Inv (step s .unlock) := by
  have served := inv.served
  cases owner : s.owner with
  | none => simpa only [step, owner] using inv
  | some o =>
    rw [owner] at served
    obtain ⟨mine, rest⟩ := served
    simp only [step, owner]
    split
    next unlocking =>
      rw [unlocking] at rest
      exact ⟨rest, inv.calls, inv.submitted⟩
    next => exact inv

end owner

section keeper
variable {s : State} {k : Thread}

theorem inv_phase (inv : Inv s) (here : s.keeper = some k) (phase : Phase) (input : Option Client)
    (mine : ∀ o, (∀ c ∈ s.input, Mine o c) → Keeps o k.stop s.input k → ∀ c ∈ input, Mine o c)
    (fine : ∀ o, (∀ c ∈ s.input, Mine o c) → Keeps o k.stop s.input k →
      Keeps o k.stop input { k with phase }) :
    Inv { s.phase k phase with input } := by
  obtain ⟨o, stop, owner, stage, keeps, shared⟩ := keeper_owner inv here
  cases keeps.told
  refine ⟨?_, inv.calls, inv.submitted⟩
  show Served (some { k with phase }) input s.owner
  rw [owner]
  refine served_keeper stage (mine o shared keeps) fun k' same => ?_
  cases same
  exact fine o shared keeps

theorem inv_ended (inv : Inv s) (here : s.keeper = some k) : Inv { s with keeper := none } := by
  obtain ⟨o, stop, owner, stage, keeps, shared⟩ := keeper_owner inv here
  refine ⟨?_, inv.calls, inv.submitted⟩
  show Served none s.input s.owner
  rw [owner]
  exact served_keeper stage shared fun k' none => by cases none

theorem inv_keeperCheck (inv : Inv s) (healthy : Bool) : Inv (step s (.keeperCheck healthy)) := by
  cases here : s.keeper with
  | none => simpa only [step, here] using inv
  | some k =>
    simp only [step, here]
    split
    next top =>
      split
      next => exact inv_ended inv here
      next =>
        have kept : ∀ phase, phase = .release ∨ phase = .idle → Inv (s.phase k phase) := by
          intro phase plain
          refine inv_phase inv here phase s.input (fun o shared _ => shared) fun o _ keeps => ?_
          rcases plain with rfl | rfl
          · exact ⟨keeps.session, keeps.absolute, rfl, trivial⟩
          · exact ⟨keeps.session, keeps.absolute, rfl, trivial⟩
        split
        next => exact kept .release (.inl rfl)
        next => exact kept .idle (.inr rfl)
    next => exact inv

theorem inv_keeperTake (inv : Inv s) : Inv (step s .keeperTake) := by
  cases here : s.keeper with
  | none => simpa only [step, here] using inv
  | some k =>
    simp only [step, here]
    split
    next =>
      refine inv_phase inv here (.drop s.input) none (fun o _ _ => nofun) fun o shared keeps => ?_
      exact ⟨keeps.session, keeps.absolute, rfl, rfl, shared⟩
    next => exact inv

theorem inv_keeperDrop (inv : Inv s) : Inv (step s .keeperDrop) := by
  cases here : s.keeper with
  | none => simpa only [step, here] using inv
  | some k =>
    simp only [step, here]
    split
    next old drop =>
      have gone : Inv (s.phase k .connect) := by
        refine inv_phase inv here .connect s.input (fun o shared _ => shared) fun o _ keeps => ?_
        have phase := keeps.phase
        rw [drop] at phase
        exact ⟨keeps.session, keeps.absolute, rfl, phase.1⟩
      exact inv_release gone old
    next => exact inv

theorem inv_keeperConnect (inv : Inv s) (accepted : Bool) : Inv (step s (.keeperConnect accepted)) := by
  cases here : s.keeper with
  | none => simpa only [step, here] using inv
  | some k =>
    simp only [step, here]
    split
    next connect =>
      split
      next =>
        have grown : Inv (s.phase k (.fresh { id := s.next, session := k.session, absolute := k.absolute })) := by
          refine inv_phase inv here _ s.input (fun o shared _ => shared) fun o _ keeps => ?_
          have phase := keeps.phase
          rw [connect] at phase
          exact ⟨keeps.session, keeps.absolute, rfl, phase, keeps.session, keeps.absolute⟩
        refine ⟨grown.served, grown.calls, fun call member => inv.submitted call ?_⟩
        simpa using member
      next =>
        refine inv_phase inv here .idle s.input (fun o shared _ => shared) fun o _ keeps => ?_
        exact ⟨keeps.session, keeps.absolute, rfl, trivial⟩
    next => exact inv

theorem inv_keeperFresh (inv : Inv s) : Inv (step s .keeperFresh) := by
  cases here : s.keeper with
  | none => simpa only [step, here] using inv
  | some k =>
    simp only [step, here]
    split
    next c fresh =>
      split
      next => exact inv_release (inv_ended inv here) (some c)
      next =>
        refine inv_phase inv here (.install c) s.input (fun o shared _ => shared) fun o _ keeps => ?_
        have phase := keeps.phase
        rw [fresh] at phase
        exact ⟨keeps.session, keeps.absolute, rfl, phase⟩
    next => exact inv

theorem inv_keeperInstall (inv : Inv s) : Inv (step s .keeperInstall) := by
  cases here : s.keeper with
  | none => simpa only [step, here] using inv
  | some k =>
    simp only [step, here]
    split
    next c install =>
      refine inv_release (inv_phase inv here .idle (some c) ?_ ?_) s.input
      · intro o _ keeps c' same
        have phase := keeps.phase
        rw [install] at phase
        cases same
        exact phase.2
      · intro o _ keeps
        exact ⟨keeps.session, keeps.absolute, rfl, trivial⟩
    next => exact inv

theorem inv_keeperWake (inv : Inv s) : Inv (step s .keeperWake) := by
  cases here : s.keeper with
  | none => simpa only [step, here] using inv
  | some k =>
    simp only [step, here]
    split
    next =>
      refine inv_phase inv here .top s.input (fun o shared _ => shared) fun o _ keeps => ?_
      exact ⟨keeps.session, keeps.absolute, rfl, trivial⟩
    next => exact inv

end keeper

section forward
variable {s : State}

theorem shared_owner (inv : Inv s) {c : Client} (shared : s.input = some c) :
    ∃ o, s.owner = some o ∧ Mine o c := by
  have served := inv.served
  cases owner : s.owner with
  | none =>
    rw [owner] at served
    cases shared.symm.trans served.2
  | some o =>
    rw [owner] at served
    exact ⟨o, rfl, served.1 c shared⟩

theorem inv_forwardTake (inv : Inv s) (id : Nat) : Inv (step s (.forwardTake id)) := by
  cases shared : s.input with
  | none => simpa only [step, shared] using inv
  | some c =>
    obtain ⟨o, owner, mine⟩ := shared_owner inv shared
    simp only [step, shared]
    split
    next => exact inv
    next =>
      refine ⟨shared ▸ inv.served, fun call member => ?_, inv.submitted⟩
      rcases List.mem_append.mp member with old | new
      · exact inv.calls call old
      · rw [List.mem_singleton.mp new, owner]
        exact congrArg some mine.1.symm

theorem inv_forwardSubmit (inv : Inv s) (id : Nat) : Inv (step s (.forwardSubmit id)) := by
  simp only [step]
  split
  next call found =>
    refine ⟨inv.served, inv.calls, fun call' member => ?_⟩
    rcases List.mem_append.mp member with old | new
    · exact inv.submitted call' old
    · cases List.mem_singleton.mp new
      exact inv.calls call (List.mem_of_find?_eq_some found)
  next => exact inv

theorem inv_forwardDrop (inv : Inv s) (id : Nat) : Inv (step s (.forwardDrop id)) := by
  simp only [step]
  split
  next call found =>
    have gone : Inv { s with calls := s.calls.erase call } :=
      ⟨inv.served, fun call' member => inv.calls call' (List.mem_of_mem_erase member), inv.submitted⟩
    exact inv_release gone (some call.client)
  next => exact inv

end forward

theorem inv_step (s : State) (l : Label) (inv : Inv s) : Inv (step s l) := by
  cases l with
  | capture absolute socket => exact inv_capture inv absolute socket
  | started => exact inv_started inv
  | leave => exact inv_leave inv
  | joined => exact inv_joined inv
  | cleanTake => exact inv_cleanTake inv
  | cleanDrop => exact inv_cleanDrop inv
  | unlock => exact inv_unlock inv
  | keeperCheck healthy => exact inv_keeperCheck inv healthy
  | keeperTake => exact inv_keeperTake inv
  | keeperDrop => exact inv_keeperDrop inv
  | keeperConnect accepted => exact inv_keeperConnect inv accepted
  | keeperFresh => exact inv_keeperFresh inv
  | keeperInstall => exact inv_keeperInstall inv
  | keeperWake => exact inv_keeperWake inv
  | forwardTake id => exact inv_forwardTake inv id
  | forwardSubmit id => exact inv_forwardSubmit inv id
  | forwardDrop id => exact inv_forwardDrop inv id

theorem inv_start : Inv {} := ⟨⟨rfl, rfl⟩, nofun, nofun⟩

/-! Every client is destroyed once, when nobody holds it any more. -/

structure Life (s : State) : Prop where
  numbered : ∀ c ∈ created s, c.id < s.next
  distinct : (created s).Nodup
  once : (destroyed s).Nodup
  born : ∀ c ∈ s.holders, c ∈ created s
  spent : ∀ c ∈ destroyed s, c ∈ created s ∧ c ∉ s.holders
  kept : ∀ c ∈ created s, c ∈ s.holders ∨ c ∈ destroyed s

theorem mem_holders {s : State} {c : Client} : c ∈ s.holders ↔ c ∈ s.input ∨
    (∃ k ∈ s.keeper, c ∈ k.phase.held) ∨ (∃ o ∈ s.owner, c ∈ o.stage.held) ∨
    ∃ call ∈ s.calls, call.client = c := by
  simp [State.holders, State.served]

@[simp] theorem release_holders (s : State) (old : Option Client) : (s.release old).holders = s.holders := by
  simp only [State.holders, State.served, release_input, release_keeper, release_owner, release_calls]

section life
variable {s t : State}

theorem life_same (life : Life s) (log : created t = created s ∧ destroyed t = destroyed s)
    (next : t.next = s.next) (held : ∀ c, c ∈ t.holders ↔ c ∈ s.holders) : Life t where
  numbered := by simpa only [log.1, next] using life.numbered
  distinct := by simpa only [log.1] using life.distinct
  once := by simpa only [log.2] using life.once
  born := by simpa only [log.1, held] using life.born
  spent := by simpa only [log.1, log.2, held] using life.spent
  kept := by simpa only [log.1, log.2, held] using life.kept

/-- One holder lets go: the client is destroyed when there is no other. -/
theorem life_release {old : Option Client} (life : Life s) (log : t.log = s.log) (next : t.next = s.next)
    (held : ∀ c, c ∈ s.holders ↔ c ∈ t.holders ∨ old = some c) : Life (t.release old) := by
  have created : created t = created s := congrArg (List.filterMap Event.created?) log
  have destroyed : destroyed t = destroyed s := congrArg (List.filterMap Event.destroyed?) log
  cases old with
  | none => exact life_same life ⟨created, destroyed⟩ next fun c => by simp [held, State.release]
  | some old =>
    by_cases shared : old ∈ t.holders
    · rw [State.release, if_pos shared]
      refine life_same life ⟨created, destroyed⟩ next fun c => ?_
      rw [held, Option.some_inj]
      exact ⟨.inl, fun or => or.elim id fun same => same ▸ shared⟩
    · have there : old ∈ s.holders := (held old).mpr (.inr rfl)
      have made : Keeper.created (t.release (some old)) = Keeper.created s := by
        simp [State.release, if_neg shared, Keeper.created, log, Event.created?]
      have gone : Keeper.destroyed (t.release (some old)) = Keeper.destroyed s ++ [old] := by
        simp [State.release, if_neg shared, Keeper.destroyed, log, Event.destroyed?]
      have new : old ∉ Keeper.destroyed s := fun spent => (life.spent old spent).2 there
      constructor
      · rw [made, State.release, if_neg shared]
        exact next ▸ life.numbered
      · rw [made]
        exact life.distinct
      · rw [gone]
        exact List.nodup_append.mpr ⟨life.once, List.nodup_singleton old, fun a spent b same => by
          rintro rfl
          exact new (List.mem_singleton.mp same ▸ spent)⟩
      · intro c holds
        rw [release_holders] at holds
        rw [made]
        exact life.born c ((held c).mpr (.inl holds))
      · intro c spent
        rw [gone, List.mem_append, List.mem_singleton] at spent
        rw [made, release_holders]
        rcases spent with spent | rfl
        · have ⟨was, free⟩ := life.spent c spent
          exact ⟨was, fun holds => free ((held c).mpr (.inl holds))⟩
        · exact ⟨life.born c there, shared⟩
      · intro c was
        rw [made] at was
        rw [gone, release_holders, List.mem_append, List.mem_singleton]
        rcases life.kept c was with holds | spent
        · rcases (held c).mp holds with holds | same
          · exact .inl holds
          · exact .inr (.inr (Option.some_inj.mp same).symm)
        · exact .inr (.inl spent)

theorem life_created (life : Life s) {c : Client} (fresh : c.id = s.next)
    (log : t.log = s.log ++ [.created c]) (next : t.next = s.next + 1)
    (held : ∀ c', c' ∈ t.holders ↔ c' ∈ s.holders ∨ c' = c) : Life t := by
  have made : created t = created s ++ [c] := by simp [created, log, Event.created?]
  have gone : destroyed t = destroyed s := by simp [destroyed, log, Event.destroyed?]
  have new : c ∉ created s := fun was => absurd (life.numbered c was) (by omega)
  constructor
  · intro c' was
    rw [made, List.mem_append, List.mem_singleton] at was
    rcases was with was | rfl
    · have := life.numbered c' was
      omega
    · omega
  · rw [made]
    exact List.nodup_append.mpr ⟨life.distinct, List.nodup_singleton c, fun a was b same => by
      rintro rfl
      exact new (List.mem_singleton.mp same ▸ was)⟩
  · rw [gone]
    exact life.once
  · intro c' holds
    rw [made, List.mem_append, List.mem_singleton]
    exact ((held c').mp holds).imp_left (life.born c')
  · intro c' spent
    rw [gone] at spent
    have ⟨was, free⟩ := life.spent c' spent
    rw [made, List.mem_append]
    refine ⟨.inl was, fun holds => ?_⟩
    rcases (held c').mp holds with holds | rfl
    · exact free holds
    · exact new was
  · intro c' was
    rw [made, List.mem_append, List.mem_singleton] at was
    rw [gone, held]
    rcases was with was | rfl
    · exact (life.kept c' was).imp_left .inl
    · exact .inl (.inr rfl)

theorem life_capture (life : Life s) (absolute socket : Bool) : Life (step s (.capture absolute socket)) := by
  cases owner : s.owner with
  | some o => simpa only [step, owner] using life
  | none =>
    simp only [step, owner]
    exact life_same life ⟨rfl, rfl⟩ rfl fun c => by simp [mem_holders, owner, Stage.held]

theorem life_started (inv : Inv s) (life : Life s) : Life (step s .started) := by
  have served := inv.served
  cases owner : s.owner with
  | none => simpa only [step, owner] using life
  | some o =>
    simp only [step, owner]
    split
    next starting =>
      rw [owner] at served
      obtain ⟨none, _⟩ : s.keeper = none ∧ s.input = none := by simpa [starting] using served.2
      split
      next =>
        exact life_same life ⟨rfl, rfl⟩ rfl fun c => by
          simp [mem_holders, owner, none, starting, State.stage, Stage.held, Phase.held]
      next =>
        exact life_same life ⟨rfl, rfl⟩ rfl fun c => by
          simp [mem_holders, owner, none, starting, State.stage, Stage.held]
    next => exact life

theorem life_leave (life : Life s) : Life (step s .leave) := by
  cases owner : s.owner with
  | none => simpa only [step, owner] using life
  | some o =>
    simp only [step, owner]
    split
    next starting =>
      exact life_same life ⟨rfl, rfl⟩ rfl fun c => by
        simp [mem_holders, owner, starting, State.stage, Stage.held]
    next =>
      split
      next running =>
        exact life_same life ⟨rfl, rfl⟩ rfl fun c => by
          simp [mem_holders, owner, running, State.stage, Stage.held]
      next => exact life

theorem life_joined (life : Life s) : Life (step s .joined) := by
  cases owner : s.owner with
  | none => simpa only [step, owner] using life
  | some o =>
    cases here : s.keeper with
    | some k => simpa only [step, owner, here] using life
    | none =>
      simp only [step, owner, here]
      split
      next joining =>
        exact life_same life ⟨rfl, rfl⟩ rfl fun c => by
          simp [mem_holders, owner, joining, State.stage, Stage.held]
      next => exact life

theorem life_cleanTake (life : Life s) : Life (step s .cleanTake) := by
  cases owner : s.owner with
  | none => simpa only [step, owner] using life
  | some o =>
    simp only [step, owner]
    split
    next cleaning =>
      refine life_same life ⟨rfl, rfl⟩ rfl fun c => ?_
      cases shared : s.input with
      | none => simp [mem_holders, owner, cleaning, shared, State.stage, Stage.held]
      | some old =>
        simp [mem_holders, owner, cleaning, shared, State.stage, Stage.held, or_left_comm, eq_comm]
    next => exact life

theorem life_cleanDrop (life : Life s) : Life (step s .cleanDrop) := by
  cases owner : s.owner with
  | none => simpa only [step, owner] using life
  | some o =>
    simp only [step, owner]
    split
    next old drop =>
      refine life_release life rfl rfl fun c => ?_
      cases old with
      | none => simp [mem_holders, owner, drop, State.stage, Stage.held]
      | some old =>
        simp [mem_holders, owner, drop, State.stage, Stage.held, eq_comm]
        grind
    next => exact life

theorem life_unlock (life : Life s) : Life (step s .unlock) := by
  cases owner : s.owner with
  | none => simpa only [step, owner] using life
  | some o =>
    simp only [step, owner]
    split
    next unlocking =>
      exact life_same life ⟨rfl, rfl⟩ rfl fun c => by simp [mem_holders, owner, unlocking, Stage.held]
    next => exact life

theorem life_keeperCheck (life : Life s) (healthy : Bool) : Life (step s (.keeperCheck healthy)) := by
  cases here : s.keeper with
  | none => simpa only [step, here] using life
  | some k =>
    simp only [step, here]
    split
    next top =>
      split
      next => exact life_same life ⟨rfl, rfl⟩ rfl fun c => by simp [mem_holders, here, top, Phase.held]
      next =>
        refine life_same life ⟨rfl, rfl⟩ rfl fun c => ?_
        split <;> simp [mem_holders, here, top, State.phase, Phase.held]
    next => exact life

theorem life_keeperTake (life : Life s) : Life (step s .keeperTake) := by
  cases here : s.keeper with
  | none => simpa only [step, here] using life
  | some k =>
    simp only [step, here]
    split
    next release =>
      refine life_same life ⟨rfl, rfl⟩ rfl fun c => ?_
      cases shared : s.input with
      | none => simp [mem_holders, here, release, shared, State.phase, Phase.held]
      | some old => simp [mem_holders, here, release, shared, State.phase, Phase.held, eq_comm]
    next => exact life

theorem life_keeperDrop (life : Life s) : Life (step s .keeperDrop) := by
  cases here : s.keeper with
  | none => simpa only [step, here] using life
  | some k =>
    simp only [step, here]
    split
    next old drop =>
      refine life_release life rfl rfl fun c => ?_
      cases old with
      | none => simp [mem_holders, here, drop, State.phase, Phase.held]
      | some old =>
        simp [mem_holders, here, drop, State.phase, Phase.held, eq_comm]
        grind
    next => exact life

theorem life_keeperConnect (life : Life s) (accepted : Bool) : Life (step s (.keeperConnect accepted)) := by
  cases here : s.keeper with
  | none => simpa only [step, here] using life
  | some k =>
    simp only [step, here]
    split
    next connect =>
      split
      next =>
        refine life_created life rfl rfl rfl fun c => ?_
        simp [mem_holders, here, connect, State.phase, Phase.held]
        grind
      next =>
        exact life_same life ⟨rfl, rfl⟩ rfl fun c => by
          simp [mem_holders, here, connect, State.phase, Phase.held]
    next => exact life

theorem life_keeperFresh (life : Life s) : Life (step s .keeperFresh) := by
  cases here : s.keeper with
  | none => simpa only [step, here] using life
  | some k =>
    simp only [step, here]
    split
    next new fresh =>
      split
      next =>
        refine life_release life rfl rfl fun c => ?_
        simp [mem_holders, here, fresh, Phase.held, eq_comm]
        grind
      next =>
        exact life_same life ⟨rfl, rfl⟩ rfl fun c => by
          simp [mem_holders, here, fresh, State.phase, Phase.held]
    next => exact life

theorem life_keeperInstall (life : Life s) : Life (step s .keeperInstall) := by
  cases here : s.keeper with
  | none => simpa only [step, here] using life
  | some k =>
    simp only [step, here]
    split
    next new install =>
      refine life_release life rfl rfl fun c => ?_
      simp [mem_holders, here, install, State.phase, Phase.held, eq_comm]
      grind
    next => exact life

theorem life_keeperWake (life : Life s) : Life (step s .keeperWake) := by
  cases here : s.keeper with
  | none => simpa only [step, here] using life
  | some k =>
    simp only [step, here]
    split
    next idle =>
      exact life_same life ⟨rfl, rfl⟩ rfl fun c => by
        simp [mem_holders, here, idle, State.phase, Phase.held]
    next => exact life

theorem life_forwardTake (life : Life s) (id : Nat) : Life (step s (.forwardTake id)) := by
  cases shared : s.input with
  | none => simpa only [step, shared] using life
  | some taken =>
    simp only [step, shared]
    split
    next => exact life
    next =>
      refine life_same life ⟨rfl, rfl⟩ rfl fun c => ?_
      simp only [mem_holders, shared, List.mem_append, List.mem_singleton, or_and_right, exists_or,
        exists_eq_left, Option.mem_def, Option.some_inj]
      grind

theorem life_forwardSubmit (life : Life s) (id : Nat) : Life (step s (.forwardSubmit id)) := by
  simp only [step]
  split
  next call found =>
    refine life_same life ⟨?_, ?_⟩ rfl fun c => Iff.rfl
    · simp [created, Event.created?]
    · simp [destroyed, Event.destroyed?]
  next => exact life

theorem life_forwardDrop (life : Life s) (id : Nat) : Life (step s (.forwardDrop id)) := by
  simp only [step]
  split
  next call found =>
    refine life_release life rfl rfl fun c => ?_
    have member := List.mem_of_find?_eq_some found
    have held : (∃ call ∈ s.calls, call.client = c) ↔
        (∃ call' ∈ s.calls.erase call, call'.client = c) ∨ call.client = c := by
      simp only [(List.perm_cons_erase member).mem_iff, List.mem_cons, or_and_right, exists_or,
        exists_eq_left, or_comm]
    simp only [mem_holders, held, Option.some_inj]
    grind
  next => exact life

theorem life_step (inv : Inv s) (life : Life s) (l : Label) : Life (step s l) := by
  cases l with
  | capture absolute socket => exact life_capture life absolute socket
  | started => exact life_started inv life
  | leave => exact life_leave life
  | joined => exact life_joined life
  | cleanTake => exact life_cleanTake life
  | cleanDrop => exact life_cleanDrop life
  | unlock => exact life_unlock life
  | keeperCheck healthy => exact life_keeperCheck life healthy
  | keeperTake => exact life_keeperTake life
  | keeperDrop => exact life_keeperDrop life
  | keeperConnect accepted => exact life_keeperConnect life accepted
  | keeperFresh => exact life_keeperFresh life
  | keeperInstall => exact life_keeperInstall life
  | keeperWake => exact life_keeperWake life
  | forwardTake id => exact life_forwardTake life id
  | forwardSubmit id => exact life_forwardSubmit life id
  | forwardDrop id => exact life_forwardDrop life id

end life

theorem life_start : Life {} := by
  constructor
  · nofun
  · exact List.nodup_nil
  · exact List.nodup_nil
  · nofun
  · nofun
  · nofun

theorem run_inv (ls : List Label) : Inv (run step {} ls) ∧ Life (run step {} ls) :=
  run_invariant step (fun s => Inv s ∧ Life s)
    (fun s l both => ⟨inv_step s l both.1, life_step both.1 both.2 l⟩) ⟨inv_start, life_start⟩ ls

theorem served_single {s : State} (inv : Inv s) : s.served.length ≤ 1 := by
  have served := inv.served
  cases owner : s.owner with
  | none =>
    rw [owner] at served
    simp [State.served, owner, served.1, served.2]
  | some o =>
    cases here : s.keeper with
    | none =>
      rw [owner] at served
      cases stage : o.stage with
      | drop old =>
        have rest := served.2
        rw [stage] at rest
        cases old <;> simp [State.served, owner, here, stage, rest.2.1, Stage.held]
      | starting | running | joining | cleaning | unlocking =>
        cases shared : s.input <;> simp [State.served, owner, here, stage, shared, Stage.held]
    | some k =>
      obtain ⟨o', stop, same, stage, keeps, _⟩ := keeper_owner inv here
      cases owner.symm.trans same
      have free : o.stage.held = [] := by rcases stage with ⟨at_, _⟩ | ⟨at_, _⟩ <;> rw [at_] <;> rfl
      have phase := keeps.phase
      cases at_ : k.phase with
      | top | release | idle =>
        cases shared : s.input <;> simp [State.served, owner, here, at_, free, shared, Phase.held]
      | drop old =>
        rw [at_] at phase
        cases old <;> simp [State.served, owner, here, at_, free, phase.1, Phase.held]
      | connect => simp [State.served, owner, here, at_, free, Phase.held, Option.length_toList_le]
      | fresh c | install c =>
        rw [at_] at phase
        simp [State.served, owner, here, at_, free, phase.1, Phase.held]

theorem served_mine {s : State} (inv : Inv s) {c : Client} (served : c ∈ s.served) : ∃ o ∈ s.owner, Mine o c := by
  simp only [State.served, List.mem_append, Option.mem_toList, List.mem_flatMap, or_assoc] at served
  rcases served with shared | ⟨k, here, held⟩ | ⟨o, here, held⟩
  · exact shared_owner inv shared
  · obtain ⟨o, stop, owner, _, keeps, _⟩ := keeper_owner inv here
    refine ⟨o, owner, ?_⟩
    have phase := keeps.phase
    cases at_ : k.phase with
    | top | release | connect | idle => simp [at_, Phase.held] at held
    | drop old =>
      rw [at_] at phase
      cases old with
      | none => simp [at_, Phase.held] at held
      | some old =>
        simp only [at_, Phase.held, List.mem_singleton] at held
        exact held ▸ phase.2 old rfl
    | fresh c' | install c' =>
      rw [at_] at phase
      simp only [at_, Phase.held, List.mem_singleton] at held
      exact held ▸ phase.2
  · have served := inv.served
    have owner : s.owner = some o := here
    rw [owner] at served
    refine ⟨o, owner, ?_⟩
    cases stage : o.stage with
    | starting | running | joining | cleaning | unlocking => simp [stage, Stage.held] at held
    | drop old =>
      have rest := served.2
      rw [stage] at rest
      cases old with
      | none => simp [stage, Stage.held] at held
      | some old =>
        simp only [stage, Stage.held, List.mem_singleton] at held
        exact held ▸ rest.2.2 old rfl

/-- However the sessions, the keeper and the calls interleave: input goes to no session but the one that
owns the capture, in its mouse mode; what a call submits goes to the client of the session that owned
the capture when the call began; a session holds at most one client; every client is destroyed once, as
soon as nobody holds it; and a session that has ended leaves no client behind, but those that a call has
yet to let go. -/
theorem input_accounted (ls : List Label) : let s := run step {} ls
    (∀ c ∈ s.input, ∃ o ∈ s.owner, Mine o c) ∧
    (∀ call, .submitted call ∈ s.log → call.owner = some call.client.session) ∧
    s.served.length ≤ 1 ∧
    (destroyed s).Nodup ∧ (∀ c ∈ destroyed s, c ∈ created s) ∧
    (∀ c ∈ created s, c ∈ s.holders ↔ c ∉ destroyed s) ∧
    (s.owner = none → s.keeper = none ∧
      ∀ c ∈ created s, c ∈ destroyed s ∨ ∃ call ∈ s.calls, call.client = c) := by
  intro s
  obtain ⟨inv, life⟩ : Inv s ∧ Life s := run_inv ls
  refine ⟨fun c shared => ?_, inv.submitted, served_single inv, life.once, fun c spent => (life.spent c spent).1,
    fun c was => ⟨fun holds spent => (life.spent c spent).2 holds, (life.kept c was).resolve_right⟩, fun free => ?_⟩
  · exact shared_owner inv shared
  · have served := inv.served
    rw [free] at served
    refine ⟨served.1, fun c was => ?_⟩
    rcases life.kept c was with holds | spent
    · refine .inr ?_
      simpa [mem_holders, served.1, served.2, free] using holds
    · exact .inl spent

/-! A session that is told to end does, whatever its keeper is in the middle of. -/

inductive Task where
  | check
  | take
  | drop
  | connect
  | fresh
  | install
  | wake
  | join
  | cleanTake
  | cleanDrop
  | unlock
  deriving DecidableEq

def Label.task : Label → Option Task
  | .keeperCheck _ => some .check
  | .keeperTake => some .take
  | .keeperDrop => some .drop
  | .keeperConnect _ => some .connect
  | .keeperFresh => some .fresh
  | .keeperInstall => some .install
  | .keeperWake => some .wake
  | .joined => some .join
  | .cleanTake => some .cleanTake
  | .cleanDrop => some .cleanDrop
  | .unlock => some .unlock
  | .capture .. | .started | .leave | .forwardTake _ | .forwardSubmit _ | .forwardDrop _ => none

def Phase.task : Phase → Task
  | .top => .check
  | .release => .take
  | .drop _ => .drop
  | .connect => .connect
  | .fresh _ => .fresh
  | .install _ => .install
  | .idle => .wake

/-- How many of them are left to the keeper once it is told to stop, and to the owner behind it. -/
def Phase.left : Phase → Nat
  | .top | .fresh _ => 1
  | .idle => 2
  | .connect | .install _ => 3
  | .drop _ => 4
  | .release => 5

def Stage.left : Stage → Nat
  | .unlocking => 1
  | .drop _ => 2
  | .cleaning => 3
  | .starting | .running | .joining => 4

def Stage.leaving : Stage → Bool
  | .starting | .running => false
  | .joining | .cleaning | .drop _ | .unlocking => true

def left (s : State) : Nat :=
  s.owner.elim 0 (fun o => o.stage.left) + s.keeper.elim 0 fun k => k.phase.left

def awaited (s : State) : Option Task :=
  s.owner.bind fun o => match o.stage with
    | .starting | .running => none
    | .joining => some (s.keeper.elim .join fun k => k.phase.task)
    | .cleaning => some .cleanTake
    | .drop _ => some .cleanDrop
    | .unlocking => some .unlock

def Fair (round : List Label) : Prop := ∀ t : Task, ∃ l ∈ round, l.task = some t

def Helpful (s : State) (l : Label) : Prop := ∃ t, awaited s = some t ∧ l.task = some t

def Gone (id : Nat) (s : State) : Prop := ∀ o ∈ s.owner, o.session ≠ id

structure Ending (id : Nat) (s : State) : Prop where
  inv : Inv s
  past : id < s.sessions
  leaving : ∀ o ∈ s.owner, o.session = id → o.stage.leaving

section ending
variable {s : State} {id : Nat}

def Follows (s t : State) : Prop :=
  t.sessions = s.sessions ∧ (∀ o ∈ t.owner, ∃ o' ∈ s.owner,
    o.session = o'.session ∧ (o'.stage.leaving → o.stage.leaving)) ∨
  s.owner = none ∧ t.sessions = s.sessions + 1 ∧ ∀ o ∈ t.owner, o.session = s.sessions

theorem follows_same {t : State} (sessions : t.sessions = s.sessions) (owner : t.owner = s.owner) :
    Follows s t :=
  .inl ⟨sessions, fun o here => ⟨o, owner ▸ here, rfl, fun leaving => leaving⟩⟩

theorem follows_stage {t : State} {o : Owner} {stage : Stage} (here : s.owner = some o)
    (sessions : t.sessions = s.sessions) (owner : t.owner = some { o with stage })
    (leaving : o.stage.leaving → stage.leaving) : Follows s t := by
  refine .inl ⟨sessions, fun o' same => ?_⟩
  cases owner.symm.trans same
  exact ⟨o, here, rfl, leaving⟩

theorem owner_step (s : State) (l : Label) : Follows s (step s l) := by
  cases l with
  | capture absolute socket =>
    cases owner : s.owner with
    | some o => exact follows_same (by simp only [step, owner]) (by simp only [step, owner])
    | none =>
      simp only [step, owner]
      exact .inr ⟨owner, rfl, fun o same => by cases same; rfl⟩
  | started | leave | joined | cleanTake | cleanDrop | unlock =>
    simp only [step]
    (repeat' split) <;> first
      | exact follows_same rfl rfl
      | exact follows_stage ‹_› rfl rfl (by simp [Stage.leaving, *])
      | exact follows_stage ‹_› (release_sessions _ _) (release_owner _ _) (by simp [Stage.leaving, *])
      | exact .inl ⟨rfl, by simp⟩
  | keeperCheck | keeperTake | keeperDrop | keeperConnect | keeperFresh | keeperInstall | keeperWake |
    forwardTake | forwardSubmit | forwardDrop =>
    simp only [step]
    (repeat' split) <;> first
      | exact follows_same rfl rfl
      | exact follows_same (release_sessions _ _) (release_owner _ _)

theorem ending_step (ending : Ending id s) (l : Label) : Ending id (step s l) := by
  have inv := inv_step s l ending.inv
  rcases owner_step s l with ⟨sessions, owner⟩ | ⟨free, sessions, owner⟩
  · refine ⟨inv, sessions ▸ ending.past, fun o here same => ?_⟩
    obtain ⟨o', before, session, later⟩ := owner o here
    exact later (ending.leaving o' before (session ▸ same))
  · refine ⟨inv, by have := ending.past; omega, fun o here same => ?_⟩
    have past := ending.past
    have new := owner o here
    omega

theorem gone_step (ending : Ending id s) (gone : Gone id s) (l : Label) : Gone id (step s l) := by
  intro o here same
  rcases owner_step s l with ⟨_, owner⟩ | ⟨_, _, owner⟩
  · obtain ⟨o', before, session, _⟩ := owner o here
    exact gone o' before (session ▸ same)
  · have past := ending.past
    have new := owner o here
    omega

theorem keeper_told (inv : Inv s) {o : Owner} {k : Thread} (owner : s.owner = some o)
    (leaving : o.stage.leaving) (here : s.keeper = some k) : o.stage = .joining ∧ k.stop = true := by
  obtain ⟨o', stop, same, stage, keeps, _⟩ := keeper_owner inv here
  cases owner.symm.trans same
  rcases stage with ⟨running, _⟩ | ⟨joining, rfl⟩
  · simp [running, Stage.leaving] at leaving
  · exact ⟨joining, keeps.told⟩

theorem forward_kept (s : State) {l : Label} (forward : ∃ id, l = .forwardTake id ∨ l = .forwardSubmit id ∨
    l = .forwardDrop id) : (step s l).owner = s.owner ∧ (step s l).keeper = s.keeper := by
  obtain ⟨id, rfl | rfl | rfl⟩ := forward
  · simp only [step]
    (repeat' split) <;> exact ⟨rfl, rfl⟩
  · simp only [step]
    split <;> exact ⟨rfl, rfl⟩
  · simp only [step]
    split
    · exact ⟨release_owner _ _, release_keeper _ _⟩
    · exact ⟨rfl, rfl⟩

/-- What is awaited of the keeper, or of the owner behind it, brings the end nearer. -/
theorem helpful_nearer {o : Owner} (inv : Inv s) (owner : s.owner = some o) (leaving : o.stage.leaving)
    {l : Label} (helpful : Helpful s l) : left (step s l) < left s := by
  obtain ⟨t, await, task⟩ := helpful
  cases here : s.keeper with
  | some k =>
    obtain ⟨joining, told⟩ := keeper_told inv owner leaving here
    have mine : l.task = some k.phase.task := by
      rw [task, ← await]
      simp [awaited, owner, joining, here]
    cases at_ : k.phase <;> cases l <;> simp [at_, Label.task, Phase.task] at mine
    case some.connect.keeperConnect accepted =>
      cases accepted <;>
        simp [step, left, owner, here, joining, at_, Stage.left, Phase.left, State.phase]
    all_goals simp [step, left, owner, here, joining, told, at_, Stage.left, Phase.left, State.phase]
  | none =>
    have mine : l.task = awaited s := task.trans await.symm
    cases stage : o.stage with
    | starting | running => simp [stage, Stage.leaving] at leaving
    | joining | cleaning | drop old | unlocking =>
      cases l <;> simp [awaited, owner, here, stage, Label.task] at mine
      simp [step, left, owner, here, stage, Stage.left, State.stage]

theorem task_idle {o : Owner} (inv : Inv s) (owner : s.owner = some o) (leaving : o.stage.leaving)
    {l : Label} {t : Task} (task : l.task = some t) (other : awaited s ≠ some t) : step s l = s := by
  rw [← task] at other
  cases here : s.keeper with
  | some k =>
    obtain ⟨joining, told⟩ := keeper_told inv owner leaving here
    cases at_ : k.phase <;> cases l <;>
      simp [awaited, owner, joining, here, at_, Label.task, Phase.task] at other task <;>
      simp [step, owner, here, joining, at_]
  | none =>
    cases stage : o.stage with
    | starting | running => simp [stage, Stage.leaving] at leaving
    | joining | cleaning | drop old | unlocking =>
      cases l <;> simp [awaited, owner, here, stage, Label.task] at other task <;>
        simp [step, owner, here, stage]

theorem waits_step {o : Owner} (inv : Inv s) (owner : s.owner = some o) (leaving : o.stage.leaving)
    (l : Label) : left (step s l) < left s ∨
      left (step s l) = left s ∧ ¬ Helpful s l ∧ ∀ l', Helpful s l' → Helpful (step s l) l' := by
  have idle : step s l = s → ¬ Helpful s l → left (step s l) = left s ∧ ¬ Helpful s l ∧
      ∀ l', Helpful s l' → Helpful (step s l) l' := fun same not =>
    same.symm ▸ ⟨rfl, not, fun l' helpful => helpful⟩
  cases task : l.task with
  | some t =>
    by_cases await : awaited s = some t
    · exact .inl (helpful_nearer inv owner leaving ⟨t, await, task⟩)
    · refine .inr (idle (task_idle inv owner leaving task await) fun ⟨t', await', task'⟩ => await ?_)
      rw [await', ← task', task]
  | none =>
    have not : ¬ Helpful s l := fun ⟨t, _, mine⟩ => by cases task.symm.trans mine
    have forward (kept : (step s l).owner = s.owner ∧ (step s l).keeper = s.keeper) :
        left (step s l) = left s ∧ ¬ Helpful s l ∧ ∀ l', Helpful s l' → Helpful (step s l) l' := by
      refine ⟨by rw [left, left, kept.1, kept.2], not, fun l' ⟨t, await, mine⟩ => ⟨t, ?_, mine⟩⟩
      rw [awaited, kept.1, kept.2]
      exact await
    cases l with
    | capture absolute socket => exact .inr (idle (by simp only [step, owner]) not)
    | started | leave =>
      refine .inr (idle ?_ not)
      cases stage : o.stage <;> simp_all [step, Stage.leaving]
    | forwardTake id => exact .inr (forward (forward_kept s ⟨id, .inl rfl⟩))
    | forwardSubmit id => exact .inr (forward (forward_kept s ⟨id, .inr (.inl rfl)⟩))
    | forwardDrop id => exact .inr (forward (forward_kept s ⟨id, .inr (.inr rfl)⟩))
    | joined | cleanTake | cleanDrop | unlock | keeperCheck | keeperTake | keeperDrop | keeperConnect |
      keeperFresh | keeperInstall | keeperWake => cases task

theorem ending_helps (id : Nat) : Helps step (Ending id) (Gone id) Helpful left where
  keeps := fun s l ending => ending_step ending l
  stays := fun s l ending gone => gone_step ending gone l
  finished := by
    intro s _ none o here
    have : s.owner = some o := here
    cases stage : o.stage <;> simp [left, this, stage, Stage.left] at none
  waits := by
    intro s l ending here
    obtain ⟨o, owner, same⟩ : ∃ o, s.owner = some o ∧ o.session = id := by simpa [Gone] using here
    exact .inr (waits_step ending.inv owner (ending.leaving o owner same) l)

theorem fair_helpful {round : List Label} (fair : Fair round) (ending : Ending id s) (here : ¬ Gone id s) :
    ∃ l ∈ round, Helpful s l := by
  obtain ⟨o, owner, same⟩ : ∃ o, s.owner = some o ∧ o.session = id := by simpa [Gone] using here
  have leaving := ending.leaving o owner same
  obtain ⟨t, await⟩ : ∃ t, awaited s = some t := by
    cases stage : o.stage <;> simp [stage, Stage.leaving] at leaving <;> simp [awaited, owner, stage]
  obtain ⟨l, member, task⟩ := fair t
  exact ⟨l, member, t, await, task⟩

end ending

theorem sessions_past (ls : List Label) : ∀ o ∈ (run step {} ls).owner, o.session < (run step {} ls).sessions := by
  refine run_invariant step (fun s => ∀ o ∈ s.owner, o.session < s.sessions) (fun s l past o here => ?_) (by simp) ls
  rcases owner_step s l with ⟨sessions, owner⟩ | ⟨_, sessions, owner⟩
  · obtain ⟨o', before, session, _⟩ := owner o here
    have := past o' before
    omega
  · have := owner o here
    omega

theorem left_bound (s : State) : left s ≤ 9 := by
  have stage (o : Owner) : o.stage.left ≤ 4 := by cases o.stage <;> simp [Stage.left]
  have phase (k : Thread) : k.phase.left ≤ 5 := by cases k.phase <;> simp [Phase.left]
  cases owner : s.owner with
  | none => cases here : s.keeper <;> simp [left, owner, here, Nat.le_trans (phase _)]
  | some o =>
    have := stage o
    cases here : s.keeper with
    | none =>
      simp only [left, owner, here, Option.elim_some, Option.elim_none]
      omega
    | some k =>
      have := phase k
      simp only [left, owner, here, Option.elim_some]
      omega

/-- A session that has left its loop is gone after at most nine rounds in which each task of its two
threads gets a turn, whatever else is in the rounds; a client of its that is not destroyed by then is in
the hands of a call. -/
theorem session_ends (ls : List Label) (o : Owner) (rounds : List (List Label))
    (owner : (run step {} ls).owner = some o) (leaving : o.stage.leaving)
    (fair : ∀ round ∈ rounds, Fair round) (enough : 9 ≤ rounds.length) :
    let s := run step {} (ls ++ rounds.flatten)
    Gone o.session s ∧ ∀ c ∈ created s, c.session = o.session →
      c ∈ destroyed s ∨ ∃ call ∈ s.calls, call.client = c := by
  intro s
  have start : Ending o.session (run step {} ls) :=
    ⟨(run_inv ls).1, sessions_past ls o owner, fun o' here _ => by cases owner.symm.trans here; exact leaving⟩
  have gone : Gone o.session s := by
    rw [show s = run step (run step {} ls) rounds.flatten from run_append step {} ls rounds.flatten]
    exact rounds_reach (ending_helps o.session) start rounds
      (fun round member s ending here => fair_helpful (fair round member) ending here)
      (Nat.le_trans (left_bound _) enough)
  obtain ⟨inv, life⟩ : Inv s ∧ Life s := run_inv _
  refine ⟨gone, fun c was mine => ?_⟩
  rcases life.kept c was with holds | spent
  · rcases List.mem_append.mp holds with served | call
    · obtain ⟨o', here, same⟩ := served_mine inv served
      exact absurd (same.1.symm.trans mine) (gone o' here)
    · obtain ⟨call, member, same⟩ := List.mem_map.mp call
      exact .inr ⟨call, member, same⟩
  · exact .inl spent

def taskRound : List Label :=
  [.keeperCheck true, .keeperTake, .keeperDrop, .keeperConnect true, .keeperFresh, .keeperInstall, .keeperWake,
    .joined, .cleanTake, .cleanDrop, .unlock]

theorem session_ends_connecting : Gone 0 (run step {} ([.capture false true, .started, .keeperCheck true,
    .keeperTake, .keeperDrop, .leave] ++ (List.replicate 9 taskRound).flatten)) := by
  refine (session_ends _ { session := 0, absolute := false, socket := true, stage := .joining }
    (List.replicate 9 taskRound) rfl rfl (fun round member t => ?_) (by decide)).1
  rw [List.eq_of_mem_replicate member]
  cases t <;> decide

end Sunshine.Keeper

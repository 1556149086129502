import RkmoonKvm.Hid.Neutral

/-! The instance's processes around one lock: `run.py start`, `run.py release-all` and the `ExecStopPost`
recovery, which may be killed at any point. The marker says that a release is owed. -/
namespace Tools.Supervisor
open Await Runs Hid Hid.Probe Hid.Neutral

inductive Kind where
  | start
  | releaseAll
  | post
  | prepare
  deriving DecidableEq

/-- Where a process is, between its first look at the lock and its end. -/
inductive Phase where
  | absent
  | opened
  | locked
  | spawned
  | waiting
  | running
  | leaving
  | reaping
  | release
  | releasing
  | confirmed
  | closing
  | exited
  | dead
  deriving DecidableEq

namespace Phase

def holding : Phase → Bool
  | .absent | .opened | .exited | .dead => false
  | _ => true

def mayBridge : Phase → Bool
  | .spawned | .waiting | .running | .leaving | .reaping | .dead => true
  | _ => false

def mayServe : Phase → Bool
  | .running | .leaving | .dead => true
  | _ => false

def mayRelease : Phase → Bool
  | .releasing | .dead => true
  | _ => false

end Phase

/-- A process, with the children that it has started: the HID bridge, Sunshine, and the release. -/
structure Proc where
  kind : Kind := .start
  input : Bool := false
  phase : Phase := .absent
  bridge : Bool := false
  sunshine : Bool := false
  releaser : Option Attempt := none

def Proc.childless (c : Proc) : Prop := c.bridge = false ∧ c.sunshine = false ∧ c.releaser = none

/-- The USB device, with what a bridge has written for it and kvmd has yet to apply. -/
structure Usb where
  device : Device := {}
  flight : List Report := []
  deriving DecidableEq

structure State where
  lock : Option Nat := none
  procs : Nat → Proc := fun _ => {}
  marker : Bool
  usb : Usb

inductive Label where
  | begin (p : Nat) (kind : Kind) (input : Bool)
  | take (p : Nat)
  | refuse (p : Nat)
  | spawnBridge (p : Nat)
  | mark (p : Nat) (ok : Bool)
  | spawnSunshine (p : Nat)
  | leave (p : Nat)
  | reapSunshine (p : Nat)
  | reapBridge (p : Nat)
  | release (p : Nat)
  | outcome (p : Nat) (o : Outcome Hid.PyError Json)
  | released (p : Nat) (ok : Bool)
  | unlink (p : Nat)
  | exit (p : Nat)
  | crash (p : Nat)
  | bridgeDies (p : Nat)
  | sunshineDies (p : Nat)
  | sweep (p : Nat)
  | press (p : Nat) (r : Report)
  | land
  /-- A connection is cut, with what was behind some point of it. -/
  | lose (kept : Nat)

namespace State

def set (s : State) (p : Nat) (c : Proc) : State := { s with procs := Function.update s.procs p c }

def go (s : State) (p : Nat) (phase : Phase) : State := s.set p { s.procs p with phase }

end State

def step (s : State) : Label → State
  | .begin p kind input =>
    if (s.procs p).phase = .absent then
      -- With its input disabled the recovery does not even look at the lock.
      s.set p { kind, input, phase := if kind = .post ∧ input = false then .exited else .opened }
    else s
  | .take p =>
    if (s.procs p).phase = .opened then
      if s.lock = none then { s.go p .locked with lock := some p } else s.go p .exited
    else s
  | .refuse p => if (s.procs p).phase = .locked then s.go p .closing else s
  | .spawnBridge p =>
    let c := s.procs p
    if c.phase = .locked ∧ c.kind = .start ∧ c.input then s.set p { c with bridge := true, phase := .spawned }
    else s
  | .mark p ok =>
    if (s.procs p).phase = .spawned then
      if ok then { s.go p .waiting with marker := true } else s.go p .leaving
    else s
  | .spawnSunshine p =>
    let c := s.procs p
    if c.phase = .waiting ∨ c.phase = .locked ∧ c.kind = .start ∧ c.input = false then
      s.set p { c with sunshine := true, phase := .running }
    else s
  | .leave p =>
    let c := s.procs p
    if c.phase = .waiting ∨ c.phase = .running then s.go p .leaving else s
  | .reapSunshine p =>
    let c := s.procs p
    if c.phase = .leaving then s.set p { c with sunshine := false, phase := .reaping } else s
  | .reapBridge p =>
    let c := s.procs p
    if c.phase = .reaping then
      s.set p { c with bridge := false, phase := if c.input then .release else .closing }
    else s
  | .release p =>
    let c := s.procs p
    if c.phase = .release ∨ c.phase = .locked ∧ (c.kind = .releaseAll ∧ c.input ∨ c.kind = .post ∧ s.marker) then
      s.set p { c with releaser := some (.start (neutralize ()) s.usb.device), phase := .releasing }
    else s
  | .outcome p o =>
    match (s.procs p).releaser with
    | some t =>
      let t := (t.move s.usb.device).outcome world o
      { s.set p { s.procs p with releaser := some t } with usb := { s.usb with device := t.world } }
    | none => s
  | .released p ok =>
    let c := s.procs p
    -- Its return code is 0 only if the release has returned; a timeout kills it.
    if c.phase = .releasing ∧ (ok → c.releaser.bind (·.prog.result) = some (.ok ())) then
      s.set p { c with releaser := none, phase := if ok then .confirmed else .closing }
    else s
  | .unlink p => if (s.procs p).phase = .confirmed then { s.go p .closing with marker := false } else s
  | .exit p => if (s.procs p).phase = .closing then { s.go p .exited with lock := none } else s
  | .crash p =>
    if (s.procs p).phase.holding ∨ (s.procs p).phase = .opened then
      { s.go p .dead with lock := if s.lock = some p then none else s.lock }
    else s
  | .bridgeDies p => s.set p { s.procs p with bridge := false }
  | .sunshineDies p => s.set p { s.procs p with sunshine := false }
  | .sweep p =>
    if (s.procs p).phase = .dead then
      s.set p { s.procs p with bridge := false, sunshine := false, releaser := none }
    else s
  | .press p r =>
    if (s.procs p).bridge then { s with usb := { s.usb with flight := s.usb.flight ++ [r] } } else s
  | .land =>
    match s.usb.flight with
    | r :: flight => { s with usb := ⟨s.usb.device.press r, flight⟩ }
    | [] => s
  | .lose kept => { s with usb := { s.usb with flight := s.usb.flight.take kept } }

/-- Whoever takes the lock finds no child of a process that was killed; no process is killed, or fails to
write, between the start of its bridge and the marker; and no release begins before kvmd has applied, or lost,
what the bridges have written. -/
def Supervised (s : State) : Label → Prop
  | .take _ => s.lock = none → ∀ q, (s.procs q).childless
  | .mark _ ok => ok
  | .crash p => (s.procs p).phase ≠ .spawned
  | .release _ => s.usb.flight = []
  | _ => True

theorem usb_empty {u : Usb} (device : u.device = {}) (landed : u.flight = []) : u = {} := by
  obtain ⟨d, flight⟩ := u
  cases device
  cases landed
  rfl

/-- What a process may have, by where it is: it holds the lock, its children are those of its phase, its
bridge runs behind the marker, and its release promises an empty device. -/
structure Fine (lock : Option Nat) (marker : Bool) (usb : Usb) (p : Nat) (c : Proc) : Prop where
  holder : c.phase.holding → lock = some p
  owner : ¬ c.childless → lock = some p ∨ lock = none ∧ c.phase = .dead
  bridge : c.bridge → c.phase.mayBridge ∧ c.releaser = none ∧ (marker ∨ c.phase = .spawned)
  sunshine : c.sunshine → c.phase.mayServe
  releaser : c.releaser ≠ none → c.phase.mayRelease
  safe : ∀ t ∈ c.releaser, usb.flight = [] ∧ ∃ d, (d ≠ {} → marker) ∧
    Safe world Below (fun _ d' => Below d d') (fun r _ d' => r = .ok () → d' = {}) (t.move usb.device)
  confirmed : c.phase = .confirmed → usb = {}

structure Inv (s : State) : Prop where
  fine : ∀ p, Fine s.lock s.marker s.usb p (s.procs p)
  held : ∀ p, s.lock = some p → (s.procs p).phase.holding
  alone : ∀ p q, ¬ (s.procs p).childless → ¬ (s.procs q).childless → p = q
  dirty : s.usb ≠ {} → s.marker ∨ ∃ p, (s.procs p).phase = .spawned

def Proc.idle (c : Proc) : Prop := c.childless ∧ c.phase.holding = false

theorem fine_idle {c : Proc} (idle : c.idle) (lock : Option Nat) (marker : Bool) (usb : Usb) (p : Nat) :
    Fine lock marker usb p c := by
  obtain ⟨⟨bridge, sunshine, releaser⟩, free⟩ := idle
  constructor
  · exact fun holding => by cases free.symm.trans holding
  · exact fun some => absurd ⟨bridge, sunshine, releaser⟩ some
  · exact fun on => by cases bridge.symm.trans on
  · exact fun on => by cases sunshine.symm.trans on
  · exact fun some => absurd releaser some
  · exact fun t here => by cases releaser.symm.trans here
  · exact fun confirmed => by simp [confirmed, Phase.holding] at free

theorem childless_of {lock : Option Nat} {marker : Bool} {usb : Usb} {p : Nat} {c : Proc}
    (fine : Fine lock marker usb p c) (bridge : c.phase.mayBridge = false)
    (serve : c.phase.mayServe = false) (release : c.phase.mayRelease = false) : c.childless := by
  refine ⟨?_, ?_, ?_⟩
  · by_contra on
    cases bridge.symm.trans (fine.bridge (by simpa using on)).1
  · by_contra on
    cases serve.symm.trans (fine.sunshine (by simpa using on))
  · by_contra some
    cases release.symm.trans (fine.releaser some)

theorem inv_mine {s : State} {p : Nat} (others : ∀ q, q ≠ p → (s.procs q).idle) (c : Proc) (lock : Option Nat)
    (marker : Bool) (usb : Usb) (fine : Fine lock marker usb p c)
    (held : lock = none ∨ lock = some p ∧ c.phase.holding)
    (dirty : usb ≠ {} → marker ∨ c.phase = .spawned) :
    Inv { lock, procs := Function.update s.procs p c, marker, usb } where
  fine q := by
    by_cases same : q = p
    · subst same
      simpa using fine
    · simpa [same] using fine_idle (others q same) lock marker usb q
  held q mine := by
    rcases held with none | ⟨mine', holding⟩
    · cases none.symm.trans mine
    · cases mine'.symm.trans mine
      simpa using holding
  alone q r some some' := by
    have here (q : Nat) (some : ¬ (Function.update s.procs p c q).childless) : q = p := by
      by_contra other
      rw [Function.update_of_ne other] at some
      exact some (others q other).1
    exact (here q some).trans (here r some').symm
  dirty left := (dirty left).imp_right fun spawned => ⟨p, by simpa using spawned⟩

section rules
variable {s : State} (inv : Inv s)
include inv

theorem others_idle {p : Nat} (lock : s.lock = some p) (q : Nat) (other : q ≠ p) : (s.procs q).idle := by
  have not : s.lock ≠ some q := fun same => other (Option.some_inj.mp (lock.symm.trans same)).symm
  refine ⟨?_, ?_⟩
  · by_contra some
    rcases (inv.fine q).owner some with mine | ⟨none, _⟩
    · exact not mine
    · cases lock.symm.trans none
  · by_contra on
    exact not ((inv.fine q).holder (by simpa using on))

theorem inv_idle {p : Nat} {c : Proc} (was : (s.procs p).phase.holding = false) (idle : c.idle) :
    Inv (s.set p c) where
  fine q := by
    by_cases same : q = p
    · subst same
      simpa [State.set] using fine_idle idle s.lock s.marker s.usb q
    · simpa [State.set, same] using inv.fine q
  held q mine := by
    have holding := inv.held q mine
    by_cases same : q = p
    · subst same
      cases was.symm.trans holding
    · simpa [State.set, same] using holding
  alone q r some some' := by
    have real (q : Nat) (some : ¬ (Function.update s.procs p c q).childless) : ¬ (s.procs q).childless := by
      by_cases same : q = p
      · subst same
        simp only [Function.update_self] at some
        exact absurd idle.1 some
      · rwa [Function.update_of_ne same] at some
    exact inv.alone q r (real q some) (real r some')
  dirty left := by
    refine (inv.dirty left).imp_right fun ⟨q, spawned⟩ => ⟨q, ?_⟩
    by_cases same : q = p
    · subst same
      simp [spawned, Phase.holding] at was
    · simpa [State.set, same] using spawned

variable {p : Nat} (on : (s.procs p).phase.holding)
include on

theorem holder_lock : s.lock = some p := (inv.fine p).holder on

theorem holder_marked (past : (s.procs p).phase ≠ .spawned) (left : s.usb ≠ {}) : s.marker := by
  refine (inv.dirty left).resolve_right fun ⟨q, spawned⟩ => ?_
  have same := (holder_lock inv on).symm.trans ((inv.fine q).holder (by rw [spawned]; rfl))
  cases same
  exact past spawned

theorem inv_turn (past : (s.procs p).phase ≠ .spawned) {c : Proc} (holding : c.phase.holding)
    (fine : Fine s.lock s.marker s.usb p c) : Inv (s.set p c) :=
  inv_mine (others_idle inv (holder_lock inv on)) c s.lock s.marker s.usb fine
    (.inr ⟨holder_lock inv on, holding⟩) fun left => .inl (holder_marked inv on past left)

end rules

theorem fine_childless {lock : Option Nat} {marker : Bool} {usb : Usb} {p : Nat} {c : Proc}
    (childless : c.childless) (mine : lock = some p) (plain : c.phase = .confirmed → usb = {}) :
    Fine lock marker usb p c := by
  obtain ⟨bridge, sunshine, releaser⟩ := childless
  constructor
  · exact fun _ => mine
  · exact fun some => absurd ⟨bridge, sunshine, releaser⟩ some
  · exact fun on => by cases bridge.symm.trans on
  · exact fun on => by cases sunshine.symm.trans on
  · exact fun some => absurd releaser some
  · exact fun t here => by cases releaser.symm.trans here
  · exact plain

theorem fine_serving {lock : Option Nat} {marker : Bool} {usb : Usb} {p : Nat} {c : Proc}
    (mine : lock = some p) (none : c.releaser = none)
    (bridge : c.bridge → c.phase.mayBridge ∧ (marker ∨ c.phase = .spawned)) (sunshine : c.sunshine → c.phase.mayServe)
    (plain : c.phase ≠ .confirmed) : Fine lock marker usb p c where
  holder _ := mine
  owner _ := .inl mine
  bridge on := ⟨(bridge on).1, none, (bridge on).2⟩
  sunshine := sunshine
  releaser some := absurd none some
  safe t here := by cases none.symm.trans here
  confirmed at_ := absurd at_ plain

/-- What is left of a process that was killed past the marker. -/
theorem fine_dead {lock : Option Nat} {marker : Bool} {usb : Usb} {p : Nat} {c : Proc}
    (fine : Fine lock marker usb p c) (past : c.phase ≠ .spawned) :
    Fine none marker usb p { c with phase := .dead } where
  holder := nofun
  owner _ := .inr ⟨rfl, rfl⟩
  bridge on := ⟨rfl, (fine.bridge on).2.1, .inl ((fine.bridge on).2.2.resolve_right past)⟩
  sunshine _ := rfl
  releaser _ := rfl
  safe := fine.safe
  confirmed := nofun

section steps
variable {s : State} (inv : Inv s)
include inv

attribute [local simp] step

theorem inv_begin (p : Nat) (kind : Kind) (input : Bool) : Inv (step s (.begin p kind input)) := by
  simp only [step]
  split
  · rename_i absent
    refine inv_idle inv (by rw [absent]; rfl) ⟨⟨rfl, rfl, rfl⟩, ?_⟩
    dsimp only
    split <;> rfl
  · exact inv

theorem inv_take {p : Nat} (swept : Supervised s (.take p)) : Inv (step s (.take p)) := by
  simp only [step]
  split
  · rename_i opened
    have childless : (s.procs p).childless :=
      childless_of (inv.fine p) (by rw [opened]; rfl) (by rw [opened]; rfl) (by rw [opened]; rfl)
    split
    · rename_i free
      have others (q : Nat) (_ : q ≠ p) : (s.procs q).idle := by
        refine ⟨swept free q, ?_⟩
        by_contra on
        cases free.symm.trans ((inv.fine q).holder (by simpa using on))
      refine inv_mine others { s.procs p with phase := .locked } (some p) s.marker s.usb
        (fine_childless childless rfl nofun) (.inr ⟨rfl, rfl⟩) fun left => .inl ?_
      refine (inv.dirty left).resolve_right fun ⟨q, spawned⟩ => ?_
      cases free.symm.trans ((inv.fine q).holder (by rw [spawned]; rfl))
    · exact inv_idle inv (by rw [opened]; rfl) ⟨childless, rfl⟩
  · exact inv

theorem inv_refuse (p : Nat) : Inv (step s (.refuse p)) := by
  simp only [step]
  split
  · rename_i locked
    have on : (s.procs p).phase.holding := by rw [locked]; rfl
    have childless : (s.procs p).childless :=
      childless_of (inv.fine p) (by rw [locked]; rfl) (by rw [locked]; rfl) (by rw [locked]; rfl)
    exact inv_turn inv on (by simp [locked]) rfl (fine_childless childless (holder_lock inv on) nofun)
  · exact inv

theorem inv_spawnBridge (p : Nat) : Inv (step s (.spawnBridge p)) := by
  simp only [step]
  split
  · rename_i now
    have locked := now.1
    have on : (s.procs p).phase.holding := by rw [locked]; rfl
    obtain ⟨_, sunshine, none⟩ : (s.procs p).childless :=
      childless_of (inv.fine p) (by rw [locked]; rfl) (by rw [locked]; rfl) (by rw [locked]; rfl)
    refine inv_turn inv on (by simp [locked]) rfl
      (fine_serving (holder_lock inv on) none (fun _ => ⟨rfl, .inr rfl⟩) ?_ nofun)
    exact fun serves => by cases sunshine.symm.trans serves
  · exact inv

theorem inv_mark {p : Nat} {ok : Bool} (written : Supervised s (.mark p ok)) : Inv (step s (.mark p ok)) := by
  simp only [step]
  split
  · rename_i spawned
    have on : (s.procs p).phase.holding := by rw [spawned]; rfl
    have ok : ok = true := written
    rw [if_pos ok]
    have mine := holder_lock inv on
    have none : (s.procs p).releaser = none := by
      by_contra some
      simpa [spawned, Phase.mayRelease] using (inv.fine p).releaser some
    refine inv_mine (others_idle inv mine) { s.procs p with phase := .waiting } s.lock true s.usb
      (fine_serving mine none (fun _ => ⟨rfl, .inl rfl⟩) (fun serves => ?_) nofun) (.inr ⟨mine, rfl⟩) fun _ => .inl rfl
    simpa [spawned, Phase.mayServe] using (inv.fine p).sunshine serves
  · exact inv

theorem serving_kept {p : Nat} (release : (s.procs p).phase.mayRelease = false)
    (past : (s.procs p).phase ≠ .spawned) : (s.procs p).releaser = none ∧ ((s.procs p).bridge → s.marker) := by
  refine ⟨?_, fun bridge => ((inv.fine p).bridge bridge).2.2.resolve_right past⟩
  by_contra some
  cases release.symm.trans ((inv.fine p).releaser some)

theorem inv_spawnSunshine (p : Nat) : Inv (step s (.spawnSunshine p)) := by
  simp only [step]
  split
  · rename_i now
    have on : (s.procs p).phase.holding := by rcases now with at_ | ⟨at_, _⟩ <;> rw [at_] <;> rfl
    have past : (s.procs p).phase ≠ .spawned := by rcases now with at_ | ⟨at_, _⟩ <;> simp [at_]
    have release : (s.procs p).phase.mayRelease = false := by
      rcases now with at_ | ⟨at_, _⟩ <;> rw [at_] <;> rfl
    obtain ⟨none, marked⟩ := serving_kept inv release past
    exact inv_turn inv on past rfl (fine_serving (holder_lock inv on) none
      (fun bridge => ⟨rfl, .inl (marked bridge)⟩) (fun _ => rfl) nofun)
  · exact inv

theorem inv_leave (p : Nat) : Inv (step s (.leave p)) := by
  simp only [step]
  split
  · rename_i now
    have on : (s.procs p).phase.holding := by rcases now with at_ | at_ <;> rw [at_] <;> rfl
    have past : (s.procs p).phase ≠ .spawned := by rcases now with at_ | at_ <;> simp [at_]
    have release : (s.procs p).phase.mayRelease = false := by rcases now with at_ | at_ <;> rw [at_] <;> rfl
    obtain ⟨none, marked⟩ := serving_kept inv release past
    exact inv_turn inv on past rfl (fine_serving (holder_lock inv on) none
      (fun bridge => ⟨rfl, .inl (marked bridge)⟩) (fun _ => rfl) nofun)
  · exact inv

theorem inv_reapSunshine (p : Nat) : Inv (step s (.reapSunshine p)) := by
  simp only [step]
  split
  · rename_i leaving
    have on : (s.procs p).phase.holding := by rw [leaving]; rfl
    obtain ⟨none, marked⟩ := serving_kept inv (by rw [leaving]; rfl) (by simp [leaving])
    exact inv_turn inv on (by simp [leaving]) rfl (fine_serving (holder_lock inv on) none
      (fun bridge => ⟨rfl, .inl (marked bridge)⟩) nofun nofun)
  · exact inv

theorem inv_reapBridge (p : Nat) : Inv (step s (.reapBridge p)) := by
  simp only [step]
  split
  · rename_i reaping
    have on : (s.procs p).phase.holding := by rw [reaping]; rfl
    obtain ⟨none, _⟩ := serving_kept inv (by rw [reaping]; rfl) (by simp [reaping])
    have sunshine : (s.procs p).sunshine = false := by
      by_contra serves
      simpa [reaping, Phase.mayServe] using (inv.fine p).sunshine (by simpa using serves)
    refine inv_turn inv on (by simp [reaping]) ?_ (fine_childless ⟨rfl, sunshine, none⟩ (holder_lock inv on) ?_)
    · dsimp only
      split <;> rfl
    · dsimp only
      split <;> nofun
  · exact inv

theorem inv_release {p : Nat} (landed : Supervised s (.release p)) : Inv (step s (.release p)) := by
  simp only [step]
  split
  · rename_i now
    have on : (s.procs p).phase.holding := by rcases now with at_ | ⟨at_, _⟩ <;> rw [at_] <;> rfl
    have past : (s.procs p).phase ≠ .spawned := by rcases now with at_ | ⟨at_, _⟩ <;> simp [at_]
    obtain ⟨bridge, sunshine, _⟩ : (s.procs p).childless := by
      rcases now with at_ | ⟨at_, _⟩ <;>
        exact childless_of (inv.fine p) (by rw [at_]; rfl) (by rw [at_]; rfl) (by rw [at_]; rfl)
    refine inv_turn inv on past rfl ⟨fun _ => holder_lock inv on, fun _ => .inl (holder_lock inv on), ?_, ?_,
      fun _ => rfl, fun t here => ?_, nofun⟩
    · exact fun on => by cases bridge.symm.trans on
    · exact fun on => by cases sunshine.symm.trans on
    · cases here
      refine ⟨landed, s.usb.device, fun left => holder_marked inv on past fun empty => left ?_,
        safe_start (keeps_neutralize (below_refl s.usb.device))⟩
      rw [empty]
  · exact inv

theorem returned_empty {p : Nat} {t : Attempt} (here : (s.procs p).releaser = some t)
    (ended : t.prog.result = some (.ok ())) : s.usb = {} := by
  obtain ⟨landed, d, _, safe⟩ := (inv.fine p).safe t here
  have empty : s.usb.device = {} := safe_done below_refl safe ended rfl
  exact usb_empty empty landed

theorem inv_released (p : Nat) (ok : Bool) : Inv (step s (.released p ok)) := by
  simp only [step]
  split
  · rename_i now
    obtain ⟨releasing, ended⟩ := now
    have on : (s.procs p).phase.holding := by rw [releasing]; rfl
    have bridge : (s.procs p).bridge = false := by
      by_contra up
      simpa [releasing, Phase.mayBridge] using ((inv.fine p).bridge (by simpa using up)).1
    have sunshine : (s.procs p).sunshine = false := by
      by_contra serves
      simpa [releasing, Phase.mayServe] using (inv.fine p).sunshine (by simpa using serves)
    refine inv_turn inv on (by simp [releasing]) ?_ (fine_childless ⟨bridge, sunshine, rfl⟩ (holder_lock inv on) ?_)
    · dsimp only
      split <;> rfl
    · cases ok with
      | false => nofun
      | true =>
        obtain ⟨t, here, result⟩ := Option.bind_eq_some_iff.mp (ended rfl)
        exact fun _ => returned_empty inv here result
  · exact inv

theorem inv_unlink (p : Nat) : Inv (step s (.unlink p)) := by
  simp only [step]
  split
  · rename_i confirmed
    have on : (s.procs p).phase.holding := by rw [confirmed]; rfl
    have mine := holder_lock inv on
    have childless : (s.procs p).childless :=
      childless_of (inv.fine p) (by rw [confirmed]; rfl) (by rw [confirmed]; rfl) (by rw [confirmed]; rfl)
    have empty := (inv.fine p).confirmed confirmed
    exact inv_mine (others_idle inv mine) { s.procs p with phase := .closing } s.lock false s.usb
      (fine_childless childless mine nofun) (.inr ⟨mine, rfl⟩) fun left => absurd empty left
  · exact inv

theorem inv_exit (p : Nat) : Inv (step s (.exit p)) := by
  simp only [step]
  split
  · rename_i closing
    have on : (s.procs p).phase.holding := by rw [closing]; rfl
    have mine := holder_lock inv on
    have childless : (s.procs p).childless :=
      childless_of (inv.fine p) (by rw [closing]; rfl) (by rw [closing]; rfl) (by rw [closing]; rfl)
    have idle : Proc.idle { s.procs p with phase := .exited } := ⟨childless, rfl⟩
    exact inv_mine (others_idle inv mine) _ none s.marker s.usb
      (fine_idle idle none s.marker s.usb p) (.inl rfl)
      fun left => .inl (holder_marked inv on (by simp [closing]) left)
  · exact inv

theorem inv_crash {p : Nat} (spared : Supervised s (.crash p)) : Inv (step s (.crash p)) := by
  simp only [step]
  split
  · by_cases on : (s.procs p).phase.holding
    · have mine := holder_lock inv on
      rw [if_pos mine]
      exact inv_mine (others_idle inv mine) { s.procs p with phase := .dead } none s.marker s.usb
        (fine_dead (inv.fine p) spared) (.inl rfl) fun left => .inl (holder_marked inv on spared left)
    · rename_i alive
      have opened := alive.resolve_left on
      have childless : (s.procs p).childless :=
        childless_of (inv.fine p) (by rw [opened]; rfl) (by rw [opened]; rfl) (by rw [opened]; rfl)
      have free : s.lock ≠ some p := fun mine => on (inv.held p mine)
      rw [if_neg free]
      exact inv_idle inv (by rw [opened]; rfl) ⟨childless, rfl⟩
  · exact inv

theorem child_alone {p : Nat} (some : ¬ (s.procs p).childless) (q : Nat) (other : q ≠ p) : (s.procs q).idle := by
  rcases (inv.fine p).owner some with mine | ⟨none, _⟩
  · exact others_idle inv mine q other
  · refine ⟨?_, ?_⟩
    · by_contra some'
      exact other (inv.alone q p some' some)
    · by_contra on
      cases none.symm.trans ((inv.fine q).holder (by simpa using on))

theorem inv_child {p : Nat} (some : ¬ (s.procs p).childless) {c : Proc} (phase : c.phase = (s.procs p).phase)
    (usb : Usb) (fine : Fine s.lock s.marker usb p c)
    (dirty : usb ≠ {} → s.usb ≠ {} ∨ s.marker ∨ (s.procs p).phase = .spawned) :
    Inv { s.set p c with usb } := by
  have others := child_alone inv some
  refine inv_mine others c s.lock s.marker usb fine ?_ fun left => ?_
  · rcases (inv.fine p).owner some with mine | ⟨none, _⟩
    · exact .inr ⟨mine, phase ▸ inv.held p mine⟩
    · exact .inl none
  · rw [phase]
    rcases dirty left with was | due
    · refine (inv.dirty was).imp_right fun ⟨q, spawned⟩ => ?_
      by_cases same : q = p
      · exact same ▸ spawned
      · have idle := (others q same).2
        rw [spawned] at idle
        cases idle
    · exact due

theorem inv_drop (p : Nat) {c : Proc} (phase : c.phase = (s.procs p).phase)
    (bridge : c.bridge → (s.procs p).bridge) (sunshine : c.sunshine → (s.procs p).sunshine)
    (releaser : c.releaser = none ∨ c.releaser = (s.procs p).releaser)
    (same : (s.procs p).childless → c = s.procs p) : Inv (s.set p c) := by
  by_cases childless : (s.procs p).childless
  · rw [same childless, State.set, Function.update_eq_self]
    exact inv
  · have fine := inv.fine p
    refine inv_child inv childless phase s.usb ⟨?_, ?_, ?_, ?_, ?_, ?_, ?_⟩ .inl
    · exact phase ▸ fine.holder
    · exact fun _ => phase ▸ fine.owner childless
    · intro on
      obtain ⟨may, none, marked⟩ := fine.bridge (bridge on)
      rw [phase]
      exact ⟨may, releaser.elim id fun same => same.trans none, marked⟩
    · exact fun on => phase ▸ fine.sunshine (sunshine on)
    · rcases releaser with none | same
      · exact fun some => absurd none some
      · rw [phase, same]
        exact fine.releaser
    · rcases releaser with none | same
      · exact fun t here => by cases none.symm.trans here
      · rw [same]
        exact fine.safe
    · exact phase ▸ fine.confirmed

theorem inv_bridgeDies (p : Nat) : Inv (step s (.bridgeDies p)) := by
  refine inv_drop inv p rfl nofun id (.inr rfl) fun childless => ?_
  simp [← childless.1]

theorem inv_sunshineDies (p : Nat) : Inv (step s (.sunshineDies p)) := by
  refine inv_drop inv p rfl id nofun (.inr rfl) fun childless => ?_
  simp [← childless.2.1]

theorem inv_sweep (p : Nat) : Inv (step s (.sweep p)) := by
  simp only [step]
  split
  · refine inv_drop inv p rfl nofun nofun (.inl rfl) fun childless => ?_
    obtain ⟨bridge, sunshine, none⟩ := childless
    cases h : s.procs p with
    | mk kind input phase b su r => simp_all
  · exact inv

/-- The bridge may press anything: it does so behind the marker, or its supervisor is about to write it. -/
theorem inv_press (p : Nat) (r : Report) : Inv (step s (.press p r)) := by
  simp only [step]
  split
  · rename_i on
    have fine := inv.fine p
    obtain ⟨may, none, marked⟩ := fine.bridge on
    have some : ¬ (s.procs p).childless := fun childless => by cases childless.1.symm.trans on
    have pressed : Inv { s.set p (s.procs p) with usb := { s.usb with flight := s.usb.flight ++ [r] } } := by
      refine inv_child inv some rfl _
        ⟨fine.holder, fine.owner, fine.bridge, fine.sunshine, fine.releaser, ?_, ?_⟩ fun _ => .inr marked
      · exact fun t here => by cases none.symm.trans here
      · exact fun confirmed => by simp [confirmed, Phase.mayBridge] at may
    simpa [State.set] using pressed
  · exact inv

theorem inv_flying (flying : s.usb.flight ≠ []) (usb : Usb) : Inv { s with usb } where
  fine p := by
    have fine := inv.fine p
    refine ⟨fine.holder, fine.owner, fine.bridge, fine.sunshine, fine.releaser, fun t here => ?_,
      fun confirmed => ?_⟩
    · exact absurd (fine.safe t here).1 flying
    · exact absurd (congrArg Usb.flight (fine.confirmed confirmed)) flying
  held := inv.held
  alone := inv.alone
  dirty _ := inv.dirty fun empty => flying (congrArg Usb.flight empty)

theorem inv_land : Inv (step s .land) := by
  simp only [step]
  split
  next r flight flying => exact inv_flying inv (by simp [flying]) _
  next => exact inv

theorem inv_lose (kept : Nat) : Inv (step s (.lose kept)) := by
  by_cases flying : s.usb.flight = []
  · have same : step s (.lose kept) = s := by
      simp only [step, flying, List.take_nil]
      rw [← flying]
    rw [same]
    exact inv
  · exact inv_flying inv flying _

theorem inv_outcome (p : Nat) (o : Outcome Hid.PyError Json) : Inv (step s (.outcome p o)) := by
  cases here : (s.procs p).releaser with
  | none => simpa only [step, here] using inv
  | some t =>
    have fine := inv.fine p
    have some : ¬ (s.procs p).childless := fun childless => by cases childless.2.2.symm.trans here
    obtain ⟨landed, d, marked, safe⟩ := fine.safe t here
    have next : Safe world Below (fun _ d' => Below d d') (fun r _ d' => r = .ok () → d' = {})
        ((t.move s.usb.device).outcome world o) := by
      cases o with
      | acked v => exact safe_answer below_refl (safe_land below_refl safe) _
      | lost e => exact safe_answer below_refl (safe_land below_refl safe) _
      | missed e => exact safe_answer below_refl safe _
    have may := fine.releaser (by simp [here])
    simp only [step, here]
    refine inv_child inv some (c := { s.procs p with releaser := .some _ }) rfl _
      ⟨fine.holder, fun _ => fine.owner some, fun on => ?_, fine.sunshine, fun _ => may,
        fun t' same => ?_, fun confirmed => ?_⟩ fun left => .inr (.inl ?_)
    · cases here.symm.trans (fine.bridge on).2.1
    · cases same
      exact ⟨landed, d, marked, next⟩
    · have confirmed : (s.procs p).phase = .confirmed := confirmed
      simp [confirmed, Phase.mayRelease] at may
    · refine marked fun empty => left (usb_empty (Device.eq_empty fun c down => ?_) landed)
      have was := safe_object below_refl next c down
      rw [empty] at was
      cases c <;> simp [Device.down] at was

end steps

theorem inv_step (s : State) (l : Label) (inv : Inv s) (supervised : Supervised s l) : Inv (step s l) := by
  cases l with
  | begin p kind input => exact inv_begin inv p kind input
  | take p => exact inv_take inv supervised
  | refuse p => exact inv_refuse inv p
  | spawnBridge p => exact inv_spawnBridge inv p
  | mark p ok => exact inv_mark inv supervised
  | spawnSunshine p => exact inv_spawnSunshine inv p
  | leave p => exact inv_leave inv p
  | reapSunshine p => exact inv_reapSunshine inv p
  | reapBridge p => exact inv_reapBridge inv p
  | release p => exact inv_release inv supervised
  | outcome p o => exact inv_outcome inv p o
  | released p ok => exact inv_released inv p ok
  | unlink p => exact inv_unlink inv p
  | exit p => exact inv_exit inv p
  | crash p => exact inv_crash inv supervised
  | bridgeDies p => exact inv_bridgeDies inv p
  | sunshineDies p => exact inv_sunshineDies inv p
  | sweep p => exact inv_sweep inv p
  | press p r => exact inv_press inv p r
  | land => exact inv_land inv
  | lose kept => exact inv_lose inv kept

/-- The marker goes only when the device is empty. -/
theorem unlinked_empty {s : State} (inv : Inv s) (l : Label) (marked : s.marker)
    (gone : (step s l).marker = false) : (step s l).usb = {} := by
  cases l with
  | unlink p =>
    simp only [step] at gone ⊢
    split
    · rename_i confirmed
      exact (inv.fine p).confirmed confirmed
    · rename_i other
      rw [if_neg other, marked] at gone
      cases gone
  | mark p ok =>
    cases ok <;> simp only [step] at gone <;> (repeat' split at gone) <;>
      simp [State.set, State.go, marked] at gone
  | _ =>
    simp only [step] at gone
    (repeat' split at gone) <;> simp [State.set, State.go, marked] at gone

theorem inv_begun {marker : Bool} {usb : Usb} (owed : usb ≠ {} → marker) : Inv { marker, usb } where
  fine p := fine_idle ⟨⟨rfl, rfl, rfl⟩, rfl⟩ none marker usb p
  held _ mine := by cases mine
  alone _ _ some _ := absurd ⟨rfl, rfl, rfl⟩ some
  dirty left := .inl (owed left)

/-- For any number of supervisors, releases and recoveries, killed at any point but between the start of a
bridge and its marker, with what a killed one leaves behind swept before the lock is taken again, and its last
reports applied or lost before a release begins: at most one process has children, and it holds the lock unless
it was killed; no release is under way while any bridge is up; and a key or button that is left down, or on its
way, is owed for by the marker, which goes only when the device is empty and nothing is on its way. -/
theorem release_owed {marker : Bool} {usb : Usb} (owed : usb ≠ {} → marker) (ls : List Label)
    (supervised : Meets step Supervised { marker, usb } ls) :
    let s := run step { marker, usb } ls
    (∀ p q, ¬ (s.procs p).childless → ¬ (s.procs q).childless → p = q) ∧
    (∀ p, ¬ (s.procs p).childless → s.lock = some p ∨ (s.procs p).phase = .dead) ∧
    (∀ p q, (s.procs p).releaser ≠ none → (s.procs q).bridge = false) ∧
    ((∀ p, (s.procs p).phase ≠ .spawned) → s.usb ≠ {} → s.marker) ∧
    ∀ l, s.marker → (step s l).marker = false → (step s l).usb = {} := by
  intro s
  have inv : Inv s := meets_invariant step Supervised Inv inv_step (inv_begun owed) ls supervised
  refine ⟨inv.alone, fun p some => ((inv.fine p).owner some).imp_right fun dead => dead.2, ?_, ?_, ?_⟩
  · intro p q some
    by_contra up
    have bridge : (s.procs q).bridge := by simpa using up
    have mine : ¬ (s.procs q).childless := fun childless => by cases childless.1.symm.trans bridge
    cases inv.alone p q (fun childless => some childless.2.2) mine
    exact some ((inv.fine p).bridge bridge).2.1
  · exact fun past left => (inv.dirty left).resolve_right fun ⟨p, spawned⟩ => past p spawned
  · intro l marked gone
    exact unlinked_empty inv l marked gone

def killedRun : List Label :=
  [.begin 0 .start true, .take 0, .spawnBridge 0, .mark 0 true, .spawnSunshine 0, .press 0 (.key .shiftLeft true),
    .crash 0, .land]

theorem killedRun_owed : (run step { marker := false, usb := {} } killedRun).marker := by
  have childless (q : Nat) : ((step { marker := false, usb := {} } (.begin 0 .start true)).procs q).childless := by
    by_cases same : q = 0 <;> simp [step, State.set, Proc.childless, same]
  have supervised : Meets step Supervised { marker := false, usb := {} } killedRun :=
    ⟨trivial, fun _ => childless, trivial, rfl, trivial, trivial, nofun, trivial, trivial⟩
  refine (release_owed nofun killedRun supervised).2.2.2.1 (fun p => ?_) (by decide)
  by_cases same : p = 0
  · rw [same]
    decide
  · simp [killedRun, step, State.set, State.go, Phase.holding, same]

end Tools.Supervisor

import Mathlib.Logic.Function.Basic
import RkmoonKvm.Library.Runs
import RkmoonKvm.Hid.Turn

/-! The server of the bridge: any number of connections, the startup neutralization,
the retry of a failed release and `close`, interleaved at their awaits. -/
namespace Hid.Server
open Runs

inductive Startup where
  | unused | top | trying | sleeping | neutral | stopped
  deriving DecidableEq

def Startup.pending : Startup → Bool
  | .unused | .neutral => false
  | _ => true

inductive Recovery where
  | startup
  | retry (i : Nat)
  deriving DecidableEq

inductive Closing where
  | up | waiting | gathering (handlers : List Nat) | awaiting (recovery : Recovery) | returned
  deriving DecidableEq

structure State where
  streams : Bool
  busy : Bool := false
  stopping : Bool := false
  listening : Bool := false
  startup : Startup := .unused
  recovery : Option Recovery := none
  handlers : List Nat := []
  conns : Nat → Conn := fun _ => {}
  closing : Closing := .up

inductive Label where
  | blockUntilNeutral
  | startupTurn
  | attempt (ok : Bool)
  | startupWake
  | listen
  | conn (i : Nat) (a : Act)
  | close
  | serverClosed
  | gathered
  | recovered

namespace State

def flags (s : State) : Flags where
  busy := s.busy
  stopping := s.stopping
  streams := s.streams

def effect (i : Nat) (s : State) : Effect → State
  | .none => s
  | .enters => { s with handlers := i :: s.handlers }
  | .claims => { s with handlers := i :: s.handlers, busy := true }
  | .leaves => { s with handlers := s.handlers.erase i }
  | .frees => { s with handlers := s.handlers.erase i, busy := false }
  | .retries => { s with handlers := s.handlers.erase i, recovery := some (.retry i) }

def connAct (i : Nat) (a : Act) (s : State) : State :=
  let r := (s.conns i).act s.flags a
  State.effect i { s with conns := Function.update s.conns i r.1 } r.2

/-- `cancel` has no effect on a task that has ended. -/
def cancelAll (hs : List Nat) (s : State) : State :=
  { s with conns := fun i =>
      let c := s.conns i
      if i ∈ hs ∧ c.active then { c with cancelled := true } else c }

def ended (s : State) : Recovery → Bool
  | .startup => s.startup = .neutral || s.startup = .stopped
  | .retry i => !(s.conns i).phase.retrying

end State

def step (s : State) : Label → State
  | .blockUntilNeutral =>
    -- Before the server listens, if the first neutralization of the start has failed.
    if s.listening = false ∧ s.startup = .unused then
      { s with busy := true, startup := .top, recovery := some .startup }
    else s
  | .startupTurn =>
    if s.startup = .top then { s with startup := if s.stopping then .stopped else .trying } else s
  | .attempt ok =>
    if s.startup = .trying then
      if ok then { s with busy := false, startup := .neutral } else { s with startup := .sleeping }
    else s
  | .startupWake => if s.startup = .sleeping then { s with startup := .top } else s
  | .listen => { s with listening := true }
  | .conn i a => if s.listening then s.connAct i a else s
  | .close =>
    if s.listening ∧ s.closing = .up then { s with stopping := true, closing := .waiting } else s
  | .serverClosed =>
    if s.closing = .waiting then { s.cancelAll s.handlers with closing := .gathering s.handlers }
    else s
  | .gathered =>
    match s.closing with
    | .gathering hs =>
      if hs.all fun i => !(s.conns i).active then
        match s.recovery with
        | none => { s with closing := .returned }
        | some r => { s with closing := .awaiting r }
      else s
    | _ => s
  | .recovered =>
    match s.closing with
    | .awaiting r => if s.ended r then { s with closing := .returned } else s
    | _ => s

def fresh (streams : Bool) : State := { streams }

structure Inv (s : State) : Prop where
  sound : ∀ i, Sound (s.conns i)
  busy : ∀ i, (s.conns i).holds → s.busy
  unique : ∀ i j, (s.conns i).holds → (s.conns j).holds → i = j
  startup : s.startup.pending → s.busy ∧ ∀ i, (s.conns i).holds = false
  quiet : s.listening = false → ∀ i, (s.conns i).holds = false

theorem neutral_of_idle {c : Conn} (sound : Sound c) (idle : c.holds = false) : c.neutral := by
  unfold Conn.holds at idle
  cases owns : c.owns with
  | false =>
    intro l member
    rw [sound.unowned owns] at member
    cases member
  | true =>
    simp only [owns, Bool.true_and] at idle
    split at idle
    · rename_i finished
      exact sound.finished finished
    · cases idle

section
variable {s s' : State} {i : Nat} {c : Conn}

theorem sound_update (inv : Inv s) (conns : s'.conns = Function.update s.conns i c)
    (sound : Sound c) (j : Nat) : Sound (s'.conns j) := by
  rw [conns]
  by_cases same : j = i
  · subst same
    simpa using sound
  · simpa [same] using inv.sound j

theorem holds_update (conns : s'.conns = Function.update s.conns i c) (j : Nat) :
    (s'.conns j).holds = if j = i then c.holds else (s.conns j).holds := by
  rw [conns, Function.update_apply]
  split <;> rfl

theorem inv_same (inv : Inv s) (sound : ∀ j, Sound (s'.conns j))
    (holds : ∀ j, (s'.conns j).holds = (s.conns j).holds) (busy : s'.busy = s.busy)
    (startup : s'.startup = s.startup) (listening : s'.listening = s.listening) : Inv s' where
  sound := sound
  busy j h := busy ▸ inv.busy j (holds j ▸ h)
  unique j k hj hk := inv.unique j k (holds j ▸ hj) (holds k ▸ hk)
  startup p := by
    obtain ⟨b, none⟩ := inv.startup (startup ▸ p)
    exact ⟨busy ▸ b, fun j => (holds j).trans (none j)⟩
  quiet l j := (holds j).trans (inv.quiet (listening ▸ l) j)

theorem inv_claims (inv : Inv s) (conns : s'.conns = Function.update s.conns i c)
    (sound : Sound c) (free : s.busy = false) (busy : s'.busy = true)
    (startup : s'.startup = s.startup) (listening : s'.listening = true) : Inv s' := by
  have nobody (j : Nat) : (s.conns j).holds = false := by
    cases h : (s.conns j).holds with
    | false => rfl
    | true => simpa [free] using inv.busy j h
  have only (j : Nat) (h : (s'.conns j).holds) : j = i := by
    rw [holds_update conns] at h
    split at h
    · assumption
    · simp [nobody j] at h
  constructor
  · exact sound_update inv conns sound
  · exact fun _ _ => busy
  · exact fun j k hj hk => (only j hj).trans (only k hk).symm
  · intro p
    have busy := (inv.startup (startup ▸ p)).1
    simp [free] at busy
  · intro l
    simp [listening] at l

theorem inv_frees (inv : Inv s) (conns : s'.conns = Function.update s.conns i c)
    (sound : Sound c) (was : (s.conns i).holds) (now : c.holds = false)
    (startup : s'.startup = s.startup) : Inv s' := by
  have nobody (j : Nat) : (s'.conns j).holds = false := by
    rw [holds_update conns]
    split
    · exact now
    · rename_i other
      cases h : (s.conns j).holds with
      | false => rfl
      | true => exact absurd (inv.unique j i h was) other
  constructor
  · exact sound_update inv conns sound
  · exact fun j h => by simp [nobody j] at h
  · exact fun j _ h _ => by simp [nobody j] at h
  · intro p
    have none := (inv.startup (startup ▸ p)).2 i
    simp [was] at none
  · exact fun _ => nobody

end

theorem inv_conn {s : State} (inv : Inv s) (up : s.listening) (i : Nat) (a : Act) :
    Inv (s.connAct i a) := by
  have acted := act_acted (f := s.flags) (inv.sound i) a
  unfold State.connAct
  generalize (s.conns i).act s.flags a = r at acted
  obtain ⟨c, effect⟩ := r
  obtain ⟨sound, spec, -⟩ := acted
  have same (s' : State) (conns : s'.conns = Function.update s.conns i c)
      (holds : c.holds = (s.conns i).holds) (busy : s'.busy = s.busy)
      (startup : s'.startup = s.startup) (listening : s'.listening = s.listening) : Inv s' := by
    refine inv_same inv (sound_update inv conns sound) (fun j => ?_) busy startup listening
    rw [holds_update conns]
    split
    · rename_i here
      rw [holds, here]
    · rfl
  cases effect with
  | none => exact same _ rfl spec rfl rfl rfl
  | enters => exact same _ rfl (spec.2.trans spec.1.symm) rfl rfl rfl
  | leaves => exact same _ rfl (spec.2.trans spec.1.symm) rfl rfl rfl
  | retries => exact same _ rfl (spec.2.trans spec.1.symm) rfl rfl rfl
  | claims => exact inv_claims inv rfl sound spec.1 rfl rfl up
  | frees => exact inv_frees inv rfl sound spec.1 spec.2 rfl

theorem inv_cancelAll {s : State} (inv : Inv s) (hs : List Nat) : Inv (s.cancelAll hs) := by
  refine inv_same inv (fun j => ?_) (fun j => ?_) rfl rfl rfl
  · simp only [State.cancelAll]
    split
    · obtain ⟨unowned, owner, absent, finished, rest⟩ := inv.sound j
      exact ⟨unowned, owner, absent, finished, rest⟩
    · exact inv.sound j
  · simp only [State.cancelAll]
    split <;> rfl

theorem inv_step (s : State) (l : Label) (inv : Inv s) : Inv (step s l) := by
  cases l with
  | blockUntilNeutral =>
    simp only [step]
    split
    · rename_i now
      exact { inv with
        busy := fun _ _ => rfl
        startup := fun _ => ⟨rfl, inv.quiet now.1⟩ }
    · exact inv
  | startupTurn =>
    simp only [step]
    split
    · rename_i top
      exact { inv with startup := fun _ => inv.startup (by rw [top]; rfl) }
    · exact inv
  | attempt ok =>
    simp only [step]
    split
    · rename_i trying
      have pending := inv.startup (by rw [trying]; rfl)
      split
      · exact { inv with
          busy := fun i holds => by simp [pending.2 i] at holds
          startup := fun p => by cases p }
      · exact { inv with startup := fun _ => pending }
    · exact inv
  | startupWake =>
    simp only [step]
    split
    · rename_i sleeping
      exact { inv with startup := fun _ => inv.startup (by rw [sleeping]; rfl) }
    · exact inv
  | listen => exact { inv with quiet := fun l => by cases l }
  | conn i a =>
    simp only [step]
    split
    · rename_i listening
      exact inv_conn inv listening i a
    · exact inv
  | close =>
    simp only [step]
    split
    · exact { inv with }
    · exact inv
  | serverClosed =>
    simp only [step]
    split
    · exact { inv_cancelAll inv s.handlers with }
    · exact inv
  | gathered =>
    simp only [step]
    split
    · split
      · split
        · exact { inv with }
        · exact { inv with }
      · exact inv
    · exact inv
  | recovered =>
    simp only [step]
    split
    · split
      · exact { inv with }
      · exact inv
    · exact inv

theorem inv_fresh (streams : Bool) : Inv (fresh streams) where
  sound _ := sound_absent
  busy _ h := by cases h
  unique _ _ h _ := by cases h
  startup p := by cases p
  quiet _ _ := rfl

theorem effect_conns (i : Nat) (s : State) (e : Effect) : (s.effect i e).conns = s.conns := by
  cases e <;> rfl

/-- Only two labels touch a connection. -/
theorem step_conns (s : State) (l : Label) :
    (∃ i a, l = .conn i a) ∨ l = .serverClosed ∨ (step s l).conns = s.conns := by
  cases l with
  | conn i a => exact .inl ⟨i, a, rfl⟩
  | serverClosed => exact .inr (.inl rfl)
  | listen => exact .inr (.inr rfl)
  | blockUntilNeutral | startupTurn | startupWake | close =>
    refine .inr (.inr ?_)
    simp only [step]
    split <;> rfl
  | attempt ok | recovered =>
    refine .inr (.inr ?_)
    simp only [step]
    split
    · split <;> rfl
    · rfl
  | gathered =>
    refine .inr (.inr ?_)
    simp only [step]
    split
    · split
      · split <;> rfl
      · rfl
    · rfl

theorem step_reply {s : State} (inv : Inv s) (l : Label) (i : Nat)
    (now : ((step s l).conns i).reply = some true) :
    (s.conns i).reply = some true ∨ (s.conns i).holds := by
  rcases step_conns s l with ⟨j, a, rfl⟩ | rfl | same
  · simp only [step] at now
    split at now
    · have acted := act_acted (f := s.flags) (inv.sound j) a
      simp only [State.connAct, effect_conns, Function.update_apply] at now
      split at now
      · rename_i same
        exact same ▸ acted.reply now
      · exact .inl now
    · exact .inl now
  · simp only [step, State.cancelAll] at now
    split at now
    · simp only at now
      split at now <;> exact .inl now
    · exact .inl now
  · exact .inl (same ▸ now)

/-- At most one connection is between its claim and the end of its release, and the
reply ok is written only when every other lease of the server is neutral and a
requested neutralization has succeeded. -/
theorem leases_exclusive (streams : Bool) (ls : List Label) :
    let s := run step (fresh streams) ls
    (∀ i j, (s.conns i).holds → (s.conns j).holds → i = j) ∧
      ∀ l i, ((step s l).conns i).reply = some true → (s.conns i).reply ≠ some true →
        s.startup.pending = false ∧ ∀ j, j ≠ i → (s.conns j).neutral := by
  intro s
  have inv : Inv s := run_invariant step Inv inv_step (inv_fresh streams) ls
  refine ⟨inv.unique, fun l i now before => ?_⟩
  have holds := (step_reply inv l i now).resolve_left before
  constructor
  · cases pending : s.startup.pending with
    | false => rfl
    | true => simpa [holds] using (inv.startup pending).2 i
  · intro j other
    apply neutral_of_idle (inv.sound j)
    cases h : (s.conns j).holds with
    | false => rfl
    | true => exact absurd (inv.unique j i h holds) other

end Hid.Server

import Mathlib.Data.List.Basic
import RkmoonKvm.Library.Pacer
import RkmoonKvm.Library.Reader
import RkmoonKvm.Video.Credit

/-! The placeholder loop of the worker: synthetic black at a low cadence while there is no HDMI
source, and why the bridge cannot tell it from a capture that never fails. -/
namespace Video.Placeholder
open Runs Log
open Worker (Encoder Output openEncoder)

def periodUs : UInt64 := 100000

/-- A frame, with its target rate and the clock that the next deadline is counted from. -/
structure Shot where
  m : Message
  rate : UInt32
  clock : UInt64
  deriving DecidableEq

inductive Event
  | idr
  | bitrate (bps : UInt32)
  | sent (shot : Shot)
  deriving DecidableEq

inductive Phase where
  | top | waiting | acking (seq : UInt64) | exited (code : Nat)
  deriving DecidableEq

structure State where
  encoder : Encoder
  next : UInt64
  phase : Phase := .top
  stopping : Bool := false
  force : Bool := true
  log : List Event := []
  deriving DecidableEq

inductive Label where
  | signal
  | turn
  /-- A control, behind the clock that the wait for the deadline has read. -/
  | control (now : UInt64) (m : Message)
  /-- A frame, behind the clock that ends the wait. -/
  | frame (now clock dequeueUs : UInt64) (out : Output)
  | interrupted
  | broken
  deriving DecidableEq

def idr (s : State) : State := { s with force := true, log := s.log ++ [.idr] }

def bitrate (bps : UInt32) (s : State) : Except String State := do
  let encoder ← s.encoder.bitrate bps
  pure { s with encoder, force := true, log := s.log ++ [.bitrate bps] }

def control (now : UInt64) (m : Message) (s : State) : Except String State :=
  match s.phase with
  | .waiting =>
    if s.next ≤ now then pure s
    else if m.h.kind = .stop then pure { s with phase := .exited 0 }
    else if m.h.kind = .idr then pure (idr s)
    else if m.h.kind = .bitrate then bitrate m.h.extra s
    else throw "unexpected control before frame"
  | .acking seq =>
    if m.h.kind = .ack then
      if m.h.seq ≠ seq then throw "ACK sequence mismatch" else pure { s with phase := .top }
    else if m.h.kind = .idr then pure (idr s)
    else if m.h.kind = .bitrate then bitrate m.h.extra s
    else if m.h.kind = .stop then pure { s with phase := .exited 0 }
    else throw "unexpected worker control"
  | _ => pure s

/-- `std::max(next+period_us,now_us())` -/
def deadline (next clock : UInt64) : UInt64 :=
  if next + periodUs < clock then clock else next + periodUs

def encodeSend (clock dequeueUs : UInt64) (out : Output) (s : State) : Except String State := do
  let (m, encoder) ← s.encoder.encode dequeueUs out s.force
  pure { s with
    encoder, force := false, next := deadline s.next clock, phase := .acking m.h.seq,
    log := s.log ++ [.sent { m, rate := s.encoder.config.bitrate, clock }] }

def settle (s : State) : Except String State → State
  | .ok s' => s'
  | .error _ => { s with phase := .exited 75 }

def step (s : State) : Label → State
  | .signal => { s with stopping := true }
  | .turn =>
    if s.phase = .top then { s with phase := if s.stopping then .exited 0 else .waiting } else s
  | .control now m => settle s (control now m s)
  | .frame now clock dequeueUs out =>
    if s.phase = .waiting ∧ (s.next ≤ now ∨ s.stopping) then settle s (encodeSend clock dequeueUs out s)
    else s
  | .interrupted =>
    match s.phase, s.stopping with
    | .acking _, true => { s with phase := .exited 0 }
    | _, _ => s
  | .broken =>
    match s.phase with
    | .exited _ => s
    | _ => { s with phase := .exited 75 }

/-- The state behind the READY message; black frames are copied and not of the full range. -/
def begin (config : Config) (start : UInt64) : Except String State := do
  let encoder ← openEncoder config false false
  pure { encoder, next := start }

def Event.shot? : Event → Option Shot
  | .sent shot => some shot
  | _ => none

def shots (log : List Event) : List Shot := log.filterMap Event.shot?

@[simp] theorem shots_sent (log : List Event) (shot : Shot) :
    shots (log ++ [.sent shot]) = shots log ++ [shot] := by simp [shots, Event.shot?]

@[simp] theorem shots_idr (log : List Event) : shots (log ++ [.idr]) = shots log := by
  simp [shots, Event.shot?]

@[simp] theorem shots_bitrate (log : List Event) (bps : UInt32) :
    shots (log ++ [.bitrate bps]) = shots log := by simp [shots, Event.shot?]

theorem bitrate_ok {bps : UInt32} {s s' : State} (changed : bitrate bps s = .ok s') :
    ∃ encoder, s.encoder.bitrate bps = .ok encoder ∧
      s' = { s with encoder, force := true, log := s.log ++ [.bitrate bps] } := by
  unfold bitrate at changed
  obtain ⟨encoder, set, done⟩ := Reader.bind_ok changed
  cases done
  exact ⟨encoder, set, rfl⟩

theorem encodeSend_ok {clock dequeueUs : UInt64} {out : Output} {s s' : State}
    (sent : encodeSend clock dequeueUs out s = .ok s') :
    ∃ m encoder, s.encoder.encode dequeueUs out s.force = .ok (m, encoder) ∧ s' = { s with
      encoder, force := false, next := deadline s.next clock, phase := .acking m.h.seq,
      log := s.log ++ [.sent { m, rate := s.encoder.config.bitrate, clock }] } := by
  unfold encodeSend at sent
  obtain ⟨⟨m, encoder⟩, encoded, done⟩ := Reader.bind_ok sent
  cases done
  exact ⟨m, encoder, encoded, rfl⟩

inductive Moves (s s' : State) : Prop
  | keeps (encoder : s'.encoder = s.encoder) (log : s'.log = s.log) (force : s'.force = s.force)
      (next : s'.next = s.next)
  | asks (encoder : s'.encoder = s.encoder) (log : s'.log = s.log ++ [.idr]) (force : s'.force)
      (next : s'.next = s.next)
  | rates (bps : UInt32) (encoder : s.encoder.bitrate bps = .ok s'.encoder)
      (log : s'.log = s.log ++ [.bitrate bps]) (force : s'.force) (next : s'.next = s.next)
  | sends (shot : Shot) (dequeueUs : UInt64) (out : Output)
      (encoded : s.encoder.encode dequeueUs out s.force = .ok (shot.m, s'.encoder))
      (log : s'.log = s.log ++ [.sent shot]) (rate : shot.rate = s.encoder.config.bitrate)
      (next : s'.next = deadline s.next shot.clock)

theorem moves_settle {s : State} {next : Except String State}
    (moves : ∀ s', next = .ok s' → Moves s s') : Moves s (settle s next) := by
  cases next with
  | ok s' => exact moves s' rfl
  | error x => exact .keeps rfl rfl rfl rfl

theorem control_ok {now : UInt64} {m : Message} {s s' : State} (taken : control now m s = .ok s') :
    (∃ phase, s' = { s with phase }) ∨ s' = idr s ∨ ∃ bps, bitrate bps s = .ok s' := by
  have stay : ∃ phase, s = { s with phase } := ⟨s.phase, rfl⟩
  unfold control at taken
  split at taken
  next =>
    split at taken
    next => cases taken; exact .inl stay
    next =>
      split at taken
      next => cases taken; exact .inl ⟨_, rfl⟩
      next =>
        split at taken
        next => cases taken; exact .inr (.inl rfl)
        next =>
          split at taken
          next => exact .inr (.inr ⟨_, taken⟩)
          next => cases taken
  next =>
    split at taken
    next =>
      split at taken
      next => cases taken
      next => cases taken; exact .inl ⟨_, rfl⟩
    next =>
      split at taken
      next => cases taken; exact .inr (.inl rfl)
      next =>
        split at taken
        next => exact .inr (.inr ⟨_, taken⟩)
        next =>
          split at taken
          next => cases taken; exact .inl ⟨_, rfl⟩
          next => cases taken
  next => cases taken; exact .inl stay

theorem moves_control {now : UInt64} {m : Message} {s s' : State} (taken : control now m s = .ok s') :
    Moves s s' := by
  rcases control_ok taken with ⟨phase, rfl⟩ | rfl | ⟨bps, changed⟩
  · exact .keeps rfl rfl rfl rfl
  · exact .asks rfl rfl rfl rfl
  · obtain ⟨encoder, set, rfl⟩ := bitrate_ok changed
    exact .rates bps set rfl rfl rfl

theorem step_moves (s : State) (l : Label) : Moves s (step s l) := by
  have stay : Moves s s := .keeps rfl rfl rfl rfl
  cases l with
  | signal => exact .keeps rfl rfl rfl rfl
  | control now m => exact moves_settle fun s' => moves_control
  | frame now clock dequeueUs out =>
    simp only [step]
    split
    next =>
      refine moves_settle fun s' sent => ?_
      obtain ⟨m, encoder, encoded, rfl⟩ := encodeSend_ok sent
      exact .sends _ dequeueUs out encoded rfl rfl rfl
    next => exact stay
  | turn | interrupted | broken =>
    simp only [step]
    split
    all_goals first | exact stay | exact .keeps rfl rfl rfl rfl

def black : State where
  encoder := { config := { codec := .h264 }, direct := false, fullRange := false }
  next := 0

def twoFrames : List Label :=
  [.turn, .frame 0 0 0 Worker.idrUnit, .control 0 (Bridge.ackControl 1), .turn, .control 50000 Bridge.idrControl,
    .frame 100000 100000 0 Worker.idrUnit]

/-! The rate and the requests. -/

def Event.isSent (e : Event) : Prop := ∃ shot, e = .sent shot

def target (rate : UInt32) (log : List Event) : UInt32 :=
  log.foldl (fun rate e => match e with | .bitrate bps => bps | .idr | .sent _ => rate) rate

@[simp] theorem target_concat (rate : UInt32) (log : List Event) (e : Event) :
    target rate (log ++ [e]) = match e with
      | .bitrate bps => bps
      | .idr | .sent _ => target rate log := by
  rw [target, List.foldl_append, List.foldl_cons, List.foldl_nil, ← target]

/-- A request, which the next frame answers with an IDR. -/
def Answered (a b : Event) : Prop := ¬ a.isSent → ∀ shot, b = .sent shot → shot.m.isIdr

def Rated (rate : UInt32) (before : List Event) (e : Event) : Prop :=
  ∀ shot, e = .sent shot → shot.rate = target rate before

structure Inv (rate : UInt32) (s : State) : Prop where
  current : s.encoder.config.bitrate = target rate s.log
  rated : Each (Rated rate) s.log
  forced : ∀ a, ¬ a.isSent → Waits Event.isSent a s.log → s.force
  answered : Followed Event.isSent Answered s.log

theorem inv_request {rate : UInt32} {s s' : State} (inv : Inv rate s) {e : Event} (request : ¬ e.isSent)
    (log : s'.log = s.log ++ [e]) (force : s'.force)
    (same : s'.encoder.config.bitrate = target rate (s.log ++ [e])) : Inv rate s' where
  current := by rw [log, same]
  rated := by
    rw [log]
    exact (each_concat e s.log).mpr ⟨inv.rated, fun shot sent => absurd ⟨shot, sent⟩ request⟩
  forced := fun _ _ _ => force
  answered := by
    rw [log]
    exact followed_open inv.answered request

theorem inv_step {rate : UInt32} (s : State) (l : Label) (inv : Inv rate s) : Inv rate (step s l) := by
  have moves := step_moves s l
  generalize step s l = s' at moves ⊢
  cases moves with
  | keeps encoder log force next =>
    exact ⟨by rw [encoder, log, inv.current], log ▸ inv.rated, by rw [log, force]; exact inv.forced,
      log ▸ inv.answered⟩
  | asks encoder log force next =>
    refine inv_request inv (by rintro ⟨shot, sent⟩; cases sent) log force ?_
    rw [encoder, inv.current, target_concat]
  | rates bps encoder log force next =>
    refine inv_request inv (by rintro ⟨shot, sent⟩; cases sent) log force ?_
    obtain ⟨_, changed⟩ := Worker.bitrate_ok encoder
    rw [changed, target_concat]
  | sends shot dequeueUs out encoded log rated next =>
    obtain ⟨_, encoder, valid⟩ := Worker.encode_ok encoded
    have idr := ((validateAu_iff shot.m s.force).mp valid).2.2.1
    refine ⟨?_, ?_, ?_, ?_⟩
    · rw [encoder, log, target_concat]
      exact inv.current
    · rw [log]
      refine (each_concat _ _).mpr ⟨inv.rated, fun shot' same => ?_⟩
      cases same
      rw [rated, inv.current]
    · intro a request waits
      rw [log, waits_concat] at waits
      rcases waits with same | ⟨open_, _⟩
      · exact absurd ⟨shot, same⟩ request
      · exact absurd ⟨shot, rfl⟩ open_
    · rw [log]
      refine (followed_concat _ _).mpr ⟨inv.answered, fun _ a waits request shot' same => ?_⟩
      cases same
      exact idr (inv.forced a request waits)

theorem begin_ok {config : Config} {start : UInt64} {s : State} (begun : begin config start = .ok s) :
    s = { encoder := { config, direct := false, fullRange := false }, next := start } := by
  unfold begin at begun
  obtain ⟨encoder, opened, done⟩ := Reader.bind_ok begun
  cases done
  rw [Worker.openEncoder_ok opened]

theorem inv_begin {config : Config} {start : UInt64} {s : State} (begun : begin config start = .ok s) :
    Inv config.bitrate s := by
  rw [begin_ok begun]
  exact ⟨rfl, each_nil, fun a _ waits => absurd waits (waits_nil a), followed_nil⟩

/-! The cadence. -/

/-- The clock of a frame does not run backwards, and its count does not wrap around; nothing ends the
loop. -/
def Clocked : Label → Prop
  | .signal => False
  | .frame now clock _ _ => now ≤ clock ∧ clock.toNat + 2 * periodUs.toNat < 2 ^ 64
  | .turn | .control .. | .interrupted | .broken => True

def Shot.time (shot : Shot) : ℚ := shot.clock.toNat

structure Timed (s : State) : Prop where
  running : s.stopping = false
  room : s.next.toNat + periodUs.toNat < 2 ^ 64
  paced : Pacer.Paced Shot.time (fun _ => (periodUs.toNat : ℚ)) periodUs.toNat (shots s.log)
    (s.next.toNat + periodUs.toNat)

theorem deadline_toNat {next clock : UInt64} (room : next.toNat + periodUs.toNat < 2 ^ 64) :
    (deadline next clock).toNat = max clock.toNat (next.toNat + periodUs.toNat) := by
  have sum : (next + periodUs).toNat = next.toNat + periodUs.toNat := by
    rw [UInt64.toNat_add]
    exact Nat.mod_eq_of_lt room
  unfold deadline
  simp only [UInt64.lt_iff_toNat_lt, sum]
  split <;> omega

theorem timed_step (s : State) (l : Label) (timed : Timed s) (clocked : Clocked l) : Timed (step s l) := by
  obtain ⟨running, room, paced⟩ := timed
  cases l with
  | signal => exact absurd clocked id
  | frame now clock dequeueUs out =>
    simp only [step]
    split
    next due =>
      have due : s.next ≤ now := due.2.resolve_right (by rw [running]; nofun)
      obtain ⟨forward, small⟩ := clocked
      have later : s.next.toNat ≤ clock.toNat := Nat.le_trans due forward
      cases sent : encodeSend clock dequeueUs out s with
      | error x => exact ⟨running, room, paced⟩
      | ok s' =>
        obtain ⟨m, encoder, encoded, rfl⟩ := encodeSend_ok sent
        have after := @deadline_toNat s.next clock room
        refine ⟨running, ?_, ?_⟩
        · dsimp only [settle]
          omega
        · dsimp only [settle]
          rw [shots_sent, after, Nat.cast_max, Nat.cast_add]
          refine paced.grant ?_
          rw [add_sub_cancel_right, Shot.time]
          exact_mod_cast later
    next => exact ⟨running, room, paced⟩
  | control now m =>
    simp only [step]
    cases taken : control now m s with
    | error x => exact ⟨running, room, paced⟩
    | ok s' =>
      rcases control_ok taken with ⟨phase, rfl⟩ | rfl | ⟨bps, changed⟩
      · exact ⟨running, room, paced⟩
      · refine ⟨running, room, ?_⟩
        dsimp only [settle, idr]
        rwa [shots_idr]
      · obtain ⟨encoder, _, rfl⟩ := bitrate_ok changed
        refine ⟨running, room, ?_⟩
        dsimp only [settle]
        rwa [shots_bitrate]
  | turn | interrupted | broken =>
    simp only [step]
    split
    all_goals exact ⟨running, room, paced⟩

/-- Whatever controls come and however late the frames are: as long as the loop is not told to stop, two
frames with `n` others between them are at least `n` periods apart. A late frame is not caught up with. -/
theorem cadence_kept (config : Config) (start : UInt64) (s₀ : State) (begun : begin config start = .ok s₀)
    (room : start.toNat + periodUs.toNat < 2 ^ 64) (ls : List Label) (clocked : ∀ l ∈ ls, Clocked l)
    (before mid after : List Shot) (a b : Shot)
    (taken : shots (run step s₀ ls).log = before ++ a :: (mid ++ b :: after)) :
    a.clock.toNat + mid.length * periodUs.toNat ≤ b.clock.toNat := by
  have initial : Timed s₀ := by
    rw [begin_ok begun]
    exact ⟨rfl, room, Pacer.paced_nil _⟩
  have timed : Timed (run step s₀ ls) := meets_invariant step (fun _ => Clocked) Timed timed_step initial ls
    (meets_of_forall clocked s₀)
  have apart := timed.paced.metronome taken
  rw [Shot.time, Shot.time, le_sub_iff_add_le, add_comm] at apart
  exact_mod_cast apart

theorem cadence_black : ∃ a b, shots (run step black twoFrames).log = [a, b] ∧
    a.clock.toNat + 0 * periodUs.toNat ≤ b.clock.toNat := by
  have clocked : ∀ l ∈ twoFrames, Clocked l := by simp [twoFrames, Clocked, periodUs]
  have taken : ∃ a b, shots (run step black twoFrames).log = [a, b] := ⟨_, _, rfl⟩
  obtain ⟨a, b, taken⟩ := taken
  exact ⟨a, b, taken,
    cadence_kept { codec := .h264 } 0 black rfl (by decide) twoFrames clocked [] [] [] a b taken⟩

/-! The placeholder as a capture that nothing disturbs. -/

def Phase.capture : Phase → Worker.Phase
  | .top => .top
  | .waiting => .draining
  | .acking seq => .acking seq
  | .exited code => .exited code

/-- A capture loop that has sent the same frames and takes the same controls. -/
structure Simulated (s : State) (w : Worker.State) : Prop where
  phase : w.phase = s.phase.capture
  stopping : w.stopping = s.stopping
  encoder : w.encoder = some s.encoder
  force : w.force = s.force
  timer : w.idrAt = 0
  history : w.history = (shots s.log).map fun shot => .frame shot.m

/-- A step that the capture loop takes for itself, and in which its source does not fail. -/
def Steady : Worker.Label → Prop
  | .control _ | .reopen .. | .fault .. | .changed .. => False
  | .signal | .turn | .drained | .frame .. | .interrupted | .unchanged .. | .broken => True

theorem simulated_exit {s : State} {w : Worker.State} (simulated : Simulated s w) (code : Nat) :
    Simulated { s with phase := .exited code } { w with phase := .exited code } :=
  ⟨rfl, simulated.stopping, simulated.encoder, simulated.force, simulated.timer, simulated.history⟩

theorem simulated_idr {s : State} {w : Worker.State} (simulated : Simulated s w) {phase : Worker.Phase}
    (here : phase = s.phase.capture) : Simulated (idr s) { w with phase, force := true } where
  phase := here
  stopping := simulated.stopping
  encoder := simulated.encoder
  force := rfl
  timer := simulated.timer
  history := by
    rw [idr, shots_idr]
    exact simulated.history

theorem simulated_bitrate {s : State} {w : Worker.State} (simulated : Simulated s w) (bps : UInt32) :
    Simulated (settle s (bitrate bps s)) (Worker.settle w (Worker.setBitrate bps w)) := by
  cases set : s.encoder.bitrate bps with
  | error x =>
    simp only [bitrate, Worker.setBitrate, simulated.encoder, set, bind, Except.bind, settle, Worker.settle]
    exact ⟨rfl, simulated.stopping, rfl, simulated.force, simulated.timer, simulated.history⟩
  | ok encoder =>
    simp only [bitrate, Worker.setBitrate, simulated.encoder, set, bind, Except.bind, pure, Except.pure,
      settle, Worker.settle]
    refine ⟨simulated.phase, simulated.stopping, rfl, rfl, simulated.timer, ?_⟩
    dsimp only
    rw [shots_bitrate]
    exact simulated.history

theorem simulated_control {s : State} {w : Worker.State} (simulated : Simulated s w) (now : UInt64)
    (m : Message) (due : s.phase = .waiting → now < s.next) :
    Simulated (step s (.control now m)) (run Worker.step w [.control m, .unchanged 0 0]) := by
  have settled (s' : State) (w' : Worker.State) (simulated' : Simulated s' w')
      (taken : w' = Worker.step w (.control m)) :
      Simulated s' (run Worker.step w [.control m, .unchanged 0 0]) := by
    have elsewhere : w'.phase ≠ .checking := by rw [simulated'.phase]; cases s'.phase <;> nofun
    rw [run_cons, run_cons, run_nil, ← taken, Worker.step, if_neg elsewhere]
    exact simulated'
  have refused : Simulated { s with phase := .exited 75 } { w with phase := .exited 75 } :=
    simulated_exit simulated 75
  cases phase : s.phase with
  | waiting =>
    have draining : w.phase = .draining := by rw [simulated.phase, phase]; rfl
    have before : ¬ s.next ≤ now := UInt64.not_le.mpr (due phase)
    apply settled (step s (.control now m)) (Worker.step w (.control m)) ?_ rfl
    simp only [step, control, phase, if_neg before, Worker.step, Worker.control, draining]
    by_cases stop : m.h.kind = .stop
    · simp only [if_pos stop]
      exact simulated_exit simulated 0
    · simp only [if_neg stop]
      by_cases request : m.h.kind = .idr
      · simp only [if_pos request]
        exact simulated_idr simulated (by rw [phase]; rfl)
      · simp only [if_neg request]
        by_cases rate : m.h.kind = .bitrate
        · simp only [if_pos rate]
          exact simulated_bitrate simulated m.h.extra
        · simp only [if_neg rate]
          exact refused
  | acking seq =>
    have acking : w.phase = .acking seq := by rw [simulated.phase, phase]; rfl
    by_cases ack : m.h.kind = .ack
    · by_cases mine : m.h.seq ≠ seq
      · apply settled (step s (.control now m)) (Worker.step w (.control m)) ?_ rfl
        simp only [step, control, phase, Worker.step, Worker.control, acking, if_pos ack, if_pos mine]
        exact refused
      · simp only [step, control, phase, run_cons, run_nil, Worker.step, Worker.control, acking, if_pos ack,
          if_neg mine, pure, Except.pure, settle, Worker.settle, if_true]
        exact ⟨rfl, simulated.stopping, simulated.encoder, simulated.force, simulated.timer,
          simulated.history⟩
    · apply settled (step s (.control now m)) (Worker.step w (.control m)) ?_ rfl
      simp only [step, control, phase, Worker.step, Worker.control, acking, if_neg ack]
      by_cases request : m.h.kind = .idr
      · simp only [if_pos request]
        exact simulated_idr simulated (by rw [phase]; rfl)
      · simp only [if_neg request]
        by_cases rate : m.h.kind = .bitrate
        · simp only [if_pos rate]
          exact simulated_bitrate simulated m.h.extra
        · simp only [if_neg rate]
          by_cases stop : m.h.kind = .stop
          · simp only [if_pos stop]
            exact simulated_exit simulated 0
          · simp only [if_neg stop]
            exact refused
  | top | exited code =>
    have elsewhere := simulated.phase
    rw [phase] at elsewhere
    apply settled (step s (.control now m)) (Worker.step w (.control m)) ?_ rfl
    simp only [step, control, phase, Worker.step, Worker.control, elsewhere, Phase.capture]
    exact simulated

theorem simulated_frame {s : State} {w : Worker.State} (simulated : Simulated s w)
    (waiting : s.phase = .waiting) (clock dequeueUs : UInt64) (out : Output) :
    Simulated (settle s (encodeSend clock dequeueUs out s))
      (run Worker.step w [.drained, .frame 0 dequeueUs out]) := by
  have draining : w.phase = .draining := by rw [simulated.phase, waiting]; rfl
  have untimed : Worker.testIdr 0 { w with phase := .picking } = { w with phase := .picking } := by
    rw [Worker.testIdr, if_neg]
    exact fun timed => timed.2.1 simulated.timer
  have picked : run Worker.step w [.drained, .frame 0 dequeueUs out] =
      Worker.settle { w with phase := .picking }
        (Worker.encodeSend s.encoder dequeueUs out { w with phase := .picking }) := by
    rw [run_cons, run_cons, run_nil, Worker.step, if_pos draining, Worker.step]
    split
    next e _ pipeline =>
      cases simulated.encoder.symm.trans pipeline
      rw [untimed]
    next none => exact absurd simulated.encoder (none s.encoder rfl)
  rw [picked]
  cases encoded : s.encoder.encode dequeueUs out s.force with
  | error x =>
    simp only [encodeSend, Worker.encodeSend, simulated.force, encoded, bind, Except.bind, settle, Worker.settle]
    exact ⟨rfl, simulated.stopping, simulated.encoder, rfl, simulated.timer, simulated.history⟩
  | ok result =>
    obtain ⟨m, encoder⟩ := result
    simp only [encodeSend, Worker.encodeSend, simulated.force, encoded, bind, Except.bind, pure, Except.pure,
      settle, Worker.settle]
    refine ⟨rfl, simulated.stopping, rfl, rfl, simulated.timer, ?_⟩
    dsimp only
    rw [shots_sent, List.map_append, simulated.history]
    rfl

/-- Every step of the placeholder's own is answered by steps of a capture loop whose source does not
fail. -/
theorem step_simulated {s : State} {w : Worker.State} (simulated : Simulated s w) {l : Label}
    (own : ∀ now m, l ≠ .control now m) : ∃ ls, (∀ l ∈ ls, Steady l) ∧ Simulated (step s l) (run Worker.step w ls) := by
  have stay : ∃ ls, (∀ l ∈ ls, Steady l) ∧ Simulated s (run Worker.step w ls) := ⟨[], by simp, simulated⟩
  have one (l : Worker.Label) (steady : Steady l) {s' : State} (after : Simulated s' (Worker.step w l)) :
      ∃ ls, (∀ l ∈ ls, Steady l) ∧ Simulated s' (run Worker.step w ls) :=
    ⟨[l], by simpa using steady, after⟩
  cases l with
  | signal =>
    exact one .signal trivial
      ⟨simulated.phase, rfl, simulated.encoder, simulated.force, simulated.timer, simulated.history⟩
  | turn =>
    refine one .turn trivial ?_
    by_cases top : s.phase = .top
    · have top' : w.phase = .top := by rw [simulated.phase, top]; rfl
      simp only [step, if_pos top, Worker.step, if_pos top', simulated.stopping]
      refine ⟨?_, rfl, simulated.encoder, simulated.force, simulated.timer, simulated.history⟩
      cases s.stopping <;> rfl
    · have other : w.phase ≠ .top := by
        rw [simulated.phase]
        intro same
        cases phase : s.phase with
        | top => exact top phase
        | waiting | acking seq | exited code =>
          rw [phase] at same
          cases same
      simp only [step, if_neg top, Worker.step, if_neg other]
      exact simulated
  | control now m => exact absurd rfl (own now m)
  | frame now clock dequeueUs out =>
    simp only [step]
    split
    next due =>
      exact ⟨[.drained, .frame 0 dequeueUs out], by simp [Steady],
        simulated_frame simulated due.1 clock dequeueUs out⟩
    next => exact stay
  | interrupted =>
    refine one .interrupted trivial ?_
    have phase := simulated.phase
    have stopping := simulated.stopping
    cases at_ : s.phase with
    | acking seq =>
      rw [at_] at phase
      cases told : s.stopping with
      | true =>
        rw [told] at stopping
        simp only [step, at_, told, Worker.step, phase, stopping, Phase.capture]
        exact ⟨rfl, rfl, simulated.encoder, simulated.force, simulated.timer, simulated.history⟩
      | false =>
        rw [told] at stopping
        simp only [step, at_, told, Worker.step, phase, stopping, Phase.capture]
        exact simulated
    | top | waiting | exited code =>
      rw [at_] at phase
      simp only [step, at_, Worker.step, phase, Phase.capture]
      exact simulated
  | broken =>
    refine one .broken trivial ?_
    have phase := simulated.phase
    cases at_ : s.phase with
    | exited code =>
      rw [at_] at phase
      simp only [step, at_, Worker.step, phase, Phase.capture]
      exact simulated
    | top | waiting | acking seq =>
      rw [at_] at phase
      simp only [step, at_, Worker.step, phase, Phase.capture]
      exact simulated_exit simulated 75

theorem simulated_begin {config : Config} {start : UInt64} {s : State} (begun : begin config start = .ok s) :
    Simulated s (Worker.begin config 0 false false 0) := by
  have same := begin_ok begun
  unfold begin at begun
  obtain ⟨encoder, opened, _⟩ := Reader.bind_ok begun
  rw [Worker.begin, opened, same, Worker.openEncoder_ok opened]
  exact ⟨rfl, rfl, rfl, rfl, rfl, rfl⟩

theorem Simulated.sent {s : State} {w : Worker.State} (simulated : Simulated s w) :
    Worker.sent w.history = (shots s.log).map Shot.m := by
  have frames (ms : List Message) : Worker.sent (ms.map Worker.Entry.frame) = ms := by
    induction ms with
    | nil => rfl
    | cons m ms ih => exact congrArg (m :: ·) ih
  have entries : (shots s.log).map (fun shot => Worker.Entry.frame shot.m) =
      ((shots s.log).map Shot.m).map Worker.Entry.frame := by rw [List.map_map]; rfl
  rw [simulated.history, entries, frames]

theorem Simulated.fine {s : State} {w : Worker.State} (simulated : Simulated s w) :
    ¬ Worker.Interrupted w.history := by
  rintro ⟨m, m', part⟩
  have member : Worker.Entry.reopenFailed ∈ w.history := part.subset (by simp)
  rw [simulated.history, List.mem_map] at member
  obtain ⟨shot, _, other⟩ := member
  cases other

structure Joint where
  placeholder : State
  bridge : Bridge.State
  controlsRead : Nat := 0
  framesRead : Nat := 0

namespace Joint

def controls (j : Joint) : List Message := j.bridge.controls.drop j.controlsRead

def frames (j : Joint) : List Message :=
  ((shots j.placeholder.log).map Shot.m).drop j.framesRead

end Joint

inductive JointLabel
  | control (now : UInt64)
  | worker (l : Label)
  | frame (now : UInt64)
  | bridge (l : Bridge.Label)

/-- Where the loop reads controls: before the deadline, and until it has its credit. -/
def reads (now : UInt64) (s : State) : Bool :=
  match s.phase with
  | .waiting => now < s.next
  | .acking _ => true
  | .top | .exited _ => false

def jointStep (j : Joint) : JointLabel → Joint
  | .control now =>
    match j.controls with
    | m :: _ =>
      if reads now j.placeholder then
        { j with placeholder := step j.placeholder (.control now m), controlsRead := j.controlsRead + 1 }
      else j
    | [] => j
  | .worker (.control ..) => j
  | .worker l => { j with placeholder := step j.placeholder l }
  | .frame now =>
    match j.frames with
    | m :: _ =>
      if j.bridge.phase = .waiting then
        { j with bridge := Bridge.step j.bridge (.frame m now), framesRead := j.framesRead + 1 }
      else j
    | [] => j
  | .bridge (.frame ..) => j
  | .bridge l => { j with bridge := Bridge.step j.bridge l }

structure Alike (j : Joint) (s : Session.State) : Prop where
  worker : Simulated j.placeholder s.worker
  bridge : s.bridge = j.bridge
  controlsRead : s.controlsRead = j.controlsRead
  framesRead : s.framesRead = j.framesRead

theorem Alike.controls {j : Joint} {s : Session.State} (alike : Alike j s) : s.controls = j.controls := by
  rw [Session.State.controls, alike.bridge, alike.controlsRead, Joint.controls]

theorem Alike.frames {j : Joint} {s : Session.State} (alike : Alike j s) : s.frames = j.frames := by
  rw [Session.State.frames, alike.worker.sent, alike.framesRead, Joint.frames]

theorem worker_run (s : Session.State) (ls : List Worker.Label) (steady : ∀ l ∈ ls, Steady l) :
    ∃ s', run Session.step s (ls.map .worker) = s' ∧ s'.worker = run Worker.step s.worker ls ∧
      s'.bridge = s.bridge ∧ s'.controlsRead = s.controlsRead ∧ s'.framesRead = s.framesRead := by
  induction ls generalizing s with
  | nil => exact ⟨s, rfl, rfl, rfl, rfl, rfl⟩
  | cons l ls ih =>
    obtain ⟨first, rest⟩ := List.forall_mem_cons.mp steady
    have own : ∀ m, l ≠ .control m := by
      rintro m rfl
      exact first
    obtain ⟨worker, bridge, controlsRead, framesRead⟩ := Credit.worker_step s own
    obtain ⟨s', ran, worker', bridge', controlsRead', framesRead'⟩ := ih (Session.step s (.worker l)) rest
    refine ⟨s', ran, ?_, bridge'.trans bridge, controlsRead'.trans controlsRead, framesRead'.trans framesRead⟩
    rw [worker', worker, run_cons]

/-- What the placeholder's own steps do, the capture loop can do. -/
theorem worker_alike {j : Joint} {s : Session.State} (alike : Alike j s) {l : Label}
    (own : ∀ now m, l ≠ .control now m) :
    ∃ ls, Alike { j with placeholder := step j.placeholder l } (run Session.step s ls) := by
  obtain ⟨ls, steady, simulated⟩ := step_simulated alike.worker own
  obtain ⟨s', ran, worker, bridge, controlsRead, framesRead⟩ := worker_run s ls steady
  refine ⟨ls.map .worker, ?_⟩
  rw [ran]
  exact ⟨worker ▸ simulated, bridge.trans alike.bridge, controlsRead.trans alike.controlsRead,
    framesRead.trans alike.framesRead⟩

theorem reads_capture {s : State} {w : Worker.State} (simulated : Simulated s w) {now : UInt64}
    (reading : reads now s) : w.phase.reads ∧ (s.phase = .waiting → now < s.next) := by
  unfold reads at reading
  have phase := simulated.phase
  cases at_ : s.phase with
  | waiting =>
    rw [at_] at reading phase
    exact ⟨by rw [phase]; rfl, fun _ => by simpa using reading⟩
  | acking seq =>
    rw [at_] at phase
    exact ⟨by rw [phase]; rfl, nofun⟩
  | top | exited code =>
    rw [at_] at reading
    cases reading

theorem joint_simulated (j : Joint) (s : Session.State) (l : JointLabel) (alike : Alike j s) :
    ∃ ls, Alike (jointStep j l) (run Session.step s ls) := by
  have stay : ∃ ls, Alike j (run Session.step s ls) := ⟨[], alike⟩
  cases l with
  | control now =>
    simp only [jointStep]
    split
    next m rest next =>
      split
      next reading =>
        obtain ⟨reads, due⟩ := reads_capture alike.worker reading
        refine ⟨[.control, .worker (.unchanged 0 0)], ?_⟩
        have taken : Session.step s .control = { s with
            worker := Worker.step s.worker (.control m), controlsRead := s.controlsRead + 1,
            log := s.log ++ if m.h.kind = .idr then [.idrRead] else [] } := by
          simp only [Session.step, alike.controls, next, reads, if_true]
        obtain ⟨worker, bridge, controlsRead, framesRead⟩ :=
          Credit.worker_step (Session.step s .control) (l := .unchanged 0 0) fun _ same => by cases same
        rw [run_cons, run_cons, run_nil]
        rw [taken] at worker bridge controlsRead framesRead ⊢
        refine ⟨?_, bridge.trans alike.bridge, ?_, framesRead.trans alike.framesRead⟩
        · rw [worker]
          exact simulated_control alike.worker now m due
        · rw [controlsRead, alike.controlsRead]
      next => exact stay
    next => exact stay
  | worker l =>
    by_cases own : ∃ now m, l = .control now m
    · obtain ⟨now, m, rfl⟩ := own
      exact stay
    · have own : ∀ now m, l ≠ .control now m := fun now m same => own ⟨now, m, same⟩
      have stepped : jointStep j (.worker l) = { j with placeholder := step j.placeholder l } := by
        cases l with
        | control now m => exact absurd rfl (own now m)
        | _ => rfl
      obtain ⟨ls, after⟩ := worker_alike alike own
      exact ⟨ls, stepped ▸ after⟩
  | frame now =>
    refine ⟨[.frame now], ?_⟩
    rw [run_cons, run_nil]
    cases next : j.frames with
    | nil =>
      simp only [jointStep, next, Session.step, alike.frames]
      exact alike
    | cons m rest =>
      by_cases idle : j.bridge.phase = .waiting
      · simp only [jointStep, next, Session.step, alike.frames, alike.bridge, if_pos idle]
        exact ⟨alike.worker, rfl, alike.controlsRead, by rw [alike.framesRead]⟩
      · simp only [jointStep, next, Session.step, alike.frames, alike.bridge, if_neg idle]
        exact alike
  | bridge l =>
    refine ⟨[.bridge l], ?_⟩
    rw [run_cons, run_nil]
    cases l with
    | frame m now => exact alike
    | _ =>
      simp only [jointStep, Session.step]
      exact ⟨alike.worker, by rw [alike.bridge], alike.controlsRead, alike.framesRead⟩

theorem control_accepts {s : State} {w w' : Worker.State} (simulated : Simulated s w) {now : UInt64}
    {m : Message} (due : s.phase = .waiting → now < s.next) (kind : m.h.kind = .idr ∨ m.h.kind = .ack)
    (taken : Worker.control m w = .ok w') : (control now m s).isOk := by
  have phase := simulated.phase
  have other : Kind.idr ≠ .stop ∧ Kind.idr ≠ .ack := by decide
  have ack_other : Kind.ack ≠ .stop ∧ Kind.ack ≠ .idr ∧ Kind.ack ≠ .bitrate := by decide
  cases at_ : s.phase with
  | waiting =>
    rw [at_] at phase
    have before : ¬ s.next ≤ now := UInt64.not_le.mpr (due at_)
    rcases kind with idr | ack
    · simp [control, at_, before, idr, other, Except.isOk, Except.toBool, pure, Except.pure]
    · simp [Worker.control, phase, Phase.capture, ack, ack_other, throw, throwThe,
        MonadExceptOf.throw] at taken
  | acking seq =>
    rw [at_] at phase
    rcases kind with idr | ack
    · simp [control, at_, idr, other, Except.isOk, Except.toBool, pure, Except.pure]
    · by_cases mine : m.h.seq = seq
      · simp [control, at_, ack, mine, Except.isOk, Except.toBool, pure, Except.pure]
      · simp [Worker.control, phase, Phase.capture, ack, mine, throw, throwThe,
          MonadExceptOf.throw] at taken
  | top | exited code => simp [control, at_, Except.isOk, Except.toBool, pure, Except.pure]

/-- Whatever the order of the steps at its two ends: a session with the placeholder is, in all that the two
ends have sent and read, one of a capture loop that nothing disturbs; so it has at most one access unit that is
sent and not credited, the placeholder refuses no control of the bridge, and the bridge takes every frame that
it reads. -/
theorem session_undisturbed (config : Config) (start : UInt64) (s₀ : State)
    (begun : begin config start = .ok s₀) (seen : Config) (lastProgress : UInt64)
    (same : seen.width = config.width ∧ seen.height = config.height ∧ seen.codec = config.codec)
    (ls : List JointLabel) :
    let j := run jointStep { placeholder := s₀, bridge := Bridge.start seen lastProgress } ls
    (∃ ls', let s := run Session.step (Session.start (Worker.begin config 0 false false 0)
        (Bridge.start seen lastProgress)) ls'
      s.bridge = j.bridge ∧ s.controls = j.controls ∧ s.frames = j.frames ∧
      Worker.sent s.worker.history = (shots j.placeholder.log).map Shot.m ∧
      ¬ Worker.Interrupted s.worker.history) ∧
    (Credit.grants j.controls).length + (Credit.inHand j.bridge.phase).length + j.frames.length ≤ 1 ∧
      (∀ m ∈ j.controls.head?, ∀ now, reads now j.placeholder → (control now m j.placeholder).isOk) ∧
      (j.bridge.phase = .waiting → ∀ m ∈ j.frames.head?, ∀ now, Credit.After now m →
        (Bridge.receive m now j.bridge).isOk) := by
  intro j
  have initial : Alike { placeholder := s₀, bridge := Bridge.start seen lastProgress }
      (Session.start (Worker.begin config 0 false false 0) (Bridge.start seen lastProgress)) :=
    ⟨simulated_begin begun, rfl, rfl, rfl⟩
  obtain ⟨ls', alike⟩ := run_simulates jointStep Session.step Alike joint_simulated initial ls
  change Alike j _ at alike
  have agreed : Credit.Agreed config (run Session.step (Session.start (Worker.begin config 0 false false 0)
      (Bridge.start seen lastProgress)) ls') :=
    run_invariant Session.step (Credit.Agreed config) Credit.agreed_step
      (Credit.agreed_start config 0 false false 0 seen lastProgress same) ls'
  refine ⟨⟨ls', alike.bridge, alike.controls, alike.frames, alike.worker.sent, alike.worker.fine⟩, ?_⟩
  generalize run Session.step (Session.start (Worker.begin config 0 false false 0)
    (Bridge.start seen lastProgress)) ls' = s at alike agreed
  refine ⟨?_, ?_, ?_⟩
  · have credit := agreed.credit.session.credit
    rw [← Credit.outstanding_length, Credit.outstanding, alike.controls, alike.frames, alike.bridge] at credit
    simp only [List.length_append, List.length_map] at credit
    omega
  · intro m head now reading
    obtain ⟨reads, due⟩ := reads_capture alike.worker reading
    cases next : j.controls with
    | nil =>
      rw [next] at head
      cases head
    | cons m' rest =>
      rw [next] at head
      cases head
      have next : s.controls = m :: rest := alike.controls.trans next
      obtain ⟨w, taken, _⟩ := Credit.inv_control agreed.credit next reads
      exact control_accepts alike.worker due (agreed.credit.kinds m (by rw [next]; exact List.mem_cons_self))
        taken
  · intro idle m head now after
    have taken := Credit.receive_iff agreed (by rw [alike.bridge]; exact idle)
      (by rw [alike.frames]; exact head) after
    rw [alike.bridge] at taken
    exact taken.mpr alike.worker.fine

theorem session_black :
    let j := run jointStep { placeholder := black, bridge := Bridge.start { codec := .h264 } 0 }
      [.worker .turn, .worker (.frame 0 0 0 Worker.idrUnit)]
    ∃ m ∈ j.frames.head?, (Bridge.receive m 7 j.bridge).isOk := by
  intro j
  obtain ⟨_, _, _, taken⟩ := session_undisturbed { codec := .h264 } 0 black rfl { codec := .h264 } 0
    ⟨rfl, rfl, rfl⟩ [.worker .turn, .worker (.frame 0 0 0 Worker.idrUnit)]
  have flying : ∃ m, j.frames.head? = some m ∧ Credit.After 7 m := by
    refine ⟨_, rfl, ?_⟩
    exact ⟨by decide +kernel, by decide⟩
  obtain ⟨m, next, after⟩ := flying
  exact ⟨m, next, taken rfl m next 7 after⟩

end Video.Placeholder

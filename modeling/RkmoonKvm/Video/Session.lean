import RkmoonKvm.Library.Log
import RkmoonKvm.Video.Bridge
import RkmoonKvm.Video.Worker

/-! The bridge and the worker at the two ends of their socket: the controls that the worker
has not read yet, the frames that the bridge has not read yet, and what happened so far. -/
namespace Video.Session
open Runs Log

inductive Event
  /-- The worker has read an IDR control. -/
  | idrRead
  | sent (m : Message)
  /-- The bridge drops a frame while it awaits no IDR. -/
  | dropped (m : Message)
  /-- The bridge has read a frame; whether its session goes on. -/
  | received (m : Message) (alive : Bool)
  deriving DecidableEq

structure State where
  worker : Worker.State
  bridge : Bridge.State
  controlsRead : Nat := 0
  framesRead : Nat := 0
  log : List Event := []

namespace State

def controls (s : State) : List Message := s.bridge.controls.drop s.controlsRead

def frames (s : State) : List Message := (Worker.sent s.worker.history).drop s.framesRead

end State

def drops (s : Bridge.State) : Bridge.Label → List Event
  | .answer _ =>
    match s.phase with
    | .decided m false => if s.awaitIdr then [] else [.dropped m]
    | _ => []
  | _ => []

inductive Label
  | control
  | worker (l : Worker.Label)
  | frame (now : UInt64)
  | bridge (l : Bridge.Label)
  deriving DecidableEq

/-- Each end reads what the other has sent, in order; every other step is its own. -/
def step (s : State) : Label → State
  | .control =>
    match s.controls with
    | m :: _ =>
      if s.worker.phase.reads then
        { s with worker := Worker.step s.worker (.control m), controlsRead := s.controlsRead + 1,
                 log := s.log ++ if m.h.kind = .idr then [.idrRead] else [] }
      else s
    | [] => s
  | .worker (.control _) => s
  | .worker l =>
    let worker := Worker.step s.worker l
    let fresh := (Worker.sent worker.history).drop (Worker.sent s.worker.history).length
    { s with worker, log := s.log ++ fresh.map .sent }
  | .frame now =>
    match s.frames with
    | m :: _ =>
      if s.bridge.phase = .waiting then
        let bridge := Bridge.step s.bridge (.frame m now)
        { s with bridge, framesRead := s.framesRead + 1,
                 log := s.log ++ [.received m (bridge.phase ≠ .ended)] }
      else s
    | [] => s
  | .bridge (.frame ..) => s
  | .bridge l => { s with bridge := Bridge.step s.bridge l, log := s.log ++ drops s.bridge l }

def start (worker : Worker.State) (bridge : Bridge.State) : State := { worker, bridge }

def Event.isSent (e : Event) : Prop := ∃ m, e = .sent m

def Event.isReceived (e : Event) : Prop := ∃ m alive, e = .received m alive

def Forced (a b : Event) : Prop := a = .idrRead → ∀ m, b = .sent m → m.isIdr

/-- The frame received next after a frame was dropped: an IDR, and the next in order if the
session goes on. -/
def Recovers (a b : Event) : Prop :=
  ∀ n, a = .dropped n → ∀ m alive, b = .received m alive →
    m.isIdr ∧ (alive → m.h.seq.toNat = n.h.seq.toNat + 1)

section worker
open Worker

/-- Waiting for the credit of a frame, or gone: nothing is sent before an ACK is read. -/
def Busy (w : Worker.State) : Prop := (∃ seq, w.phase = .acking seq) ∨ ∃ code, w.phase = .exited code

/-- No frame is sent, and a request that is kept stays kept. -/
structure Quiet (w w' : Worker.State) : Prop where
  sent : sent w'.history = sent w.history
  force : w.force → w'.force

theorem quiet_settle {w : Worker.State} {next : Except String Worker.State}
    (quiet : ∀ w', next = .ok w' → Quiet w w') : Quiet w (settle w next) := by
  cases next with
  | ok w' => exact quiet w' rfl
  | error x => exact ⟨rfl, id⟩

theorem quiet_recover {now : UInt64} {r : Reopen} {w w' : Worker.State}
    (recovered : recoverResume now r w = .ok w') : Quiet w w' := by
  cases recover_ok recovered with
  | stops _ after => exact after ▸ ⟨rfl, id⟩
  | fails _ after => exact after ▸ ⟨by simp [sent, Entry.message?], id⟩
  | reopens _ e _ _ after => exact after ▸ ⟨by simp [sent, Entry.message?], fun _ => rfl⟩

theorem testIdr_quiet (clock : UInt64) (w : Worker.State) : Quiet w (testIdr clock w) := by
  unfold testIdr
  split
  · exact ⟨rfl, fun _ => rfl⟩
  · exact ⟨rfl, id⟩

theorem Quiet.trans {w w₁ w' : Worker.State} (first : Quiet w w₁) (second : Quiet w₁ w') :
    Quiet w w' :=
  ⟨second.sent.trans first.sent, second.force ∘ first.force⟩

theorem quiet_control (m : Message) (w : Worker.State) : Quiet w (Worker.step w (.control m)) := by
  refine quiet_settle fun w' taken => ?_
  rcases control_ok taken with rfl | ⟨code, rfl⟩ | ⟨_, rfl⟩ | ⟨_, _, changed⟩ | ⟨_, _, rfl⟩
  · exact ⟨rfl, id⟩
  · exact ⟨rfl, id⟩
  · exact ⟨rfl, fun _ => rfl⟩
  · rcases setBitrate_ok changed with ⟨e, e', _, _, rfl⟩ | ⟨_, rfl⟩
    · exact ⟨rfl, fun _ => rfl⟩
    · exact ⟨rfl, fun _ => rfl⟩
  · exact ⟨rfl, id⟩

theorem step_sends (w : Worker.State) (l : Worker.Label) :
    Quiet w (Worker.step w l) ∨
    ∃ m, sent (Worker.step w l).history = sent w.history ++ [m] ∧ (w.force → m.isIdr) ∧
      w.phase = .picking ∧ Busy (Worker.step w l) := by
  have stay : Quiet w w := ⟨rfl, id⟩
  cases l with
  | signal => exact .inl ⟨rfl, id⟩
  | turn | drained | unchanged =>
    simp only [Worker.step]
    split <;> exact .inl ⟨rfl, id⟩
  | interrupted | broken =>
    simp only [Worker.step]
    split <;> exact .inl ⟨rfl, id⟩
  | control m => exact .inl (quiet_control m w)
  | reopen now r =>
    left
    simp only [Worker.step]
    split
    · exact quiet_settle fun w' => quiet_recover
    · exact stay
  | fault clock now r =>
    left
    simp only [Worker.step]
    split
    · exact quiet_settle fun w' recovered => (testIdr_quiet clock w).trans (quiet_recover recovered)
    · exact stay
  | changed clock after now r =>
    left
    simp only [Worker.step]
    split
    · refine quiet_settle fun w' recovered => ?_
      have quiet := quiet_recover recovered
      exact ⟨quiet.sent, quiet.force⟩
    · exact stay
  | frame clock dequeueUs out =>
    simp only [Worker.step]
    split
    next e picking pipeline =>
      cases result : encodeSend e dequeueUs out (testIdr clock w) with
      | error x => exact .inl ⟨rfl, id⟩
      | ok w' =>
        obtain ⟨m, e', encoded, rfl⟩ := encodeSend_ok result
        obtain ⟨_, _, valid⟩ := encode_ok encoded
        have idr := ((validateAu_iff m _).mp valid).2.2.1
        have before := testIdr_quiet clock w
        exact .inr ⟨m, by simp [settle, sent_frame, before.sent], idr ∘ before.force, picking,
          .inl ⟨_, rfl⟩⟩
    next => exact .inl stay

theorem step_busy {w : Worker.State} (busy : Busy w) {l : Worker.Label} (own : ∀ m, l ≠ .control m) :
    Busy (Worker.step w l) := by
  have elsewhere : w.phase ≠ .top ∧ w.phase ≠ .draining ∧ w.phase ≠ .picking ∧ w.phase ≠ .checking := by
    rcases busy with ⟨seq, phase⟩ | ⟨code, phase⟩ <;> rw [phase] <;> exact ⟨nofun, nofun, nofun, nofun⟩
  obtain ⟨top, draining, picking, checking⟩ := elsewhere
  cases l with
  | signal => exact busy
  | control m => exact absurd rfl (own m)
  | turn => rwa [Worker.step, if_neg top]
  | drained => rwa [Worker.step, if_neg draining]
  | unchanged clock after => rwa [Worker.step, if_neg checking]
  | changed clock after now r => rwa [Worker.step, if_neg fun at_ => checking at_.1]
  | reopen now r | fault clock now r | frame clock dequeueUs out =>
    simp only [Worker.step]
    split
    next _ picked _ => exact absurd picked picking
    next => exact busy
  | interrupted =>
    simp only [Worker.step]
    split
    · exact .inr ⟨0, rfl⟩
    · exact busy
  | broken =>
    simp only [Worker.step]
    split
    · exact busy
    · exact .inr ⟨75, rfl⟩

theorem control_idr {w : Worker.State} {m : Message} (idr : m.h.kind = .idr) (reading : w.phase.reads) :
    Worker.step w (.control m) = { w with force := true } := by
  have other : Kind.idr ≠ .stop ∧ Kind.idr ≠ .ack ∧ Kind.idr ≠ .bitrate := by decide
  rw [Worker.step, Worker.control]
  cases phase : w.phase with
  | draining => simp [idr, other, settle, pure, Except.pure]
  | acking seq => simp [idr, other, settle, pure, Except.pure]
  | top | picking | checking | exited code =>
    rw [phase] at reading
    cases reading

theorem control_busy {w : Worker.State} (busy : Busy w) {m : Message} (other : m.h.kind ≠ .ack) :
    Busy (Worker.step w (.control m)) := by
  rw [Worker.step]
  cases taken : Worker.control m w with
  | error x => exact .inr ⟨75, rfl⟩
  | ok w' =>
    rcases control_ok taken with rfl | ⟨code, rfl⟩ | ⟨_, rfl⟩ | ⟨_, _, changed⟩ | ⟨ack, _⟩
    · exact busy
    · exact .inr ⟨code, rfl⟩
    · exact busy
    · rcases setBitrate_ok changed with ⟨_, _, _, _, rfl⟩ | ⟨_, rfl⟩
      · exact busy
      · exact busy
    · exact absurd ack other

end worker

section bridge

def holding : Bridge.Phase → Nat
  | .raising _ | .full _ | .decided .. => 1
  | .waiting | .ended => 0

inductive Answers (b b' : Bridge.State) : List Event → Prop
  | quiet (controls : b'.controls = b.controls) (gate : b'.gate = b.gate)
      (held : holding b'.phase ≤ holding b.phase) : Answers b b' []
  | requests (controls : b'.controls = b.controls ++ [Bridge.idrControl]) (gate : b'.gate = b.gate)
      (held : holding b'.phase ≤ holding b.phase) : Answers b b' []
  | credits (m : Message) (deliver : Bool) (decided : b.phase = .decided m deliver)
      (controls : b'.controls = b.controls ++ [Bridge.ackControl m.h.seq]) (gate : b'.gate = b.gate)
      (free : b'.phase = .waiting) : Answers b b' []
  | drops (m : Message) (decided : b.phase = .decided m false)
      (controls : b'.controls = b.controls ++ [Bridge.idrControl, Bridge.ackControl m.h.seq])
      (gate : b'.gate = b.gate) (free : b'.phase = .waiting) : Answers b b' [.dropped m]

theorem bridge_answers (b : Bridge.State) (l : Bridge.Label) (own : ∀ m now, l ≠ .frame m now) :
    Answers b (Bridge.step b l) (drops b l) := by
  have stay : Answers b b [] := .quiet rfl rfl (Nat.le_refl _)
  cases l with
  | frame m now => exact absurd rfl (own m now)
  | requestIdr =>
    simp only [Bridge.step, drops]
    split
    · exact .requests rfl rfl (Nat.le_refl _)
    · exact stay
  | quiet now | shutdown =>
    simp only [Bridge.step, drops]
    split
    · exact .quiet rfl rfl (Nat.zero_le _)
    · exact stay
  | tryRaise =>
    simp only [Bridge.step, drops]
    split
    next m at_ =>
      split
      · exact .quiet rfl rfl (by rw [at_]; exact Nat.le_refl 1)
      · exact .quiet rfl rfl (by rw [at_]; exact Nat.le_refl 1)
    next => exact stay
  | waited shutdown clock =>
    simp only [Bridge.step, drops]
    split
    next m at_ =>
      split
      · exact .quiet rfl rfl (Nat.zero_le _)
      · split
        · exact .quiet rfl rfl (by rw [at_]; exact Nat.le_refl 1)
        · exact .quiet rfl rfl (by rw [at_]; exact Nat.le_refl 1)
    next => exact stay
  | broken => exact .quiet rfl rfl (Nat.zero_le _)
  | pop | stop => exact .quiet rfl rfl (Nat.le_refl _)
  | answer now =>
    cases at_ : b.phase with
    | waiting | raising m | full m | ended => simpa only [Bridge.step, drops, at_] using stay
    | decided m deliver =>
      simp only [Bridge.step, drops, at_]
      cases deliver with
      | true => exact .credits m true at_ rfl rfl rfl
      | false =>
        cases awaiting : b.awaitIdr with
        | true =>
          simp only [if_true]
          exact .credits m false at_ (by simp [Bridge.acknowledge, awaiting])
            (by simp [Bridge.acknowledge, awaiting]) rfl
        | false =>
          simp only [Bool.false_eq_true, if_false]
          exact .drops m at_ (by simp [Bridge.acknowledge, Bridge.requestIdr, awaiting])
            (by simp [Bridge.acknowledge, Bridge.requestIdr, awaiting]) rfl

theorem bridge_reads {b : Bridge.State} (idle : b.phase = .waiting) (m : Message) (now : UInt64) :
    let b' := Bridge.step b (.frame m now)
    b'.controls = b.controls ∧ holding b'.phase ≤ 1 ∧
      (b'.phase ≠ .ended → m.h.seq.toNat = b.gate.last.toNat + 1) := by
  simp only [Bridge.step, idle, if_true]
  split
  next b' received =>
    obtain ⟨gate, accepted, rfl⟩ := Bridge.receive_ok received
    obtain ⟨next, _⟩ := SequenceGate.accept_numbers accepted
    refine ⟨rfl, ?_, fun _ => next⟩
    dsimp only
    split <;> exact Nat.le_refl 1
  next => exact ⟨rfl, Nat.zero_le _, fun alive => absurd rfl alive⟩

end bridge

/-- Frames in flight or in hand, and credits in flight. -/
def State.tokens (s : State) : Nat :=
  s.frames.length + holding s.bridge.phase + s.controls.countP (·.h.kind = .ack)

/-- The frame that the bridge receives next will be an IDR: the request is on its way before
any credit, or kept by the worker, or the frame is on its way. -/
def Coming (s : State) : Prop :=
  (s.frames = [] ∧ (s.worker.force ∨ Busy s.worker ∧ ∃ before request after,
    s.controls = before ++ request :: after ∧ request.h.kind = .idr ∧
      ∀ m ∈ before, m.h.kind ≠ .ack)) ∨
  ∃ m, s.frames = [m] ∧ m.isIdr

structure Inv (s : State) : Prop where
  bridge : Bridge.Inv s.bridge
  controlsRead : s.controlsRead ≤ s.bridge.controls.length
  framesRead : s.framesRead ≤ (Worker.sent s.worker.history).length
  credit : s.tokens ≤ 1
  busy : 0 < s.tokens → Busy s.worker
  forced : Waits Event.isSent .idrRead s.log → s.worker.force
  answered : Followed Event.isSent Forced s.log
  coming : ∀ n, Waits Event.isReceived (.dropped n) s.log →
    n.h.seq.toNat = s.bridge.gate.last.toNat ∧ Coming s
  recovers : Followed Event.isReceived Recovers s.log

section step
variable {s : State}

theorem drop_next {A : Type} {xs rest : List A} {n : Nat} {x : A} (next : xs.drop n = x :: rest) :
    n < xs.length ∧ xs.drop (n + 1) = rest := by
  have length := congrArg List.length next
  have tail := congrArg List.tail next
  rw [List.length_drop, List.length_cons] at length
  rw [List.tail_drop] at tail
  exact ⟨by omega, tail⟩

theorem coming_mono {s' : State} (coming : Coming s) (frames : s'.frames = s.frames)
    (force : s.worker.force → s'.worker.force) (busy : Busy s.worker → Busy s'.worker)
    {more : List Message} (controls : s'.controls = s.controls ++ more) : Coming s' := by
  rcases coming with ⟨none, kept | ⟨held, before, request, after, sent, idr, free⟩⟩ | ⟨m, one, idr⟩
  · exact .inl ⟨frames.trans none, .inl (force kept)⟩
  · refine .inl ⟨frames.trans none, .inr ⟨busy held, before, request, after ++ more, ?_, idr, free⟩⟩
    rw [controls, sent, List.append_assoc, List.cons_append]
  · exact .inr ⟨m, frames.trans one, idr⟩

/-- A control that the worker reads is not lost: an IDR request is kept, and no credit
is ahead of one. -/
theorem coming_control {s' : State} {m : Message} {rest : List Message} (next : s.controls = m :: rest)
    (controls : s'.controls = rest) (frames : s'.frames = s.frames) (force : s.worker.force → s'.worker.force)
    (forced : m.h.kind = .idr → s'.worker.force)
    (busy : Busy s.worker → m.h.kind ≠ .ack → Busy s'.worker) (coming : Coming s) : Coming s' := by
  rcases coming with ⟨none, kept | ⟨held, before, request, after, sent, idr, free⟩⟩ | ⟨m', one, idr⟩
  · exact .inl ⟨frames.trans none, .inl (force kept)⟩
  · rw [next] at sent
    cases before with
    | nil =>
      obtain ⟨rfl, _⟩ := List.cons.inj sent
      exact .inl ⟨frames.trans none, .inl (forced idr)⟩
    | cons x before =>
      obtain ⟨rfl, later⟩ := List.cons.inj sent
      obtain ⟨other, free⟩ := List.forall_mem_cons.mp free
      exact .inl ⟨frames.trans none,
        .inr ⟨busy held other, before, request, after, controls.trans later, idr, free⟩⟩
  · exact .inr ⟨m', frames.trans one, idr⟩

theorem inv_quiet (inv : Inv s) {w : Worker.State} (quiet : Quiet s.worker w)
    (busy : Busy s.worker → Busy w) : Inv { s with worker := w } := by
  have frames : State.frames { s with worker := w } = s.frames := by
    rw [State.frames, quiet.sent, State.frames]
  have tokens : State.tokens { s with worker := w } = s.tokens := by
    rw [State.tokens, frames, State.tokens]
    rfl
  exact { inv with
    framesRead := by
      dsimp only
      rw [quiet.sent]
      exact inv.framesRead
    credit := tokens ▸ inv.credit
    busy := fun some => busy (inv.busy (tokens ▸ some))
    forced := fun waits => quiet.force (inv.forced waits)
    coming := fun n waits => ⟨(inv.coming n waits).1,
      coming_mono (inv.coming n waits).2 frames quiet.force busy (List.append_nil _).symm⟩ }

theorem inv_sends (inv : Inv s) {w : Worker.State} {m : Message}
    (sent : Worker.sent w.history = Worker.sent s.worker.history ++ [m])
    (idr : s.worker.force → m.isIdr) (idle : ¬ Busy s.worker) (busy : Busy w) :
    Inv { s with worker := w, log := s.log ++ [.sent m] } := by
  have none : s.tokens = 0 := Nat.eq_zero_of_not_pos fun some => idle (inv.busy some)
  rw [State.tokens] at none
  have no_frames : s.frames = [] := List.eq_nil_of_length_eq_zero (by omega)
  have frames : State.frames { s with worker := w, log := s.log ++ [.sent m] } = [m] := by
    rw [State.frames, sent, List.drop_append_of_le_length inv.framesRead, ← State.frames, no_frames,
      List.nil_append]
  have tokens : State.tokens { s with worker := w, log := s.log ++ [.sent m] } = 1 := by
    rw [State.tokens, frames, List.length_singleton]
    show 1 + holding s.bridge.phase + s.controls.countP (·.h.kind = .ack) = 1
    omega
  have closing : Event.isSent (.sent m) := ⟨m, rfl⟩
  exact { inv with
    framesRead := by
      have before := inv.framesRead
      dsimp only
      rw [sent, List.length_append]
      omega
    credit := Nat.le_of_eq tokens
    busy := fun _ => busy
    forced := fun waits => absurd closing (waits_before waits nofun).1
    answered := by
      refine (followed_concat _ _).mpr ⟨inv.answered, fun _ a waits asked m' same => ?_⟩
      cases asked
      cases same
      exact idr (inv.forced waits)
    coming := by
      intro n waits
      obtain ⟨last, coming⟩ := inv.coming n (waits_before waits nofun).2
      refine ⟨last, .inr ⟨m, frames, ?_⟩⟩
      rcases coming with ⟨_, kept | ⟨held, _⟩⟩ | ⟨m', one, _⟩
      · exact idr kept
      · exact absurd held idle
      · rw [no_frames] at one
        cases one
    recovers := followed_open inv.recovers nofun }

theorem inv_control (inv : Inv s) {m : Message} {rest : List Message} (next : s.controls = m :: rest)
    (reading : s.worker.phase.reads) :
    Inv { s with worker := Worker.step s.worker (.control m), controlsRead := s.controlsRead + 1,
                 log := s.log ++ if m.h.kind = .idr then [.idrRead] else [] } := by
  generalize result : { s with
    worker := Worker.step s.worker (.control m), controlsRead := s.controlsRead + 1,
    log := s.log ++ if m.h.kind = Kind.idr then [Event.idrRead] else [] } = s'
  have quiet := quiet_control m s.worker
  have worker : s'.worker = Worker.step s.worker (.control m) := by rw [← result]
  have bridge : s'.bridge = s.bridge := by rw [← result]
  obtain ⟨room, tail⟩ := drop_next next
  have controls : s'.controls = rest := by
    rw [State.controls, ← result]
    exact tail
  have frames : s'.frames = s.frames := by
    rw [State.frames, worker, quiet.sent, State.frames, ← result]
  have tokens : s.tokens = s'.tokens + if m.h.kind = .ack then 1 else 0 := by
    rw [State.tokens, State.tokens, frames, controls, bridge, next, List.countP_cons]
    simp only [decide_eq_true_eq]
    omega
  have log : s'.log = s.log ∨ s'.log = s.log ++ [.idrRead] ∧ m.h.kind = .idr := by
    rw [← result]
    by_cases idr : m.h.kind = .idr
    · exact .inr ⟨by simp only [idr, if_true], idr⟩
    · exact .inl (by simp only [idr, if_false, List.append_nil])
  have waits_idr (waits : Waits Event.isSent .idrRead s'.log) :
      Waits Event.isSent .idrRead s.log ∨ m.h.kind = .idr := by
    rcases log with same | ⟨_, idr⟩
    · exact .inl (same ▸ waits)
    · exact .inr idr
  have forced (idr : m.h.kind = .idr) : s'.worker.force := by
    rw [worker, control_idr idr reading]
  have credit := inv.credit
  have busy_of (busy : Busy s.worker) (other : m.h.kind ≠ .ack) : Busy s'.worker :=
    worker ▸ control_busy busy other
  have busy (some : 0 < s'.tokens) : Busy s'.worker := by
    by_cases ack : m.h.kind = .ack
    · rw [if_pos ack] at tokens
      omega
    · exact busy_of (inv.busy (by omega)) ack
  refine ⟨bridge ▸ inv.bridge, ?_, ?_, by omega, busy, ?_, ?_, ?_, ?_⟩
  · rw [← result]
    exact room
  · rw [worker, quiet.sent, ← result]
    exact inv.framesRead
  · intro waits
    rcases waits_idr waits with waits | idr
    · exact worker ▸ quiet.force (inv.forced waits)
    · exact forced idr
  · rcases log with same | ⟨more, _⟩
    · exact same ▸ inv.answered
    · exact more ▸ followed_open inv.answered nofun
  · intro n waits
    have waits : Waits Event.isReceived (.dropped n) s.log := by
      rcases log with same | ⟨more, _⟩
      · exact same ▸ waits
      · rw [more] at waits
        exact (waits_before waits nofun).2
    obtain ⟨last, coming⟩ := inv.coming n waits
    have kept : s.worker.force → s'.worker.force := worker ▸ quiet.force
    exact ⟨bridge ▸ last, coming_control next controls frames kept forced busy_of coming⟩
  · rcases log with same | ⟨more, _⟩
    · exact same ▸ inv.recovers
    · exact more ▸ followed_open inv.recovers nofun

theorem inv_frame (inv : Inv s) {m : Message} {rest : List Message} (next : s.frames = m :: rest)
    (idle : s.bridge.phase = .waiting) (now : UInt64) :
    Inv { s with bridge := Bridge.step s.bridge (.frame m now), framesRead := s.framesRead + 1,
                 log := s.log ++
                  [.received m ((Bridge.step s.bridge (.frame m now)).phase ≠ .ended)] } := by
  obtain ⟨controls, held, in_order⟩ := bridge_reads idle m now
  have kept := Bridge.inv_step s.bridge (.frame m now) inv.bridge
  generalize Bridge.step s.bridge (.frame m now) = b at controls held in_order kept ⊢
  have credit := inv.credit
  obtain ⟨room, frames⟩ := drop_next next
  have was : s.tokens = 1 + rest.length + s.controls.countP (·.h.kind = .ack) := by
    rw [State.tokens, next, idle, List.length_cons, holding]
    omega
  have tokens : State.tokens { s with
      bridge := b, framesRead := s.framesRead + 1,
      log := s.log ++ [.received m (b.phase ≠ .ended)] } ≤ s.tokens := by
    rw [State.tokens, State.frames, frames, was, State.controls, State.controls, controls]
    dsimp only
    omega
  have closing : Event.isReceived (.received m (b.phase ≠ .ended)) := ⟨m, _, rfl⟩
  exact { inv with
    bridge := kept
    controlsRead := by
      dsimp only
      rw [controls]
      exact inv.controlsRead
    framesRead := room
    credit := Nat.le_trans tokens credit
    busy := fun some => inv.busy (Nat.lt_of_lt_of_le some tokens)
    forced := fun waits => inv.forced (waits_before waits nofun).2
    answered := followed_open inv.answered nofun
    coming := fun n waits => absurd closing (waits_before waits nofun).1
    recovers := by
      refine (followed_concat _ _).mpr ⟨inv.recovers, fun _ a waits n from_ m' alive same => ?_⟩
      cases from_
      cases same
      obtain ⟨last, coming⟩ := inv.coming n waits
      refine ⟨?_, fun alive => ?_⟩
      · rcases coming with ⟨none, _⟩ | ⟨m', one, idr⟩
        · rw [next] at none
          cases none
        · rw [next] at one
          exact (List.cons.inj one).1 ▸ idr
      · rw [in_order (by simpa using alive), last] }

theorem controls_more (inv : Inv s) {b : Bridge.State} {more : List Message}
    (sent : b.controls = s.bridge.controls ++ more) (log : List Event) :
    State.controls { s with bridge := b, log } = s.controls ++ more := by
  rw [State.controls, sent, List.drop_append_of_le_length inv.controlsRead, State.controls]

theorem inv_answers (inv : Inv s) {b : Bridge.State} (kept : Bridge.Inv b) {more : List Message}
    (sent : b.controls = s.bridge.controls ++ more) (gate : b.gate = s.bridge.gate)
    (held : holding b.phase + more.countP (·.h.kind = .ack) ≤ holding s.bridge.phase) :
    Inv { s with bridge := b, log := s.log ++ [] } := by
  have controls := controls_more inv sent (s.log ++ [])
  have tokens : State.tokens { s with bridge := b, log := s.log ++ [] } ≤ s.tokens := by
    rw [State.tokens, controls, List.countP_append, State.tokens]
    show s.frames.length + holding b.phase + _ ≤ _
    omega
  rw [List.append_nil] at controls tokens ⊢
  exact { inv with
    bridge := kept
    controlsRead := by
      have before := inv.controlsRead
      dsimp only
      rw [sent, List.length_append]
      omega
    credit := Nat.le_trans tokens inv.credit
    busy := fun some => inv.busy (Nat.lt_of_lt_of_le some tokens)
    coming := fun n waits => ⟨by rw [gate]; exact (inv.coming n waits).1,
      coming_mono (inv.coming n waits).2 rfl id id controls⟩ }

theorem inv_bridge (inv : Inv s) {l : Bridge.Label} (own : ∀ m now, l ≠ .frame m now) :
    Inv { s with bridge := Bridge.step s.bridge l, log := s.log ++ drops s.bridge l } := by
  have answers := bridge_answers s.bridge l own
  have kept := Bridge.inv_step s.bridge l inv.bridge
  have credit := inv.credit
  generalize Bridge.step s.bridge l = b at answers kept ⊢
  generalize drops s.bridge l = events at answers ⊢
  cases answers with
  | quiet controls gate held =>
    have none : b.controls = s.bridge.controls ++ [] := by rw [controls, List.append_nil]
    exact inv_answers inv kept none gate held
  | requests controls gate held => exact inv_answers inv kept controls gate held
  | credits m deliver decided controls gate free =>
    refine inv_answers inv kept controls gate ?_
    rw [free, decided]
    exact Nat.le_refl 1
  | drops m decided sent gate free =>
    have controls := controls_more inv sent (s.log ++ [.dropped m])
    have tokens : State.tokens { s with bridge := b, log := s.log ++ [.dropped m] } = s.tokens := by
      rw [State.tokens, controls, List.countP_append, State.tokens, free, decided]
      show s.frames.length + 0 + (s.controls.countP _ + 1) = _
      rw [holding]
      omega
    have held : s.tokens = s.frames.length + 1 + s.controls.countP (·.h.kind = .ack) := by
      rw [State.tokens, decided, holding]
    have no_frames : s.frames = [] := List.eq_nil_of_length_eq_zero (by omega)
    have no_credit : ∀ m ∈ s.controls, m.h.kind ≠ .ack := by
      intro m' member ack
      have none : s.controls.countP (·.h.kind = .ack) = 0 := by omega
      exact List.countP_eq_zero.mp none m' member (decide_eq_true ack)
    have last : m.h.seq.toNat = b.gate.last.toNat := by
      have in_hand := inv.bridge.held
      rw [Bridge.Held, decided] at in_hand
      rw [gate, inv.bridge.last, Bridge.last_seq inv.bridge.numbered in_hand.1]
    exact { inv with
      bridge := kept
      controlsRead := by
        have before := inv.controlsRead
        dsimp only
        rw [sent, List.length_append]
        omega
      credit := tokens ▸ credit
      busy := fun some => inv.busy (tokens ▸ some)
      forced := fun waits => inv.forced (waits_before waits (by simp)).2
      answered := followed_open inv.answered (by simp [Event.isSent])
      coming := by
        intro n waits
        rcases (waits_concat _ _ _).mp waits with same | ⟨_, waits⟩
        · cases same
          exact ⟨last, .inl ⟨no_frames, .inr ⟨inv.busy (by omega), s.controls, Bridge.idrControl,
            [Bridge.ackControl m.h.seq], controls, rfl, no_credit⟩⟩⟩
        · obtain ⟨earlier, coming⟩ := inv.coming n waits
          exact ⟨by rw [gate]; exact earlier, coming_mono coming rfl id id controls⟩
      recovers := followed_open inv.recovers (by simp [Event.isReceived]) }

theorem inv_worker (inv : Inv s) {l : Worker.Label} (own : ∀ m, l ≠ .control m) :
    Inv (step s (.worker l)) := by
  have same : step s (.worker l) = { s with
      worker := Worker.step s.worker l,
      log := s.log ++ ((Worker.sent (Worker.step s.worker l).history).drop
        (Worker.sent s.worker.history).length).map .sent } := by
    cases l with
    | control m => exact absurd rfl (own m)
    | _ => rfl
  rw [same]
  rcases step_sends s.worker l with quiet | ⟨m, sent, idr, picking, busy⟩
  · rw [quiet.sent, List.drop_length, List.map_nil, List.append_nil]
    exact inv_quiet inv quiet fun busy => step_busy busy own
  · have idle : ¬ Busy s.worker := by
      rintro (⟨seq, phase⟩ | ⟨code, phase⟩) <;> rw [picking] at phase <;> cases phase
    rw [sent, List.drop_left]
    exact inv_sends inv sent idr idle busy

theorem inv_step (s : State) (l : Label) (inv : Inv s) : Inv (step s l) := by
  cases l with
  | control =>
    rw [step]
    split
    next m rest next =>
      split
      next reading => exact inv_control inv next reading
      next => exact inv
    next => exact inv
  | worker l =>
    cases l with
    | control m => exact inv
    | _ => exact inv_worker inv nofun
  | frame now =>
    rw [step]
    split
    next m rest next =>
      split
      next idle => exact inv_frame inv next idle now
      next => exact inv
    next => exact inv
  | bridge l =>
    cases l with
    | frame m now => exact inv
    | _ => exact inv_bridge inv nofun

end step

theorem inv_start (config : Config) (idrAt : UInt32) (direct fullRange : Bool) (clock : UInt64)
    (seen : Config) (lastProgress : UInt64) :
    Inv (start (Worker.begin config idrAt direct fullRange clock) (Bridge.start seen lastProgress)) := by
  have nothing : (Worker.begin config idrAt direct fullRange clock).history = [] := by
    rw [Worker.begin]
    split <;> rfl
  have tokens : State.tokens (start (Worker.begin config idrAt direct fullRange clock)
      (Bridge.start seen lastProgress)) = 0 := by
    rw [State.tokens, State.frames, start, nothing]
    rfl
  exact ⟨Bridge.inv_start seen lastProgress, Nat.zero_le _, Nat.zero_le _, by omega, by omega,
    fun waits => absurd waits (waits_nil _), followed_nil, fun n waits => absurd waits (waits_nil _),
    followed_nil⟩

/-- Whatever the order of the steps at the two ends: the frame that the worker sends next after
it has read an IDR control is an IDR, and so is the frame that the bridge receives next after it
has dropped one while it awaited none; that frame is the next in order unless the session ends. -/
theorem idr_never_lost (config : Config) (idrAt : UInt32) (direct fullRange : Bool) (clock : UInt64)
    (seen : Config) (lastProgress : UInt64) (ls : List Label) :
    let s := run step (start (Worker.begin config idrAt direct fullRange clock)
      (Bridge.start seen lastProgress)) ls
    Followed Event.isSent Forced s.log ∧ Followed Event.isReceived Recovers s.log := by
  intro s
  have inv : Inv s := run_invariant step Inv inv_step
    (inv_start config idrAt direct fullRange clock seen lastProgress) ls
  exact ⟨inv.answered, inv.recovers⟩

end Video.Session

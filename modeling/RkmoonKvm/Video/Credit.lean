import Mathlib.Algebra.Order.Ring.Nat
import RkmoonKvm.Video.Rate
import RkmoonKvm.Video.Session

/-! The credit of the worker's socket: one access unit at a time, from the frame that the worker
sends to the ACK that it reads, in whatever order the two ends take their steps. -/
namespace Video.Credit
open Runs Session

def awaits (w : Worker.State) : Option UInt64 :=
  match w.phase with
  | .acking seq => some seq
  | _ => none

def inHand : Bridge.Phase → List Message
  | .raising m | .full m | .decided m _ => [m]
  | .waiting | .ended => []

def grants (controls : List Message) : List UInt64 :=
  (controls.filter (·.h.kind = .ack)).map (·.h.seq)

/-- The access units sent and not yet credited, wherever they are. -/
def outstanding (s : State) : List UInt64 :=
  grants s.controls ++ (inHand s.bridge.phase ++ s.frames).map (·.h.seq)

def acksRead (s : State) : Nat := (grants (s.bridge.controls.take s.controlsRead)).length

@[simp] theorem grants_append (controls more : List Message) :
    grants (controls ++ more) = grants controls ++ grants more := by
  simp [grants]

theorem grants_cons (m : Message) (rest : List Message) :
    grants (m :: rest) = (if m.h.kind = .ack then [m.h.seq] else []) ++ grants rest := by
  by_cases ack : m.h.kind = .ack
  · simp [grants, ack]
  · simp [grants, ack]

theorem holding_inHand (p : Bridge.Phase) : holding p = (inHand p).length := by
  cases p <;> rfl

theorem outstanding_length (s : State) : (outstanding s).length = s.tokens := by
  rw [State.tokens, outstanding, holding_inHand, List.countP_eq_length_filter]
  simp only [grants, List.length_append, List.length_map]
  omega

theorem awaits_some {w : Worker.State} {seq : UInt64} : awaits w = some seq ↔ w.phase = .acking seq := by
  unfold awaits
  cases w.phase <;> simp

section worker
open Worker

theorem awaits_idle {w : Worker.State} (idle : ¬ Busy w) : awaits w = none := by
  cases awaited : awaits w with
  | none => rfl
  | some seq => exact absurd (.inl ⟨seq, awaits_some.mp awaited⟩) idle

theorem idle_at {w : Worker.State} {p : Worker.Phase} (at_ : w.phase = p)
    (other : ¬ ((∃ seq, p = .acking seq) ∨ ∃ code, p = .exited code)) : ¬ Busy w := by
  rintro (⟨seq, acking⟩ | ⟨code, exited⟩)
  · exact other (.inl ⟨seq, at_.symm.trans acking⟩)
  · exact other (.inr ⟨code, at_.symm.trans exited⟩)

/-- What a step of the worker, other than reading a control, does to its socket. -/
inductive Turns (w w' : Worker.State) : Prop
  | idles (sent : sent w'.history = sent w.history) (awaits : awaits w' = awaits w)
      (exited : ∀ code, w.phase = .exited code → w'.phase = .exited code)
  | exits (code : Nat) (sent : sent w'.history = sent w.history) (exited : w'.phase = .exited code)
  | sends (m : Message) (sent : sent w'.history = sent w.history ++ [m]) (idle : ¬ Busy w)
      (awaits : w'.phase = .acking m.h.seq)

theorem turns_idle {w w' : Worker.State} (idle : ¬ Busy w) (sent : sent w'.history = sent w.history)
    (awaits' : awaits w' = none) : Turns w w' :=
  .idles sent (by rw [awaits', awaits_idle idle]) fun code exited => absurd (.inr ⟨code, exited⟩) idle

theorem turns_settle {w : Worker.State} {next : Except String Worker.State}
    (turns : ∀ w', next = .ok w' → Turns w w') : Turns w (settle w next) := by
  cases next with
  | ok w' => exact turns w' rfl
  | error x => exact .exits 75 rfl rfl

theorem turns_recover {now : UInt64} {r : Reopen} {w w₁ w' : Worker.State}
    (recovered : recoverResume now r w₁ = .ok w') (history : w₁.history = w.history)
    (idle : ¬ Busy w) : Turns w w' := by
  cases recover_ok recovered with
  | stops _ after =>
    subst after
    exact turns_idle idle (congrArg sent history) rfl
  | fails _ after =>
    subst after
    exact turns_idle idle (by simp [sent, Entry.message?, history]) rfl
  | reopens _ e _ _ after =>
    subst after
    exact turns_idle idle (by simp [sent, Entry.message?, history]) rfl

theorem step_turns (w : Worker.State) {l : Worker.Label} (own : ∀ m, l ≠ .control m) :
    Turns w (Worker.step w l) := by
  have stay : Turns w w := .idles rfl rfl fun _ => id
  cases l with
  | control m => exact absurd rfl (own m)
  | signal => exact .idles rfl rfl fun _ => id
  | turn =>
    simp only [Worker.step]
    split
    next top =>
      cases stopping : w.stopping with
      | true => exact .exits 0 rfl rfl
      | false => exact turns_idle (idle_at top (by simp)) rfl rfl
    next => exact stay
  | drained =>
    simp only [Worker.step]
    split
    next draining => exact turns_idle (idle_at draining (by simp)) rfl rfl
    next => exact stay
  | reopen now r =>
    simp only [Worker.step]
    split
    next picking _ =>
      have idle := idle_at picking (by simp)
      exact turns_settle fun w' recovered => turns_recover recovered rfl idle
    next => exact stay
  | fault clock now r =>
    simp only [Worker.step]
    split
    next picking _ =>
      have idle := idle_at picking (by simp)
      have history := (Rate.testIdr_same clock w).2.1
      exact turns_settle fun w' recovered => turns_recover recovered history idle
    next => exact stay
  | frame clock dequeueUs out =>
    simp only [Worker.step]
    split
    next e picking pipeline =>
      refine turns_settle fun w' result => ?_
      obtain ⟨m, e', encoded, rfl⟩ := encodeSend_ok result
      have history := (Rate.testIdr_same clock w).2.1
      exact .sends m (by simp only [sent_frame, history]) (idle_at picking (by simp)) rfl
    next => exact stay
  | interrupted =>
    simp only [Worker.step]
    split
    · exact .exits 0 rfl rfl
    · exact stay
  | unchanged clock after =>
    simp only [Worker.step]
    split
    next checking => exact turns_idle (idle_at checking (by simp)) rfl rfl
    next => exact stay
  | changed clock after now r =>
    simp only [Worker.step]
    split
    next checking =>
      have idle := idle_at checking.1 (by simp)
      exact turns_settle fun w' recovered => turns_recover recovered rfl idle
    next => exact stay
  | broken =>
    simp only [Worker.step]
    split
    · exact stay
    · exact .exits 75 rfl rfl

/-- The controls that the bridge sends: an IDR request is kept, and an ACK is taken if it is for the
access unit that is awaited. -/
theorem control_taken {w : Worker.State} {m : Message} (kind : m.h.kind = .idr ∨ m.h.kind = .ack)
    (credit : m.h.kind = .ack → w.phase = .acking m.h.seq) (reading : w.phase.reads) :
    (m.h.kind = .idr ∧ Worker.control m w = .ok { w with force := true }) ∨
    (m.h.kind = .ack ∧ Worker.control m w = .ok { w with phase := .checking }) := by
  have other : Kind.idr ≠ .stop ∧ Kind.idr ≠ .ack := by decide
  rcases kind with idr | ack
  · refine .inl ⟨idr, ?_⟩
    unfold Worker.control
    cases phase : w.phase with
    | draining => simp [idr, other, pure, Except.pure]
    | acking seq => simp [idr, other, pure, Except.pure]
    | top | picking | checking | exited code =>
      rw [phase] at reading
      cases reading
  · refine .inr ⟨ack, ?_⟩
    simp only [Worker.control, credit ack, ack, if_true, ne_eq, not_true_eq_false, if_false]
    rfl

end worker

section bridge

/-- What a step of the bridge, other than reading a frame, sends: no ACK but the one for the frame in
hand, which the bridge then no longer holds. -/
structure Serves (b b' : Bridge.State) (more : List Message) : Prop where
  controls : b'.controls = b.controls ++ more
  kinds : ∀ m ∈ more, m.h.kind = .idr ∨ m.h.kind = .ack
  accepted : b'.accepted = b.accepted
  fixed : b'.config = b.config ∧ b'.gate = b.gate
  ended : b.phase = .ended → b'.phase = .ended
  answers : grants more ++ (inHand b'.phase).map (·.h.seq) = (inHand b.phase).map (·.h.seq) ∨
    b'.phase = .ended ∧ more = []

theorem serves_quiet {b b' : Bridge.State} (controls : b'.controls = b.controls)
    (accepted : b'.accepted = b.accepted) (fixed : b'.config = b.config ∧ b'.gate = b.gate)
    (ended : b.phase = .ended → b'.phase = .ended)
    (hand : inHand b'.phase = inHand b.phase ∨ b'.phase = .ended) : Serves b b' [] where
  controls := by rw [controls, List.append_nil]
  kinds := fun m none => absurd none List.not_mem_nil
  accepted := accepted
  fixed := fixed
  ended := ended
  answers := by
    rcases hand with same | ends
    · exact .inl (by rw [same]; rfl)
    · exact .inr ⟨ends, rfl⟩

theorem step_serves (b : Bridge.State) {l : Bridge.Label} (own : ∀ m now, l ≠ .frame m now) :
    ∃ more, Serves b (Bridge.step b l) more := by
  have stay : ∃ more, Serves b b more := ⟨[], serves_quiet rfl rfl ⟨rfl, rfl⟩ id (.inl rfl)⟩
  cases l with
  | frame m now => exact absurd rfl (own m now)
  | requestIdr =>
    simp only [Bridge.step]
    split
    · exact ⟨[Bridge.idrControl], rfl, by simp [Bridge.idrControl], rfl, ⟨rfl, rfl⟩, id, .inl rfl⟩
    · exact stay
  | quiet now | shutdown =>
    simp only [Bridge.step]
    split
    · exact ⟨[], serves_quiet rfl rfl ⟨rfl, rfl⟩ (fun _ => rfl) (.inr rfl)⟩
    · exact stay
  | tryRaise =>
    simp only [Bridge.step]
    split
    next m raising =>
      split
      · exact ⟨[], serves_quiet rfl rfl ⟨rfl, rfl⟩ (by simp [raising]) (.inl (by rw [raising]; rfl))⟩
      · exact ⟨[], serves_quiet rfl rfl ⟨rfl, rfl⟩ (by simp [raising]) (.inl (by rw [raising]; rfl))⟩
    next => exact stay
  | waited shutdown clock =>
    simp only [Bridge.step]
    split
    next m full =>
      split
      · exact ⟨[], serves_quiet rfl rfl ⟨rfl, rfl⟩ (fun _ => rfl) (.inr rfl)⟩
      · split
        · exact ⟨[], serves_quiet rfl rfl ⟨rfl, rfl⟩ (by simp [full]) (.inl (by rw [full]; rfl))⟩
        · exact ⟨[], serves_quiet rfl rfl ⟨rfl, rfl⟩ (by simp [full]) (.inl (by rw [full]; rfl))⟩
    next => exact stay
  | answer now =>
    simp only [Bridge.step]
    split
    next m deliver decided =>
      have ack (b' : Bridge.State) (controls : b'.controls = b.controls ++ [Bridge.ackControl m.h.seq])
          (accepted : b'.accepted = b.accepted) (fixed : b'.config = b.config ∧ b'.gate = b.gate)
          (free : b'.phase = .waiting) : ∃ more, Serves b b' more :=
        ⟨[Bridge.ackControl m.h.seq], controls, by simp [Bridge.ackControl], accepted, fixed,
          by simp [decided], .inl (by rw [free, decided]; rfl)⟩
      cases deliver with
      | true => exact ack _ rfl rfl ⟨rfl, rfl⟩ rfl
      | false =>
        cases awaiting : b.awaitIdr with
        | true =>
          refine ack _ ?_ ?_ ?_ rfl
          · simp [Bridge.acknowledge, awaiting]
          · simp [Bridge.acknowledge, awaiting]
          · simp [Bridge.acknowledge, awaiting]
        | false =>
          refine ⟨[Bridge.idrControl, Bridge.ackControl m.h.seq], ?_, ?_, ?_, ?_, by simp [decided],
            .inl (by rw [decided]; rfl)⟩
          · simp [Bridge.acknowledge, Bridge.requestIdr, awaiting]
          · simp [Bridge.idrControl, Bridge.ackControl]
          · simp [Bridge.acknowledge, Bridge.requestIdr, awaiting]
          · simp [Bridge.acknowledge, Bridge.requestIdr, awaiting]
    next => exact stay
  | broken => exact ⟨[], serves_quiet rfl rfl ⟨rfl, rfl⟩ (fun _ => rfl) (.inr rfl)⟩
  | pop | stop => exact ⟨[], serves_quiet rfl rfl ⟨rfl, rfl⟩ id (.inl rfl)⟩

theorem step_reads {b : Bridge.State} (idle : b.phase = .waiting) (m : Message) (now : UInt64) :
    let b' := Bridge.step b (.frame m now)
    b'.controls = b.controls ∧ b'.config = b.config ∧
      (inHand b'.phase = [m] ∧ b'.phase ≠ .ended ∧ b'.accepted = b.accepted ++ [m] ∧
          b'.gate.needIdr = false ∨
        b'.phase = .ended ∧ b'.accepted = b.accepted ∧ b'.gate = b.gate) := by
  simp only [Bridge.step, idle, if_true]
  split
  next b' received =>
    obtain ⟨gate, accepted, rfl⟩ := Bridge.receive_ok received
    have opened := (SequenceGate.accept_numbers accepted).2.2.1
    refine ⟨rfl, rfl, .inl ?_⟩
    dsimp only
    split <;> exact ⟨rfl, fun same => (by cases same), rfl, opened⟩
  next => exact ⟨rfl, rfl, .inr ⟨rfl, rfl, rfl⟩⟩

end bridge

/-- Where the credit of the one access unit is, and how the counts at the two ends agree. -/
structure Inv (s : State) : Prop where
  session : Session.Inv s
  kinds : ∀ m ∈ s.controls, m.h.kind = .idr ∨ m.h.kind = .ack
  owed : ∀ seq, awaits s.worker = some seq →
    outstanding s = [seq] ∨ s.bridge.phase = .ended ∧ outstanding s = []
  read : s.bridge.phase ≠ .ended → s.bridge.accepted = (Worker.sent s.worker.history).take s.framesRead
  opened : s.bridge.gate.needIdr → s.bridge.accepted = []
  granted : grants s.bridge.controls ++ (inHand s.bridge.phase).map (·.h.seq) =
      s.bridge.accepted.map (·.h.seq) ∨
    s.bridge.phase = .ended ∧ grants s.bridge.controls <+: s.bridge.accepted.map (·.h.seq)
  counted : (Worker.sent s.worker.history).length = acksRead s + (awaits s.worker).toList.length ∨
    (∃ code, s.worker.phase = .exited code) ∧ (Worker.sent s.worker.history).length ≤ acksRead s + 1

section step
variable {s : State}

theorem take_next {A : Type} {xs rest : List A} {n : Nat} {x : A} (next : xs.drop n = x :: rest) :
    xs.take (n + 1) = xs.take n ++ [x] := by
  have head := congrArg List.head? next
  rw [List.head?_drop, List.head?_cons] at head
  rw [List.take_add_one, head, Option.toList_some]

theorem owed_part {seq : UInt64} {some some' : List UInt64} {p p' : Bridge.Phase}
    (owed : some = [seq] ∨ p = .ended ∧ some = []) (part : some'.Sublist some) (ended : p' = .ended) :
    some' = [seq] ∨ p' = .ended ∧ some' = [] := by
  rcases owed with one | ⟨_, none⟩
  · rw [one, List.sublist_singleton] at part
    exact part.symm.imp_right fun none => ⟨ended, none⟩
  · rw [none, List.sublist_nil] at part
    exact .inr ⟨ended, part⟩

/-- A worker that awaits no credit and has not exited is owed none. -/
theorem outstanding_none (inv : Session.Inv s) (idle : ¬ Busy s.worker) : outstanding s = [] := by
  have none : s.tokens = 0 := Nat.eq_zero_of_not_pos fun some => idle (inv.busy some)
  exact List.eq_nil_of_length_eq_zero (by rw [outstanding_length, none])

theorem inv_control (inv : Inv s) {m : Message} {rest : List Message} (next : s.controls = m :: rest)
    (reading : s.worker.phase.reads) :
    ∃ w, Worker.control m s.worker = .ok w ∧ (w.phase = s.worker.phase ∨ w.phase = .checking) ∧
      w.history = s.worker.history ∧ Inv (step s .control) := by
  have session := Session.inv_step s .control inv.session
  have kind := inv.kinds m (by rw [next]; exact List.mem_cons_self)
  have credit (ack : m.h.kind = .ack) : s.worker.phase = .acking m.h.seq := by
    have member : m.h.seq ∈ outstanding s := by simp [outstanding, next, grants_cons, ack]
    cases phase : s.worker.phase with
    | draining =>
      rw [outstanding_none inv.session (idle_at phase (by simp))] at member
      cases member
    | acking seq =>
      rcases inv.owed seq (awaits_some.mpr phase) with one | ⟨_, none⟩
      · rw [one, List.mem_singleton] at member
        rw [member]
      · rw [none] at member
        cases member
    | top | picking | checking | exited code =>
      rw [phase] at reading
      cases reading
  obtain ⟨room, tail⟩ := drop_next next
  have controls : s.bridge.controls.drop (s.controlsRead + 1) = rest := tail
  have read := take_next next
  rcases control_taken kind credit reading with ⟨idr, taken⟩ | ⟨ack, taken⟩
  · refine ⟨_, taken, .inl rfl, rfl, ?_⟩
    have after : step s .control = { s with
        worker := { s.worker with force := true }, controlsRead := s.controlsRead + 1,
        log := s.log ++ [.idrRead] } := by
      simp only [step, next, reading, if_true, Worker.step, taken, Worker.settle, idr]
    have other : m.h.kind ≠ .ack := by rw [idr]; decide
    have same : outstanding (step s .control) = outstanding s := by
      rw [after]
      simp only [outstanding, State.controls, State.frames, controls]
      rw [← State.controls, next, grants_cons, if_neg other, List.nil_append]
    rw [after] at session same ⊢
    exact {
      session
      kinds := fun m' member => inv.kinds m' (by rw [next]; exact List.mem_cons_of_mem m (tail ▸ member))
      owed := fun seq awaited => by rw [same]; exact inv.owed seq awaited
      read := inv.read
      opened := inv.opened
      granted := inv.granted
      counted := by
        have acks : acksRead { s with
            worker := { s.worker with force := true }, controlsRead := s.controlsRead + 1,
            log := s.log ++ [.idrRead] } = acksRead s := by
          simp only [acksRead, read, grants_append, grants_cons, if_neg other, List.nil_append]
          simp [grants]
        rw [acks]
        exact inv.counted }
  · refine ⟨_, taken, .inr rfl, rfl, ?_⟩
    have other : m.h.kind ≠ .idr := by rw [ack]; decide
    have after : step s .control = { s with
        worker := { s.worker with phase := .checking }, controlsRead := s.controlsRead + 1,
        log := s.log ++ [] } := by
      simp only [step, next, reading, if_true, Worker.step, taken, Worker.settle, if_neg other]
    rw [after] at session ⊢
    exact {
      session
      kinds := fun m' member => inv.kinds m' (by rw [next]; exact List.mem_cons_of_mem m (tail ▸ member))
      owed := fun seq awaited => by simp [awaits] at awaited
      read := inv.read
      opened := inv.opened
      granted := inv.granted
      counted := by
        have acks : acksRead { s with
            worker := { s.worker with phase := .checking }, controlsRead := s.controlsRead + 1,
            log := s.log ++ [] } = acksRead s + 1 := by
          simp only [acksRead, read, grants_append, grants_cons, if_pos ack, List.length_append]
          rfl
        left
        rw [acks]
        rcases inv.counted with equal | ⟨⟨code, exited⟩, _⟩
        · rw [awaits_some.mpr (credit ack)] at equal
          exact equal
        · cases exited.symm.trans (credit ack) }

theorem worker_step (s : State) {l : Worker.Label} (own : ∀ m, l ≠ .control m) :
    (step s (.worker l)).worker = Worker.step s.worker l ∧ (step s (.worker l)).bridge = s.bridge ∧
      (step s (.worker l)).controlsRead = s.controlsRead ∧
      (step s (.worker l)).framesRead = s.framesRead := by
  cases l with
  | control m => exact absurd rfl (own m)
  | _ => exact ⟨rfl, rfl, rfl, rfl⟩

theorem inv_worker (inv : Inv s) {l : Worker.Label} (own : ∀ m, l ≠ .control m) :
    Inv (step s (.worker l)) := by
  have session := Session.inv_step s (.worker l) inv.session
  have turns := step_turns s.worker own
  have stepped := worker_step s own
  generalize step s (.worker l) = s' at session stepped ⊢
  obtain ⟨worker, bridge, controlsRead, framesRead⟩ := stepped
  rw [← worker] at turns
  have controls : s'.controls = s.controls := by rw [State.controls, bridge, controlsRead, State.controls]
  have acks : acksRead s' = acksRead s := by rw [acksRead, bridge, controlsRead, acksRead]
  have kept (more : List Message) (sent : Worker.sent s'.worker.history = Worker.sent s.worker.history ++ more) :
      outstanding s' = outstanding s ++ more.map (·.h.seq) ∧
        (s'.bridge.phase ≠ .ended →
          s'.bridge.accepted = (Worker.sent s'.worker.history).take s'.framesRead) := by
    constructor
    · rw [outstanding, outstanding, controls, bridge, State.frames, State.frames, sent, framesRead,
        List.drop_append_of_le_length inv.session.framesRead]
      simp only [List.map_append, List.append_assoc]
    · intro alive
      rw [bridge] at alive ⊢
      rw [sent, framesRead, List.take_append_of_le_length inv.session.framesRead]
      exact inv.read alive
  have granted := inv.granted
  rw [← bridge] at granted
  have opened : s'.bridge.gate.needIdr → s'.bridge.accepted = [] := bridge ▸ inv.opened
  have kinds : ∀ m ∈ s'.controls, m.h.kind = .idr ∨ m.h.kind = .ack := controls ▸ inv.kinds
  cases turns with
  | idles sent awaits exited =>
    obtain ⟨same, read⟩ := kept [] (by rw [sent, List.append_nil])
    rw [List.map_nil, List.append_nil] at same
    exact {
      session, kinds, read, opened, granted
      owed := fun seq awaited => by
        rw [same, bridge]
        exact inv.owed seq (awaits ▸ awaited)
      counted := by
        rw [acks, sent, awaits]
        rcases inv.counted with equal | ⟨⟨code, at_⟩, less⟩
        · exact .inl equal
        · exact .inr ⟨⟨code, exited code at_⟩, less⟩ }
  | exits code sent exited =>
    obtain ⟨_, read⟩ := kept [] (by rw [sent, List.append_nil])
    exact {
      session, kinds, read, opened, granted
      owed := fun seq awaited => by cases exited.symm.trans (awaits_some.mp awaited)
      counted := by
        right
        rw [acks, sent]
        refine ⟨⟨code, exited⟩, ?_⟩
        rcases inv.counted with equal | ⟨_, less⟩
        · cases awaited : awaits s.worker with
          | none => rw [awaited] at equal; exact Nat.le_succ_of_le (Nat.le_of_eq equal)
          | some seq => rw [awaited] at equal; exact Nat.le_of_eq equal
        · exact less }
  | sends m sent idle awaits =>
    obtain ⟨same, read⟩ := kept [m] sent
    exact {
      session, kinds, read, opened, granted
      owed := fun seq awaited => by
        cases (awaits_some.mpr awaits).symm.trans awaited
        rw [same, outstanding_none inv.session idle]
        exact .inl rfl
      counted := by
        left
        rw [acks, sent, awaits_some.mpr awaits, List.length_append]
        rcases inv.counted with equal | ⟨⟨code, exited⟩, _⟩
        · rw [equal, awaits_idle idle]
          rfl
        · exact absurd (.inr ⟨code, exited⟩) idle }

theorem granted_part (inv : Inv s) : grants s.bridge.controls <+: s.bridge.accepted.map (·.h.seq) := by
  rcases inv.granted with equal | ⟨_, part⟩
  · exact ⟨_, equal⟩
  · exact part

theorem inv_frame (inv : Inv s) {m : Message} {rest : List Message} (next : s.frames = m :: rest)
    (idle : s.bridge.phase = .waiting) (now : UInt64) : Inv (step s (.frame now)) := by
  have session := Session.inv_step s (.frame now) inv.session
  have stepped : (step s (.frame now)).worker = s.worker ∧
      (step s (.frame now)).bridge = Bridge.step s.bridge (.frame m now) ∧
      (step s (.frame now)).controlsRead = s.controlsRead ∧
      (step s (.frame now)).framesRead = s.framesRead + 1 := by
    simp [step, next, idle]
  generalize step s (.frame now) = s' at session stepped ⊢
  obtain ⟨worker, bridge, controlsRead, framesRead⟩ := stepped
  obtain ⟨sent, _, reads⟩ := step_reads idle m now
  rw [← bridge] at sent reads
  have controls : s'.controls = s.controls := by rw [State.controls, sent, controlsRead, State.controls]
  have acks : acksRead s' = acksRead s := by rw [acksRead, sent, controlsRead, acksRead]
  have frames : s'.frames = rest := by
    rw [State.frames, worker, framesRead]
    exact (drop_next next).2
  have accepted := inv.read (by rw [idle]; intro same; cases same)
  have granted : grants s.bridge.controls = s.bridge.accepted.map (·.h.seq) := by
    rcases inv.granted with equal | ⟨ended, _⟩
    · rw [idle, inHand, List.map_nil, List.append_nil] at equal
      exact equal
    · cases idle.symm.trans ended
  have was : outstanding s = grants s.controls ++ m.h.seq :: rest.map (·.h.seq) := by
    rw [outstanding, idle, next]
    rfl
  have kinds : ∀ m ∈ s'.controls, m.h.kind = .idr ∨ m.h.kind = .ack := controls ▸ inv.kinds
  have counted := inv.counted
  rw [← worker, ← acks] at counted
  rcases reads with ⟨hand, alive, more, opened⟩ | ⟨ended, same, gate⟩
  · exact {
      session, kinds, counted
      owed := fun seq awaited => by
        rw [worker] at awaited
        rcases inv.owed seq awaited with one | ⟨ended, _⟩
        · left
          rw [← one, was, outstanding, controls, hand, frames]
          rfl
        · cases idle.symm.trans ended
      read := fun _ => by
        rw [more, accepted, worker, framesRead]
        exact (take_next next).symm
      opened := fun needed => by cases opened.symm.trans needed
      granted := by
        left
        rw [sent, granted, hand, more, List.map_append] }
  · exact {
      session, kinds, counted
      owed := fun seq awaited => by
        rw [worker] at awaited
        refine owed_part (inv.owed seq awaited) ?_ ended
        rw [was, outstanding, controls, ended, frames]
        exact List.Sublist.append_left (List.sublist_cons_self _ _) _
      read := fun alive => absurd ended alive
      opened := by rw [gate, same]; exact inv.opened
      granted := by
        right
        rw [sent, same, granted]
        exact ⟨ended, List.prefix_refl _⟩ }

theorem inv_bridge (inv : Inv s) {l : Bridge.Label} (own : ∀ m now, l ≠ .frame m now) :
    Inv (step s (.bridge l)) := by
  have session := Session.inv_step s (.bridge l) inv.session
  obtain ⟨more, serves⟩ := step_serves s.bridge own
  have stepped : (step s (.bridge l)).worker = s.worker ∧
      (step s (.bridge l)).bridge = Bridge.step s.bridge l ∧
      (step s (.bridge l)).controlsRead = s.controlsRead ∧
      (step s (.bridge l)).framesRead = s.framesRead := by
    cases l with
    | frame m now => exact absurd rfl (own m now)
    | _ => exact ⟨rfl, rfl, rfl, rfl⟩
  generalize step s (.bridge l) = s' at session stepped ⊢
  obtain ⟨worker, bridge, controlsRead, framesRead⟩ := stepped
  rw [← bridge] at serves
  have controls : s'.controls = s.controls ++ more := by
    rw [State.controls, serves.controls, controlsRead,
      List.drop_append_of_le_length inv.session.controlsRead, State.controls]
  have acks : acksRead s' = acksRead s := by
    rw [acksRead, serves.controls, controlsRead,
      List.take_append_of_le_length inv.session.controlsRead, acksRead]
  have frames : s'.frames = s.frames := by rw [State.frames, worker, framesRead, State.frames]
  have alive (alive' : s'.bridge.phase ≠ .ended) : s.bridge.phase ≠ .ended :=
    fun ended => alive' (serves.ended ended)
  have counted := inv.counted
  rw [← worker, ← acks] at counted
  exact {
    session, counted
    kinds := by
      intro m member
      rw [controls, List.mem_append] at member
      exact member.elim (inv.kinds m) (serves.kinds m)
    owed := fun seq awaited => by
      rw [worker] at awaited
      have owed := inv.owed seq awaited
      rcases serves.answers with same | ⟨ended, none⟩
      · have kept : outstanding s' = outstanding s := by
          rw [outstanding, outstanding, controls, frames, grants_append, List.map_append, List.map_append,
            List.append_assoc, ← List.append_assoc (grants more), same]
        rw [kept]
        exact owed.imp_right fun both => ⟨serves.ended both.1, both.2⟩
      · refine owed_part owed ?_ ended
        rw [outstanding, outstanding, controls, frames, none, List.append_nil, ended]
        exact (List.sublist_append_right _ _).map _ |>.append_left _
    read := fun alive' => by
      rw [serves.accepted, worker, framesRead]
      exact inv.read (alive alive')
    opened := by
      rw [serves.fixed.2, serves.accepted]
      exact inv.opened
    granted := by
      rw [serves.controls, serves.accepted, grants_append, List.append_assoc]
      have part := granted_part inv
      have closed (ended : s'.bridge.phase = .ended) (none : grants more = []) :
          s'.bridge.phase = .ended ∧
            grants s.bridge.controls ++ grants more <+: s.bridge.accepted.map (·.h.seq) :=
        ⟨ended, by rw [none, List.append_nil]; exact part⟩
      rcases serves.answers with same | ⟨ended, none⟩
      · rcases inv.granted with equal | ⟨ended, _⟩
        · exact .inl (same ▸ equal)
        · rw [ended] at same
          exact .inr (closed (serves.ended ended) (List.append_eq_nil_iff.mp same).1)
      · exact .inr (closed ended (by rw [none]; rfl)) }

theorem inv_step (s : State) (l : Label) (inv : Inv s) : Inv (step s l) := by
  cases l with
  | control =>
    cases next : s.controls with
    | nil => simpa only [step, next] using inv
    | cons m rest =>
      by_cases reading : s.worker.phase.reads
      · obtain ⟨_, _, _, _, kept⟩ := inv_control inv next reading
        exact kept
      · simpa only [step, next, if_neg reading] using inv
  | worker l =>
    cases l with
    | control m => exact inv
    | _ => exact inv_worker inv fun _ same => by cases same
  | frame now =>
    cases next : s.frames with
    | nil => simpa only [step, next] using inv
    | cons m rest =>
      by_cases idle : s.bridge.phase = .waiting
      · exact inv_frame inv next idle now
      · simpa only [step, next, if_neg idle] using inv
  | bridge l =>
    cases l with
    | frame m now => exact inv
    | _ => exact inv_bridge inv fun _ _ same => by cases same

end step

theorem begin_history (config : Config) (idrAt : UInt32) (direct fullRange : Bool) (clock : UInt64) :
    (Worker.begin config idrAt direct fullRange clock).history = [] ∧
      awaits (Worker.begin config idrAt direct fullRange clock) = none := by
  rw [Worker.begin]
  split <;> exact ⟨rfl, rfl⟩

theorem inv_start (config : Config) (idrAt : UInt32) (direct fullRange : Bool) (clock : UInt64)
    (seen : Config) (lastProgress : UInt64) :
    Inv (start (Worker.begin config idrAt direct fullRange clock) (Bridge.start seen lastProgress)) := by
  obtain ⟨history, idle⟩ := begin_history config idrAt direct fullRange clock
  exact {
    session := Session.inv_start config idrAt direct fullRange clock seen lastProgress
    kinds := fun m none => absurd none List.not_mem_nil
    owed := fun seq awaited => by cases idle.symm.trans awaited
    read := fun _ => List.take_zero.symm
    opened := fun _ => rfl
    granted := .inl rfl
    counted := by
      left
      dsimp only [start]
      rw [history, idle]
      rfl }

theorem grants_numbered {s : State} (inv : Inv s) :
    ∃ n, (grants s.bridge.controls).map UInt64.toNat = List.range' 1 n ∧ n ≤ s.bridge.accepted.length := by
  have numbered : s.bridge.accepted.map (fun m => m.h.seq.toNat) = _ := inv.session.bridge.numbered
  have part := (granted_part inv).map UInt64.toNat
  rw [List.map_map, show UInt64.toNat ∘ (fun m : Message => m.h.seq) = fun m => m.h.seq.toNat from rfl,
    numbered] at part
  have less := part.length_le
  rw [List.length_range'] at less
  have taken := List.prefix_iff_eq_take.mp part
  rw [List.take_range'_of_length_ge less] at taken
  exact ⟨_, taken, less⟩

/-- Whatever the order of the steps at the two ends: at most one access unit is sent and not credited;
while the worker waits for its credit, that access unit is in flight, in the bridge's hand or its ACK
is in flight, unless the bridge's session has ended; the ACKs are for the frames 1, 2, 3, ..., each
once; and the worker never refuses a control that it reads. -/
theorem credit_kept (config : Config) (idrAt : UInt32) (direct fullRange : Bool) (clock : UInt64)
    (seen : Config) (lastProgress : UInt64) (ls : List Label) :
    let s := run step (start (Worker.begin config idrAt direct fullRange clock)
      (Bridge.start seen lastProgress)) ls
    (outstanding s).length ≤ 1 ∧ (Worker.sent s.worker.history).length ≤ acksRead s + 1 ∧
      (∀ seq, s.worker.phase = .acking seq → s.bridge.phase ≠ .ended → outstanding s = [seq]) ∧
      (∃ n, (grants s.bridge.controls).map UInt64.toNat = List.range' 1 n ∧
        n ≤ s.bridge.accepted.length) ∧
      ∀ m ∈ s.controls.head?, s.worker.phase.reads → (Worker.control m s.worker).isOk := by
  intro s
  have inv : Inv s := run_invariant step Inv inv_step
    (inv_start config idrAt direct fullRange clock seen lastProgress) ls
  refine ⟨?_, ?_, ?_, grants_numbered inv, ?_⟩
  · rw [outstanding_length]
    exact inv.session.credit
  · rcases inv.counted with equal | ⟨_, less⟩
    · rw [equal]
      exact Nat.add_le_add_left Option.length_toList_le _
    · exact less
  · intro seq acking alive
    exact (inv.owed seq (awaits_some.mpr acking)).resolve_right fun ⟨ended, _⟩ => alive ended
  · intro m head reading
    cases next : s.controls with
    | nil =>
      rw [next] at head
      cases head
    | cons m' rest =>
      rw [next] at head
      cases head
      obtain ⟨w, taken, _⟩ := inv_control inv next reading
      rw [taken]
      rfl

section mode
open Worker

def Fits (c : Config) (m : Message) : Prop :=
  m.h.width = c.width ∧ m.h.height = c.height ∧ m.h.codec = c.codec

structure Moded (w : Worker.State) : Prop where
  encoder : ∀ e ∈ w.encoder, ∃ bitrate, e.config = { w.config with bitrate }
  sent : ∀ m ∈ sent w.history, Fits w.config m

theorem encode_fits {e e' : Encoder} {dequeueUs : UInt64} {out : Output} {force : Bool} {m : Message}
    (encoded : e.encode dequeueUs out force = .ok (m, e')) : Fits e.config m := by
  unfold Encoder.encode at encoded
  split at encoded
  next => cases encoded
  next =>
    cases inspected : inspectAnnexb e.config.codec out.bytes with
    | error x =>
      rw [inspected] at encoded
      cases encoded
    | ok n =>
      simp only [inspected, bind, Except.bind] at encoded
      split at encoded
      next => cases encoded
      next =>
        cases encoded
        cases n.idr <;> exact ⟨rfl, rfl, rfl⟩

theorem moded_settle {w : Worker.State} {next : Except String Worker.State} (moded : Moded w)
    (kept : ∀ w', next = .ok w' → Moded w') : Moded (settle w next) := by
  cases next with
  | ok w' => exact kept w' rfl
  | error x => exact ⟨moded.encoder, moded.sent⟩

theorem moded_recover {now : UInt64} {r : Reopen} {w w' : Worker.State} (moded : Moded w)
    (recovered : recoverResume now r w = .ok w') : Moded w' := by
  cases recover_ok recovered with
  | stops _ after =>
    subst after
    exact ⟨nofun, moded.sent⟩
  | fails _ after =>
    subst after
    exact ⟨nofun, by simpa [sent, Entry.message?] using moded.sent⟩
  | reopens _ e _ config after =>
    subst after
    refine ⟨fun e' same => ?_, by simpa [sent, Entry.message?] using moded.sent⟩
    cases same
    exact ⟨_, config⟩

theorem moded_control {m : Message} {w w' : Worker.State} (moded : Moded w)
    (taken : Worker.control m w = .ok w') : Moded w' := by
  rcases control_ok taken with rfl | ⟨code, rfl⟩ | ⟨_, rfl⟩ | ⟨_, _, changed⟩ | ⟨_, _, rfl⟩
  · exact moded
  · exact ⟨moded.encoder, moded.sent⟩
  · exact ⟨moded.encoder, moded.sent⟩
  · rcases setBitrate_ok changed with ⟨e, e', was, set, rfl⟩ | ⟨was, rfl⟩
    · obtain ⟨_, rfl⟩ := bitrate_ok set
      obtain ⟨bitrate, config⟩ := moded.encoder e was
      refine ⟨fun e' same => ?_, moded.sent⟩
      cases same
      exact ⟨m.h.extra, by rw [config]⟩
    · exact ⟨moded.encoder, moded.sent⟩
  · exact ⟨moded.encoder, moded.sent⟩

theorem moded_testIdr {w : Worker.State} (moded : Moded w) (clock : UInt64) :
    Moded (testIdr clock w) := by
  unfold testIdr
  split
  · exact ⟨moded.encoder, moded.sent⟩
  · exact moded

theorem moded_encodeSend {e : Encoder} {dequeueUs : UInt64} {out : Output} {w w' : Worker.State}
    (moded : Moded w) (pipeline : w.encoder = some e) (sent' : encodeSend e dequeueUs out w = .ok w') :
    Moded w' := by
  obtain ⟨m, e', encoded, rfl⟩ := encodeSend_ok sent'
  obtain ⟨_, same, _⟩ := encode_ok encoded
  obtain ⟨bitrate, config⟩ := moded.encoder e pipeline
  refine ⟨fun e₁ one => ?_, fun m' member => ?_⟩
  · cases one
    exact ⟨bitrate, by rw [same, config]⟩
  · rw [sent_frame, List.mem_append, List.mem_singleton] at member
    rcases member with old | rfl
    · exact moded.sent m' old
    · have fits := encode_fits encoded
      rwa [config] at fits

theorem moded_step (w : Worker.State) (l : Worker.Label) (moded : Moded w) : Moded (Worker.step w l) := by
  cases l with
  | signal => exact ⟨moded.encoder, moded.sent⟩
  | turn | drained | interrupted | unchanged | broken =>
    simp only [Worker.step]
    split
    all_goals first | exact moded | exact ⟨moded.encoder, moded.sent⟩
  | control m => exact moded_settle moded fun w' => moded_control moded
  | reopen now r =>
    simp only [Worker.step]
    split
    · exact moded_settle moded fun w' => moded_recover moded
    · exact moded
  | fault clock now r =>
    simp only [Worker.step]
    split
    · exact moded_settle moded fun w' => moded_recover (moded_testIdr moded clock)
    · exact moded
  | changed clock after now r =>
    simp only [Worker.step]
    split
    · exact moded_settle moded fun w' => moded_recover ⟨moded.encoder, moded.sent⟩
    · exact moded
  | frame clock dequeueUs out =>
    simp only [Worker.step]
    split
    next e picking pipeline =>
      have same := (Rate.testIdr_same clock w).2.2.1
      exact moded_settle moded fun w' =>
        moded_encodeSend (moded_testIdr moded clock) (same.trans pipeline)
    next => exact moded

theorem moded_begin (config : Config) (idrAt : UInt32) (direct fullRange : Bool) (clock : UInt64) :
    Moded (Worker.begin config idrAt direct fullRange clock) := by
  rw [Worker.begin]
  split
  next e opened =>
    refine ⟨fun e' same => ?_, fun m none => absurd none List.not_mem_nil⟩
    cases same
    exact ⟨config.bitrate, by rw [openEncoder_ok opened]⟩
  next => exact ⟨fun e same => (by cases same), fun m none => absurd none List.not_mem_nil⟩

end mode

theorem worker_kept (I : Worker.State → Prop) (keeps : ∀ w l, I w → I (Worker.step w l)) (s : State)
    (l : Label) (kept : I s.worker) : I (step s l).worker := by
  cases l with
  | control =>
    rw [step]
    split
    next m rest _ =>
      split
      · exact keeps s.worker (.control m) kept
      · exact kept
    next => exact kept
  | worker l =>
    by_cases own : ∃ m, l = .control m
    · obtain ⟨m, rfl⟩ := own
      exact kept
    · rw [(worker_step s fun m same => own ⟨m, same⟩).1]
      exact keeps s.worker l kept
  | frame now =>
    rw [step]
    split
    · split <;> exact kept
    · exact kept
  | bridge l => cases l <;> exact kept

theorem bridge_config (s : State) (l : Label) : (step s l).bridge.config = s.bridge.config := by
  cases l with
  | control =>
    rw [step]
    split
    · split <;> rfl
    · rfl
  | worker l => cases l <;> rfl
  | frame now =>
    cases next : s.frames with
    | nil => simp only [step, next]
    | cons m rest =>
      by_cases idle : s.bridge.phase = .waiting
      · simp only [step, next, if_pos idle]
        exact (step_reads idle m now).2.1
      · simp only [step, next, if_neg idle]
  | bridge l =>
    cases own : l with
    | frame m now => rfl
    | _ =>
      obtain ⟨more, serves⟩ := step_serves s.bridge (l := l) (by rw [own]; intro m now same; cases same)
      rw [own] at serves
      exact serves.fixed.1

/-- What a session that was negotiated for one mode knows of its two ends. -/
structure Agreed (c : Config) (s : State) : Prop where
  credit : Inv s
  good : Worker.Good s.worker
  moded : Moded s.worker
  worker : s.worker.config = c
  bridge : s.bridge.config.width = c.width ∧ s.bridge.config.height = c.height ∧
    s.bridge.config.codec = c.codec

theorem agreed_step {c : Config} (s : State) (l : Label) (agreed : Agreed c s) : Agreed c (step s l) where
  credit := inv_step s l agreed.credit
  good := worker_kept Worker.Good (fun w l good => Worker.good_moves good (Worker.step_moves w l)) s l
    agreed.good
  moded := worker_kept Moded moded_step s l agreed.moded
  worker := worker_kept (·.config = c) (fun w l same => (Rate.step_config w l).trans same) s l
    agreed.worker
  bridge := by
    rw [bridge_config]
    exact agreed.bridge

theorem begin_config (config : Config) (idrAt : UInt32) (direct fullRange : Bool) (clock : UInt64) :
    (Worker.begin config idrAt direct fullRange clock).config = config := by
  rw [Worker.begin]
  split <;> rfl

theorem agreed_start (config : Config) (idrAt : UInt32) (direct fullRange : Bool) (clock : UInt64)
    (seen : Config) (lastProgress : UInt64) (same : seen.width = config.width ∧
      seen.height = config.height ∧ seen.codec = config.codec) :
    Agreed config (start (Worker.begin config idrAt direct fullRange clock)
      (Bridge.start seen lastProgress)) where
  credit := inv_start config idrAt direct fullRange clock seen lastProgress
  good := Worker.good_begin config idrAt direct fullRange clock
  moded := moded_begin config idrAt direct fullRange clock
  worker := begin_config config idrAt direct fullRange clock
  bridge := same

/-- The clock of a bridge that reads a frame after the worker has finished it. -/
def After (now : UInt64) (m : Message) : Prop := m.h.doneUs ≤ now ∧ now.toNat + 1000 < 2 ^ 64

theorem receive_iff {c : Config} {s : State} (agreed : Agreed c s) (idle : s.bridge.phase = .waiting)
    {m : Message} (next : m ∈ s.frames.head?) {now : UInt64} (after : After now m) :
    (Bridge.receive m now s.bridge).isOk ↔ ¬ Worker.Interrupted s.worker.history := by
  obtain ⟨inv, good, moded, config, mode⟩ := agreed
  have one : s.frames = [m] := by
    have credit := inv.session.credit
    have length : s.frames.length ≤ s.tokens := by rw [State.tokens]; omega
    cases frames : s.frames with
    | nil => rw [frames] at next; cases next
    | cons m' rest =>
      rw [frames] at next length
      cases next
      cases rest with
      | nil => rfl
      | cons m'' rest => simp only [List.length_cons] at length; omega
  have sent : Worker.sent s.worker.history = s.bridge.accepted ++ [m] := by
    rw [inv.read (by rw [idle]; intro same; cases same), ← one]
    exact (List.take_append_drop _ _).symm
  have member : m ∈ Worker.sent s.worker.history := by rw [sent]; exact List.mem_append_right _ (by simp)
  have numbered := good.consecutive
  rw [sent, consecutive_concat, ← inv.session.bridge.last] at numbered
  rw [← numbered]
  constructor
  · intro ok
    refine ⟨inv.session.bridge.numbered, ?_⟩
    cases received : Bridge.receive m now s.bridge with
    | error x => rw [received] at ok; cases ok
    | ok b =>
      obtain ⟨gate, accepted, _⟩ := Bridge.receive_ok received
      exact (SequenceGate.accept_numbers accepted).1
  · rintro ⟨_, seq⟩
    have valid := good.valid m member
    obtain ⟨_, times, _, _⟩ := (validateAu_iff m false).mp valid
    have idr (needed : s.bridge.gate.needIdr) : m.isIdr := by
      refine Worker.sent_head good.recovered m ?_
      rw [sent, inv.opened needed]
      rfl
    have successor : m.h.seq = s.bridge.gate.last + 1 := by
      have bound := m.h.seq.toNat_lt
      apply UInt64.toNat_inj.mp
      rw [UInt64.toNat_add, UInt64.toNat_one, seq]
      omega
    have accepted := SequenceGate.accept_eq (validateAu_weaken valid idr) successor
    have fits := moded.sent m member
    rw [Fits, config, ← mode.1, ← mode.2.1, ← mode.2.2] at fits
    have epoch : ¬ (m.h.width ≠ s.bridge.config.width ∨ m.h.height ≠ s.bridge.config.height ∨
        m.h.codec ≠ s.bridge.config.codec) := by simp [fits]
    have past : ¬ (now + 1000 < m.h.doneUs ∨ now < m.h.dequeueUs) := by
      obtain ⟨done, room⟩ := after
      simp only [nonmonotonic, Bool.or_eq_false_iff, decide_eq_false_iff_not] at times
      have sum : (now + 1000).toNat = now.toNat + 1000 := by
        rw [UInt64.toNat_add]
        exact Nat.mod_eq_of_lt room
      simp only [UInt64.lt_iff_toNat_lt, UInt64.le_iff_toNat_le, sum] at times done ⊢
      omega
    simp only [Bridge.receive, accepted, bind, Except.bind, if_neg epoch, if_neg past]
    rfl

/-- Whatever the order of the steps at the two ends of a session whose mode was negotiated: the bridge
takes the next frame, unless a reopen of the capture failed between two frames, when it never does. -/
theorem frame_taken_iff (config : Config) (idrAt : UInt32) (direct fullRange : Bool) (clock : UInt64)
    (seen : Config) (lastProgress : UInt64) (ls : List Label)
    (same : seen.width = config.width ∧ seen.height = config.height ∧ seen.codec = config.codec) :
    let s := run step (start (Worker.begin config idrAt direct fullRange clock)
      (Bridge.start seen lastProgress)) ls
    s.bridge.phase = .waiting → ∀ m ∈ s.frames.head?, ∀ now, After now m →
      ((Bridge.receive m now s.bridge).isOk ↔ ¬ Worker.Interrupted s.worker.history) := by
  intro s idle m next now after
  have agreed : Agreed config s := run_invariant step (Agreed config) agreed_step
    (agreed_start config idrAt direct fullRange clock seen lastProgress same) ls
  exact receive_iff agreed idle next after

def opening : List Label := [.worker .turn, .worker .drained, .worker (.frame 0 0 Worker.idrUnit)]

theorem opening_taken :
    let s := run step (start (Worker.begin { codec := .h264 } 0 true true 0)
      (Bridge.start { codec := .h264 } 0)) opening
    ∃ m ∈ s.frames.head?,
      ((Bridge.receive m 7 s.bridge).isOk ↔ ¬ Worker.Interrupted s.worker.history) := by
  intro s
  have flying : ∃ m, s.frames.head? = some m ∧ After 7 m := by
    refine ⟨_, rfl, ?_⟩
    exact ⟨by decide +kernel, by decide⟩
  obtain ⟨m, next, after⟩ := flying
  exact ⟨m, next, frame_taken_iff { codec := .h264 } 0 true true 0 { codec := .h264 } 0 opening
    ⟨rfl, rfl, rfl⟩ (by decide +kernel) m next 7 after⟩

/-- A step of the session with neither a fault nor an interruption in it. -/
def Calm : Label → Prop
  | .control | .frame _ | .bridge .tryRaise | .bridge (.waited false _) | .bridge (.answer _) => True
  | .worker _ | .bridge _ => False

/-- How far the credit of the access unit is from the worker. -/
def left (s : State) : Nat :=
  s.controls.length + 6 * s.frames.length + match s.bridge.phase with
    | .raising _ => 5
    | .full _ => 4
    | .decided .. => 3
    | .waiting | .ended => 0

/-- A session between its ends that nothing disturbs, until the worker has its credit. -/
structure Live (c : Config) (s : State) : Prop where
  agreed : Agreed c s
  fine : ¬ Worker.Interrupted s.worker.history
  alive : s.bridge.phase ≠ .ended
  running : s.bridge.queue.running
  clock : ∀ m ∈ s.frames, m.h.doneUs.toNat + 1000 < 2 ^ 64
  phase : (∃ seq, s.worker.phase = .acking seq) ∨ s.worker.phase = .checking

section live
variable {c : Config} {s : State}

theorem live_bridge (live : Live c s) {l : Bridge.Label} (own : ∀ m now, l ≠ .frame m now)
    {b : Bridge.State} (moved : Bridge.step s.bridge l = b) (alive : b.phase ≠ .ended)
    (running : b.queue.running) : Live c (step s (.bridge l)) := by
  subst moved
  have agreed := agreed_step s (.bridge l) live.agreed
  have stepped : step s (.bridge l) = { s with
      bridge := Bridge.step s.bridge l, log := s.log ++ drops s.bridge l } := by
    cases l with
    | frame m now => exact absurd rfl (own m now)
    | _ => rfl
  rw [stepped] at agreed ⊢
  exact ⟨agreed, live.fine, alive, running, live.clock, live.phase⟩

theorem left_bridge (l : Bridge.Label) (own : ∀ m now, l ≠ .frame m now) (s : State) :
    left (step s (.bridge l)) = left { s with bridge := Bridge.step s.bridge l } := by
  cases l with
  | frame m now => exact absurd rfl (own m now)
  | _ => rfl

theorem frame_nearer (live : Live c s) (idle : s.bridge.phase = .waiting) {m : Message}
    {rest : List Message} (next : s.frames = m :: rest) :
    Live c (step s (.frame m.h.doneUs)) ∧ left (step s (.frame m.h.doneUs)) < left s := by
  have agreed := agreed_step s (.frame m.h.doneUs) live.agreed
  have after : After m.h.doneUs m :=
    ⟨UInt64.le_refl _, live.clock m (by rw [next]; exact List.mem_cons_self)⟩
  have ok := (receive_iff live.agreed idle (by rw [next]; rfl) after).mpr live.fine
  have stepped : step s (.frame m.h.doneUs) = { s with
      bridge := Bridge.step s.bridge (.frame m m.h.doneUs), framesRead := s.framesRead + 1,
      log := s.log ++ [.received m
        ((Bridge.step s.bridge (.frame m m.h.doneUs)).phase ≠ .ended)] } := by
    simp only [step, next, idle, if_true]
  cases received : Bridge.receive m m.h.doneUs s.bridge with
  | error x =>
    rw [received] at ok
    cases ok
  | ok b =>
    have bridge : Bridge.step s.bridge (.frame m m.h.doneUs) = b := by
      simp only [Bridge.step, idle, if_true, received]
    obtain ⟨gate, _, taken⟩ := Bridge.receive_ok received
    rw [stepped, bridge] at agreed ⊢
    have frames : s.frames.tail = (Worker.sent s.worker.history).drop (s.framesRead + 1) := by
      rw [State.frames, List.tail_drop]
    have reached : b.phase = .raising m ∨ b.phase = .decided m false := by
      rw [taken]
      dsimp only
      split
      · exact .inl rfl
      · exact .inr rfl
    constructor
    · refine ⟨agreed, live.fine, ?_, ?_, ?_, live.phase⟩
      · rcases reached with at_ | at_ <;> dsimp only <;> rw [at_] <;> intro same <;> cases same
      · dsimp only
        rw [taken]
        exact live.running
      · intro m' member
        exact live.clock m' (List.mem_of_mem_tail (frames ▸ member))
    · have controls : b.controls = s.bridge.controls := by rw [taken]
      rw [left, left, State.frames, State.controls, ← frames, controls, idle, next, State.controls]
      simp only [List.tail_cons, List.length_cons]
      rcases reached with at_ | at_ <;> rw [at_] <;> dsimp only <;> omega

theorem control_nearer (live : Live c s) (idle : s.bridge.phase = .waiting) (none : s.frames = [])
    {seq : UInt64} (acking : s.worker.phase = .acking seq) :
    Live c (step s .control) ∧ left (step s .control) < left s := by
  have agreed := agreed_step s .control live.agreed
  have owed := (live.agreed.credit.owed seq (awaits_some.mpr acking)).resolve_right
    fun ⟨ended, _⟩ => live.alive ended
  cases next : s.controls with
  | nil =>
    rw [outstanding, next, none, idle] at owed
    cases owed
  | cons m rest =>
    have reading : s.worker.phase.reads := by rw [acking]; rfl
    obtain ⟨w, taken, phase, history, _⟩ := inv_control live.agreed.credit next reading
    have stepped : step s .control = { s with
        worker := w, controlsRead := s.controlsRead + 1,
        log := s.log ++ if m.h.kind = .idr then [.idrRead] else [] } := by
      simp only [step, next, reading, if_true, Worker.step, taken, Worker.settle]
    have controls : s.bridge.controls.drop (s.controlsRead + 1) = rest := (drop_next next).2
    rw [stepped] at agreed ⊢
    have frames : State.frames { s with
        worker := w, controlsRead := s.controlsRead + 1,
        log := s.log ++ if m.h.kind = .idr then [.idrRead] else [] } = s.frames := by
      rw [State.frames, State.frames, history]
    constructor
    · refine ⟨agreed, ?_, live.alive, live.running, ?_, ?_⟩
      · dsimp only
        rw [history]
        exact live.fine
      · rw [frames]
        exact live.clock
      · dsimp only
        rw [acking] at phase
        exact phase.imp_left fun same => ⟨seq, same⟩
    · rw [left, left, frames, State.controls, controls, next]
      simp only [List.length_cons]
      omega

theorem acknowledge_sends (m : Message) (deliver : Bool) (now : UInt64) (b : Bridge.State) :
    ∃ more, (Bridge.acknowledge m deliver now b).controls = b.controls ++ more ∧ more.length ≤ 2 ∧
      (Bridge.acknowledge m deliver now b).phase = .waiting ∧
      (Bridge.acknowledge m deliver now b).queue = b.queue := by
  cases deliver with
  | true => exact ⟨[Bridge.ackControl m.h.seq], rfl, by simp, rfl, rfl⟩
  | false =>
    cases awaiting : b.awaitIdr with
    | true => exact ⟨[Bridge.ackControl m.h.seq], by simp [Bridge.acknowledge, awaiting]⟩
    | false =>
      exact ⟨[Bridge.idrControl, Bridge.ackControl m.h.seq],
        by simp [Bridge.acknowledge, Bridge.requestIdr, awaiting]⟩

/-- Some step without a fault in it brings the credit nearer. -/
theorem live_nearer (live : Live c s) (waits : s.worker.phase ≠ .checking) :
    ∃ l, Calm l ∧ Live c (step s l) ∧ left (step s l) < left s := by
  obtain ⟨seq, acking⟩ := live.phase.resolve_right waits
  cases at_ : s.bridge.phase with
  | ended => exact absurd at_ live.alive
  | waiting =>
    cases next : s.frames with
    | nil => exact ⟨.control, trivial, control_nearer live at_ next acking⟩
    | cons m rest => exact ⟨.frame m.h.doneUs, trivial, frame_nearer live at_ next⟩
  | raising m =>
    refine ⟨.bridge .tryRaise, trivial, ?_⟩
    have own : ∀ m now, Bridge.Label.tryRaise ≠ .frame m now := fun _ _ same => by cases same
    have queue : ∀ q, s.bridge.queue.rkmoonTryRaise 2 m = some q → q.running := by
      intro q raised
      rw [Bridge.Queue.rkmoonTryRaise] at raised
      split at raised
      · cases raised
      · cases raised
        exact live.running
    cases raised : s.bridge.queue.rkmoonTryRaise 2 m with
    | some q =>
      have stepped : Bridge.step s.bridge .tryRaise = { s.bridge with
          queue := q, delivered := s.bridge.delivered ++ [m], phase := .decided m true } := by
        simp only [Bridge.step, at_, raised]
      refine ⟨live_bridge live own stepped (by simp) (queue q raised), ?_⟩
      rw [left_bridge _ own, stepped, left, left, at_]
      exact Nat.add_lt_add_left (show 3 < 5 by decide) _
    | none =>
      have stepped : Bridge.step s.bridge .tryRaise = { s.bridge with phase := .full m } := by
        simp only [Bridge.step, at_, raised]
      refine ⟨live_bridge live own stepped (by simp) live.running, ?_⟩
      rw [left_bridge _ own, stepped, left, left, at_]
      exact Nat.add_lt_add_left (show 4 < 5 by decide) _
  | full m =>
    refine ⟨.bridge (.waited false (m.h.dequeueUs + 50001)), trivial, ?_⟩
    have own : ∀ m' now, Bridge.Label.waited false (m.h.dequeueUs + 50001) ≠ .frame m' now :=
      fun _ _ same => by cases same
    have stepped : Bridge.step s.bridge (.waited false (m.h.dequeueUs + 50001)) =
        { s.bridge with phase := .decided m false } := by
      have late : 50000 < m.h.dequeueUs + 50001 - m.h.dequeueUs := by
        rw [UInt64.add_comm, UInt64.add_sub_cancel]
        decide
      simp only [Bridge.step, at_, live.running, late, if_true]
      rfl
    refine ⟨live_bridge live own stepped (by simp) live.running, ?_⟩
    rw [left_bridge _ own, stepped, left, left, at_]
    exact Nat.add_lt_add_left (show 3 < 4 by decide) _
  | decided m deliver =>
    refine ⟨.bridge (.answer 0), trivial, ?_⟩
    have own : ∀ m now, Bridge.Label.answer 0 ≠ .frame m now := fun _ _ same => by cases same
    have stepped : Bridge.step s.bridge (.answer 0) = Bridge.acknowledge m deliver 0 s.bridge := by
      simp only [Bridge.step, at_]
    obtain ⟨more, sent, few, free, queue⟩ := acknowledge_sends m deliver 0 s.bridge
    refine ⟨live_bridge live own stepped (by simp [free]) (queue ▸ live.running), ?_⟩
    rw [left_bridge _ own, stepped, left, left, State.controls, sent,
      List.drop_append_of_le_length live.agreed.credit.session.controlsRead, free, at_,
      List.length_append]
    show s.controls.length + more.length + 6 * s.frames.length + 0 <
      s.controls.length + 6 * s.frames.length + 3
    omega

end live

/-- From every state of an undisturbed session in which the worker waits for its credit, and where no
reopen of the capture has failed between two frames, some steps of the two ends without any fault bring
it the credit: the session never gets stuck. -/
theorem credit_returns (config : Config) (idrAt : UInt32) (direct fullRange : Bool) (clock : UInt64)
    (seen : Config) (lastProgress : UInt64) (ls : List Label)
    (same : seen.width = config.width ∧ seen.height = config.height ∧ seen.codec = config.codec) :
    let s := run step (start (Worker.begin config idrAt direct fullRange clock)
      (Bridge.start seen lastProgress)) ls
    ¬ Worker.Interrupted s.worker.history → s.bridge.phase ≠ .ended → s.bridge.queue.running →
      (∀ m ∈ s.frames, m.h.doneUs.toNat + 1000 < 2 ^ 64) → ∀ seq, s.worker.phase = .acking seq →
      ∃ ls', (∀ l ∈ ls', Calm l) ∧ (run step s ls').worker.phase = .checking := by
  intro s fine alive running clock' seq acking
  have agreed : Agreed config s := run_invariant step (Agreed config) agreed_step
    (agreed_start config idrAt direct fullRange clock seen lastProgress same) ls
  have live : Live config s := ⟨agreed, fine, alive, running, clock', .inl ⟨seq, acking⟩⟩
  obtain ⟨ls', calm, _, reached⟩ := run_reaches step (Live config) (·.worker.phase = .checking)
    Calm left (fun s live waits => live_nearer live waits) live
  exact ⟨ls', calm, reached⟩

theorem opening_returns :
    let s := run step (start (Worker.begin { codec := .h264 } 0 true true 0)
      (Bridge.start { codec := .h264 } 0)) opening
    ∃ ls', (∀ l ∈ ls', Calm l) ∧ (run step s ls').worker.phase = .checking := by
  intro s
  have once : s.worker.history.length = 1 := by decide +kernel
  have fine : ¬ Worker.Interrupted s.worker.history := by
    rintro ⟨m, m', part⟩
    have less := part.length_le
    rw [once] at less
    exact absurd less (by simp)
  exact credit_returns { codec := .h264 } 0 true true 0 { codec := .h264 } 0 opening ⟨rfl, rfl, rfl⟩
    fine (by decide +kernel) (by decide +kernel) (by decide +kernel) 1 (by decide +kernel)

end Video.Credit

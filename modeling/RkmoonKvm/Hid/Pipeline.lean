import RkmoonKvm.Library.Runs
import RkmoonKvm.Hid.Queues

/-! The way of an event: Sunshine's queue, its sender thread, the socket, the queue of
the server and the lease. Each of them runs by itself, so entries merge early, late or
not at all. -/
namespace Hid.Pipeline
open Await Coalesce Runs

inductive Frame where
  | ping
  | event (e : HidEvent)

def Frame.line : Frame → Line
  | .ping => .object [("op", .str "ping")]
  | .event e => encode e

structure State where
  client : HidClient
  /-- Popped by the sender thread and not yet sent. -/
  sending : Option HidEvent := none
  wire : List Frame := []
  queue : List Event := []
  work : Prog Lease Call Unit PyError Unit
  /-- Overflow, failure or teardown. -/
  revoked : Bool := false
  submitted : List HidEvent := []
  /-- The edges given to the lease and the motion that it has emitted. -/
  applied : List Item := []

inductive Label where
  | submit (e : HidEvent)
  | take
  | transmit
  | heartbeat
  | read
  | pop
  | answer (r : Except PyError Unit)
  | stop

def State.serve (s : State) : Prog Lease Call Unit PyError Unit → State
  | .done (.error e) l => { s with work := .done (.error e) l, revoked := true }
  | work => { s with work }

def State.read (s : State) (line : Line) : State :=
  match parseEvent line with
  | .error _ => { s with revoked := true }
  | .ok e =>
    if e = .bye then { s with revoked := true }
    else if e = .ping then s
    else match Queue.put 256 s.queue e with
      | .error _ => { s with revoked := true }
      | .ok queue => { s with queue }

def advance (s : State) : Label → State
  | .submit e =>
    match s.client.submit e with
    | (true, client) => { s with client, submitted := s.submitted ++ [e] }
    | (false, client) => { s with client, revoked := true }
  | .take =>
    match s.sending, s.client.events with
    | none, e :: events => { s with client := { s.client with events }, sending := some e }
    | _, _ => s
  | .transmit =>
    match s.sending with
    | some e => { s with sending := none, wire := s.wire ++ [.event e] }
    | none => s
  | .heartbeat => if s.sending.isNone then { s with wire := s.wire ++ [.ping] } else s
  | .read =>
    match s.wire with
    | f :: wire => State.read { s with wire } f.line
    | [] => s
  | .pop =>
    match s.work, s.queue with
    | .done (.ok _) l, e :: queue =>
      State.serve { s with queue, applied := s.applied ++ e.edges } (Lease.apply e l)
    | _, _ => s
  | .answer r =>
    match s.work, r with
    | .wait op _ k, .ok v =>
      State.serve { s with applied := s.applied ++ op.report.items } (k (.ok v))
    | .wait _ _ k, .error e => { s with work := k (.error e), revoked := true }
    | .done _ _, _ => s
  | .stop => { s with revoked := true }

def step (s : State) (l : Label) : State := if s.revoked then s else advance s l

def fresh (absoluteMouse stream : Bool) : State where
  client := { absoluteMouse }
  work := .done (.ok ()) { mouseMode := if absoluteMouse then .absolute else .relative, stream }

def owed : Prog Lease Call Unit PyError Unit → List Item
  | .done _ _ => []
  | .wait op _ k => op.report.items ++ owed (k (.ok ()))

def Frame.items : Frame → List Item
  | .ping => []
  | .event e => [e.event.item]

namespace State

/-- What is on its way, behind the queue of the server or between the two queues. -/
def called (s : State) : List Item := owed s.work

def between (s : State) : List Item :=
  s.wire.flatMap Frame.items ++ s.sending.toList.map fun e => e.event.item

def flowing (s : State) : List Item :=
  s.applied ++ s.called ++ s.queue.map Event.item ++ s.between ++
    s.client.events.map fun e => e.event.item

end State

/-! What `apply` emits of one event. -/

theorem sendEach_owed (report : Int × Int → Report) (ps : List (Int × Int)) (l : Lease) :
    owed (Lease.sendEach report ps l) = ps.flatMap fun p => (report p).items := by
  induction ps generalizing l with
  | nil => rfl
  | cons p ps ih =>
    rw [List.flatMap_cons, ← ih l]
    rfl

/-- What the lease owes for an event is the event, with every report in range. -/
def Serves (e : Event) (p : Prog Lease Call Unit PyError Unit) : Prop :=
  Conserved (e.edges ++ owed p) [e.item] ∧ ∀ i ∈ owed p, i.inRange = true

theorem serves_edge {e : Event} {p : Prog Lease Call Unit PyError Unit}
    (edge : e.item.isEdge = true) (still : owed p = []) : Serves e p := by
  constructor
  · rw [still, Event.edges, if_pos edge, List.append_nil]
    exact matches_refl conveys _
  · rw [still]
    intro i member
    cases member

theorem serves_chunks {x y : Int} {p : Prog Lease Call Unit PyError Unit}
    (emits : owed p = (chunks x y).map fun c => .move c.1 c.2) : Serves (.move x y) p := by
  constructor
  · rw [emits]
    exact chunks_conserved x y
  · rw [emits]
    intro i member
    obtain ⟨c, isChunk, rfl⟩ := List.mem_map.mp member
    exact chunksLoop_range _ x y c isChunk

open Method in
theorem apply_serves (e : Event) (l : Lease) :
    (∃ err l', Lease.apply e l = .done (.error err) l') ∨ Serves e (Lease.apply e l) := by
  cases e with
  | ping => exact .inr (serves_edge rfl rfl)
  | bye => exact .inr (serves_edge rfl rfl)
  | key vk down =>
    simp only [Lease.apply]
    cases keys vk with
    | none => exact .inl ⟨_, _, rfl⟩
    | some key =>
      right
      apply serves_edge rfl
      cases down with
      | true =>
        simp only [Lease.applyKey, Lease.send, bind_apply, get_apply, modify_apply, pure_apply,
          call_apply, ite_method_apply, Prog.bind]
        split
        · rfl
        · split <;> rfl
      | false =>
        simp only [Lease.applyKey, Lease.send, bind_apply, get_apply, modify_apply, pure_apply,
          call_apply, ite_method_apply, Prog.bind]
        split <;> rfl
  | button n down =>
    simp only [Lease.apply]
    cases buttons n with
    | none => exact .inl ⟨_, _, rfl⟩
    | some b =>
      right
      apply serves_edge rfl
      cases down with
      | true =>
        simp only [Lease.applyButton, Lease.send, bind_apply, get_apply, modify_apply, pure_apply,
          call_apply, ite_method_apply, Prog.bind]
        split <;> rfl
      | false =>
        simp only [Lease.applyButton, Lease.send, bind_apply, get_apply, pure_apply, call_apply,
          ite_method_apply, Prog.bind]
        split <;> rfl
  | move x y =>
    simp only [Lease.apply, Lease.applyMove, Lease.send, bind_apply, get_apply, throw_apply,
      call_apply, pure_apply, ite_method_apply, Prog.bind]
    split
    · exact .inl ⟨_, _, rfl⟩
    · right
      split
      · split
        · exact serves_chunks (List.append_nil _)
        · rename_i none
          exact serves_chunks (by rw [not_not.mp none]; rfl)
      · apply serves_chunks
        rw [sendEach_owed, List.map_eq_flatMap]
        rfl
  | absolute x y =>
    simp only [Lease.apply, Lease.applyAbsolute, Lease.send, bind_apply, get_apply, throw_apply,
      call_apply, ite_method_apply, Prog.bind]
    split
    · exact .inl ⟨_, _, rfl⟩
    · right
      constructor
      · exact matches_refl conveys _
      · intro i member
        cases List.mem_singleton.mp member
        rfl
  | wheel x y =>
    right
    apply serves_edge rfl
    show owed (Lease.sendEach _ _ _) = []
    rw [sendEach_owed]
    simp [Report.items]

theorem edges_inRange (e : Event) : ∀ i ∈ e.edges, i.inRange = true := by
  intro i member
  unfold Event.edges at member
  split at member
  · rename_i edge
    cases List.mem_singleton.mp member
    cases e <;> first | rfl | cases edge
  · cases member

/-! The invariant: what is flowing conveys what was submitted. -/

structure Inv (s : State) : Prop where
  conserved : Conserved s.flowing (s.submitted.map fun e => e.event.item)
  inRange : ∀ i ∈ s.applied ++ s.called, i.inRange = true

theorem inv_fresh (absoluteMouse stream : Bool) : Inv (fresh absoluteMouse stream) where
  conserved := matches_refl conveys []
  inRange i member := by cases member

theorem inv_same {s s' : State} (h : Inv s) (flows : s'.flowing = s.flowing)
    (submitted : s'.submitted = s.submitted) (emitted : s'.applied ++ s'.called = s.applied ++ s.called) :
    Inv s' where
  conserved := by
    rw [flows, submitted]
    exact h.conserved
  inRange := by
    rw [emitted]
    exact h.inRange

theorem inv_submit {s : State} (h : Inv s) (e : HidEvent) (accepted : (s.client.submit e).1 = true) :
    Inv { s with client := (s.client.submit e).2, submitted := s.submitted ++ [e] } := by
  obtain ⟨-, events, pushed, same⟩ := submit_accepted accepted
  have merged := push_matches conveys (fun e : HidEvent => e.event.item)
    (fun _ _ _ => hidEvent_merge) pushed
  constructor
  · rw [same]
    have there := matches_append conveys h.conserved (matches_refl conveys [e.event.item])
    have here := matches_append conveys (matches_refl conveys (s.applied ++ s.called ++
      s.queue.map Event.item ++ s.between)) merged
    simp only [State.flowing, List.append_assoc, List.map_append, List.map_cons, List.map_nil]
      at here there ⊢
    exact matches_trans conveys here there
  · exact h.inRange

theorem event_ne (e : HidEvent) : e.event ≠ .bye ∧ e.event ≠ .ping := by
  obtain ⟨type, a, b, down⟩ := e
  cases type <;> simp [HidEvent.event]

theorem inv_put {s : State} {e : HidEvent} {wire : List Frame} {queue : List Event} (h : Inv s)
    (first : s.wire = .event e :: wire) (put : Queue.put 256 s.queue e.event = .ok queue) :
    Inv { s with wire, queue } := by
  constructor
  · have old := h.conserved
    have merged := matches_replace conveys (s.applied ++ s.called)
      (wire.flatMap Frame.items ++ (s.sending.toList.map fun e => e.event.item) ++
        s.client.events.map fun e => e.event.item) (put_conserved put)
    simp only [State.flowing, State.called, State.between, first, Frame.items, List.flatMap_cons,
      List.append_assoc] at old merged ⊢
    exact matches_trans conveys merged old
  · exact h.inRange

theorem inv_read {s : State} {f : Frame} {wire : List Frame} (h : Inv s) (first : s.wire = f :: wire)
    (live : (State.read { s with wire } f.line).revoked = false) :
    Inv (State.read { s with wire } f.line) := by
  cases f with
  | ping =>
    apply inv_same h
    · show ({ s with wire } : State).flowing = s.flowing
      simp [State.flowing, State.called, State.between, first, Frame.items]
    · rfl
    · rfl
  | event e =>
    unfold State.read at live ⊢
    split at live
    · cases live
    · rename_i ev parsed
      have same := parse_encode parsed
      subst same
      have other := event_ne e
      simp only [if_neg other.1, if_neg other.2] at live ⊢
      cases put : Queue.put 256 s.queue e.event with
      | error _ =>
        rw [put] at live
        cases live
      | ok queue => exact inv_put h first put

theorem inv_serve {s : State} {p : Prog Lease Call Unit PyError Unit}
    (h : Inv { s with work := p }) (live : (s.serve p).revoked = false) : Inv (s.serve p) := by
  cases p with
  | done r l =>
    cases r with
    | ok _ => exact h
    | error e => cases live
  | wait op l k => exact h

theorem inv_pop {s : State} {e : Event} {queue : List Event} {l : Lease} (h : Inv s)
    (idle : s.work = .done (.ok ()) l) (first : s.queue = e :: queue)
    (live : (State.serve { s with queue, applied := s.applied ++ e.edges }
      (Lease.apply e l)).revoked = false) :
    Inv (State.serve { s with queue, applied := s.applied ++ e.edges } (Lease.apply e l)) := by
  rcases apply_serves e l with ⟨err, l', raised⟩ | ⟨conserved, inRange⟩
  · rw [raised] at live
    cases live
  · refine inv_serve ?_ live
    constructor
    · have old := h.conserved
      have whole := matches_replace conveys s.applied (queue.map Event.item ++
        s.between ++ s.client.events.map fun e => e.event.item) conserved
      simp only [State.flowing, State.called, State.between, idle, first, owed, List.append_nil,
        List.map_cons, List.append_assoc, List.singleton_append] at old whole ⊢
      exact matches_trans conveys whole old
    · intro i member
      rcases List.mem_append.mp member with before | after
      · rcases List.mem_append.mp before with old | edge
        · exact h.inRange i (List.mem_append_left _ old)
        · exact edges_inRange e i edge
      · exact inRange i after

theorem inv_advance {s : State} {l : Label} (h : Inv s) (live : (advance s l).revoked = false) :
    Inv (advance s l) := by
  cases l with
  | submit e =>
    have submitted := inv_submit h e
    simp only [advance] at live ⊢
    cases result : s.client.submit e with
    | mk ok client =>
      rw [result] at live submitted
      cases ok with
      | true => exact submitted rfl
      | false => cases live
  | take =>
    simp only [advance]
    split
    · rename_i idle first
      apply inv_same h
      · simp [State.flowing, State.called, State.between, idle, first]
      · rfl
      · rfl
    · exact h
  | transmit =>
    simp only [advance]
    split
    · rename_i e sending
      apply inv_same h
      · simp [State.flowing, State.called, State.between, sending, Frame.items]
      · rfl
      · rfl
    · exact h
  | heartbeat =>
    simp only [advance]
    split
    · apply inv_same h
      · simp [State.flowing, State.called, State.between, Frame.items]
      · rfl
      · rfl
    · exact h
  | read =>
    simp only [advance] at live ⊢
    split at live
    · rename_i f wire first
      exact inv_read h first live
    · exact h
  | pop =>
    simp only [advance] at live ⊢
    split at live
    · rename_i l e queue idle first
      exact inv_pop h idle first live
    · exact h
  | answer r =>
    simp only [advance] at live ⊢
    split at live
    · rename_i op l k v waiting
      refine inv_serve ?_ live
      apply inv_same h
      · simp [State.flowing, State.called, State.between, waiting, owed]
      · rfl
      · simp [State.called, waiting, owed]
    · cases live
    · exact h
  | stop => cases live

theorem inv_run (absoluteMouse stream : Bool) (ls : List Label)
    (live : (run step (fresh absoluteMouse stream) ls).revoked = false) :
    Inv (run step (fresh absoluteMouse stream) ls) := by
  refine run_invariant step (fun s => s.revoked = false → Inv s) ?_
    (fun _ => inv_fresh absoluteMouse stream) ls live
  intro s l h live
  unfold step at live ⊢
  split at live
  · rename_i revoked
    rw [revoked] at live
    cases live
  · rename_i going
    rw [if_neg going]
    exact inv_advance (h (by simpa using going)) live

/-- Once both queues are empty, what the lease was given and has emitted, followed by
what the call in progress still owes and what is on its way between the queues, has
the submitted edges in their order, and in every gap between two of them the submitted
displacement and positions of it, the last one last. Every report is in range. -/
theorem inputs_conserved (absoluteMouse stream : Bool) (ls : List Label)
    (live : (run step (fresh absoluteMouse stream) ls).revoked = false)
    (sent : (run step (fresh absoluteMouse stream) ls).client.events = [])
    (served : (run step (fresh absoluteMouse stream) ls).queue = []) :
    let s := run step (fresh absoluteMouse stream) ls
    Conserved (s.applied ++ (s.called ++ s.between)) (s.submitted.map fun e => e.event.item) ∧
      ∀ i ∈ s.applied, i.inRange = true := by
  intro s
  have h : Inv s := inv_run absoluteMouse stream ls live
  have flows : s.flowing = s.applied ++ (s.called ++ s.between) := by
    rw [State.flowing, sent, served]
    simp only [List.map_nil, List.append_nil, List.append_assoc]
  exact ⟨flows ▸ h.conserved, fun i member => h.inRange i (List.mem_append_left _ member)⟩

def mergedRun : List Label :=
  [.submit { type := .move, a := 100, b := 5 }, .submit { type := .move, a := 100, b := 5 },
   .submit { type := .key, a := 0x41, down := true }, .submit { type := .move, a := -3 },
   .take, .transmit, .read, .pop, .answer (.ok ()), .take, .transmit, .heartbeat, .take, .transmit,
   .read, .read, .read, .answer (.ok ()), .pop, .answer (.ok ()), .pop, .answer (.ok ())]

theorem mergedRun_conserved :
    let s := run step (fresh false false) mergedRun
    Conserved (s.applied ++ (s.called ++ s.between)) (s.submitted.map fun e => e.event.item) ∧
      ∀ i ∈ s.applied, i.inRange = true :=
  inputs_conserved false false mergedRun (by decide) (by decide) (by decide)

end Hid.Pipeline

import RkmoonKvm.Hid.WebSocket
import RkmoonKvm.Library.Runs

/-! `KvmdStream.flush`: the one connection of a stream, with the frames on their way to kvmd,
its answers on their way back and the queue in which `_read_loop` leaves the pongs.
The pings are numbered by the `flush` that sent them; the code does not see the number. -/
namespace Hid.Flush
open Runs

/-- What the client sends. `control` is a control pong or the close frame. -/
inductive Frame where
  | event (i : Nat)
  | ping (flush : Nat)
  | control
  deriving DecidableEq

/-- What kvmd sends; `other` is what the read loop ignores. -/
inductive Incoming where
  | pong (flush : Nat)
  | ping (payload : List UInt8)
  | close (payload : List UInt8)
  | other (f : { f : UInt8 × List UInt8 //
      f.1 ≠ 0x9 ∧ f.1 ≠ 0x8 ∧ ¬ (f.1 = 0x2 ∧ f.2.take 1 = [0xff]) })

def Incoming.frame : Incoming → UInt8 × List UInt8
  | .pong _ => (0x2, [0xff])
  | .ping payload => (0x9, payload)
  | .close payload => (0x8, payload)
  | .other f => f.val

/-- An entry of `pongs`: `None`, or the `False` of the loop's end. -/
inductive Entry where
  | pong (flush : Nat)
  | failed
  deriving DecidableEq

def Entry.value : Entry → WebSocket.Pong
  | .pong _ => .pong
  | .failed => .failed

structure Call where
  flush : Nat
  before : List Nat

inductive Phase where
  | idle
  | draining (c : Call)
  | waiting (c : Call)

def Phase.call : Phase → Option Call
  | .idle => none
  | .draining c => some c
  | .waiting c => some c

/-- A `flush` that returned normally: the pong it took, and what kvmd had processed then. -/
structure Confirmation extends Call where
  pong : Nat
  processed : List Nat

structure Line where
  connected : Bool := false
  wire : List Frame := []
  /-- What kvmd has processed, oldest first. -/
  received : List Frame := []
  back : List Incoming := []
  pongs : List Entry := []

def Frame.event? : Frame → Option Nat
  | .event i => some i
  | _ => none

def Frame.ping? : Frame → Option Nat
  | .ping n => some n
  | _ => none

def Incoming.pong? : Incoming → Option Nat
  | .pong n => some n
  | _ => none

def Entry.pong? : Entry → Option Nat
  | .pong n => some n
  | _ => none

def events (fs : List Frame) : List Nat := fs.filterMap Frame.event?

namespace Line

def write (f : Frame) (l : Line) : Line :=
  { l with wire := if l.connected then l.wire ++ [f] else l.wire }

/-- kvmd processes the next frame; only on a lost connection may its answer not get back. -/
def process (delivered : Bool) (l : Line) : Line :=
  match l.wire with
  | [] => l
  | f :: wire =>
    let answer := if l.connected || delivered then f.ping?.toList.map Incoming.pong else []
    { l with wire := wire, received := l.received ++ [f], back := l.back ++ answer }

def announce (m : Incoming) (l : Line) : Line :=
  if m.pong? = none then { l with back := l.back ++ [m] } else l

def put (e : Entry) (l : Line) : Line := { l with pongs := l.pongs ++ [e] }

def lose (kept : Nat) (l : Line) : Line :=
  { l with connected := false, wire := l.wire.take kept }

end Line

structure State where
  opened : Bool := false
  alive : Bool := false
  writer : Bool := false
  reading : Bool := false
  closing : Bool := false
  line : Line := {}
  /-- The number of event frames written. -/
  written : Nat := 0
  /-- The events written whose send waits for the drain. -/
  draining : List Nat := []
  returned : List Nat := []
  flushes : Nat := 0
  phase : Phase := .idle
  confirmed : List Confirmation := []

namespace State

def ready (s : State) : Bool := s.alive && s.writer

def raised (s : State) : State := { s with alive := false, phase := .idle }

def finish (s : State) : State :=
  { s with alive := false, reading := false, line := s.line.put .failed }

def read (s : State) : State :=
  match s.line.back with
  | [] => s
  | .pong n :: back => { s with line := { s.line with back := back }.put (.pong n) }
  | .ping _ :: back => { s with line := { s.line with back := back }.write .control }
  | .close _ :: back => { s with line := { s.line with back := back } }.finish
  | .other _ :: back => { s with line := { s.line with back := back } }

def flush (s : State) : State :=
  match s.phase with
  | .idle =>
    let line := { s.line with pongs := [] }
    if s.ready then
      { s with
        line := line.write (.ping s.flushes), flushes := s.flushes + 1,
        phase := .draining ⟨s.flushes, s.returned⟩ }
    else { s with line := line }
  | _ => s

def take (s : State) : State :=
  match s.phase, s.line.pongs with
  | .waiting c, .pong n :: pongs =>
    let confirmation := { c with pong := n, processed := events s.line.received }
    { s with
      line := { s.line with pongs := pongs }, phase := .idle,
      confirmed := s.confirmed ++ [confirmation] }
  | .waiting _, .failed :: pongs => { s.raised with line := { s.line with pongs := pongs } }
  | _, _ => s

end State

/-- The steps between two suspensions of the calls, of the read loop, of kvmd and of the
connection. The sends overlap each other, a `flush` and `close`; there is one `flush` at a
time, and `open` succeeds once, as `open_stream` and the lease that owns the stream use it. -/
inductive Label where
  | opened
  | send
  | sendRaises
  | drained (i : Nat) (ok : Bool)
  | flush
  | flushRaises
  | flushDrained (ok : Bool)
  | take
  | timeout
  | read
  | loopEnds
  | closing
  | closed
  | process (delivered : Bool)
  | announce (m : Incoming)
  | lose (kept : Nat)

def step (s : State) : Label → State
  | .opened =>
    if s.opened then s
    else { s with opened := true, alive := true, writer := true, reading := true,
                  closing := false, line := { s.line with connected := true } }
  | .send =>
    if s.ready then
      { s with line := s.line.write (.event s.written), written := s.written + 1,
               draining := s.draining ++ [s.written] }
    else s
  | .sendRaises => if s.ready then { s with alive := false } else s
  | .drained i ok =>
    if i ∈ s.draining then
      let s := { s with draining := s.draining.erase i }
      if ok then { s with returned := s.returned ++ [i] } else { s with alive := false }
    else s
  | .flush => s.flush
  | .flushRaises =>
    match s.phase with
    | .idle => if s.ready then { s.raised with line := { s.line with pongs := [] } } else s
    | _ => s
  | .flushDrained ok =>
    match s.phase with
    | .draining c => if ok then { s with phase := .waiting c } else s.raised
    | _ => s
  | .take => s.take
  | .timeout =>
    match s.phase with
    | .waiting _ => s.raised
    | _ => s
  | .read => if s.reading then s.read else s
  | .loopEnds => if s.reading then s.finish else s
  | .closing => { s with alive := false, closing := true }
  | .closed =>
    if s.closing && !s.reading && s.writer then
      { s with line := s.line.write .control, writer := false }
    else s
  | .process delivered => { s with line := s.line.process delivered }
  | .announce m => { s with line := s.line.announce m }
  | .lose kept => { s with line := s.line.lose kept }

/-! The numbers of the pings that are not answered for, as they move along the line. -/

def Ahead (before : List Nat) : List Frame → List Frame → Prop
  | _, [] => True
  | received, f :: wire =>
    (f.ping? ≠ none → before ⊆ events received) ∧ Ahead before (received ++ [f]) wire

namespace Line

def answered (l : Line) : List Nat :=
  l.pongs.filterMap Entry.pong? ++ l.back.filterMap Incoming.pong?

def outstanding (l : Line) : List Nat := l.answered ++ l.wire.filterMap Frame.ping?

/-- What a `flush` under way may rely on. -/
structure Carries (l : Line) (c : Call) : Prop where
  own : l.outstanding = [] ∨ l.outstanding = [c.flush]
  ahead : Ahead c.before l.received l.wire
  behind : l.answered ≠ [] → c.before ⊆ events l.received

/-- A move of the line that no `flush` makes. -/
structure Onward (l l' : Line) : Prop where
  fewer : l'.outstanding.Sublist l.outstanding
  carries : ∀ c, l.Carries c → l'.Carries c
  connected : l'.connected → l.connected
  reaches : l'.connected → events (l.received ++ l.wire) ⊆ events (l'.received ++ l'.wire)

end Line

theorem own_of_sublist {n : Nat} {ns ms : List Nat} (fewer : ms.Sublist ns)
    (own : ns = [] ∨ ns = [n]) : ms = [] ∨ ms = [n] := by
  rcases own with rfl | rfl
  · exact .inl (List.sublist_nil.mp fewer)
  · exact List.sublist_singleton.mp fewer

theorem ahead_quiet {before : List Nat} {received wire : List Frame}
    (quiet : wire.filterMap Frame.ping? = []) : Ahead before received wire := by
  induction wire generalizing received with
  | nil => exact trivial
  | cons f wire ih =>
    rw [List.filterMap_eq_nil_iff] at quiet
    refine ⟨fun ping => absurd (quiet f List.mem_cons_self) ping, ih ?_⟩
    rw [List.filterMap_eq_nil_iff]
    exact fun g member => quiet g (List.mem_cons_of_mem f member)

theorem ahead_concat {before : List Nat} {received wire : List Frame} {f : Frame}
    (ahead : Ahead before received wire)
    (front : f.ping? ≠ none → before ⊆ events (received ++ wire)) :
    Ahead before received (wire ++ [f]) := by
  induction wire generalizing received with
  | nil => exact ⟨by simpa using front, trivial⟩
  | cons g wire ih => exact ⟨ahead.1, ih ahead.2 (by simpa using front)⟩

theorem ahead_take {before : List Nat} {received wire : List Frame} (kept : Nat)
    (ahead : Ahead before received wire) : Ahead before received (wire.take kept) := by
  induction wire generalizing received kept with
  | nil => simpa using ahead
  | cons f wire ih =>
    cases kept with
    | zero => exact trivial
    | succ kept => exact ⟨ahead.1, ih kept ahead.2⟩

theorem events_append (fs gs : List Frame) : events (fs ++ gs) = events fs ++ events gs :=
  List.filterMap_append

namespace Line
section
variable {l : Line}

theorem onward_rfl : Onward l l :=
  ⟨List.Sublist.refl _, fun _ carries => carries, fun on => on, fun _ _ member => member⟩

theorem onward_answered {l' : Line} (connected : l'.connected = l.connected)
    (wire : l'.wire = l.wire) (received : l'.received = l.received)
    (answered : l'.answered = l.answered) : Onward l l' := by
  have same : l'.outstanding = l.outstanding := by rw [outstanding, answered, wire]; rfl
  refine ⟨same ▸ List.Sublist.refl _, fun c carries => ?_, fun on => connected ▸ on, fun _ => ?_⟩
  · exact ⟨same ▸ carries.own, received ▸ wire ▸ carries.ahead,
      received ▸ answered ▸ carries.behind⟩
  · rw [received, wire]
    exact fun _ member => member

theorem onward_put {e : Entry} (noPong : e.pong? = none) : Onward l (l.put e) :=
  onward_answered rfl rfl rfl (by simp [put, answered, noPong])

theorem onward_announce (m : Incoming) : Onward l (l.announce m) := by
  unfold announce
  split
  · rename_i noPong
    exact onward_answered rfl rfl rfl (by simp [answered, noPong])
  · exact onward_rfl

theorem onward_back {m : Incoming} {back : List Incoming} (head : l.back = m :: back)
    (noPong : m.pong? = none) : Onward l { l with back := back } :=
  onward_answered rfl rfl rfl (by simp [answered, head, noPong])

theorem onward_pong {n : Nat} {back : List Incoming} (head : l.back = .pong n :: back) :
    Onward l ({ l with back := back }.put (.pong n)) :=
  onward_answered rfl rfl rfl (by simp [put, answered, head, Incoming.pong?, Entry.pong?])

theorem onward_write {f : Frame} (noPing : f.ping? = none) : Onward l (l.write f) := by
  unfold write
  split
  · have same : ({ l with wire := l.wire ++ [f] } : Line).outstanding = l.outstanding := by
      simp [outstanding, answered, noPing]
    refine ⟨same ▸ List.Sublist.refl _, fun c carries => ?_, fun on => on, fun _ i member => ?_⟩
    · exact ⟨same ▸ carries.own, ahead_concat carries.ahead (absurd noPing), carries.behind⟩
    · rw [← List.append_assoc, events_append]
      exact List.mem_append_left _ member
  · exact onward_rfl

theorem onward_lose (kept : Nat) : Onward l (l.lose kept) := by
  have fewer : (l.lose kept).outstanding.Sublist l.outstanding :=
    (List.Sublist.refl _).append ((List.take_sublist kept l.wire).filterMap _)
  refine ⟨fewer, fun c carries => ?_, by simp [lose], by simp [lose]⟩
  exact ⟨own_of_sublist fewer carries.own, ahead_take kept carries.ahead, carries.behind⟩

/-- kvmd answers a ping only when it has processed what was in front of it. -/
theorem onward_shift {f : Frame} {wire : List Frame} {answer : List Incoming}
    (onWire : l.wire = f :: wire)
    (answers : (answer.filterMap Incoming.pong?).Sublist f.ping?.toList) :
    Onward l { l with
      wire := wire, received := l.received ++ [f], back := l.back ++ answer } := by
  generalize moved : Line.mk l.connected wire (l.received ++ [f]) (l.back ++ answer) l.pongs = l'
  have behind : l'.answered = l.answered ++ answer.filterMap Incoming.pong? := by
    subst moved
    simp [answered]
  have processed : events l.received ⊆ events l'.received := by
    subst moved
    rw [events_append]
    exact List.subset_append_left _ _
  have fewer : l'.outstanding.Sublist l.outstanding := by
    have pings : l.wire.filterMap Frame.ping? = f.ping?.toList ++ wire.filterMap Frame.ping? := by
      rw [onWire]
      cases named : f.ping? <;> simp [named]
    rw [outstanding, outstanding, behind, pings, List.append_assoc]
    subst moved
    exact (List.Sublist.refl _).append (answers.append (List.Sublist.refl _))
  refine ⟨fewer, fun c carries => ?_, ?_, ?_⟩
  · obtain ⟨own, ahead, before⟩ := carries
    rw [onWire] at ahead
    refine ⟨own_of_sublist fewer own, ?_, fun back => ?_⟩
    · subst moved
      exact ahead.2
    · by_cases quiet : l.answered = []
      · have ping : f.ping? ≠ none := by
          intro noPing
          rw [noPing, Option.toList_none, List.sublist_nil] at answers
          exact back (by rw [behind, quiet, answers, List.append_nil])
        exact List.Subset.trans (ahead.1 ping) processed
      · exact List.Subset.trans (before quiet) processed
  · subst moved
    exact fun on => on
  · subst moved
    intro _ i member
    simpa [onWire] using member

theorem onward_process (delivered : Bool) : Onward l (l.process delivered) := by
  unfold process
  split
  · exact onward_rfl
  · rename_i f wire onWire
    apply onward_shift onWire
    split
    · cases f.ping? <;> simp [Incoming.pong?]
    · simp

theorem onward_pongs {pongs : List Entry}
    (fewer : (pongs.filterMap Entry.pong?).Sublist (l.pongs.filterMap Entry.pong?)) :
    Onward l { l with pongs := pongs } := by
  have answers : ({ l with pongs := pongs } : Line).answered.Sublist l.answered :=
    fewer.append (List.Sublist.refl _)
  have outstanding := answers.append (List.Sublist.refl (l.wire.filterMap Frame.ping?))
  refine ⟨outstanding, fun c carries => ?_, fun on => on, fun _ _ member => member⟩
  refine ⟨own_of_sublist outstanding carries.own, carries.ahead, fun back => ?_⟩
  exact carries.behind fun quiet => back (List.sublist_nil.mp (quiet ▸ answers))

theorem onward_pop {e : Entry} {pongs : List Entry} (queued : l.pongs = e :: pongs) :
    Onward l { l with pongs := pongs } :=
  onward_pongs (by rw [queued]; exact (List.sublist_cons_self e pongs).filterMap _)

theorem carries_ping {n : Nat} {before : List Nat} (quiet : l.outstanding = [])
    (sent : l.connected → before ⊆ events (l.received ++ l.wire)) :
    (l.write (.ping n)).Carries ⟨n, before⟩ := by
  obtain ⟨answers, pings⟩ := List.append_eq_nil_iff.mp quiet
  have ahead : Ahead before l.received l.wire := ahead_quiet pings
  unfold write
  split
  · rename_i connected
    refine ⟨Or.inr ?_, ahead_concat ahead fun _ => sent connected, fun back => absurd answers back⟩
    change l.answered ++ (l.wire ++ [Frame.ping n]).filterMap Frame.ping? = [n]
    rw [answers, List.filterMap_append, pings]
    rfl
  · exact ⟨Or.inl quiet, ahead, fun back => absurd answers back⟩

theorem reaches_write (f : Frame) (connected : l.connected) :
    events ((l.write f).received ++ (l.write f).wire) = events (l.received ++ l.wire) ++ events [f] := by
  simp [write, connected, events]

end
end Line

theorem read_handle {s : State} {m : Incoming} {back : List Incoming}
    (head : s.line.back = m :: back) (mask : WebSocket.Mask) (written : List (List UInt8)) :
    let seen : WebSocket.Stream := ⟨s.alive, s.line.pongs.map Entry.value, written⟩
    let next := (WebSocket.handle mask seen m.frame).getD (WebSocket.finish seen)
    s.read.alive = next.alive ∧ s.read.line.pongs.map Entry.value = next.pongs := by
  cases m with
  | pong n =>
    simp [State.read, head, WebSocket.handle, Incoming.frame, Line.put, Entry.value]
  | ping payload =>
    simp [State.read, head, WebSocket.handle, Incoming.frame, Line.write]
  | close payload =>
    simp [State.read, head, WebSocket.handle, WebSocket.finish, Incoming.frame, State.finish,
      Line.put, Entry.value]
  | other f =>
    obtain ⟨⟨opcode, payload⟩, noPing, noClose, noPong⟩ := f
    dsimp only at noPing noClose noPong
    simp [State.read, head, Incoming.frame, WebSocket.handle, noPing, noClose, noPong]

/-! The invariant of a stream. -/

structure Sound (s : State) : Prop where
  quiet : s.phase.call = none → s.alive → s.line.outstanding = []
  carries : ∀ c, s.phase.call = some c → s.line.Carries c
  sent : s.line.connected → s.draining ++ s.returned ⊆ events (s.line.received ++ s.line.wire)
  unopened : s.opened = false →
    s.alive = false ∧ s.line.outstanding = [] ∧ s.draining ++ s.returned = []
  confirmed : ∀ c ∈ s.confirmed, c.pong = c.flush ∧ c.before ⊆ c.processed

section
variable {s : State}

theorem sound_start : Sound {} :=
  ⟨fun _ _ => rfl, by simp [Phase.call], by simp, fun _ => ⟨rfl, rfl, rfl⟩, by simp⟩

theorem sound_onward (sound : Sound s) {l : Line} (onward : s.line.Onward l) :
    Sound { s with line := l } := by
  refine ⟨fun idle alive => ?_, fun c call => onward.carries c (sound.carries c call), fun on => ?_,
    fun fresh => ?_, sound.confirmed⟩
  · exact List.sublist_nil.mp (sound.quiet idle alive ▸ onward.fewer)
  · exact List.Subset.trans (sound.sent (onward.connected on)) (onward.reaches on)
  · obtain ⟨dead, quiet, unsent⟩ := sound.unopened fresh
    exact ⟨dead, List.sublist_nil.mp (quiet ▸ onward.fewer), unsent⟩

theorem sound_dead (sound : Sound s) : Sound { s with alive := false } :=
  ⟨by simp, sound.carries, sound.sent, fun fresh => ⟨rfl, (sound.unopened fresh).2⟩,
    sound.confirmed⟩

theorem sound_raised (sound : Sound s) : Sound s.raised :=
  ⟨by simp [State.raised], by simp [State.raised, Phase.call], sound.sent,
    fun fresh => ⟨rfl, (sound.unopened fresh).2⟩, sound.confirmed⟩

theorem sound_finish (sound : Sound s) : Sound s.finish :=
  have ended := sound_onward (sound_dead sound) (Line.onward_put (e := .failed) rfl)
  { ended with }

theorem sound_read (sound : Sound s) : Sound s.read := by
  unfold State.read
  split
  · exact sound
  · rename_i n back head
    exact sound_onward sound (Line.onward_pong head)
  · rename_i payload back head
    have taken := sound_onward sound (Line.onward_back head rfl)
    exact sound_onward taken (Line.onward_write rfl)
  · rename_i payload back head
    exact sound_finish (sound_onward sound (Line.onward_back head rfl))
  · rename_i f back head
    exact sound_onward sound (Line.onward_back head rfl)

theorem sound_cleared (sound : Sound s) : Sound { s with line := { s.line with pongs := [] } } :=
  sound_onward sound (Line.onward_pongs (List.nil_sublist _))

theorem opened_of_ready (sound : Sound s) (ready : s.ready) : s.opened := by
  cases fresh : s.opened with
  | false => simp [State.ready, (sound.unopened fresh).1] at ready
  | true => rfl

theorem sound_flush (sound : Sound s) : Sound s.flush := by
  unfold State.flush
  split
  · rename_i idle
    have cleared := sound_cleared sound
    dsimp only
    split
    · rename_i ready
      have opened := opened_of_ready sound ready
      have alive : s.alive := by
        simp only [State.ready, Bool.and_eq_true] at ready
        exact ready.1
      have quiet := cleared.quiet (by rw [idle]; rfl) alive
      have returned : s.line.connected → s.returned ⊆ events (s.line.received ++ s.line.wire) :=
        fun on => List.Subset.trans (List.subset_append_right _ _) (sound.sent on)
      refine ⟨by simp [Phase.call], fun c call => ?_, fun on => ?_, by simp [opened],
        sound.confirmed⟩
      · cases call
        exact Line.carries_ping quiet returned
      · have connected : s.line.connected := on
        have reaches := Line.reaches_write (l := { s.line with pongs := [] }) (.ping s.flushes) connected
        exact reaches ▸ List.subset_append_of_subset_left _ (sound.sent connected)
    · exact cleared
  · exact sound

/-- The only entry that can confirm a flush is the pong of its own ping. -/
theorem sound_take (sound : Sound s) : Sound s.take := by
  unfold State.take
  split
  · rename_i c n pongs waiting queued
    have carries := sound.carries c (by rw [waiting]; rfl)
    have popped : Sound { s with line := { s.line with pongs := pongs } } :=
      sound_onward sound (Line.onward_pop queued)
    have first : s.line.outstanding = n :: ({ s.line with pongs := pongs } : Line).outstanding := by
      simp [Line.outstanding, Line.answered, queued, Entry.pong?]
    have own : s.line.outstanding = [c.flush] :=
      carries.own.resolve_left (by rw [first]; exact List.cons_ne_nil _ _)
    rw [first] at own
    obtain ⟨same, rest⟩ := List.cons.inj own
    have processed : c.before ⊆ events s.line.received :=
      carries.behind (by simp [Line.answered, queued, Entry.pong?])
    refine ⟨fun _ _ => rest, by simp [Phase.call], popped.sent, popped.unopened, ?_⟩
    intro c' member
    rcases List.mem_append.mp member with earlier | last
    · exact sound.confirmed c' earlier
    · rw [List.mem_singleton.mp last]
      exact ⟨same, processed⟩
  · rename_i c pongs waiting queued
    have popped : Sound { s with line := { s.line with pongs := pongs } } :=
      sound_onward sound (Line.onward_pop queued)
    exact sound_raised popped
  · exact sound

theorem sound_send (sound : Sound s) (ready : s.ready) :
    Sound { s with line := s.line.write (.event s.written), written := s.written + 1,
                   draining := s.draining ++ [s.written] } := by
  have opened := opened_of_ready sound ready
  have written := sound_onward sound (Line.onward_write (f := .event s.written) rfl)
  refine ⟨written.quiet, written.carries, fun on i member => ?_, by simp [opened], sound.confirmed⟩
  have connected : s.line.connected := on
  change i ∈ events ((s.line.write (.event s.written)).received ++ _)
  rw [Line.reaches_write _ connected]
  have known : i ∈ s.draining ++ s.returned ∨ i = s.written := by
    simp only [List.mem_append, List.mem_singleton] at member ⊢
    tauto
  rcases known with earlier | rfl
  · exact List.mem_append_left _ (sound.sent connected earlier)
  · exact List.mem_append_right _ List.mem_cons_self

theorem sound_drained (sound : Sound s) {draining returned : List Nat}
    (fewer : draining ++ returned ⊆ s.draining ++ s.returned) :
    Sound { s with draining := draining, returned := returned } := by
  refine ⟨sound.quiet, sound.carries, fun on => List.Subset.trans fewer (sound.sent on),
    fun fresh => ?_, sound.confirmed⟩
  obtain ⟨dead, quiet, unsent⟩ := sound.unopened fresh
  exact ⟨dead, quiet, List.subset_nil.mp (unsent ▸ fewer)⟩

theorem sound_opened (sound : Sound s) (fresh : s.opened = false) :
    Sound (step s .opened) := by
  obtain ⟨dead, quiet, unsent⟩ := sound.unopened fresh
  rw [step, if_neg (by simp [fresh])]
  refine ⟨fun _ _ => quiet, fun c call => ?_, fun _ => ?_, by simp, sound.confirmed⟩
  · have carries := sound.carries c call
    exact ⟨carries.own, carries.ahead, carries.behind⟩
  · change s.draining ++ s.returned ⊆ _
    rw [unsent]
    exact List.nil_subset _

theorem sound_step (sound : Sound s) (label : Label) : Sound (step s label) := by
  cases label with
  | opened =>
    cases fresh : s.opened with
    | false => exact sound_opened sound fresh
    | true => rwa [step, if_pos fresh]
  | send =>
    simp only [step]
    split
    · rename_i ready
      exact sound_send sound ready
    · exact sound
  | sendRaises =>
    simp only [step]
    split
    · exact sound_dead sound
    · exact sound
  | drained i ok =>
    simp only [step]
    split
    · rename_i member
      have less : s.draining.erase i ⊆ s.draining := List.erase_subset
      cases ok with
      | true =>
        refine sound_drained sound (List.append_subset.mpr ⟨?_, List.append_subset.mpr ⟨?_, ?_⟩⟩)
        · exact List.subset_append_of_subset_left _ less
        · exact List.subset_append_right _ _
        · simp [member]
      | false =>
        exact sound_dead (sound_drained sound (List.append_subset.mpr
          ⟨List.subset_append_of_subset_left _ less, List.subset_append_right _ _⟩))
    · exact sound
  | flush => exact sound_flush sound
  | flushRaises =>
    simp only [step]
    split
    · split
      · exact sound_raised (sound_cleared sound)
      · exact sound
    · exact sound
  | flushDrained ok =>
    simp only [step]
    split
    · rename_i c draining
      cases ok with
      | true =>
        refine ⟨by simp [Phase.call], fun c' call => ?_, sound.sent, sound.unopened, sound.confirmed⟩
        exact sound.carries c' (by rw [draining]; exact call)
      | false => exact sound_raised sound
    · exact sound
  | take => exact sound_take sound
  | timeout =>
    simp only [step]
    split
    · exact sound_raised sound
    · exact sound
  | read =>
    simp only [step]
    split
    · exact sound_read sound
    · exact sound
  | loopEnds =>
    simp only [step]
    split
    · exact sound_finish sound
    · exact sound
  | closing => exact { sound_dead sound with }
  | closed =>
    simp only [step]
    split
    · exact { sound_onward sound (Line.onward_write (f := .control) rfl) with }
    · exact sound
  | process delivered => exact sound_onward sound (Line.onward_process delivered)
  | announce m => exact sound_onward sound (Line.onward_announce m)
  | lose kept => exact sound_onward sound (Line.onward_lose kept)

end

/-- In every run of one stream, a `flush` that returns normally took the pong of its own
ping, and kvmd had then processed every event whose send had returned before the call. -/
theorem flush_barrier (ls : List Label) : ∀ c ∈ (run step {} ls).confirmed,
    c.pong = c.flush ∧ ∀ i ∈ c.before, i ∈ c.processed := by
  have sound : Sound (run step {} ls) :=
    run_invariant step Sound (fun _ label sound => sound_step sound label) sound_start ls
  intro c member
  obtain ⟨own, processed⟩ := sound.confirmed c member
  exact ⟨own, fun i before => processed before⟩

def session : List Label :=
  [.opened, .flush, .flushDrained true, .process true, .read, .take, .send, .drained 0 true, .flush,
    .flushDrained true, .process true, .announce (.other ⟨(0x1, [0x7b]), by decide⟩), .process true,
    .read, .read, .take]

theorem flush_barrier_session :
    ∃ c ∈ (run step {} session).confirmed, c.before = [0] ∧ c.pong = c.flush ∧ 0 ∈ c.processed := by
  have confirmed : (run step {} session).confirmed = [⟨⟨0, []⟩, 0, []⟩, ⟨⟨1, [0]⟩, 1, [0]⟩] := rfl
  have last : ⟨⟨1, [0]⟩, 1, [0]⟩ ∈ (run step {} session).confirmed := by
    rw [confirmed]
    exact List.mem_cons_of_mem _ List.mem_cons_self
  obtain ⟨own, processed⟩ := flush_barrier session _ last
  exact ⟨_, last, rfl, own, processed 0 List.mem_cons_self⟩

end Hid.Flush

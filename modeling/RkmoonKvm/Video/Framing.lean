import RkmoonKvm.Library.Runs
import RkmoonKvm.Library.Transfer
import RkmoonKvm.Video.Header

/-! Messages over the stream socket: `send` at one end, repeated `receive` at the other,
and the loop that moves a buffer in whatever pieces the kernel takes or gives. -/
namespace Video

namespace Framing

open Transfer

/-- One turn of the `io` loop: the deadline has passed, an interruption or nothing ready yet,
a failed call, the peer gone (a transfer of zero bytes), or a transfer. -/
inductive Turn
  | expired
  | again
  | failed (e : String)
  | closed
  | moved (k : Nat)
  deriving DecidableEq

inductive Sending
  | idle
  | header (m : Message) (io : Io UInt8)
  | payload (io : Io UInt8)
  | threw (e : String)
  | gone

inductive Receiving
  | idle
  | header (io : Io UInt8)
  | payload (h : Header) (io : Io UInt8)
  | threw (e : String)

structure State where
  todo : List Message
  sender : Sending := .idle
  wire : List UInt8 := []
  receiver : Receiving := .idle
  received : List Message := []
  consumed : Nat := 0
  cutAt : Option Nat := none

def sendCall (m : Message) (timeoutMs : Int) : Sending :=
  if m.h.size.toNat ≠ m.bytes.length ∨ timeoutMs ≤ 0 then
    .threw "message size/timeout mismatch"
  else
    match m.h.pack with
    | .error e => .threw e
    | .ok b => .header m (Io.start b)

def payloadSent (io : Io UInt8) : Sending :=
  if io.n = 0 then .idle else .payload io

def headerSent (m : Message) (io : Io UInt8) : Sending :=
  if io.n = 0 then payloadSent (Io.start m.bytes) else .header m io

def receiveCall (timeoutMs : Int) : Receiving :=
  if timeoutMs ≤ 0 then
    .threw "invalid receive timeout"
  else
    .header (Io.start (List.replicate headerSize 0))

def payloadRead (s : State) (h : Header) (io : Io UInt8) : State :=
  if io.n = 0 then
    { s with receiver := .idle, received := s.received ++ [{ h, bytes := io.data }] }
  else
    { s with receiver := .payload h io }

def headerRead (s : State) (io : Io UInt8) : State :=
  if io.n = 0 then
    match unpack io.data with
    | .error e => { s with receiver := .threw e }
    | .ok h => payloadRead s h (Io.start (List.replicate h.size.toNat 0))
  else
    { s with receiver := .header io }

def write (s : State) (io : Io UInt8) (next : Io UInt8 → Sending) : Turn → State
  | .expired => { s with sender := .threw "IPC deadline exceeded" }
  | .again => s
  | .failed e => { s with sender := .threw e }
  | .closed => { s with sender := .threw "IPC peer closed" }
  | .moved k =>
    if room : 0 < k ∧ k ≤ io.n then
      { s with wire := s.wire ++ io.left.take k, sender := next (io.advance k room.2) }
    else
      s

/-- Zero bytes are received only at the end of the stream. -/
def read (s : State) (io : Io UInt8) (next : State → Io UInt8 → State) : Turn → State
  | .expired => { s with receiver := .threw "IPC deadline exceeded" }
  | .again => s
  | .failed e => { s with receiver := .threw e }
  | .closed =>
    if s.wire = [] ∧ s.cutAt ≠ none then { s with receiver := .threw "IPC peer closed" } else s
  | .moved k =>
    if room : 0 < k ∧ k ≤ io.n ∧ k ≤ s.wire.length then
      next { s with wire := s.wire.drop k, consumed := s.consumed + k }
        (io.fill (s.wire.take k) (Nat.le_trans (List.length_take_le k s.wire) room.2.1))
    else
      s

inductive Label
  | send (timeoutMs : Int)
  | write (turn : Turn)
  | receive (timeoutMs : Int)
  | read (turn : Turn)
  | cut (c : Nat)

def step (s : State) : Label → State
  | .send timeoutMs =>
    match s.sender, s.todo with
    | .idle, m :: todo => { s with todo, sender := sendCall m timeoutMs }
    | _, _ => s
  | .write turn =>
    match s.sender with
    | .header m io => write s io (headerSent m) turn
    | .payload io => write s io payloadSent turn
    | _ => s
  | .receive timeoutMs =>
    match s.receiver with
    | .idle => { s with receiver := receiveCall timeoutMs }
    | _ => s
  | .read turn =>
    match s.receiver with
    | .header io => read s io headerRead turn
    | .payload h io => read s io (fun s io => payloadRead s h io) turn
    | _ => s
  | .cut c =>
    match s.cutAt with
    | none =>
      { s with sender := .gone, wire := s.wire.take c,
               cutAt := some (s.consumed + (s.wire.take c).length) }
    | some _ => s

def start (ms : List Message) : State := { todo := ms }

def frame (m : Message) : List UInt8 := m.h.encoded ++ m.bytes

def stream (ms : List Message) : List UInt8 := ms.flatMap frame

/-- The messages that lie wholly within the first `c` bytes. -/
def whole : Nat → List Message → List Message
  | _, [] => []
  | c, m :: ms => if (frame m).length ≤ c then m :: whole (c - (frame m).length) ms else []

structure Accepted (m : Message) : Prop where
  size : m.h.size.toNat = m.bytes.length
  header : ∃ b h, m.h.pack = .ok b ∧ unpack b = .ok h

/-- No deadline expires, and no call fails for another reason than the end of the stream. -/
def Faultless : Label → Prop
  | .send timeoutMs | .receive timeoutMs => 0 < timeoutMs
  | .write turn => turn = .again ∨ ∃ k, turn = .moved k
  | .read turn => turn = .again ∨ turn = .closed ∨ ∃ k, turn = .moved k
  | .cut _ => True

theorem accepted_packed {m : Message} (accepted : Accepted m) : m.h.pack = .ok m.h.encoded := by
  obtain ⟨b, h, packed, _⟩ := accepted.header
  exact pack_ok.mpr ⟨(pack_ok.mp packed).1, rfl⟩

theorem accepted_formed {m : Message} (accepted : Accepted m) : m.h.WellFormed := by
  obtain ⟨b, h, packed, read⟩ := accepted.header
  obtain ⟨written, formed⟩ := unpack_ok.mp read
  exact encoded_injective (written.trans (pack_ok.mp packed).2.symm) ▸ formed

theorem accepted_of {m : Message} (size : m.h.size.toNat = m.bytes.length)
    (formed : m.h.WellFormed) : Accepted m :=
  ⟨size, m.h.encoded, m.h, pack_ok.mpr ⟨formed.size, rfl⟩, unpack_ok.mpr ⟨rfl, formed⟩⟩

theorem length_frame {m : Message} (accepted : Accepted m) :
    (frame m).length = headerSize + m.h.size.toNat := by
  rw [frame, List.length_append, length_encoded, accepted.size]

@[simp] theorem stream_nil : stream [] = [] := rfl

@[simp] theorem stream_cons (m : Message) (ms : List Message) :
    stream (m :: ms) = frame m ++ stream ms := List.flatMap_cons

theorem stream_append (ms ms' : List Message) : stream (ms ++ ms') = stream ms ++ stream ms' :=
  List.flatMap_append

theorem whole_append (ms ms' : List Message) (n : Nat) :
    whole ((stream ms).length + n) (ms ++ ms') = ms ++ whole n ms' := by
  induction ms with
  | nil => rw [stream_nil, List.length_nil, Nat.zero_add, List.nil_append, List.nil_append]
  | cons m ms ih =>
    rw [stream_cons, List.length_append, List.cons_append, whole, if_pos (by omega),
      List.cons_append, ← ih, Nat.add_assoc, Nat.add_sub_cancel_left]

theorem whole_none {n : Nat} {ms : List Message} (short : ∀ m ms', ms = m :: ms' → n < (frame m).length) :
    whole n ms = [] := by
  cases ms with
  | nil => rfl
  | cons m ms =>
    rw [whole, if_neg]
    exact Nat.not_le.mpr (short m ms rfl)

/-- What the sender has still to write of the message it is at. -/
def Sending.unsent : Sending → List UInt8
  | .header m io => io.left ++ m.bytes
  | .payload io => io.left
  | .idle | .threw _ | .gone => []

def Receiving.taken : Receiving → List UInt8
  | .header io => io.moved
  | .payload h io => h.encoded ++ io.moved
  | .idle | .threw _ => []

def Sending.Busy : Sending → Prop
  | .header _ io | .payload io => 0 < io.n
  | .idle | .threw _ | .gone => True

def Receiving.Busy : Receiving → Prop
  | .header io | .payload _ io => 0 < io.n
  | .idle | .threw _ => True

/-- The buffer that is being filled is a header or the payload that the header announced. -/
def Receiving.Sized : Receiving → Prop
  | .header io => io.data.length = headerSize
  | .payload h io => io.data.length = h.size.toNat
  | .idle => True
  | .threw _ => False

def Sending.Stopped : Sending → Prop
  | .threw _ | .gone => True
  | .idle | .header .. | .payload _ => False

/-- Where every byte is while the receiver is at work: returned, taken, on the wire or to come. -/
structure Flow (ms left : List Message) (rest : List UInt8) (s : State) : Prop where
  split : s.received ++ left = ms
  pending : ∀ m ∈ s.todo, Accepted m
  bytes : s.receiver.taken ++ (s.wire ++ rest) = stream left
  counted : s.consumed = (stream s.received).length + s.receiver.taken.length
  receiving : s.receiver.Sized
  unsent : ¬ s.sender.Stopped → s.cutAt = none ∧ rest = s.sender.unsent ++ stream s.todo
  cut : ∀ c, s.cutAt = some c → s.sender = .gone ∧ s.consumed + s.wire.length = c
  gone : s.sender = .gone → s.cutAt ≠ none

theorem first_header {h : Header} {m : Message} {ms : List Message} {bs : List UInt8}
    (bytes : h.encoded ++ bs = stream (m :: ms)) : h = m.h ∧ bs = m.bytes ++ stream ms := by
  rw [stream_cons, frame, List.append_assoc] at bytes
  obtain ⟨same, rest⟩ := List.append_inj bytes (by rw [length_encoded, length_encoded])
  exact ⟨encoded_injective same, rest⟩

section flow
variable {ms left : List Message} {rest : List UInt8} {s : State}

theorem Flow.left_accepted (flow : Flow ms left rest s) (accepted : ∀ m ∈ ms, Accepted m) :
    ∀ m ∈ left, Accepted m := by
  intro m member
  apply accepted
  rw [← flow.split]
  exact List.mem_append_right _ member

theorem Flow.taken_short (flow : Flow ms left rest s) (accepted : ∀ m ∈ ms, Accepted m)
    (busy : s.receiver.Busy) {m : Message} {ms' : List Message} (next : left = m :: ms') :
    s.receiver.taken.length < (frame m).length := by
  have own : Accepted m := flow.left_accepted accepted m (next ▸ List.mem_cons_self)
  have bytes := flow.bytes
  have sized := flow.receiving
  rw [length_frame own]
  have positive : 0 < headerSize := by decide
  cases at_ : s.receiver with
  | idle =>
    rw [Receiving.taken, List.length_nil]
    omega
  | threw e =>
    rw [at_] at sized
    exact sized.elim
  | header io =>
    rw [at_] at sized busy
    have within := io.within
    rw [Receiving.taken, io.length_moved]
    simp only [Receiving.Sized, Receiving.Busy] at sized busy
    omega
  | payload h io =>
    rw [at_] at sized busy bytes
    rw [Receiving.taken, List.append_assoc, next] at bytes
    obtain ⟨same, _⟩ := first_header bytes
    have within := io.within
    rw [Receiving.taken, List.length_append, length_encoded, io.length_moved, ← same]
    simp only [Receiving.Sized, Receiving.Busy] at sized busy
    omega

theorem Flow.delivered (flow : Flow ms left rest s) (accepted : ∀ m ∈ ms, Accepted m)
    (busy : s.receiver.Busy) : s.received = whole s.consumed ms := by
  have none_left : whole s.receiver.taken.length left = [] :=
    whole_none fun m ms' next => flow.taken_short accepted busy next
  rw [flow.counted, ← flow.split, whole_append, none_left, List.append_nil]

theorem Flow.take (flow : Flow ms left rest s) {k : Nat} (room : k ≤ s.wire.length)
    {receiver : Receiving} (taken : receiver.taken = s.receiver.taken ++ s.wire.take k)
    (sized : receiver.Sized) :
    Flow ms left rest
      { s with wire := s.wire.drop k, consumed := s.consumed + k, receiver } where
  split := flow.split
  pending := flow.pending
  bytes := by
    have bytes := flow.bytes
    dsimp only
    rw [taken, List.append_assoc, ← List.append_assoc (List.take k s.wire), List.take_append_drop, bytes]
  counted := by
    have counted := flow.counted
    have length : (s.wire.take k).length = k := by rw [List.length_take]; omega
    dsimp only
    rw [taken, List.length_append, length]
    omega
  receiving := sized
  unsent := flow.unsent
  cut := by
    intro c at_
    obtain ⟨gone, total⟩ := flow.cut c at_
    refine ⟨gone, ?_⟩
    dsimp only
    rw [List.length_drop]
    omega
  gone := flow.gone

theorem payloadRead_flow (accepted : ∀ m ∈ ms, Accepted m) {h : Header} {io : Io UInt8}
    (flow : Flow ms left rest { s with receiver := .payload h io }) :
    ∃ left', Flow ms left' rest (payloadRead s h io) ∧ (payloadRead s h io).receiver.Busy := by
  rw [payloadRead]
  split
  next finished =>
    have bytes := flow.bytes
    have counted := flow.counted
    have sized : io.data.length = h.size.toNat := flow.receiving
    simp only [Receiving.taken, List.append_assoc, io.moved_all finished] at bytes
    cases next : left with
    | nil =>
      rw [next] at bytes
      have length := congrArg List.length bytes
      rw [List.length_append, length_encoded, stream_nil, List.length_nil, headerSize] at length
      omega
    | cons m ms' =>
      rw [next] at bytes
      obtain ⟨same, payload⟩ := first_header bytes
      have own : Accepted m := flow.left_accepted accepted m (next ▸ List.mem_cons_self)
      have length : io.data.length = m.bytes.length := by rw [sized, same, own.size]
      obtain ⟨data, later⟩ := List.append_inj payload length
      have returned : ({ h, bytes := io.data } : Message) = m := by rw [same, data]
      rw [returned]
      refine ⟨ms', ⟨?_, flow.pending, later, ?_, trivial, flow.unsent, flow.cut, flow.gone⟩, trivial⟩
      · rw [← flow.split, next, List.append_assoc, List.singleton_append]
      · dsimp only [Receiving.taken] at counted ⊢
        rw [counted, io.moved_all finished, same, data, ← frame, stream_append, stream_cons,
          stream_nil, List.append_nil, List.length_append, List.length_nil, Nat.add_zero]
  next unfinished => exact ⟨left, flow, Nat.pos_of_ne_zero unfinished⟩

theorem headerRead_flow (accepted : ∀ m ∈ ms, Accepted m) {io : Io UInt8}
    (flow : Flow ms left rest { s with receiver := .header io }) :
    ∃ left', Flow ms left' rest (headerRead s io) ∧ (headerRead s io).receiver.Busy := by
  rw [headerRead]
  split
  next finished =>
    have bytes := flow.bytes
    have counted := flow.counted
    have sized : io.data.length = headerSize := flow.receiving
    simp only [Receiving.taken, io.moved_all finished] at bytes counted
    cases next : left with
    | nil =>
      rw [next] at bytes
      have length := congrArg List.length bytes
      rw [List.length_append, stream_nil, List.length_nil, sized, headerSize] at length
      omega
    | cons m ms' =>
      rw [next, stream_cons, frame, List.append_assoc] at bytes
      have own : Accepted m := flow.left_accepted accepted m (next ▸ List.mem_cons_self)
      obtain ⟨data, later⟩ := List.append_inj bytes (by rw [sized, length_encoded])
      have read : unpack io.data = .ok m.h := unpack_ok.mpr ⟨data.symm, accepted_formed own⟩
      rw [read]
      refine payloadRead_flow accepted (?_ : Flow ms left rest _)
      refine ⟨flow.split, flow.pending, ?_, ?_, List.length_replicate, flow.unsent, flow.cut, flow.gone⟩
      · dsimp only [Receiving.taken]
        rw [Io.start_moved, List.append_nil, later, next, stream_cons, frame, List.append_assoc]
      · dsimp only [Receiving.taken]
        rw [counted, Io.start_moved, List.append_nil, data]
  next unfinished => exact ⟨left, flow, Nat.pos_of_ne_zero unfinished⟩

theorem Flow.give (flow : Flow ms left rest s) {after : List UInt8} {io : Io UInt8}
    (live : ¬ s.sender.Stopped) (unsent : s.sender.unsent = io.left ++ after) {k : Nat}
    (room : k ≤ io.n) {sender : Sending} (now : sender.unsent = (io.advance k room).left ++ after)
    (running : ¬ sender.Stopped) :
    Flow ms left ((io.advance k room).left ++ after ++ stream s.todo)
      { s with wire := s.wire ++ io.left.take k, sender } where
  split := flow.split
  pending := flow.pending
  bytes := by
    have bytes := flow.bytes
    obtain ⟨_, rest_eq⟩ := flow.unsent live
    rw [rest_eq, unsent, ← io.advance_left k room] at bytes
    rw [← bytes]
    simp only [List.append_assoc]
  counted := flow.counted
  receiving := flow.receiving
  unsent := fun _ => ⟨(flow.unsent live).1, by rw [now]⟩
  cut := by
    intro c at_
    rw [(flow.unsent live).1] at at_
    cases at_
  gone := by
    intro gone
    dsimp only at gone
    rw [gone] at running
    exact absurd trivial running

theorem Flow.fail (flow : Flow ms left rest s) (live : ¬ s.sender.Stopped) (e : String) :
    Flow ms left rest { s with sender := .threw e } where
  split := flow.split
  pending := flow.pending
  bytes := flow.bytes
  counted := flow.counted
  receiving := flow.receiving
  unsent := fun running => absurd trivial running
  cut := by
    intro c at_
    rw [(flow.unsent live).1] at at_
    cases at_
  gone := nofun

/-- Both loops have something to move, and a calm sender has not failed. -/
structure Working (calm : Prop) (ms : List Message) (s : State) : Prop where
  flow : ∃ left rest, Flow ms left rest s
  sender : s.sender.Busy
  receiver : s.receiver.Busy
  steady : calm → ∀ e, s.sender ≠ .threw e

structure Ended (calm : Prop) (ms : List Message) (s : State) : Prop where
  threw : ∃ e, s.receiver = .threw e ∧ (calm → e = "IPC peer closed" ∧ s.cutAt = some s.consumed)
  delivered : s.received = whole s.consumed ms

def Inv (calm : Prop) (ms : List Message) (s : State) : Prop := Working calm ms s ∨ Ended calm ms s

theorem not_threw {sender : Sending} (running : ¬ sender.Stopped) (e : String) : sender ≠ .threw e := by
  rintro rfl
  exact running trivial

theorem payloadSent_unsent (io : Io UInt8) : (payloadSent io).unsent = io.left ++ [] := by
  rw [payloadSent, List.append_nil]
  split
  next finished => rw [Sending.unsent, io.left_none finished]
  next => rfl

theorem payloadSent_runs (io : Io UInt8) : (payloadSent io).Busy ∧ ¬ (payloadSent io).Stopped := by
  rw [payloadSent]
  split
  next => exact ⟨trivial, id⟩
  next unfinished => exact ⟨Nat.pos_of_ne_zero unfinished, id⟩

theorem headerSent_unsent (m : Message) (io : Io UInt8) :
    (headerSent m io).unsent = io.left ++ m.bytes := by
  rw [headerSent]
  split
  next finished =>
    rw [payloadSent_unsent, io.left_none finished, Io.start_left, List.append_nil, List.nil_append]
  next => rfl

theorem headerSent_runs (m : Message) (io : Io UInt8) :
    (headerSent m io).Busy ∧ ¬ (headerSent m io).Stopped := by
  rw [headerSent]
  split
  next => exact payloadSent_runs _
  next unfinished => exact ⟨Nat.pos_of_ne_zero unfinished, id⟩

variable {calm : Prop}

theorem working_write (working : Working calm ms s) {io : Io UInt8} {after : List UInt8}
    (live : ¬ s.sender.Stopped) (unsent : s.sender.unsent = io.left ++ after)
    {next : Io UInt8 → Sending} (rest_of : ∀ io, (next io).unsent = io.left ++ after)
    (runs : ∀ io, (next io).Busy ∧ ¬ (next io).Stopped) {turn : Turn}
    (faultless : calm → turn = .again ∨ ∃ k, turn = .moved k) :
    Working calm ms (write s io next turn) := by
  obtain ⟨left, rest, flow⟩ := working.flow
  have failed (e : String) (faulty : ¬ calm) : Working calm ms { s with sender := .threw e } :=
    ⟨⟨left, rest, flow.fail live e⟩, trivial, working.receiver, fun steady => absurd steady faulty⟩
  cases turn with
  | expired => exact failed _ fun steady => by simpa using faultless steady
  | again => exact working
  | failed e => exact failed _ fun steady => by simpa using faultless steady
  | closed => exact failed _ fun steady => by simpa using faultless steady
  | moved k =>
    rw [write]
    split
    next room =>
      obtain ⟨busy, running⟩ := runs (io.advance k room.2)
      exact ⟨⟨left, _, flow.give live unsent room.2 (rest_of _) running⟩, busy, working.receiver,
        fun _ => not_threw running⟩
    next => exact working

theorem inv_read (accepted : ∀ m ∈ ms, Accepted m) (working : Working calm ms s) {io : Io UInt8}
    {next : State → Io UInt8 → State} {receiver : Io UInt8 → Receiving}
    (at_ : s.receiver = receiver io)
    (taken : ∀ io items room, (receiver (io.fill items room)).taken = (receiver io).taken ++ items)
    (sized : ∀ io items room, (receiver io).Sized → (receiver (io.fill items room)).Sized)
    (goes : ∀ (s : State) (io : Io UInt8) (left : List Message) (rest : List UInt8),
      Flow ms left rest { s with receiver := receiver io } →
      ∃ left', Flow ms left' rest (next s io) ∧ (next s io).receiver.Busy)
    (same : ∀ s io, (next s io).sender = s.sender)
    {turn : Turn} (faultless : calm → turn = .again ∨ turn = .closed ∨ ∃ k, turn = .moved k) :
    Inv calm ms (read s io next turn) := by
  obtain ⟨left, rest, flow⟩ := working.flow
  have delivered := flow.delivered accepted working.receiver
  have failed (e : String) (faulty : ¬ calm) : Inv calm ms { s with receiver := .threw e } :=
    .inr ⟨⟨e, rfl, fun steady => absurd steady faulty⟩, delivered⟩
  cases turn with
  | expired => exact failed _ fun steady => by simpa using faultless steady
  | again => exact .inl working
  | failed e => exact failed _ fun steady => by simpa using faultless steady
  | closed =>
    rw [read]
    split
    next ended =>
      obtain ⟨empty, cut⟩ := ended
      obtain ⟨c, at_cut⟩ := Option.ne_none_iff_exists'.mp cut
      obtain ⟨_, total⟩ := flow.cut c at_cut
      rw [empty, List.length_nil, Nat.add_zero] at total
      exact .inr ⟨⟨_, rfl, fun _ => ⟨rfl, by rw [total]; exact at_cut⟩⟩, delivered⟩
    next => exact .inl working
  | moved k =>
    rw [read]
    split
    next room =>
      have moved := flow.take room.2.2 (by rw [at_, taken io _ _])
        (sized io _ (Nat.le_trans (List.length_take_le k s.wire) room.2.1) (at_ ▸ flow.receiving))
      obtain ⟨left', flow', busy⟩ := goes { s with wire := s.wire.drop k, consumed := s.consumed + k }
        _ left rest moved
      refine .inl ⟨⟨left', rest, flow'⟩, ?_, busy, ?_⟩
      · rw [same]
        exact working.sender
      · rw [same]
        exact working.steady
    next => exact .inl working

theorem payloadRead_else (s : State) (h : Header) (io : Io UInt8) :
    (payloadRead s h io).sender = s.sender ∧ (payloadRead s h io).todo = s.todo ∧
      (payloadRead s h io).wire = s.wire ∧ (payloadRead s h io).cutAt = s.cutAt := by
  rw [payloadRead]
  split <;> exact ⟨rfl, rfl, rfl, rfl⟩

theorem headerRead_else (s : State) (io : Io UInt8) :
    (headerRead s io).sender = s.sender ∧ (headerRead s io).todo = s.todo ∧
      (headerRead s io).wire = s.wire ∧ (headerRead s io).cutAt = s.cutAt := by
  rw [headerRead]
  split
  · split
    · exact ⟨rfl, rfl, rfl, rfl⟩
    · exact payloadRead_else s _ _
  · exact ⟨rfl, rfl, rfl, rfl⟩

theorem sendCall_accepted {m : Message} (accepted : Accepted m) {timeoutMs : Int}
    (positive : 0 < timeoutMs) : sendCall m timeoutMs = .header m (Io.start m.h.encoded) := by
  rw [sendCall, if_neg, accepted_packed accepted]
  rintro (size | expired)
  · exact size accepted.size
  · omega

theorem working_send (working : Working calm ms s) {m : Message} {todo : List Message}
    (at_ : s.sender = .idle) (next : s.todo = m :: todo) {timeoutMs : Int}
    (faultless : calm → 0 < timeoutMs) :
    Working calm ms { s with todo, sender := sendCall m timeoutMs } := by
  obtain ⟨left, rest, flow⟩ := working.flow
  have live : ¬ s.sender.Stopped := by rw [at_]; exact id
  have own : Accepted m := flow.pending m (next ▸ List.mem_cons_self)
  have pending : ∀ m' ∈ todo, Accepted m' := fun m' member =>
    flow.pending m' (next ▸ List.mem_cons_of_mem m member)
  obtain ⟨uncut, rest_eq⟩ := flow.unsent live
  have never (c : Nat) (at_cut : s.cutAt = some c) (p : Prop) : p := by
    rw [uncut] at at_cut
    cases at_cut
  by_cases positive : 0 < timeoutMs
  · rw [sendCall_accepted own positive]
    refine ⟨⟨left, rest, flow.split, pending, flow.bytes, flow.counted, flow.receiving, ?_, ?_, nofun⟩,
      ?_, working.receiver, fun _ => nofun⟩
    · intro _
      refine ⟨uncut, ?_⟩
      rw [rest_eq, at_, next, stream_cons, Sending.unsent, Sending.unsent, Io.start_left, frame,
        List.nil_append]
    · exact fun c at_cut => never c at_cut _
    · rw [Sending.Busy, Io.start_n, length_encoded]
      decide
  · have refused : sendCall m timeoutMs = .threw "message size/timeout mismatch" := by
      rw [sendCall, if_pos (.inr (by omega))]
    rw [refused]
    exact ⟨⟨left, rest, flow.split, pending, flow.bytes, flow.counted, flow.receiving,
      fun running => absurd trivial running, fun c at_cut => never c at_cut _, nofun⟩, trivial,
      working.receiver, fun steady => absurd (faultless steady) positive⟩

theorem inv_receive (accepted : ∀ m ∈ ms, Accepted m) (working : Working calm ms s)
    (at_ : s.receiver = .idle) {timeoutMs : Int} (faultless : calm → 0 < timeoutMs) :
    Inv calm ms { s with receiver := receiveCall timeoutMs } := by
  obtain ⟨left, rest, flow⟩ := working.flow
  have delivered := flow.delivered accepted working.receiver
  rw [receiveCall]
  split
  next expired =>
    refine .inr ⟨⟨_, rfl, fun steady => ?_⟩, delivered⟩
    have positive := faultless steady
    omega
  next =>
    have bytes := flow.bytes
    have counted := flow.counted
    rw [at_] at bytes counted
    have buffer : 0 < (List.replicate headerSize (0 : UInt8)).length := by decide
    exact .inl ⟨⟨left, rest, flow.split, flow.pending, bytes, counted, List.length_replicate,
      flow.unsent, flow.cut, flow.gone⟩, working.sender, buffer, working.steady⟩

theorem working_cut (working : Working calm ms s) (c : Nat) :
    Working calm ms { s with sender := .gone, wire := s.wire.take c,
                             cutAt := some (s.consumed + (s.wire.take c).length) } := by
  obtain ⟨left, rest, flow⟩ := working.flow
  refine ⟨⟨left, s.wire.drop c ++ rest, flow.split, flow.pending, ?_, flow.counted, flow.receiving,
    fun running => absurd trivial running, ?_, fun _ => nofun⟩, trivial, working.receiver, fun _ => nofun⟩
  · dsimp only
    rw [← List.append_assoc (List.take c s.wire), List.take_append_drop]
    exact flow.bytes
  · intro c' at_
    exact ⟨rfl, Option.some.inj at_⟩

theorem write_receiver (s : State) (io : Io UInt8) (next : Io UInt8 → Sending) (turn : Turn) :
    (write s io next turn).receiver = s.receiver ∧ (write s io next turn).received = s.received ∧
      (write s io next turn).consumed = s.consumed ∧ (write s io next turn).cutAt = s.cutAt := by
  cases turn with
  | expired | again | failed | closed => exact ⟨rfl, rfl, rfl, rfl⟩
  | moved k =>
    rw [write]
    split <;> exact ⟨rfl, rfl, rfl, rfl⟩

theorem step_threw {e : String} (at_ : s.receiver = .threw e) (l : Label) :
    (step s l).receiver = .threw e ∧ (step s l).received = s.received ∧
      (step s l).consumed = s.consumed ∧ (∀ c, s.cutAt = some c → (step s l).cutAt = some c) := by
  have kept (turn : Turn) (io : Io UInt8) (next : Io UInt8 → Sending) :
      (write s io next turn).receiver = .threw e ∧ (write s io next turn).received = s.received ∧
      (write s io next turn).consumed = s.consumed ∧
      (∀ c, s.cutAt = some c → (write s io next turn).cutAt = some c) := by
    obtain ⟨receiver, received, consumed, cut⟩ := write_receiver s io next turn
    exact ⟨receiver.trans at_, received, consumed, fun c => cut.trans⟩
  cases l with
  | send timeoutMs =>
    rw [step]
    split <;> exact ⟨at_, rfl, rfl, fun c => id⟩
  | write turn =>
    rw [step]
    split
    · exact kept _ _ _
    · exact kept _ _ _
    · exact ⟨at_, rfl, rfl, fun c => id⟩
  | receive timeoutMs =>
    rw [step, at_]
    exact ⟨at_, rfl, rfl, fun c => id⟩
  | read turn =>
    rw [step, at_]
    exact ⟨at_, rfl, rfl, fun c => id⟩
  | cut c =>
    rw [step]
    split
    next uncut => exact ⟨at_, rfl, rfl, fun c cut => by rw [uncut] at cut; cases cut⟩
    next => exact ⟨at_, rfl, rfl, fun c => id⟩

theorem inv_step (accepted : ∀ m ∈ ms, Accepted m) (inv : Inv calm ms s) {l : Label}
    (faultless : calm → Faultless l) : Inv calm ms (step s l) := by
  rcases inv with working | ended
  · cases l with
    | send timeoutMs =>
      rw [step]
      split
      next m todo at_ next => exact .inl (working_send working at_ next faultless)
      next => exact .inl working
    | write turn =>
      rw [step]
      split
      next m io at_ =>
        exact .inl (working_write working (at_ ▸ id) (at_ ▸ rfl) (headerSent_unsent m)
          (headerSent_runs m) faultless)
      next io at_ =>
        exact .inl (working_write working (at_ ▸ id) (by rw [at_, Sending.unsent, List.append_nil])
          payloadSent_unsent payloadSent_runs faultless)
      next => exact .inl working
    | receive timeoutMs =>
      rw [step]
      split
      next at_ => exact inv_receive accepted working at_ faultless
      next => exact .inl working
    | read turn =>
      rw [step]
      split
      next io at_ =>
        refine inv_read accepted working at_ (fun io => io.fill_moved) ?_
          (fun s io left rest flow => headerRead_flow accepted flow)
          (fun s io => (headerRead_else s io).1) faultless
        exact fun io items room sized => (io.fill_length items room).trans sized
      next h io at_ =>
        refine inv_read accepted working (at_ : s.receiver = Receiving.payload h io) ?_ ?_
          (fun s io left rest flow => payloadRead_flow accepted flow)
          (fun s io => (payloadRead_else s h io).1) faultless
        · intro io items room
          rw [Receiving.taken, io.fill_moved, ← List.append_assoc, Receiving.taken]
        · exact fun io items room sized => (io.fill_length items room).trans sized
      next => exact .inl working
    | cut c =>
      rw [step]
      split
      next => exact .inl (working_cut working c)
      next => exact .inl working
  · right
    obtain ⟨e, at_, cause⟩ := ended.threw
    obtain ⟨receiver, received, consumed, cut⟩ := step_threw at_ l
    refine ⟨⟨e, receiver, fun steady => ?_⟩, ?_⟩
    · obtain ⟨closed, at_cut⟩ := cause steady
      exact ⟨closed, by rw [cut _ at_cut, consumed]⟩
    · rw [received, consumed, ended.delivered]

theorem inv_start (accepted : ∀ m ∈ ms, Accepted m) : Inv calm ms (start ms) :=
  .inl ⟨⟨ms, stream ms, rfl, accepted, rfl, rfl, trivial, fun _ => ⟨rfl, rfl⟩, nofun, nofun⟩,
    trivial, trivial, fun _ => nofun⟩

theorem inv_run (accepted : ∀ m ∈ ms, Accepted m) {ls : List Label}
    (faultless : calm → ∀ l ∈ ls, Faultless l) (inv : Inv calm ms s) :
    Inv calm ms (Runs.run step s ls) := by
  induction ls generalizing s with
  | nil => exact inv
  | cons l ls ih =>
    exact ih (fun steady => (List.forall_mem_cons.mp (faultless steady)).2)
      (inv_step accepted inv fun steady => (List.forall_mem_cons.mp (faultless steady)).1)

/-- Labels that a run can be carried on with: no fault, and no cut. -/
def Fair (l : Label) : Prop := Faultless l ∧ ∀ c, l ≠ .cut c

def Sending.weight : Sending → Nat
  | .idle => 1
  | .header .. | .payload _ | .threw _ | .gone => 0

def Receiving.weight : Receiving → Nat
  | .idle => 2
  | .header _ | .payload .. => 1
  | .threw _ => 0

/-- What the two ends have still to do, weighted so that every useful step lowers it. -/
def State.due (s : State) : Nat :=
  4 * (s.sender.unsent.length + (stream s.todo).length) + 2 * s.wire.length + s.sender.weight +
    s.receiver.weight

theorem sender_weight (sender : Sending) : sender.weight ≤ 1 := by
  cases sender with
  | idle => exact Nat.le_refl 1
  | header | payload | threw | gone => exact Nat.zero_le 1

theorem receiver_weight (receiver : Receiving) : receiver.weight ≤ 2 := by
  cases receiver with
  | idle => exact Nat.le_refl 2
  | header | payload => exact Nat.le_succ 1
  | threw => exact Nat.zero_le 2

theorem due_read {io : Io UInt8} {next : State → Io UInt8 → State}
    (same : ∀ s io, (next s io).sender = s.sender ∧ (next s io).todo = s.todo ∧
      (next s io).wire = s.wire ∧ (next s io).cutAt = s.cutAt)
    (at_ : s.receiver.weight = 1) (busy : 0 < io.n) (wire : s.wire ≠ []) :
    (read s io next (.moved 1)).due < s.due := by
  have length := List.length_pos_of_ne_nil wire
  have room : 0 < 1 ∧ 1 ≤ io.n ∧ 1 ≤ s.wire.length := ⟨by decide, busy, length⟩
  have shorter : (s.wire.drop 1).length < s.wire.length := by
    rw [List.length_drop]
    omega
  obtain ⟨sender, todo, less, _⟩ := same { s with wire := s.wire.drop 1, consumed := s.consumed + 1 }
    (io.fill (s.wire.take 1) (Nat.le_trans (List.length_take_le 1 s.wire) room.2.1))
  rw [read, dif_pos room, State.due, State.due, sender, todo, less, at_]
  have weight := receiver_weight (next { s with wire := s.wire.drop 1, consumed := s.consumed + 1 }
    (io.fill (s.wire.take 1) (Nat.le_trans (List.length_take_le 1 s.wire) room.2.1))).receiver
  dsimp only at shorter ⊢
  omega

theorem due_write {io : Io UInt8} {after : List UInt8} {next : Io UInt8 → Sending}
    (rest_of : ∀ io, (next io).unsent = io.left ++ after) (unsent : s.sender.unsent = io.left ++ after)
    (busy : 0 < io.n) : (write s io next (.moved 1)).due < s.due := by
  have room : 0 < 1 ∧ 1 ≤ io.n := ⟨by decide, busy⟩
  have weight := sender_weight (next (io.advance 1 room.2))
  have one : (io.left.take 1).length = 1 := by
    rw [List.length_take, io.length_left]
    omega
  rw [write, dif_pos room, State.due, State.due]
  dsimp only
  rw [rest_of, unsent]
  simp only [List.length_append, Io.length_left, Io.advance_n, one]
  omega

theorem read_nearer {io : Io UInt8} {next : State → Io UInt8 → State}
    (same : ∀ s io, (next s io).sender = s.sender ∧ (next s io).todo = s.todo ∧
      (next s io).wire = s.wire ∧ (next s io).cutAt = s.cutAt)
    (at_ : s.receiver.weight = 1) (busy : 0 < io.n) (waiting : s.wire ≠ [] ∨ s.cutAt ≠ none) :
    ∃ turn, Fair (.read turn) ∧ (read s io next turn).due < s.due := by
  by_cases wire : s.wire = []
  · have cut : s.cutAt ≠ none := waiting.resolve_left fun more => more wire
    refine ⟨.closed, ⟨.inr (.inl rfl), nofun⟩, ?_⟩
    rw [read, if_pos ⟨wire, cut⟩, State.due, State.due, at_]
    exact Nat.lt_succ_self _
  · exact ⟨.moved 1, ⟨.inr (.inr ⟨1, rfl⟩), nofun⟩, due_read same at_ busy wire⟩

theorem receiver_nearer (working : Working True ms s) (waiting : s.wire ≠ [] ∨ s.cutAt ≠ none) :
    ∃ l, Fair l ∧ (step s l).due < s.due := by
  obtain ⟨left, rest, flow⟩ := working.flow
  have busy := working.receiver
  cases at_ : s.receiver with
  | idle =>
    refine ⟨.receive 1, ⟨Int.one_pos, nofun⟩, ?_⟩
    rw [step, at_, receiveCall, if_neg (by decide), State.due, State.due, at_]
    exact Nat.lt_succ_self _
  | threw e =>
    have alive := flow.receiving
    rw [at_] at alive
    exact alive.elim
  | header io =>
    rw [at_] at busy
    obtain ⟨turn, fair, less⟩ := read_nearer headerRead_else (at_ ▸ rfl) busy waiting
    refine ⟨.read turn, fair, ?_⟩
    rw [step, at_]
    exact less
  | payload h io =>
    rw [at_] at busy
    obtain ⟨turn, fair, less⟩ := read_nearer (fun s io => payloadRead_else s h io) (at_ ▸ rfl) busy
      waiting
    refine ⟨.read turn, fair, ?_⟩
    rw [step, at_]
    exact less

/-- With nothing on the wire and no cut the sender comes nearer to its end, or all is delivered. -/
theorem sender_nearer (accepted : ∀ m ∈ ms, Accepted m) (working : Working True ms s)
    (empty : s.wire = []) (uncut : s.cutAt = none) :
    (∃ l, Fair l ∧ (step s l).due < s.due) ∨
      s.received = ms ∧ s.consumed = (stream ms).length ∧ s.receiver.taken = [] := by
  obtain ⟨left, rest, flow⟩ := working.flow
  have busy := working.sender
  cases at_ : s.sender with
  | gone => exact absurd uncut (flow.gone at_)
  | threw e => exact absurd at_ (working.steady trivial e)
  | header m io =>
    left
    rw [at_] at busy
    refine ⟨.write (.moved 1), ⟨.inr ⟨1, rfl⟩, nofun⟩, ?_⟩
    rw [step, at_]
    exact due_write (headerSent_unsent m) (at_ ▸ rfl) busy
  | payload io =>
    left
    rw [at_] at busy
    refine ⟨.write (.moved 1), ⟨.inr ⟨1, rfl⟩, nofun⟩, ?_⟩
    rw [step, at_]
    exact due_write payloadSent_unsent (by rw [at_, Sending.unsent, List.append_nil]) busy
  | idle =>
    obtain ⟨_, rest_eq⟩ := flow.unsent (at_ ▸ id)
    cases next : s.todo with
    | cons m todo =>
      left
      have own : Accepted m := flow.pending m (next ▸ List.mem_cons_self)
      refine ⟨.send 1, ⟨Int.one_pos, nofun⟩, ?_⟩
      rw [step, at_, next]
      dsimp only
      rw [sendCall_accepted own Int.one_pos, State.due, State.due, at_, next]
      simp only [Sending.unsent, Io.start_left, stream_cons, frame, List.length_append,
        Sending.weight, List.length_nil]
      omega
    | nil =>
      right
      have bytes := flow.bytes
      rw [rest_eq, at_, next, empty, Sending.unsent, stream_nil, List.append_nil, List.append_nil,
        List.append_nil] at bytes
      have finished : left = [] := by
        cases more : left with
        | nil => rfl
        | cons m ms' =>
          have short := flow.taken_short accepted working.receiver more
          rw [bytes, more, stream_cons, List.length_append] at short
          omega
      have split := flow.split
      rw [finished, List.append_nil] at split
      rw [finished, stream_nil] at bytes
      refine ⟨split, ?_, bytes⟩
      rw [flow.counted, split, bytes, List.length_nil, Nat.add_zero]

theorem read_cutAt {io : Io UInt8} {next : State → Io UInt8 → State}
    (same : ∀ s io, (next s io).cutAt = s.cutAt) (turn : Turn) :
    (read s io next turn).cutAt = s.cutAt := by
  cases turn with
  | expired | again | failed => rfl
  | closed =>
    rw [read]
    split <;> rfl
  | moved k =>
    rw [read]
    split
    · exact same _ _
    · rfl

theorem fair_cutAt {l : Label} (fair : Fair l) : (step s l).cutAt = s.cutAt := by
  cases l with
  | send timeoutMs => rw [step]; split <;> rfl
  | write turn =>
    rw [step]
    split
    · exact (write_receiver _ _ _ _).2.2.2
    · exact (write_receiver _ _ _ _).2.2.2
    · rfl
  | receive timeoutMs => rw [step]; split <;> rfl
  | read turn =>
    rw [step]
    split
    · exact read_cutAt (fun s io => (headerRead_else s io).2.2.2) turn
    · exact read_cutAt (fun s io => (payloadRead_else s _ io).2.2.2) turn
    · rfl
  | cut c => exact absurd rfl (fair.2 c)

theorem delivers (accepted : ∀ m ∈ ms, Accepted m) (inv : Inv True ms s) (uncut : s.cutAt = none) :
    ∃ ls, (∀ l ∈ ls, Fair l) ∧ (Runs.run step s ls).received = ms ∧
      (Runs.run step s ls).consumed = (stream ms).length := by
  have nearer (s : State) (now : Inv True ms s ∧ s.cutAt = none)
      (unfinished : ¬ (s.received = ms ∧ s.consumed = (stream ms).length)) :
      ∃ l, Fair l ∧ (Inv True ms (step s l) ∧ (step s l).cutAt = none) ∧
        (step s l).due < s.due := by
    obtain ⟨inv, uncut⟩ := now
    have kept {l : Label} (fair : Fair l) : Inv True ms (step s l) ∧ (step s l).cutAt = none :=
      ⟨inv_step accepted inv fun _ => fair.1, (fair_cutAt fair).trans uncut⟩
    rcases inv with working | ended
    · by_cases empty : s.wire = []
      · rcases sender_nearer accepted working empty uncut with ⟨l, fair, less⟩ | ⟨all, count, _⟩
        · exact ⟨l, fair, kept fair, less⟩
        · exact absurd ⟨all, count⟩ unfinished
      · obtain ⟨l, fair, less⟩ := receiver_nearer working (.inl empty)
        exact ⟨l, fair, kept fair, less⟩
    · obtain ⟨e, _, cause⟩ := ended.threw
      have cut := (cause trivial).2
      rw [uncut] at cut
      cases cut
  obtain ⟨ls, fair, _, done⟩ := Runs.run_reaches step _ _ Fair State.due nearer ⟨inv, uncut⟩
  exact ⟨ls, fair, done⟩

theorem inv_cut (inv : Inv True ms s) {c : Nat} (cut : s.cutAt = some c) :
    s.consumed ≤ c ∧ ∀ e, s.receiver = .threw e → e = "IPC peer closed" ∧ s.received = whole c ms := by
  rcases inv with working | ended
  · obtain ⟨left, rest, flow⟩ := working.flow
    obtain ⟨_, total⟩ := flow.cut c cut
    refine ⟨by omega, fun e at_ => ?_⟩
    have alive := flow.receiving
    rw [at_] at alive
    exact alive.elim
  · obtain ⟨e, at_, cause⟩ := ended.threw
    obtain ⟨closed, at_cut⟩ := cause trivial
    obtain rfl : c = s.consumed := Option.some.inj (cut.symm.trans at_cut)
    refine ⟨Nat.le_refl _, fun e' at_' => ?_⟩
    obtain rfl : e' = e := Receiving.threw.inj (at_'.symm.trans at_)
    exact ⟨closed, ended.delivered⟩

theorem throws (accepted : ∀ m ∈ ms, Accepted m) (inv : Inv True ms s) {c : Nat}
    (cut : s.cutAt = some c) : ∃ ls, (∀ l ∈ ls, Fair l) ∧
      (Runs.run step s ls).receiver = .threw "IPC peer closed" ∧
      (Runs.run step s ls).received = whole c ms := by
  have nearer (s : State) (now : Inv True ms s ∧ s.cutAt = some c)
      (unfinished : ¬ ∃ e, s.receiver = .threw e) :
      ∃ l, Fair l ∧ (Inv True ms (step s l) ∧ (step s l).cutAt = some c) ∧
        (step s l).due < s.due := by
    obtain ⟨inv, cut⟩ := now
    have kept {l : Label} (fair : Fair l) : Inv True ms (step s l) ∧ (step s l).cutAt = some c :=
      ⟨inv_step accepted inv fun _ => fair.1, (fair_cutAt fair).trans cut⟩
    rcases inv with working | ended
    · obtain ⟨l, fair, less⟩ := receiver_nearer working (.inr (cut ▸ nofun))
      exact ⟨l, fair, kept fair, less⟩
    · obtain ⟨e, at_, _⟩ := ended.threw
      exact absurd ⟨e, at_⟩ unfinished
  obtain ⟨ls, fair, ⟨inv, cut⟩, e, at_⟩ := Runs.run_reaches step _ _ Fair State.due nearer ⟨inv, cut⟩
  obtain ⟨closed, delivered⟩ := (inv_cut inv cut).2 e at_
  exact ⟨ls, fair, closed ▸ at_, delivered⟩

theorem inv_delivered (accepted : ∀ m ∈ ms, Accepted m) (inv : Inv calm ms s) :
    s.received = whole s.consumed ms := by
  rcases inv with working | ended
  · obtain ⟨left, rest, flow⟩ := working.flow
    exact flow.delivered accepted working.receiver
  · exact ended.delivered

theorem inv_idle (inv : Inv calm ms s) (idle : s.receiver = .idle) :
    s.consumed = (stream s.received).length := by
  rcases inv with working | ended
  · obtain ⟨left, rest, flow⟩ := working.flow
    rw [flow.counted, idle, Receiving.taken, List.length_nil, Nat.add_zero]
  · obtain ⟨e, at_, _⟩ := ended.threw
    rw [idle] at at_
    cases at_

theorem inv_uncut (accepted : ∀ m ∈ ms, Accepted m) (inv : Inv True ms s) (uncut : s.cutAt = none) :
    (∀ e, s.receiver ≠ .threw e) ∧
      (s.consumed = (stream ms).length → s.received = ms ∧ s.wire = [] ∧ s.receiver.taken = []) := by
  rcases inv with working | ended
  · obtain ⟨left, rest, flow⟩ := working.flow
    refine ⟨fun e at_ => ?_, fun all => ?_⟩
    · have alive := flow.receiving
      rw [at_] at alive
      exact alive
    · have bytes := congrArg List.length flow.bytes
      have counted := flow.counted
      have split := flow.split
      rw [all, ← split, stream_append, List.length_append] at counted
      simp only [List.length_append] at bytes
      have taken : (stream left).length = s.receiver.taken.length := by omega
      have none_left : left = [] := by
        cases more : left with
        | nil => rfl
        | cons m ms' =>
          have short := flow.taken_short accepted working.receiver more
          rw [← taken, more, stream_cons, List.length_append] at short
          omega
      rw [none_left, List.append_nil] at split
      rw [none_left, stream_nil, List.length_nil] at taken bytes
      exact ⟨split, List.eq_nil_of_length_eq_zero (by omega), List.eq_nil_of_length_eq_zero taken.symm⟩
  · obtain ⟨e, _, cause⟩ := ended.threw
    have cut := (cause trivial).2
    rw [uncut] at cut
    cases cut

end flow

/-- Whatever pieces the kernel moves, the receiver has at every point exactly the messages
that lie wholly in what it has consumed. Without a fault it never throws before a cut and comes
to have them all; after a cut it comes to throw, with the messages wholly before the cut. -/
theorem framing_exact (ms : List Message) (accepted : ∀ m ∈ ms, Accepted m) (ls : List Label) :
    let s := Runs.run step (start ms) ls
    (s.received = whole s.consumed ms ∧
      (s.receiver = .idle → s.consumed = (stream s.received).length)) ∧
    ((∀ l ∈ ls, Faultless l) →
      (s.cutAt = none →
        (∀ e, s.receiver ≠ .threw e) ∧
        (s.consumed = (stream ms).length → s.received = ms ∧ s.wire = [] ∧ s.receiver.taken = []) ∧
        ∃ ls', (∀ l ∈ ls', Fair l) ∧ (Runs.run step s ls').received = ms ∧
          (Runs.run step s ls').consumed = (stream ms).length) ∧
      ∀ c, s.cutAt = some c →
        s.consumed ≤ c ∧
        (∀ e, s.receiver = .threw e → e = "IPC peer closed" ∧ s.received = whole c ms) ∧
        ∃ ls', (∀ l ∈ ls', Fair l) ∧ (Runs.run step s ls').receiver = .threw "IPC peer closed" ∧
          (Runs.run step s ls').received = whole c ms) := by
  intro s
  have inv : Inv False ms s := inv_run accepted False.elim (inv_start accepted)
  refine ⟨⟨inv_delivered accepted inv, inv_idle inv⟩, fun faultless => ?_⟩
  have calm : Inv True ms s := inv_run accepted (fun _ => faultless) (inv_start accepted)
  refine ⟨fun uncut => ?_, fun c cut => ?_⟩
  · obtain ⟨quiet, all⟩ := inv_uncut accepted calm uncut
    exact ⟨quiet, all, delivers accepted calm uncut⟩
  · obtain ⟨before, threw⟩ := inv_cut calm cut
    exact ⟨before, threw, throws accepted calm cut⟩

def sample : List Message := [⟨{ kind := .ack, seq := 7 }, []⟩, ⟨{ size := 3, flags := 1 }, [1, 2, 3]⟩]

def sampleRun : List Label :=
  [.send 300, .write (.moved 40), .receive 100, .read (.moved 9), .write .again, .write (.moved 24),
    .read (.moved 55), .send 300, .write (.moved 64), .receive 100, .read .again, .read (.moved 64),
    .write (.moved 2), .cut 1, .read (.moved 1), .read .closed]

theorem sample_delivered : (Runs.run step (start sample) sampleRun).received =
    [⟨{ kind := .ack, seq := 7 }, []⟩] := by
  have accepted : ∀ m ∈ sample, Accepted m := by
    rw [sample, List.forall_mem_cons, List.forall_mem_singleton]
    exact ⟨accepted_of rfl ⟨by decide, by decide, by decide, by decide, by decide⟩,
      accepted_of rfl ⟨by decide, by decide, by decide, by decide, by decide⟩⟩
  exact (framing_exact sample accepted sampleRun).1.1.trans (by decide)

end Framing

end Video

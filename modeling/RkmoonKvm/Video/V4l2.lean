import RkmoonKvm.Library.Fallible
import RkmoonKvm.Library.Log
import RkmoonKvm.Library.Runs
import RkmoonKvm.Video.Pixels

/-! The buffers of the capture: which ones the driver has, which ones the process holds,
and what a capture call does when an ioctl of it fails. -/
namespace Video.V4l2
open Runs

structure Errno where
  code : Nat
  text : String

abbrev Reply (A : Type) := Except Errno A

def eagain : Nat := 11
def einval : Nat := 22
def bufFlagError : UInt32 := 0x40

/-- The requests that move a buffer, a requeued one with whether the driver took it. -/
inductive Ioctl where
  | qbuf (index : Nat) (ok : Bool)
  | dqbuf (index : Nat)
  deriving DecidableEq

namespace Ioctl

def dequeues : Ioctl → Bool
  | qbuf _ _ => false
  | dqbuf _ => true

def after (owns : Nat → Bool) : Ioctl → Nat → Bool
  | qbuf i ok => fun j => owns j || (ok && j == i)
  | dqbuf i => fun j => owns j && j != i

/-- The driver hands out only buffers that it has. -/
def lawful (owns : Nat → Bool) : Ioctl → Bool
  | qbuf _ _ => true
  | dqbuf i => owns i

/-- The request does not give the driver what it has. -/
def single (owns : Nat → Bool) : Ioctl → Bool
  | qbuf i _ => !owns i
  | dqbuf _ => true

@[simp] theorem after_qbuf (owns : Nat → Bool) (i j : Nat) (ok : Bool) :
    (qbuf i ok).after owns j = (owns j || (ok && j == i)) := rfl

@[simp] theorem after_dqbuf (owns : Nat → Bool) (i j : Nat) :
    (dqbuf i).after owns j = (owns j && j != i) := rfl

end Ioctl

def owned (log : List Ioctl) : Nat → Bool := run Ioctl.after (fun _ => false) log

def Lawful (log : List Ioctl) : Prop := Log.Each (fun before e => e.lawful (owned before) = true) log

def Sole (log : List Ioctl) : Prop := Log.Each (fun before e => e.single (owned before) = true) log

instance (log : List Ioctl) : Decidable (Lawful log) := inferInstanceAs (Decidable (Log.Each _ _))

structure Buffer where
  size : Nat := 0
  dma : Option Nat := none
  dequeued : Bool := false

structure Stream where
  layout : Layout
  buffers : List Buffer := []
  streaming : Bool := false
  rawSkipped : UInt64 := 0
  log : List Ioctl := []

abbrev Call := Fallible Stream String

structure Frame where
  index : Nat
  sequence : UInt32
  flags : UInt32
  offset : UInt32
  bytes : UInt32
  dequeueUs : UInt64
  driverUs : UInt64
  deriving DecidableEq

structure Handed where
  index : Nat
  sequence : UInt32
  flags : UInt32
  bytesused : UInt32
  dataOffset : UInt32
  tvSec : UInt64
  tvUsec : UInt64
  nowUs : UInt64

namespace Handed

def flagged (b : Handed) : Bool := b.flags &&& bufFlagError ≠ 0

def inBounds (b : Handed) (size : Nat) (l : Layout) : Prop :=
  ¬ (b.bytesused.toNat > size ∨ b.dataOffset > b.bytesused ∨ b.bytesused - b.dataOffset < l.sizeimage)

instance (b : Handed) (size : Nat) (l : Layout) : Decidable (b.inBounds size l) :=
  inferInstanceAs (Decidable (¬ _))

def frame (b : Handed) : Frame where
  index := b.index
  sequence := b.sequence
  flags := b.flags
  offset := b.dataOffset
  bytes := b.bytesused
  dequeueUs := b.nowUs
  driverUs := b.tvSec * 1000000 + b.tvUsec

end Handed

def outOfRange : String := "vector::_M_range_check"

namespace Stream

def issued (s : Stream) (e : Ioctl) : Stream := { s with log := s.log ++ [e] }

def changed (s : Stream) (i : Nat) (f : Buffer → Buffer) : Stream :=
  { s with buffers := s.buffers.modify i f }

def marked (s : Stream) (i : Nat) (dequeued : Bool) : Stream :=
  s.changed i fun b => { b with dequeued := dequeued }

def skipped (s : Stream) : Stream := { s with rawSkipped := s.rawSkipped + 1 }

def held (s : Stream) (i : Nat) : Bool := (s.buffers[i]?.map Buffer.dequeued).getD false

end Stream

def check {A : Type} (r : Reply A) (message : String) : Call A :=
  Fallible.lift (r.mapError fun e => message ++ ": " ++ e.text)

def buffer (i : Nat) : Call Buffer := do
  let buffers ← Fallible.reads Stream.buffers
  match buffers[i]? with
  | some b => pure b
  | none => Fallible.fail outOfRange

def release (i : Nat) (qbuf : Reply Unit) : Call Unit := do
  let buf ← buffer i
  Fallible.demand (buf.dequeued = true) "double QBUF"
  Fallible.update (Stream.issued · (.qbuf i qbuf.isOk))
  check qbuf "QBUF"
  Fallible.update (Stream.marked · i false)

/-! The start of the capture. -/

structure BufferSetup where
  querybuf : Reply Nat
  mmap : Reply Unit
  expbuf : Reply Nat
  qbuf : Reply Unit

structure Setup where
  flock : Reply Unit
  subscribe : Reply Unit
  reqbufs : Reply Nat
  buffer : Nat → BufferSetup
  streamon : Reply Unit

/-- Without an export the encoder copies, or refuses to. -/
def exportBuffer (wanted : Bool) (i : Nat) (r : Reply Nat) : Call Unit :=
  match wanted, r with
  | true, .ok fd => Fallible.update (Stream.changed · i fun b => { b with dma := some fd })
  | _, _ => pure ()

def startBuffer (exportDma : Bool) (a : BufferSetup) (i : Nat) : Call Unit := do
  let size ← check a.querybuf "QUERYBUF"
  Fallible.update (Stream.changed · i fun b => { b with size := size })
  check a.mmap "MMAP"
  let layout ← Fallible.reads Stream.layout
  Fallible.demand (¬ size < layout.sizeimage.toNat) "capture buffer shorter than sizeimage"
  exportBuffer exportDma i a.expbuf
  Fallible.update (Stream.marked · i true)
  release i a.qbuf

def subscribe (r : Reply Unit) : Call Unit :=
  match r with
  | .error e => if e.code = einval then pure () else check r "SUBSCRIBE_EVENT"
  | .ok _ => pure ()

def start (exportDma : Bool) (a : Setup) : Call Unit := do
  let fresh ← Fallible.reads fun s => !s.streaming && s.buffers.isEmpty
  Fallible.demand (fresh = true) "capture already started"
  check a.flock "capture advisory lock"
  subscribe a.subscribe
  let count ← check a.reqbufs "REQBUFS; do not change CMA/boot settings automatically"
  Fallible.demand (2 ≤ count ∧ count ≤ 4) "unexpected capture buffer count"
  Fallible.update fun s => { s with buffers := List.replicate count {} }
  Fallible.each (fun i => startBuffer exportDma (a.buffer i) i) (List.range' 0 count)
  check a.streamon "STREAMON"
  Fallible.update fun s => { s with streaming := true }

/-! The wait for a frame. -/

inductive Poll where
  | failed (why : Errno)
  | timeout
  | ready (revents : UInt16)

def pollBad : UInt16 := 0x08 ||| 0x10 ||| 0x20 ||| 0x02

def waited : Poll → Call Unit
  | .failed why => check (.error why) "capture poll"
  | .timeout => Fallible.fail "HDMI frame timeout"
  | .ready revents => Fallible.demand (revents &&& pollBad = 0) "HDMI change/error; reconnect required"

structure Attempt where
  dqbuf : Reply Handed
  qbuf : Reply Unit

def hold (b : Handed) : Call Unit := do
  Fallible.update (Stream.issued · (.dqbuf b.index))
  let buf ← buffer b.index
  Fallible.demand (buf.dequeued = false) "duplicate DQBUF"
  Fallible.update (Stream.marked · b.index true)
  let layout ← Fallible.reads Stream.layout
  Fallible.demand (b.inBounds buf.size layout) "invalid capture plane bounds"

def skip (i : Nat) (qbuf : Reply Unit) : Call Unit := do
  release i qbuf
  Fallible.update Stream.skipped

def choose (b : Handed) (qbuf : Reply Unit) (latest : Option Frame) : Call (Option Frame) :=
  if b.flagged then do
    skip b.index qbuf
    pure latest
  else do
    match latest with
    | some f => skip f.index qbuf
    | none => pure ()
    pure (some b.frame)

def take (b : Handed) (qbuf : Reply Unit) (latest : Option Frame) : Call (Option Frame) := do
  hold b
  choose b qbuf latest

/-- No further attempt is a `DQBUF` that would block. -/
def drain : List Attempt → Option Frame → Call (Option Frame)
  | [], latest => pure latest
  | a :: rest, latest =>
    match a.dqbuf with
    | .error e => if e.code = eagain then pure latest else check (.error e) "DQBUF"
    | .ok b => do
      let newer ← take b a.qbuf latest
      drain rest newer

def answer : Option Frame → Call Frame
  | some f => pure f
  | none => Fallible.fail "no valid frame after capture wake"

def latest (p : Poll) (attempts : List Attempt) : Call Frame := do
  waited p
  let count ← Fallible.reads fun s => s.buffers.length
  let newest ← drain (attempts.take count) none
  answer newest

inductive Request where
  | latest (p : Poll) (attempts : List Attempt)
  | release (index : Nat) (qbuf : Reply Unit)

def request (s : Stream) : Request → Stream
  | .latest p attempts => ((latest p attempts).run s).2
  | .release i qbuf => ((release i qbuf).run s).2

/-! What one request does to the flags and to the log. -/

theorem owned_concat (log : List Ioctl) (e : Ioctl) : owned (log ++ [e]) = e.after (owned log) :=
  run_concat _ _ _ _

namespace Stream
variable (s : Stream) (i j : Nat)

theorem issued_owned (e : Ioctl) : owned (s.issued e).log = e.after (owned s.log) :=
  owned_concat s.log e

@[simp] theorem issued_buffers (e : Ioctl) : (s.issued e).buffers = s.buffers := rfl

@[simp] theorem issued_log (e : Ioctl) : (s.issued e).log = s.log ++ [e] := rfl

@[simp] theorem skipped_log : s.skipped.log = s.log := rfl

@[simp] theorem issued_held (e : Ioctl) : (s.issued e).held i = s.held i := rfl

@[simp] theorem skipped_held : s.skipped.held i = s.held i := rfl

@[simp] theorem changed_log (f : Buffer → Buffer) : (s.changed i f).log = s.log := rfl

@[simp] theorem marked_log (v : Bool) : (s.marked i v).log = s.log := rfl

@[simp] theorem changed_length (f : Buffer → Buffer) :
    (s.changed i f).buffers.length = s.buffers.length := List.length_modify _ _ _

@[simp] theorem marked_length (v : Bool) : (s.marked i v).buffers.length = s.buffers.length :=
  s.changed_length i _

theorem changed_held {f : Buffer → Buffer} (same : ∀ b, (f b).dequeued = b.dequeued) :
    (s.changed i f).held j = s.held j := by
  simp only [held, changed, List.getElem?_modify]
  cases s.buffers[j]? with
  | none => rfl
  | some b =>
    by_cases h : i = j
    · simp [h, same]
    · simp [h]

theorem marked_held (v : Bool) :
    (s.marked i v).held j = if j = i ∧ i < s.buffers.length then v else s.held j := by
  simp only [held, marked, changed, List.getElem?_modify]
  by_cases h : i = j
  · subst h
    by_cases inside : i < s.buffers.length
    · simp [inside]
    · simp [inside]
  · have other : ¬ (j = i ∧ i < s.buffers.length) := fun both => h both.1.symm
    rw [if_neg other]
    cases s.buffers[j]? with
    | none => rfl
    | some b => simp [h]

theorem held_inside {i : Nat} (holds : s.held i = true) : i < s.buffers.length := by
  by_contra outside
  rw [held, List.getElem?_eq_none (Nat.le_of_not_lt outside)] at holds
  cases holds

end Stream

theorem buffer_some {s : Stream} {i : Nat} {b : Buffer} (inside : s.buffers[i]? = some b) :
    (buffer i).run s = (.ok b, s) := by
  rw [buffer, Fallible.reads_bind, inside]
  rfl

theorem buffer_none {s : Stream} {i : Nat} (outside : s.buffers[i]? = none) :
    (buffer i).run s = (.error outOfRange, s) := by
  rw [buffer, Fallible.reads_bind, outside]
  rfl

theorem release_cases (i : Nat) (qbuf : Reply Unit) (s : Stream) :
    (∃ e, (release i qbuf).run s = (.error e, s)) ∨
    (s.held i = true ∧ ∃ e, qbuf = .error e ∧
      (release i qbuf).run s = (.error ("QBUF: " ++ e.text), s.issued (.qbuf i false))) ∨
    (s.held i = true ∧ qbuf = .ok () ∧
      (release i qbuf).run s = (.ok (), (s.issued (.qbuf i true)).marked i false)) := by
  cases inside : s.buffers[i]? with
  | none =>
    refine .inl ⟨outOfRange, ?_⟩
    rw [release, Fallible.bind_error (buffer_none inside)]
  | some b =>
    rw [release, Fallible.bind_ok (buffer_some inside)]
    have flag : s.held i = b.dequeued := by rw [Stream.held, inside]; rfl
    cases held : b.dequeued with
    | false =>
      refine .inl ⟨"double QBUF", ?_⟩
      rw [Fallible.demand_false (by simp)]
      rfl
    | true =>
      rw [Fallible.demand_true rfl]
      right
      cases qbuf with
      | error e => exact .inl ⟨flag.trans held, e, rfl, rfl⟩
      | ok u => exact .inr ⟨flag.trans held, rfl, rfl⟩

theorem release_held {s : Stream} {i : Nat} (holds : s.held i = true) :
    (release i (.ok ())).run s = (.ok (), (s.issued (.qbuf i true)).marked i false) := by
  rcases release_cases i (.ok ()) s with ⟨e, refused⟩ | ⟨_, e, failed, _⟩ | ⟨_, _, done⟩
  · have inside : i < s.buffers.length := s.held_inside holds
    have found : s.buffers[i]? = some s.buffers[i] := List.getElem?_eq_getElem inside
    have flag : s.buffers[i].dequeued = true := by rwa [Stream.held, found] at holds
    rw [release, Fallible.bind_ok (buffer_some found), Fallible.demand_true flag]
    rfl
  · cases failed
  · exact done

/-- What is left of a buffer that came out of the driver: the flag is set before the planes
are looked at. -/
theorem hold_cases (b : Handed) (s : Stream) :
    ((s.buffers.length ≤ b.index ∨ s.held b.index = true) ∧
      ∃ e, (hold b).run s = (.error e, s.issued (.dqbuf b.index))) ∨
    (∃ buf, s.buffers[b.index]? = some buf ∧ s.held b.index = false ∧
      (hold b).run s = (if b.inBounds buf.size s.layout then .ok () else .error "invalid capture plane bounds",
        (s.issued (.dqbuf b.index)).marked b.index true)) := by
  cases inside : s.buffers[b.index]? with
  | none =>
    refine .inl ⟨.inl (List.getElem?_eq_none_iff.mp inside), outOfRange, ?_⟩
    have missing : (s.issued (.dqbuf b.index)).buffers[b.index]? = none := inside
    rw [hold, Fallible.update_bind, Fallible.bind_error (buffer_none missing)]
  | some buf =>
    have flag : s.held b.index = buf.dequeued := by rw [Stream.held, inside]; rfl
    have found : (s.issued (.dqbuf b.index)).buffers[b.index]? = some buf := inside
    rw [hold, Fallible.update_bind, Fallible.bind_ok (buffer_some found)]
    cases held : buf.dequeued with
    | true =>
      refine .inl ⟨.inr (flag.trans held), "duplicate DQBUF", ?_⟩
      rw [Fallible.demand_false (by simp)]
      rfl
    | false =>
      refine .inr ⟨buf, rfl, flag.trans held, ?_⟩
      rw [Fallible.demand_true rfl]
      by_cases bounds : b.inBounds buf.size s.layout
      · rw [if_pos bounds]
        exact congrArg (Fallible.run · _) (Fallible.demand_true bounds _)
      · rw [if_neg bounds]
        exact congrArg (Fallible.run · _) (Fallible.demand_false bounds _)

/-! The driver has exactly the buffers that are not flagged, whatever the requests give back. -/

structure Apart (s : Stream) : Prop where
  flags : ∀ i, owned s.log i = (decide (i < s.buffers.length) && !s.held i)
  sole : Sole s.log

def Good (s : Stream) : Prop := Lawful s.log → Apart s

namespace Apart
variable {s : Stream} {i : Nat}

theorem requeued (apart : Apart s) (holds : s.held i = true) (ok : Bool) :
    Apart (if ok then (s.issued (.qbuf i ok)).marked i false else s.issued (.qbuf i ok)) := by
  have inside := s.held_inside holds
  have sole : Sole (s.log ++ [.qbuf i ok]) := by
    refine (Log.each_concat _ _).mpr ⟨apart.sole, ?_⟩
    rw [Ioctl.single, apart.flags, holds]
    simp
  cases ok with
  | false =>
    refine ⟨fun j => ?_, sole⟩
    have flags := apart.flags j
    simpa [owned_concat] using flags
  | true =>
    refine ⟨fun j => ?_, sole⟩
    have flags := apart.flags j
    rw [if_pos rfl, Stream.marked_length, Stream.marked_held, Stream.marked_log, Stream.issued_owned,
      Ioctl.after_qbuf, flags]
    by_cases same : j = i
    · subst same
      simp [inside]
    · rw [if_neg fun both => same both.1, beq_false_of_ne same]
      exact Bool.or_false _

theorem dequeued (apart : Apart s) (has : owned s.log i = true) :
    Apart ((s.issued (.dqbuf i)).marked i true) := by
  have inside : i < s.buffers.length := by
    have flags := apart.flags i
    rw [has] at flags
    simpa using (Bool.and_eq_true_iff.mp flags.symm).1
  refine ⟨fun j => ?_, (Log.each_concat _ _).mpr ⟨apart.sole, rfl⟩⟩
  rw [Stream.marked_length, Stream.marked_held, Stream.marked_log, Stream.issued_owned,
    Ioctl.after_dqbuf, apart.flags j]
  by_cases same : j = i
  · subst same
    simp [inside]
  · rw [if_neg fun both => same both.1, bne, beq_false_of_ne same]
    exact Bool.and_true _

end Apart

theorem lawful_before {s : Stream} {e : Ioctl} (lawful : Lawful (s.issued e).log) : Lawful s.log :=
  Log.each_earlier lawful

theorem good_release (i : Nat) (qbuf : Reply Unit) : Fallible.Keeps Good (release i qbuf) := by
  intro s good
  rcases release_cases i qbuf s with ⟨e, refused⟩ | ⟨holds, e, _, failed⟩ | ⟨holds, _, done⟩
  · rwa [refused]
  · rw [failed]
    exact fun lawful => (good (lawful_before lawful)).requeued holds false
  · rw [done]
    exact fun lawful => (good (lawful_before lawful)).requeued holds true

theorem good_hold (b : Handed) : Fallible.Keeps Good (hold b) := by
  intro s good
  have out (lawful : Lawful (s.issued (.dqbuf b.index)).log) : Apart s ∧ owned s.log b.index = true := by
    have both := (Log.each_concat _ _).mp lawful
    exact ⟨good both.1, both.2⟩
  rcases hold_cases b s with ⟨wrong, e, refused⟩ | ⟨buf, _, _, taken⟩
  · rw [refused]
    intro lawful
    obtain ⟨apart, has⟩ := out lawful
    -- The driver has no buffer that is out of range or flagged.
    have flags := apart.flags b.index
    rw [has] at flags
    rcases wrong with outside | holds
    · simp [Nat.not_lt.mpr outside] at flags
    · simp [holds] at flags
  · rw [taken]
    intro lawful
    obtain ⟨apart, has⟩ := out lawful
    exact apart.dequeued has

theorem keeps_check {A : Type} {I : Stream → Prop} (r : Reply A) (message : String) :
    Fallible.Keeps I (check r message) := Fallible.keeps_lift _

theorem keeps_waited {I : Stream → Prop} (p : Poll) : Fallible.Keeps I (waited p) := by
  cases p with
  | failed why => exact keeps_check _ _
  | timeout => exact Fallible.keeps_fail _
  | ready revents => exact Fallible.keeps_demand _ _

section keeps
variable {I : Stream → Prop} (released : ∀ i qbuf, Fallible.Keeps I (release i qbuf))
  (out : ∀ b, Fallible.Keeps I (hold b)) (counted : ∀ s : Stream, I s → I s.skipped)

include released counted in
theorem keeps_skip (i : Nat) (qbuf : Reply Unit) : Fallible.Keeps I (skip i qbuf) :=
  Fallible.keeps_bind (released i qbuf) fun _ => Fallible.keeps_update counted

include released counted in
theorem keeps_choose (b : Handed) (qbuf : Reply Unit) (latest : Option Frame) :
    Fallible.Keeps I (choose b qbuf latest) := by
  have skips (i : Nat) := keeps_skip released counted i qbuf
  unfold choose
  cases b.flagged with
  | true => exact Fallible.keeps_bind (skips b.index) fun _ => Fallible.keeps_pure latest
  | false =>
    cases latest with
    | none => exact Fallible.keeps_pure _
    | some f => exact Fallible.keeps_bind (skips f.index) fun _ => Fallible.keeps_pure _

include released out counted in
theorem keeps_take (b : Handed) (qbuf : Reply Unit) (latest : Option Frame) :
    Fallible.Keeps I (take b qbuf latest) :=
  Fallible.keeps_bind (out b) fun _ => keeps_choose released counted b qbuf latest

include released out counted in
theorem keeps_drain (attempts : List Attempt) (latest : Option Frame) :
    Fallible.Keeps I (drain attempts latest) := by
  induction attempts generalizing latest with
  | nil => exact Fallible.keeps_pure latest
  | cons a rest ih =>
    unfold drain
    cases a.dqbuf with
    | ok b => exact Fallible.keeps_bind (keeps_take released out counted b a.qbuf latest) ih
    | error e =>
      by_cases again : e.code = eagain
      · simpa only [again, if_true] using Fallible.keeps_pure latest
      · simpa only [again, if_false] using keeps_check _ "DQBUF"

end keeps

theorem good_latest (p : Poll) (attempts : List Attempt) : Fallible.Keeps Good (latest p attempts) := by
  have counted (s : Stream) (good : Good s) : Good s.skipped :=
    fun lawful => ⟨(good lawful).flags, (good lawful).sole⟩
  refine Fallible.keeps_bind (keeps_waited p) fun _ => Fallible.keeps_bind (Fallible.keeps_reads _) fun count => ?_
  refine Fallible.keeps_bind (keeps_drain good_release good_hold counted _ none) fun newest => ?_
  cases newest with
  | none => exact Fallible.keeps_fail _
  | some f => exact Fallible.keeps_pure f

theorem good_request (s : Stream) (r : Request) (good : Good s) : Good (request s r) := by
  cases r with
  | latest p attempts => exact good_latest p attempts s good
  | release i qbuf => exact good_release i qbuf s good

/-! A start that returned has queued every buffer. -/

/-- The first `k` buffers are with the driver, and nothing has come out of it. -/
structure Queued (count k : Nat) (s : Stream) : Prop where
  length : s.buffers.length = count
  idle : ∀ i, s.held i = false
  queued : ∀ i, owned s.log i = decide (i < k)
  sole : Sole s.log
  lawful : Lawful s.log

def Stream.opened (layout : Layout) : Stream where
  layout := layout

theorem check_bind_returned {A B : Type} {r : Reply A} {message : String} {f : A → Call B}
    {s t : Stream} {b : B} : (check r message >>= f).run s = (.ok b, t) ↔
      ∃ a, r = .ok a ∧ (f a).run s = (.ok b, t) := by
  rw [check, Fallible.lift_bind_returned]
  cases r with
  | ok x => exact exists_congr fun a => by simp [Except.mapError]
  | error e => exact exists_congr fun a => by simp [Except.mapError]

theorem subscribe_bind_returned {B : Type} {r : Reply Unit} {f : Unit → Call B} {s t : Stream} {b : B}
    (returned : (subscribe r >>= f).run s = (.ok b, t)) : (f ()).run s = (.ok b, t) := by
  cases r with
  | ok _ => exact returned
  | error e =>
    by_cases ignored : e.code = einval
    · rwa [subscribe, if_pos ignored, Fallible.pure_bind] at returned
    · rw [subscribe, if_neg ignored, check_bind_returned] at returned
      obtain ⟨_, impossible, _⟩ := returned
      cases impossible

namespace Queued
variable {count k : Nat} {s t : Stream}

theorem changed (queued : Queued count k s) (i : Nat) {f : Buffer → Buffer}
    (same : ∀ b, (f b).dequeued = b.dequeued) : Queued count k (s.changed i f) where
  length := (s.changed_length i f).trans queued.length
  idle j := (s.changed_held i j same).trans (queued.idle j)
  queued := queued.queued
  sole := queued.sole
  lawful := queued.lawful

theorem handed (queued : Queued count k s) (inside : k < count) :
    Queued count (k + 1) ((((s.marked k true).issued (.qbuf k true))).marked k false) where
  length := by simp [queued.length]
  idle j := by
    rw [Stream.marked_held, Stream.issued_held, Stream.marked_held]
    by_cases same : j = k
    · simp [same, queued.length, inside]
    · simp [same, queued.idle j]
  queued j := by
    rw [Stream.marked_log, Stream.issued_owned, Stream.marked_log, Ioctl.after_qbuf, queued.queued j]
    by_cases same : j = k
    · simp [same]
    · simp only [Bool.true_and, beq_false_of_ne same, Bool.or_false, decide_eq_decide]
      omega
  sole := by
    refine (Log.each_concat _ _).mpr ⟨queued.sole, ?_⟩
    have others : owned s.log k = false := (queued.queued k).trans (decide_eq_false (Nat.lt_irrefl k))
    simp [Ioctl.single, others]
  lawful := (Log.each_concat _ _).mpr ⟨queued.lawful, rfl⟩

theorem exported (queued : Queued count k s) (i : Nat) (wanted : Bool) (r : Reply Nat) {u : Unit}
    (returned : (exportBuffer wanted i r).run s = (.ok u, t)) : Queued count k t := by
  cases wanted with
  | false =>
    cases returned
    exact queued
  | true =>
    cases r with
    | error e =>
      cases returned
      exact queued
    | ok fd =>
      cases returned
      exact queued.changed i fun _ => rfl

theorem started (queued : Queued count k s) (inside : k < count) (exportDma : Bool) (a : BufferSetup)
    (returned : (startBuffer exportDma a k).run s = (.ok (), t)) : Queued count (k + 1) t := by
  simp only [startBuffer, check_bind_returned, Fallible.update_bind, Fallible.reads_bind,
    Fallible.demand_bind_returned] at returned
  obtain ⟨size, _, _, _, _, returned⟩ := returned
  obtain ⟨_, u, out, returned⟩ := Fallible.bind_returned.mp returned
  rw [Fallible.update_bind] at returned
  have before := (queued.changed k (f := fun b => { b with size := size }) fun _ => rfl).exported k _ _ out
  have inside' : k < u.buffers.length := before.length.symm ▸ inside
  have holds : (u.marked k true).held k = true := by
    rw [Stream.marked_held, if_pos ⟨rfl, inside'⟩]
  rcases release_cases k a.qbuf (u.marked k true) with ⟨e, refused⟩ | ⟨_, e, _, failed⟩ | ⟨_, _, done⟩
  · cases refused.symm.trans returned
  · cases failed.symm.trans returned
  · cases done.symm.trans returned
    exact before.handed inside

end Queued

theorem start_queued {layout : Layout} {exportDma : Bool} {a : Setup} {s : Stream}
    (returned : (start exportDma a).run (Stream.opened layout) = (.ok (), s)) :
    ∃ count, Queued count count s := by
  simp only [start, Fallible.reads_bind, Fallible.demand_bind_returned, check_bind_returned] at returned
  obtain ⟨_, _, _, returned⟩ := returned
  have granted := subscribe_bind_returned returned
  simp only [check_bind_returned, Fallible.demand_bind_returned, Fallible.update_bind] at granted
  obtain ⟨count, _, _, granted⟩ := granted
  obtain ⟨_, t, looped, streaming⟩ := Fallible.bind_returned.mp granted
  obtain ⟨_, _, on⟩ := check_bind_returned.mp streaming
  have all : count ≤ count → Queued count count t := by
    have run := Fallible.each_range_returned (fun k s => k ≤ count → Queued count k s) ?_ ?_ looped
    · rwa [Nat.zero_add] at run
    · intro k u v queued one inside
      exact (queued (Nat.le_of_succ_le inside)).started inside exportDma _ one
    · intro _
      refine ⟨List.length_replicate, fun i => ?_, fun _ => rfl, Log.each_nil, Log.each_nil⟩
      rw [Stream.held, List.getElem?_replicate]
      by_cases inside : i < count
      · rw [if_pos inside]
        rfl
      · rw [if_neg inside]
        rfl
  cases on
  obtain ⟨length, idle, queued, sole, lawful⟩ := all le_rfl
  exact ⟨count, length, idle, queued, sole, lawful⟩

theorem Queued.good {count : Nat} {s : Stream} (queued : Queued count count s) : Good s := by
  refine fun _ => ⟨fun i => ?_, queued.sole⟩
  rw [queued.queued i, queued.idle i, queued.length]
  exact (Bool.and_true _).symm

theorem good_run {layout : Layout} {exportDma : Bool} {a : Setup} {s : Stream}
    (started : (start exportDma a).run (Stream.opened layout) = (.ok (), s)) (calls : List Request) :
    Good (run request s calls) := by
  obtain ⟨count, queued⟩ := start_queued started
  exact run_invariant request Good good_request queued.good calls

/-! What a call that returned a frame has done. -/

theorem skip_returned {i : Nat} {qbuf : Reply Unit} {s t : Stream}
    (returned : (skip i qbuf).run s = (.ok (), t)) :
    s.held i = true ∧ t = ((s.issued (.qbuf i true)).marked i false).skipped := by
  obtain ⟨_, u, out, last⟩ := Fallible.bind_returned.mp returned
  rcases release_cases i qbuf s with ⟨e, refused⟩ | ⟨_, e, _, failed⟩ | ⟨holds, _, done⟩
  · cases refused.symm.trans out
  · cases failed.symm.trans out
  · cases done.symm.trans out
    cases last
    exact ⟨holds, rfl⟩

theorem hold_returned {b : Handed} {s t : Stream} (returned : (hold b).run s = (.ok (), t)) :
    ∃ buf, s.buffers[b.index]? = some buf ∧ s.held b.index = false ∧ b.inBounds buf.size s.layout ∧
      t = (s.issued (.dqbuf b.index)).marked b.index true := by
  rcases hold_cases b s with ⟨_, e, refused⟩ | ⟨buf, found, free, taken⟩
  · cases refused.symm.trans returned
  · by_cases bounds : b.inBounds buf.size s.layout
    · rw [if_pos bounds] at taken
      cases taken.symm.trans returned
      exact ⟨buf, found, free, bounds, rfl⟩
    · rw [if_neg bounds] at taken
      cases taken.symm.trans returned

/-- A call in progress, from the stream it began with: the newest frame so far is its only
buffer, and every other one that it took has gone back. -/
structure Drained (s₀ s : Stream) (latest : Option Frame) (n : Nat) : Prop where
  held : ∀ i, s.held i = (s₀.held i || latest.any fun f => f.index == i)
  fresh : ∀ f ∈ latest, s₀.held f.index = false
  skipped : s.rawSkipped + (if latest.isSome then 1 else 0) = s₀.rawSkipped + UInt64.ofNat n
  nonempty : latest.isSome → 1 ≤ n
  grown : ∃ events, s.log = s₀.log ++ events ∧ events.countP Ioctl.dequeues = n

namespace Drained
variable {s₀ s t : Stream} {latest newer : Option Frame} {n : Nat} {b : Handed} {qbuf : Reply Unit}

theorem refl (s : Stream) : Drained s s none 0 where
  held i := (Bool.or_false _).symm
  fresh f member := by cases member
  skipped := rfl
  nonempty := nofun
  grown := ⟨[], (List.append_nil _).symm, rfl⟩

theorem counted (n : Nat) : UInt64.ofNat (n + 1) = UInt64.ofNat n + 1 := UInt64.ofNat_add n 1

section taken
variable (drained : Drained s₀ s latest n) (inside : b.index < s.buffers.length)
  (free : s.held b.index = false)

include drained free in
theorem free_before : s₀.held b.index = false ∧ ∀ f ∈ latest, f.index ≠ b.index := by
  have before := drained.held b.index
  rw [free] at before
  obtain ⟨first, second⟩ := Bool.or_eq_false_iff.mp before.symm
  refine ⟨first, fun f member same => ?_⟩
  cases member
  simp [same] at second

include drained inside free in
theorem passed : Drained s₀ ((((s.issued (.dqbuf b.index)).marked b.index true).issued
    (.qbuf b.index true)).marked b.index false).skipped latest (n + 1) := by
  obtain ⟨events, grown, count⟩ := drained.grown
  refine ⟨fun i => ?_, drained.fresh, ?_, fun _ => Nat.succ_pos n, events ++ [.dqbuf b.index, .qbuf b.index true], ?_, ?_⟩
  · rw [← drained.held i]
    by_cases same : i = b.index
    · simp [Stream.marked_held, same, inside, free]
    · simp [Stream.marked_held, same]
  · rw [counted, ← UInt64.add_assoc, ← drained.skipped]
    change s.rawSkipped + 1 + _ = _
    ac_rfl
  · simp [grown]
  · rw [List.countP_append, count]
    rfl

include inside free in
theorem begun (drained : Drained s₀ s none n) :
    Drained s₀ ((s.issued (.dqbuf b.index)).marked b.index true) (some b.frame) (n + 1) := by
  obtain ⟨events, grown, count⟩ := drained.grown
  refine ⟨fun i => ?_, ?_, ?_, fun _ => Nat.succ_pos n, events ++ [.dqbuf b.index], ?_, ?_⟩
  · by_cases same : i = b.index
    · simp [Stream.marked_held, same, inside, Handed.frame]
    · have apart : (b.index == i) = false := beq_false_of_ne fun eq => same eq.symm
      simp [Stream.marked_held, same, Handed.frame, apart, drained.held i]
  · rintro f member
    cases member
    exact (drained.free_before free).1
  · rw [counted, ← UInt64.add_assoc, ← drained.skipped]
    exact congrArg (· + 1) (UInt64.add_zero _).symm
  · simp [grown]
  · rw [List.countP_append, count]
    rfl

include inside free in
theorem replaced {f : Frame} (drained : Drained s₀ s (some f) n) (inside' : f.index < s.buffers.length) :
    Drained s₀ ((((s.issued (.dqbuf b.index)).marked b.index true).issued
      (.qbuf f.index true)).marked f.index false).skipped (some b.frame) (n + 1) := by
  obtain ⟨events, grown, count⟩ := drained.grown
  obtain ⟨other, distinct⟩ := drained.free_before free
  have distinct := distinct f rfl
  refine ⟨fun i => ?_, ?_, ?_, fun _ => Nat.succ_pos n, events ++ [.dqbuf b.index, .qbuf f.index true], ?_, ?_⟩
  · by_cases same : i = b.index
    · subst same
      simp [Stream.marked_held, inside, Handed.frame, distinct.symm]
    · have apart : (b.index == i) = false := beq_false_of_ne fun eq => same eq.symm
      by_cases old : i = f.index
      · subst old
        simp [Stream.marked_held, inside', Handed.frame, apart, drained.fresh f rfl]
      · have apart' : (f.index == i) = false := beq_false_of_ne fun eq => old eq.symm
        simp [Stream.marked_held, same, old, Handed.frame, apart, apart', drained.held i]
  · rintro g member
    cases member
    exact other
  · rw [counted, ← UInt64.add_assoc, ← drained.skipped]
    rfl
  · simp [grown]
  · rw [List.countP_append, count]
    rfl

end taken

theorem taken (drained : Drained s₀ s latest n)
    (returned : (take b qbuf latest).run s = (.ok newer, t)) : Drained s₀ t newer (n + 1) := by
  obtain ⟨_, u, out, returned⟩ := Fallible.bind_returned.mp returned
  obtain ⟨buf, found, free, _, rfl⟩ := hold_returned out
  have inside : b.index < s.buffers.length := (List.getElem?_eq_some_iff.mp found).1
  unfold choose at returned
  cases flag : b.flagged with
  | true =>
    rw [flag, if_pos rfl] at returned
    obtain ⟨_, v, back, last⟩ := Fallible.bind_returned.mp returned
    obtain ⟨_, rfl⟩ := skip_returned back
    cases last
    exact drained.passed inside free
  | false =>
    rw [flag, if_neg Bool.false_ne_true] at returned
    cases latest with
    | none =>
      cases returned
      exact begun inside free drained
    | some f =>
      obtain ⟨_, v, back, last⟩ := Fallible.bind_returned.mp returned
      obtain ⟨holds, rfl⟩ := skip_returned back
      cases last
      have inside' : f.index < s.buffers.length := by simpa using Stream.held_inside _ holds
      exact replaced inside free drained inside'

/-- The induction is on the attempts that are left. -/
theorem drain {attempts : List Attempt} (drained : Drained s₀ s latest n)
    (returned : (V4l2.drain attempts latest).run s = (.ok newer, t)) :
    ∃ m, Drained s₀ t newer m := by
  induction attempts generalizing s latest n with
  | nil =>
    cases returned
    exact ⟨n, drained⟩
  | cons a rest ih =>
    unfold V4l2.drain at returned
    cases out : a.dqbuf with
    | ok b =>
      rw [out] at returned
      obtain ⟨middle, u, one, returned⟩ := Fallible.bind_returned.mp returned
      exact ih (drained.taken one) returned
    | error e =>
      rw [out] at returned
      by_cases again : e.code = eagain
      · simp only [again, if_true] at returned
        cases returned
        exact ⟨n, drained⟩
      · simp only [again, if_false] at returned
        cases returned

end Drained

/-- One buffer more is held, the returned one, and the others that were taken are counted. -/
structure Returned (s t : Stream) (f : Frame) : Prop where
  fresh : s.held f.index = false
  held : ∀ i, t.held i = (s.held i || f.index == i)
  skipped : ∃ events, t.log = s.log ++ events ∧ 1 ≤ events.countP Ioctl.dequeues ∧
    t.rawSkipped = s.rawSkipped + UInt64.ofNat (events.countP Ioctl.dequeues - 1)

theorem waited_bind_returned {B : Type} {p : Poll} {f : Unit → Call B} {s t : Stream} {b : B}
    (returned : (waited p >>= f).run s = (.ok b, t)) : (f ()).run s = (.ok b, t) := by
  cases p with
  | failed why => cases returned
  | timeout => cases returned
  | ready revents => exact (Fallible.demand_bind_returned.mp returned).2

theorem latest_returned {p : Poll} {attempts : List Attempt} {s t : Stream} {f : Frame}
    (returned : (latest p attempts).run s = (.ok f, t)) : Returned s t f := by
  have passed := waited_bind_returned returned
  rw [Fallible.reads_bind] at passed
  obtain ⟨newest, v, drained, last⟩ := Fallible.bind_returned.mp passed
  obtain ⟨n, result⟩ := (Drained.refl s).drain drained
  cases newest with
  | none => cases last
  | some g =>
    cases last
    obtain ⟨events, grown, count⟩ := result.grown
    have positive : 1 ≤ n := result.nonempty rfl
    refine ⟨result.fresh f rfl, result.held, events, grown, count ▸ positive, ?_⟩
    have skipped := result.skipped
    obtain ⟨m, rfl⟩ := Nat.exists_eq_add_of_le' positive
    rw [Drained.counted, ← UInt64.add_assoc] at skipped
    rw [count, Nat.add_sub_cancel]
    exact (UInt64.add_left_inj 1).mp skipped

/-! A frame that the caller holds. -/

def Spares (i : Nat) (s t : Stream) : Prop :=
  t.held i = true ∧ ∃ events, t.log = s.log ++ events ∧ ∀ ok, Ioctl.qbuf i ok ∉ events

theorem spares_refl {i : Nat} {s : Stream} (holds : s.held i = true) : Spares i s s :=
  ⟨holds, [], (List.append_nil _).symm, fun _ => List.not_mem_nil⟩

theorem spares_issued {i : Nat} {s t : Stream} (spares : Spares i s t) {e : Ioctl}
    (other : ∀ ok, Ioctl.qbuf i ok ≠ e) : Spares i s (t.issued e) := by
  obtain ⟨holds, events, grown, spared⟩ := spares
  refine ⟨holds, events ++ [e], by simp [grown], fun ok member => ?_⟩
  rcases List.mem_append.mp member with old | new
  · exact spared ok old
  · exact other ok (List.mem_singleton.mp new)

theorem spares_marked {i j : Nat} {s t : Stream} (spares : Spares i s t) (v : Bool) (other : i ≠ j) :
    Spares i s (t.marked j v) := by
  refine ⟨?_, spares.2⟩
  rw [Stream.marked_held, if_neg fun both => other both.1]
  exact spares.1

section spares
variable {i : Nat} {s₀ : Stream}

theorem spares_release {j : Nat} (other : i ≠ j) (qbuf : Reply Unit) :
    Fallible.Keeps (Spares i s₀) (release j qbuf) := by
  intro s spares
  have requeue (ok : Bool) : Spares i s₀ (s.issued (.qbuf j ok)) :=
    spares_issued spares fun _ same => other (Ioctl.qbuf.inj same).1
  rcases release_cases j qbuf s with ⟨e, refused⟩ | ⟨_, e, _, failed⟩ | ⟨_, _, done⟩
  · rwa [refused]
  · rw [failed]
    exact requeue false
  · rw [done]
    exact spares_marked (requeue true) false other

theorem spares_skip {j : Nat} (other : i ≠ j) (qbuf : Reply Unit) :
    Fallible.Keeps (Spares i s₀) (skip j qbuf) :=
  Fallible.keeps_bind (spares_release other qbuf) fun _ => Fallible.keeps_update fun _ spares => spares

theorem spares_hold {b : Handed} {s : Stream} (spares : Spares i s₀ s) :
    Spares i s₀ ((hold b).run s).2 ∧ (((hold b).run s).1 = .ok () → b.index ≠ i) := by
  have out : Spares i s₀ (s.issued (.dqbuf b.index)) := spares_issued spares nofun
  rcases hold_cases b s with ⟨_, e, refused⟩ | ⟨buf, _, free, taken⟩
  · rw [refused]
    exact ⟨out, nofun⟩
  · have other : b.index ≠ i := by
      rintro rfl
      rw [spares.1] at free
      cases free
    rw [taken]
    exact ⟨spares_marked out true other.symm, fun _ => other⟩

theorem spares_take (b : Handed) (qbuf : Reply Unit) {latest : Option Frame} {s : Stream}
    (spares : Spares i s₀ s) (others : ∀ f ∈ latest, f.index ≠ i) :
    Spares i s₀ ((take b qbuf latest).run s).2 ∧
      ∀ newer, ((take b qbuf latest).run s).1 = .ok newer → ∀ f ∈ newer, f.index ≠ i := by
  obtain ⟨out, other⟩ := spares_hold (b := b) spares
  rw [take, Fallible.run_bind]
  rcases held : (hold b).run s with ⟨r, t⟩
  rw [held] at out other
  cases r with
  | error e => exact ⟨out, nofun⟩
  | ok u =>
    have other := other rfl
    have newest : ∀ f ∈ some b.frame, f.index ≠ i := by
      rintro f member
      cases member
      exact other
    dsimp only
    unfold choose
    cases b.flagged with
    | true =>
      refine ⟨Fallible.keeps_bind (spares_skip other.symm qbuf) (fun _ => Fallible.keeps_pure latest) t out, ?_⟩
      intro newer returned
      obtain ⟨_, _, _, last⟩ := Fallible.bind_returned.mp (Prod.ext returned rfl)
      cases last
      exact others
    | false =>
      cases latest with
      | none =>
        refine ⟨out, fun newer returned => ?_⟩
        cases returned
        exact newest
      | some f =>
        have distinct : i ≠ f.index := (others f rfl).symm
        refine ⟨Fallible.keeps_bind (spares_skip distinct qbuf) (fun _ => Fallible.keeps_pure _) t out, ?_⟩
        intro newer returned
        obtain ⟨_, _, _, last⟩ := Fallible.bind_returned.mp (Prod.ext returned rfl)
        cases last
        exact newest

theorem spares_drain {attempts : List Attempt} {latest : Option Frame} {s : Stream}
    (spares : Spares i s₀ s) (others : ∀ f ∈ latest, f.index ≠ i) :
    Spares i s₀ ((drain attempts latest).run s).2 := by
  induction attempts generalizing latest s with
  | nil => exact spares
  | cons a rest ih =>
    unfold drain
    cases a.dqbuf with
    | ok b =>
      obtain ⟨out, newest⟩ := spares_take b a.qbuf spares others
      dsimp only
      rw [Fallible.run_bind]
      rcases taken : (take b a.qbuf latest).run s with ⟨r, t⟩
      rw [taken] at out newest
      cases r with
      | ok newer => exact ih out (newest newer rfl)
      | error e => exact out
    | error e =>
      dsimp only
      by_cases again : e.code = eagain
      · rw [if_pos again]
        exact spares
      · rw [if_neg again]
        exact spares

theorem spares_latest (p : Poll) (attempts : List Attempt) :
    Fallible.Keeps (Spares i s₀) (latest p attempts) := by
  refine Fallible.keeps_bind (keeps_waited p) fun _ => Fallible.keeps_bind (Fallible.keeps_reads _) fun count => ?_
  refine Fallible.keeps_bind (fun s spares => spares_drain spares nofun) fun newest => ?_
  cases newest with
  | none => exact Fallible.keeps_fail _
  | some f => exact Fallible.keeps_pure f

theorem spares_run {s : Stream} {calls : List Request} (holds : s.held i = true)
    (kept : ∀ qbuf, .release i qbuf ∉ calls) : Spares i s (run request s calls) := by
  refine meets_invariant request (fun _ r => ∀ qbuf, r ≠ .release i qbuf) (Spares i s) ?_
    (spares_refl holds) calls (meets_of_forall ?_ s)
  · intro t r spares other
    cases r with
    | latest p attempts => exact spares_latest p attempts t spares
    | release j qbuf =>
      have distinct : i ≠ j := by
        rintro rfl
        exact other qbuf rfl
      exact spares_release distinct qbuf t spares
  · intro r member qbuf same
    exact kept qbuf (same ▸ member)

end spares

/-- Whatever the ioctls give back, the flags say what the driver has, no buffer is given to
it twice, and a returned frame keeps its buffer until it is released. -/
theorem buffers_owned {layout : Layout} {exportDma : Bool} {a : Setup} {s : Stream}
    (started : (start exportDma a).run (Stream.opened layout) = (.ok (), s)) (calls : List Request)
    (lawful : Lawful (run request s calls).log) :
    (∀ i buf, (run request s calls).buffers[i]? = some buf →
      (buf.dequeued = false ↔ owned (run request s calls).log i = true)) ∧
    Sole (run request s calls).log ∧
    ∀ before p attempts after f t, calls = before ++ .latest p attempts :: after →
      (latest p attempts).run (run request s before) = (.ok f, t) →
      Returned (run request s before) t f ∧
      ((∀ qbuf, .release f.index qbuf ∉ after) → Spares f.index t (run request s calls)) := by
  have apart := good_run started calls lawful
  refine ⟨fun i buf found => ?_, apart.sole, ?_⟩
  · have inside : i < (run request s calls).buffers.length := (List.getElem?_eq_some_iff.mp found).1
    rw [apart.flags i, Stream.held, found]
    simp [inside]
  · rintro before p attempts after f t rfl returned
    have frame := latest_returned returned
    refine ⟨frame, fun kept => ?_⟩
    have holds : t.held f.index = true := by
      rw [frame.held, beq_self_eq_true, Bool.or_true]
    have split : run request s (before ++ .latest p attempts :: after) = run request t after := by
      rw [run_append, run_cons, request, returned]
    rw [split]
    exact spares_run holds kept

def fourBytes : Layout where
  sizeimage := 4

def twoBuffers : Setup where
  flock := .ok ()
  subscribe := .error ⟨einval, "Invalid argument"⟩
  reqbufs := .ok 2
  buffer _ := ⟨.ok 4, .ok (), .ok 7, .ok ()⟩
  streamon := .ok ()

def handedOut (index : Nat) (flags bytes : UInt32) : Handed := ⟨index, 9, flags, bytes, 0, 1, 5, 1000006⟩

def errorThenFrame : List Request :=
  [.latest (.ready 1) [⟨.ok (handedOut 0 bufFlagError 4), .ok ()⟩, ⟨.ok (handedOut 1 0 4), .ok ()⟩],
    .release 0 (.ok ())]

def twoQueued : Stream := ((start true twoBuffers).run (Stream.opened fourBytes)).2

theorem two_buffers_owned : Sole (run request twoQueued errorThenFrame).log ∧
    ∃ t, Returned twoQueued t (handedOut 1 0 4).frame ∧
      Spares 1 t (run request twoQueued errorThenFrame) := by
  have started : (start true twoBuffers).run (Stream.opened fourBytes) = (.ok (), twoQueued) := rfl
  have result := buffers_owned started errorThenFrame (by decide)
  obtain ⟨returned, spared⟩ := result.2.2 [] _ _ [.release 0 (.ok ())] (handedOut 1 0 4).frame _ rfl rfl
  exact ⟨result.2.1, _, returned, spared (by simp [Handed.frame, handedOut])⟩

end Video.V4l2

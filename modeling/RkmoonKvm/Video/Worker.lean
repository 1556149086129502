import Mathlib.Data.List.Basic
import RkmoonKvm.Library.Runs
import RkmoonKvm.Video.Annexb

/-! The capture loop of the worker on its IPC socket, with the recovery of a
failed capture: who carries the AU sequence across a reopened encoder. -/
namespace Video.Worker
open Runs

structure Output where
  bytes : List UInt8
  submitUs : UInt64
  doneUs : UInt64
  deriving DecidableEq

structure Encoder where
  config : Config
  direct : Bool
  fullRange : Bool
  seq : UInt64 := 0
  deriving DecidableEq

def openEncoder (c : Config) (direct fullRange : Bool) : Except String Encoder := do
  c.validate
  pure { config := c, direct, fullRange }

namespace Encoder

def sequence (e : Encoder) : UInt64 := e.seq

def continueSequence (e : Encoder) (last : UInt64) : Encoder := { e with seq := last }

def setRate (e : Encoder) (bps : UInt32) : Except String Encoder := do
  let config := { e.config with bitrate := bps }
  config.validate
  pure { e with config }

def bitrate (e : Encoder) (bps : UInt32) : Except String Encoder :=
  if e.config.bitrate < bps then throw "live bitrate increase requires reconnect in v1"
  else e.setRate bps

/-- The message of one access unit before its bytes are known to hold an IDR. -/
def message (e : Encoder) (dequeueUs : UInt64) (out : Output) : Message where
  h := { kind := .frame, seq := e.seq + 1, codec := e.config.codec, width := e.config.width,
         height := e.config.height, dequeueUs, submitUs := out.submitUs, doneUs := out.doneUs,
         flags := flagBt709 ||| (if e.fullRange then flagFullRange else 0) |||
           (if e.direct then flagDmabuf else 0),
         size := UInt32.ofNat out.bytes.length }
  bytes := out.bytes

def encode (e : Encoder) (dequeueUs : UInt64) (out : Output) (force : Bool) :
    Except String (Message × Encoder) :=
  if maxAu < out.bytes.length then throw "MPP AU exceeds bound"
  else do
    let n ← inspectAnnexb e.config.codec out.bytes
    let m := e.message dequeueUs out
    let m := if n.idr then { m with h := { m.h with flags := m.h.flags ||| flagIdr } } else m
    validateAu m force
    pure (m, { e with seq := e.seq + 1 })

end Encoder

inductive Entry where
  | frame (m : Message)
  | reopened
  | reopenFailed
  deriving DecidableEq

inductive Phase where
  | top | draining | picking | acking (seq : UInt64) | checking | exited (code : Nat)
  deriving DecidableEq

structure State where
  config : Config
  idrAt : UInt32
  start : UInt64
  phase : Phase := .top
  stopping : Bool := false
  /-- The pipeline: the capture is open exactly when the encoder is. -/
  encoder : Option Encoder
  force : Bool := true
  sentTestIdr : Bool := false
  pendingBitrate : UInt32 := 0
  recoveringSince : UInt64 := 0
  recoveries : UInt32 := 0
  count : UInt64 := 0
  lastCheck : UInt64 := start
  /-- Frames sent and pipelines reopened, oldest first. -/
  history : List Entry := []
  deriving DecidableEq

inductive Reopen where
  | opened (direct fullRange : Bool)
  | failed
  | changed
  deriving DecidableEq

inductive Label where
  | signal
  | turn
  | control (m : Message)
  | drained
  | reopen (now : UInt64) (r : Reopen)
  | fault (clock now : UInt64) (r : Reopen)
  | frame (clock dequeueUs : UInt64) (out : Output)
  | interrupted
  | unchanged (clock after : UInt64)
  | changed (clock after now : UInt64) (r : Reopen)
  /-- A call of the loop throws where nothing catches. -/
  | broken
  deriving DecidableEq

def recoveryWindowUs : UInt64 := 5000000

def setBitrate (bps : UInt32) (s : State) : Except String State :=
  match s.encoder with
  | some e => do
    let e ← e.bitrate bps
    pure { s with encoder := some e, pendingBitrate := 0, force := true }
  | none => pure { s with pendingBitrate := bps, force := true }

def lastSequence (s : State) : UInt64 :=
  match s.encoder with
  | some e => e.sequence
  | none => 0

def recoveringSince (now : UInt64) (s : State) : UInt64 :=
  if s.recoveringSince = 0 then now else s.recoveringSince

/-- The second half of `recover`: the attempt to open the pipeline with no encoder left. -/
def reopenPipeline (last : UInt64) (r : Reopen) (s : State) : Except String State :=
  if s.stopping then pure s
  else match r with
    | .changed => throw "source mode changed"
    | .failed => pure { s with history := s.history ++ [.reopenFailed] }
    | .opened direct fullRange =>
      match openEncoder s.config direct fullRange with
      | .ok e => pure { s with encoder := some (e.continueSequence last),
                               history := s.history ++ [.reopened] }
      | .error _ => pure { s with history := s.history ++ [.reopenFailed] }

/-- `recover`, with the clock it reads and the end of its attempt to open. -/
def recover (now : UInt64) (r : Reopen) (s : State) : Except String State :=
  if recoveryWindowUs < now - recoveringSince now s then
    throw "capture recovery window exceeded"
  else
    reopenPipeline (lastSequence s) r
      { s with recoveringSince := recoveringSince now s, recoveries := s.recoveries + 1,
               encoder := none }

def resume (s : State) : Except String State :=
  match s.encoder with
  | some _ =>
    if s.pendingBitrate ≠ 0 then setBitrate s.pendingBitrate { s with force := true, phase := .top }
    else pure { s with force := true, phase := .top }
  | none => pure { s with phase := .top }

def recoverResume (now : UInt64) (r : Reopen) (s : State) : Except String State := do
  resume (← recover now r s)

def testIdr (clock : UInt64) (s : State) : State :=
  if !s.sentTestIdr ∧ s.idrAt ≠ 0 ∧ s.idrAt.toUInt64 * 1000000 ≤ clock - s.start then
    { s with force := true, sentTestIdr := true }
  else s

def Phase.reads : Phase → Bool
  | .draining | .acking _ => true
  | .top | .picking | .checking | .exited _ => false

def control (m : Message) (s : State) : Except String State :=
  match s.phase with
  | .draining =>
    if m.h.kind = .stop then pure { s with phase := .exited 0 }
    else if m.h.kind = .idr then pure { s with force := true }
    else if m.h.kind = .bitrate then setBitrate m.h.extra s
    else throw "unexpected control before frame"
  | .acking seq =>
    if m.h.kind = .ack then
      if m.h.seq ≠ seq then throw "ACK sequence mismatch" else pure { s with phase := .checking }
    else if m.h.kind = .idr then pure { s with force := true }
    else if m.h.kind = .bitrate then setBitrate m.h.extra s
    else if m.h.kind = .stop then pure { s with phase := .exited 0 }
    else throw "unexpected worker control"
  | _ => pure s

def encodeSend (e : Encoder) (dequeueUs : UInt64) (out : Output) (s : State) :
    Except String State := do
  let (m, e) ← e.encode dequeueUs out s.force
  pure { s with encoder := some e, force := false, recoveringSince := 0, count := s.count + 1,
                history := s.history ++ [.frame m], phase := .acking m.h.seq }

/-- The worker exits with code 75 when an exception leaves the loop. -/
def settle (s : State) : Except String State → State
  | .ok s' => s'
  | .error _ => { s with phase := .exited 75 }

def step (s : State) : Label → State
  | .signal => { s with stopping := true }
  | .turn =>
    if s.phase = .top then { s with phase := if s.stopping then .exited 0 else .draining } else s
  | .control m => settle s (control m s)
  | .drained => if s.phase = .draining then { s with phase := .picking } else s
  | .reopen now r =>
    match s.phase, s.encoder with
    | .picking, none => settle s (recoverResume now r s)
    | _, _ => s
  | .fault clock now r =>
    match s.phase, s.encoder with
    | .picking, some _ => settle s (recoverResume now r (testIdr clock s))
    | _, _ => s
  | .frame clock dequeueUs out =>
    match s.phase, s.encoder with
    | .picking, some e => settle s (encodeSend e dequeueUs out (testIdr clock s))
    | _, _ => s
  | .interrupted =>
    match s.phase, s.stopping with
    | .acking _, true => { s with phase := .exited 0 }
    | _, _ => s
  | .unchanged clock after =>
    if s.phase = .checking then
      { s with phase := .top, lastCheck := if 1000000 ≤ clock - s.lastCheck then after else s.lastCheck }
    else s
  | .changed clock after now r =>
    if s.phase = .checking ∧ 1000000 ≤ clock - s.lastCheck then
      settle s (recoverResume now r { s with lastCheck := after })
    else s
  | .broken =>
    match s.phase with
    | .exited _ => s
    | _ => { s with phase := .exited 75 }

def Entry.message? : Entry → Option Message
  | .frame m => some m
  | _ => none

def sent (h : List Entry) : List Message := h.filterMap Entry.message?

/-- The state at the head of the loop, after the first pipeline was opened. -/
def begin (config : Config) (idrAt : UInt32) (direct fullRange : Bool) (start : UInt64) : State :=
  match openEncoder config direct fullRange with
  | .ok e => { config, idrAt, start, encoder := some e }
  | .error _ => { config, idrAt, start, encoder := none, phase := .exited 75 }

/-- The first frame of all, and the first after every reopened pipeline, is an IDR. -/
def Recovered : Bool → List Entry → Prop
  | _, [] => True
  | _, .reopened :: h => Recovered true h
  | first, .reopenFailed :: h => Recovered first h
  | first, .frame m :: h => (first → m.isIdr) ∧ Recovered false h

/-- A reopen fails after one frame and before another. -/
def Interrupted (h : List Entry) : Prop :=
  ∃ m m', List.Sublist [.frame m, .reopenFailed, .frame m'] h

def Failing (h : List Entry) : Prop := ∃ m, List.Sublist [.frame m, .reopenFailed] h

def first : Bool → List Entry → Bool
  | b, [] => b
  | _, .reopened :: h => first true h
  | b, .reopenFailed :: h => first b h
  | _, .frame _ :: h => first false h

theorem first_append (b : Bool) (h k : List Entry) : first b (h ++ k) = first (first b h) k := by
  induction h generalizing b with
  | nil => rfl
  | cons e h ih => cases e <;> exact ih _

theorem recovered_append (b : Bool) (h k : List Entry) :
    Recovered b (h ++ k) ↔ Recovered b h ∧ Recovered (first b h) k := by
  induction h generalizing b with
  | nil => simp [Recovered, first]
  | cons e h ih =>
    cases e with
    | frame m => simp only [List.cons_append, Recovered, first, ih, and_assoc]
    | reopened => exact ih true
    | reopenFailed => exact ih b

theorem sublist_concat_iff (l h : List Entry) (a e : Entry) :
    (l ++ [a]).Sublist (h ++ [e]) ↔ (l ++ [a]).Sublist h ∨ a = e ∧ l.Sublist h := by
  have both : (l ++ [a]).Sublist h ↔ (a :: l.reverse).Sublist h.reverse := by
    rw [← List.reverse_concat, List.reverse_sublist]
  have rest : l.Sublist h ↔ l.reverse.Sublist h.reverse := List.reverse_sublist.symm
  rw [← List.reverse_sublist, List.reverse_concat, List.reverse_concat, both, rest]
  simp only [List.sublist_cons_iff, List.cons.injEq]
  grind

theorem pair_concat_iff (h : List Entry) (a b e : Entry) :
    [a, b].Sublist (h ++ [e]) ↔ [a, b].Sublist h ∨ b = e ∧ a ∈ h := by
  have split := sublist_concat_iff [a] h b e
  rwa [List.singleton_sublist] at split

theorem triple_concat_iff (h : List Entry) (a b c e : Entry) :
    [a, b, c].Sublist (h ++ [e]) ↔ [a, b, c].Sublist h ∨ c = e ∧ [a, b].Sublist h :=
  sublist_concat_iff [a, b] h c e

/-- What a step can do to the pipeline and to the frames sent. -/
inductive Moves (s s' : State) : Prop where
  | keeps (history : s'.history = s.history)
      (encoder : s'.encoder.map Encoder.seq = s.encoder.map Encoder.seq)
      (force : s.force → s'.force) (stopping : s.stopping → s'.stopping)
  | sends (m : Message) (e e' : Encoder) (was : s.encoder = some e)
      (history : s'.history = s.history ++ [.frame m]) (encoder : s'.encoder = some e')
      (next : m.h.seq = e.seq + 1) (same : e'.seq = m.h.seq)
      (valid : validateAu m false = .ok ()) (idr : s.force → m.isIdr)
  | stops (history : s'.history = s.history) (encoder : s'.encoder = none)
      (force : s.force → s'.force) (stopping : s'.stopping)
  | fails (live : s.stopping = false) (history : s'.history = s.history ++ [.reopenFailed])
      (encoder : s'.encoder = none) (force : s.force → s'.force)
  | reopens (e : Encoder) (live : s.stopping = false)
      (history : s'.history = s.history ++ [.reopened]) (encoder : s'.encoder = some e)
      (last : e.seq = lastSequence s) (force : s'.force)

theorem encode_ok {e e' : Encoder} {dequeueUs : UInt64} {out : Output} {force : Bool} {m : Message}
    (encoded : e.encode dequeueUs out force = .ok (m, e')) :
    m.h.seq = e.seq + 1 ∧ e' = { e with seq := m.h.seq } ∧ validateAu m force = .ok () := by
  unfold Encoder.encode at encoded
  split at encoded
  · cases encoded
  · cases inspected : inspectAnnexb e.config.codec out.bytes with
    | error x =>
      rw [inspected] at encoded
      cases encoded
    | ok n =>
      simp only [inspected, bind, Except.bind] at encoded
      split at encoded
      · cases encoded
      · rename_i valid
        cases encoded
        refine ⟨?_, ?_, valid⟩ <;> (cases n.idr <;> rfl)

theorem openEncoder_ok {c : Config} {direct fullRange : Bool} {e : Encoder}
    (opened : openEncoder c direct fullRange = .ok e) : e = { config := c, direct, fullRange } := by
  unfold openEncoder at opened
  cases valid : c.validate with
  | error x =>
    simp only [valid, bind, Except.bind] at opened
    cases opened
  | ok u =>
    simp only [valid, bind, Except.bind] at opened
    exact (Except.ok.inj opened).symm

theorem bitrate_ok {e e' : Encoder} {bps : UInt32} (changed : e.bitrate bps = .ok e') :
    bps ≤ e.config.bitrate ∧ e' = { e with config := { e.config with bitrate := bps } } := by
  unfold Encoder.bitrate at changed
  split at changed
  · cases changed
  · rename_i lower
    refine ⟨UInt32.not_lt.mp lower, ?_⟩
    unfold Encoder.setRate at changed
    cases valid : ({ e.config with bitrate := bps } : Config).validate with
    | error x =>
      simp only [valid, bind, Except.bind] at changed
      cases changed
    | ok u =>
      simp only [valid, bind, Except.bind] at changed
      exact (Except.ok.inj changed).symm

theorem setBitrate_ok {bps : UInt32} {s s' : State} (changed : setBitrate bps s = .ok s') :
    (∃ e e', s.encoder = some e ∧ e.bitrate bps = .ok e' ∧
      s' = { s with encoder := some e', pendingBitrate := 0, force := true }) ∨
    (s.encoder = none ∧ s' = { s with pendingBitrate := bps, force := true }) := by
  unfold setBitrate at changed
  cases pipeline : s.encoder with
  | none =>
    simp only [pipeline] at changed
    exact .inr ⟨rfl, (Except.ok.inj changed).symm⟩
  | some e =>
    simp only [pipeline] at changed
    cases set : e.bitrate bps with
    | error x =>
      rw [set] at changed
      cases changed
    | ok e' =>
      rw [set] at changed
      exact .inl ⟨e, e', rfl, set, (Except.ok.inj changed).symm⟩

def resumedRate (s : State) : UInt32 :=
  if s.pendingBitrate ≠ 0 then s.pendingBitrate else s.config.bitrate

inductive Recovery (now : UInt64) (s s' : State) : Prop where
  | stops (stopped : s.stopping)
      (after : s' = { s with
        recoveringSince := recoveringSince now s, recoveries := s.recoveries + 1, encoder := none,
        phase := .top })
  | fails (live : s.stopping = false)
      (after : s' = { s with
        recoveringSince := recoveringSince now s, recoveries := s.recoveries + 1, encoder := none,
        history := s.history ++ [.reopenFailed], phase := .top })
  | reopens (live : s.stopping = false) (e : Encoder) (last : e.seq = lastSequence s)
      (config : e.config = { s.config with bitrate := resumedRate s })
      (after : s' = { s with
        recoveringSince := recoveringSince now s, recoveries := s.recoveries + 1, encoder := some e,
        history := s.history ++ [.reopened], force := true, pendingBitrate := 0, phase := .top })

theorem resume_ok {s s' : State} (resumed : resume s = .ok s') :
    (s.encoder = none ∧ s' = { s with phase := .top }) ∨
    ∃ e, s.encoder = some e ∧ ∃ e', e'.seq = e.seq ∧
      e'.config = { e.config with
        bitrate := if s.pendingBitrate ≠ 0 then s.pendingBitrate else e.config.bitrate } ∧
      s' = { s with encoder := some e', pendingBitrate := 0, force := true, phase := .top } := by
  unfold resume at resumed
  split at resumed
  next e pipeline =>
    refine .inr ⟨e, pipeline, ?_⟩
    split at resumed
    next waiting =>
      rcases setBitrate_ok resumed with ⟨e₀, e', was, set, after⟩ | ⟨none, _⟩
      · cases pipeline.symm.trans was
        obtain ⟨_, rfl⟩ := bitrate_ok set
        refine ⟨{ e with config := { e.config with bitrate := s.pendingBitrate } }, rfl, ?_, after⟩
        rw [if_pos waiting]
      · cases pipeline.symm.trans none
    next settled =>
      refine ⟨e, rfl, by rw [if_neg settled], ?_⟩
      rw [← not_not.mp settled, ← pipeline]
      exact (Except.ok.inj resumed).symm
  next pipeline => exact .inl ⟨pipeline, (Except.ok.inj resumed).symm⟩

theorem recover_ok {now : UInt64} {r : Reopen} {s s' : State}
    (recovered : recoverResume now r s = .ok s') : Recovery now s s' := by
  unfold recoverResume at recovered
  cases attempt : recover now r s with
  | error x =>
    rw [attempt] at recovered
    cases recovered
  | ok s₁ =>
    rw [attempt] at recovered
    have resumed := resume_ok recovered
    unfold recover at attempt
    split at attempt
    · cases attempt
    · unfold reopenPipeline at attempt
      split at attempt
      · rename_i stopped
        cases attempt
        rcases resumed with ⟨_, after⟩ | ⟨e, opened, _⟩
        · exact .stops stopped after
        · cases opened
      · rename_i live
        have live : s.stopping = false := by simpa using live
        have failed (attempt : (Except.ok { s with
            recoveringSince := recoveringSince now s, recoveries := s.recoveries + 1,
            encoder := none, history := s.history ++ [.reopenFailed] } : Except String State) = .ok s₁) :
            Recovery now s s' := by
          cases attempt
          rcases resumed with ⟨_, after⟩ | ⟨e, opened, _⟩
          · exact .fails live after
          · cases opened
        cases r with
        | changed => cases attempt
        | failed => exact failed attempt
        | opened direct fullRange =>
          simp only at attempt
          split at attempt
          · rename_i e opened
            cases attempt
            rcases resumed with ⟨none, _⟩ | ⟨_, was, e', seq, config, after⟩
            · cases none
            · cases was
              refine .reopens live e' seq ?_ after
              rw [config, (openEncoder_ok opened : e = _)]
              rfl
          · exact failed attempt

theorem recover_moves {now : UInt64} {r : Reopen} {s s' : State}
    (recovered : recoverResume now r s = .ok s') : Moves s s' := by
  cases recover_ok recovered with
  | stops stopped after =>
    subst after
    exact .stops rfl rfl id stopped
  | fails live after =>
    subst after
    exact .fails live rfl rfl id
  | reopens live e last config after =>
    subst after
    exact .reopens e live rfl rfl last rfl

theorem control_ok {m : Message} {s s' : State} (taken : control m s = .ok s') :
    s' = s ∨ (∃ code, s' = { s with phase := .exited code }) ∨
    (m.h.kind = .idr ∧ s' = { s with force := true }) ∨
    (m.h.kind = .bitrate ∧ s.phase.reads ∧ setBitrate m.h.extra s = .ok s') ∨
    (m.h.kind = .ack ∧ s.phase = .acking m.h.seq ∧ s' = { s with phase := .checking }) := by
  unfold control at taken
  split at taken
  next draining =>
    split at taken
    · exact .inr (.inl ⟨0, (Except.ok.inj taken).symm⟩)
    · split at taken
      next idr => exact .inr (.inr (.inl ⟨idr, (Except.ok.inj taken).symm⟩))
      next =>
        split at taken
        next bitrate => exact .inr (.inr (.inr (.inl ⟨bitrate, by rw [draining]; rfl, taken⟩)))
        next => cases taken
  next seq acking =>
    split at taken
    next ack =>
      split at taken
      next => cases taken
      next same =>
        rw [not_not] at same
        exact .inr (.inr (.inr (.inr ⟨ack, same ▸ acking, (Except.ok.inj taken).symm⟩)))
    next =>
      split at taken
      next idr => exact .inr (.inr (.inl ⟨idr, (Except.ok.inj taken).symm⟩))
      next =>
        split at taken
        next bitrate => exact .inr (.inr (.inr (.inl ⟨bitrate, by rw [acking]; rfl, taken⟩)))
        next =>
          split at taken
          next => exact .inr (.inl ⟨0, (Except.ok.inj taken).symm⟩)
          next => cases taken
  next => exact .inl (Except.ok.inj taken).symm

theorem control_bitrate {m : Message} {s : State} (bitrate : m.h.kind = .bitrate)
    (reading : s.phase.reads) : control m s = setBitrate m.h.extra s := by
  have other : Kind.bitrate ≠ .stop ∧ Kind.bitrate ≠ .ack ∧ Kind.bitrate ≠ .idr := by decide
  unfold control
  cases phase : s.phase with
  | draining => simp [bitrate, other]
  | acking seq => simp [bitrate, other]
  | top | picking | checking | exited code =>
    rw [phase] at reading
    cases reading

theorem control_moves {m : Message} {s s' : State} (taken : control m s = .ok s') : Moves s s' := by
  rcases control_ok taken with rfl | ⟨code, rfl⟩ | ⟨_, rfl⟩ | ⟨_, _, changed⟩ | ⟨_, _, rfl⟩
  · exact .keeps rfl rfl id id
  · exact .keeps rfl rfl id id
  · exact .keeps rfl rfl (fun _ => rfl) id
  · rcases setBitrate_ok changed with ⟨e, e', was, set, rfl⟩ | ⟨_, rfl⟩
    · obtain ⟨_, rfl⟩ := bitrate_ok set
      exact .keeps rfl (by rw [was]; rfl) (fun _ => rfl) id
    · exact .keeps rfl rfl (fun _ => rfl) id
  · exact .keeps rfl rfl id id

theorem encodeSend_ok {e : Encoder} {dequeueUs : UInt64} {out : Output} {s s' : State}
    (sent : encodeSend e dequeueUs out s = .ok s') :
    ∃ m e', e.encode dequeueUs out s.force = .ok (m, e') ∧
      s' = { s with
        encoder := some e', force := false, recoveringSince := 0, count := s.count + 1,
        history := s.history ++ [.frame m], phase := .acking m.h.seq } := by
  unfold encodeSend at sent
  cases encoded : e.encode dequeueUs out s.force with
  | error x =>
    rw [encoded] at sent
    cases sent
  | ok result =>
    obtain ⟨m, e'⟩ := result
    rw [encoded] at sent
    exact ⟨m, e', rfl, (Except.ok.inj sent).symm⟩

theorem encodeSend_moves {e : Encoder} {dequeueUs : UInt64} {out : Output} {s s' : State}
    (pipeline : s.encoder = some e) (sent : encodeSend e dequeueUs out s = .ok s') : Moves s s' := by
  obtain ⟨m, e', encoded, rfl⟩ := encodeSend_ok sent
  obtain ⟨next, same, valid⟩ := encode_ok encoded
  have idr := ((validateAu_iff m s.force).mp valid).2.2.1
  exact .sends m e e' pipeline rfl rfl next (by rw [same]) (validateAu_weaken valid (by simp)) idr

theorem moves_from {s s₁ s' : State} (moves : Moves s₁ s') (history : s₁.history = s.history)
    (encoder : s₁.encoder = s.encoder) (force : s.force → s₁.force)
    (stopping : s₁.stopping = s.stopping) : Moves s s' := by
  cases moves with
  | keeps h e f t => exact .keeps (h.trans history) (by rw [e, encoder]) (f ∘ force) (stopping ▸ t)
  | sends m e e' was h en next same valid idr =>
    exact .sends m e e' (encoder ▸ was) (history ▸ h) en next same valid (idr ∘ force)
  | stops h e f t => exact .stops (h.trans history) e (f ∘ force) t
  | fails live h e f => exact .fails (stopping ▸ live) (history ▸ h) e (f ∘ force)
  | reopens e live h en last f =>
    refine .reopens e (stopping ▸ live) (history ▸ h) en (last.trans ?_) f
    rw [lastSequence, lastSequence, encoder]

theorem testIdr_moves {clock : UInt64} {s s' : State} (moves : Moves (testIdr clock s) s') :
    Moves s s' := by
  unfold testIdr at moves
  split at moves
  · exact moves_from moves rfl rfl (fun _ => rfl) rfl
  · exact moves

theorem settle_moves {s : State} {next : Except String State}
    (moves : ∀ s', next = .ok s' → Moves s s') : Moves s (settle s next) := by
  cases next with
  | ok s' => exact moves s' rfl
  | error x => exact .keeps rfl rfl id id

theorem step_moves (s : State) (l : Label) : Moves s (step s l) := by
  have stay : Moves s s := .keeps rfl rfl id id
  cases l with
  | signal => exact .keeps rfl rfl id fun _ => rfl
  | turn =>
    simp only [step]
    split
    · exact .keeps rfl rfl id id
    · exact stay
  | control m => exact settle_moves fun s' => control_moves
  | drained =>
    simp only [step]
    split
    · exact .keeps rfl rfl id id
    · exact stay
  | reopen now r =>
    simp only [step]
    split
    · exact settle_moves fun s' => recover_moves
    · exact stay
  | fault clock now r =>
    simp only [step]
    split
    · exact settle_moves fun s' recovered => testIdr_moves (recover_moves recovered)
    · exact stay
  | frame clock dequeueUs out =>
    simp only [step]
    split
    · rename_i e _ pipeline
      refine settle_moves fun s' sent => testIdr_moves (encodeSend_moves (e := e) ?_ sent)
      unfold testIdr
      split <;> exact pipeline
    · exact stay
  | interrupted =>
    simp only [step]
    split
    · exact .keeps rfl rfl id id
    · exact stay
  | unchanged clock after =>
    simp only [step]
    split
    · exact .keeps rfl rfl id id
    · exact stay
  | changed clock after now r =>
    simp only [step]
    split
    · exact settle_moves fun s' recovered => moves_from (recover_moves recovered) rfl rfl id rfl
    · exact stay
  | broken =>
    simp only [step]
    split
    · exact stay
    · exact .keeps rfl rfl id id

theorem mem_sent (h : List Entry) (m : Message) : m ∈ sent h ↔ .frame m ∈ h := by
  simp only [sent, List.mem_filterMap]
  constructor
  · rintro ⟨e, member, same⟩
    cases e with
    | frame m' =>
      cases same
      exact member
    | reopened => cases same
    | reopenFailed => cases same
  · exact fun member => ⟨_, member, rfl⟩

theorem failing_iff (h : List Entry) (e : Entry) :
    Failing (h ++ [e]) ↔ Failing h ∨ .reopenFailed = e ∧ sent h ≠ [] := by
  simp only [Failing, pair_concat_iff, exists_or, exists_and_left, ← mem_sent]
  have some : sent h ≠ [] ↔ ∃ m, m ∈ sent h :=
    ⟨List.exists_mem_of_ne_nil _, fun ⟨_, member⟩ => List.ne_nil_of_mem member⟩
  rw [some]

theorem interrupted_iff (h : List Entry) (e : Entry) :
    Interrupted (h ++ [e]) ↔ Interrupted h ∨ (∃ m, .frame m = e) ∧ Failing h := by
  simp only [Interrupted, Failing, triple_concat_iff, exists_or, exists_and_left, exists_and_right]

theorem sent_frame (h : List Entry) (m : Message) : sent (h ++ [.frame m]) = sent h ++ [m] := by
  simp [sent, Entry.message?]

theorem sent_ne_nil {h : List Entry} (failing : Failing h) : sent h ≠ [] := by
  obtain ⟨m, sub⟩ := failing
  have member : m ∈ sent h := (mem_sent h m).mpr (sub.subset (by simp))
  exact List.ne_nil_of_mem member

/-- The number to continue from is the last one sent, unless a failed reopen has lost it. -/
structure Inv (h : List Entry) (seq : Option UInt64) (force stopping : Bool) : Prop where
  consecutive : Consecutive (sent h) ↔ ¬ Interrupted h
  lost : ¬ Interrupted h → Failing h → ∀ n ∈ seq, n = 0
  counts : ¬ Interrupted h → ¬ Failing h → ∀ n ∈ seq, n.toNat = (sent h).length
  closed : seq = none → Failing h ∨ sent h = [] ∨ stopping
  recovered : Recovered true h
  forced : first true h → force
  valid : ∀ m ∈ sent h, validateAu m false = .ok ()

def Good (s : State) : Prop := Inv s.history (s.encoder.map Encoder.seq) s.force s.stopping

section
variable {h : List Entry} {seq : Option UInt64} {force stopping : Bool}

theorem inv_sends (inv : Inv h seq force stopping) {m : Message} {n : UInt64} (was : seq = some n)
    (next : m.h.seq = n + 1) (valid : validateAu m false = .ok ()) (idr : force → m.isIdr)
    (force' stopping' : Bool) : Inv (h ++ [.frame m]) (some m.h.seq) force' stopping' := by
  subst was
  have count := seq_succ valid next
  have failing : Failing (h ++ [.frame m]) ↔ Failing h := by simp [failing_iff]
  have interrupted : Interrupted (h ++ [.frame m]) ↔ Interrupted h ∨ Failing h := by
    simp [interrupted_iff]
  constructor
  · rw [sent_frame, consecutive_concat, inv.consecutive, interrupted, not_or]
    refine and_congr_right fun fine => ?_
    constructor
    · intro length failed
      have zero := inv.lost fine failed n rfl
      have some := List.length_pos_iff.mpr (sent_ne_nil failed)
      rw [count, zero, UInt64.toNat_zero] at length
      omega
    · intro kept
      rw [count, inv.counts fine kept n rfl]
  · intro fine failed
    exact absurd (.inr (failing.mp failed)) (interrupted.not.mp fine)
  · intro fine kept n' same
    cases same
    rw [sent_frame, List.length_append, count,
      inv.counts (fun i => fine (interrupted.mpr (.inl i))) (failing.not.mp kept) n rfl]
    rfl
  · intro none
    cases none
  · refine (recovered_append _ _ _).mpr ⟨inv.recovered, fun start => idr (inv.forced start), trivial⟩
  · intro start
    rw [first_append] at start
    cases start
  · intro m' member
    rw [sent_frame, List.mem_append, List.mem_singleton] at member
    rcases member with old | rfl
    · exact inv.valid m' old
    · exact valid

theorem inv_fails (inv : Inv h seq force false) {force' : Bool} (kept : force → force')
    (stopping' : Bool) : Inv (h ++ [.reopenFailed]) none force' stopping' := by
  have same : sent (h ++ [.reopenFailed]) = sent h := by simp [sent, Entry.message?]
  have interrupted : Interrupted (h ++ [.reopenFailed]) ↔ Interrupted h := by
    simp [interrupted_iff]
  constructor
  · rw [same, interrupted]
    exact inv.consecutive
  · intro _ _ n none
    cases none
  · intro _ _ n none
    cases none
  · intro _
    rw [same, failing_iff]
    by_cases any : sent h = []
    · exact .inr (.inl any)
    · exact .inl (.inr ⟨rfl, any⟩)
  · exact (recovered_append _ _ _).mpr ⟨inv.recovered, trivial⟩
  · intro start
    rw [first_append] at start
    exact kept (inv.forced start)
  · rw [same]
    exact inv.valid

theorem inv_reopens (inv : Inv h seq force false) (stopping' : Bool) :
    Inv (h ++ [.reopened]) (some (seq.getD 0)) true stopping' := by
  have same : sent (h ++ [.reopened]) = sent h := by simp [sent, Entry.message?]
  have interrupted : Interrupted (h ++ [.reopened]) ↔ Interrupted h := by simp [interrupted_iff]
  have failing : Failing (h ++ [.reopened]) ↔ Failing h := by simp [failing_iff]
  constructor
  · rw [same, interrupted]
    exact inv.consecutive
  · rw [interrupted, failing]
    intro fine failed n last
    cases last
    cases seq with
    | none => rfl
    | some n => exact inv.lost fine failed n rfl
  · rw [interrupted, failing, same]
    intro fine kept n last
    cases last
    cases seq with
    | none =>
      have empty : sent h = [] := by simpa [kept] using inv.closed rfl
      simp [empty]
    | some n => exact inv.counts fine kept n rfl
  · intro none
    cases none
  · exact (recovered_append _ _ _).mpr ⟨inv.recovered, trivial⟩
  · exact fun _ => rfl
  · rw [same]
    exact inv.valid

end

theorem good_moves {s s' : State} (good : Good s) (moves : Moves s s') : Good s' := by
  unfold Good at good ⊢
  cases moves with
  | keeps history encoder force stopping =>
    rw [history, encoder]
    exact { good with
      forced := force ∘ good.forced
      closed := fun none => (good.closed none).imp_right (.imp_right stopping) }
  | sends m e e' was history encoder next same valid idr =>
    rw [history, encoder]
    rw [was] at good
    simpa [same] using inv_sends good rfl next valid idr s'.force s'.stopping
  | stops history encoder force stopping =>
    rw [history, encoder]
    exact { good with
      lost := fun _ _ _ none => nomatch none
      counts := fun _ _ _ none => nomatch none
      closed := fun _ => .inr (.inr stopping)
      forced := force ∘ good.forced }
  | fails live history encoder force =>
    rw [history, encoder]
    exact inv_fails (live ▸ good) force s'.stopping
  | reopens e live history encoder last force =>
    rw [history, encoder, force]
    have seq : e.seq = (s.encoder.map Encoder.seq).getD 0 := by
      rw [last, lastSequence]
      cases s.encoder <;> rfl
    simpa [seq] using inv_reopens (live ▸ good) s'.stopping

theorem good_begin (config : Config) (idrAt : UInt32) (direct fullRange : Bool) (start : UInt64) :
    Good (begin config idrAt direct fullRange start) := by
  have initial (seq : Option UInt64) (zero : ∀ n ∈ seq, n = 0) : Inv [] seq true false :=
    { consecutive := ⟨fun _ ⟨_, _, sub⟩ => (nomatch sub), fun _ => rfl⟩
      lost := fun _ _ => zero
      counts := fun _ _ n last => by rw [zero n last]; rfl
      closed := fun _ => .inr (.inl rfl)
      recovered := trivial
      forced := id
      valid := fun _ none => nomatch none }
  unfold begin Good
  cases opened : openEncoder config direct fullRange with
  | error x => exact initial none (fun _ none => nomatch none)
  | ok e =>
    refine initial (some e.seq) fun n same => ?_
    cases same
    unfold openEncoder at opened
    cases valid : config.validate with
    | error x =>
      rw [valid] at opened
      cases opened
    | ok u =>
      rw [valid] at opened
      cases opened
      rfl

theorem sent_head {h : List Entry} (recovered : Recovered true h) :
    ∀ m ∈ (sent h).head?, m.isIdr := by
  induction h with
  | nil => exact fun _ none => nomatch none
  | cons e h ih =>
    cases e with
    | frame m =>
      intro m' head
      cases head
      exact recovered.1 rfl
    | reopened => exact ih recovered
    | reopenFailed => exact ih recovered

/-- The frames on the socket are numbered 1, 2, 3, ... and pass the gate, and every
recovery starts with an IDR, exactly in the runs where no reopen fails between two frames. -/
theorem sequence_continues_iff (config : Config) (idrAt : UInt32) (direct fullRange : Bool)
    (start : UInt64) (ls : List Label) :
    let h := (run step (begin config idrAt direct fullRange start) ls).history
    Consecutive (sent h) ∧ ((sent h).foldlM SequenceGate.accept {}).isOk ∧ Recovered true h ↔
      ¬ Interrupted h := by
  intro h
  have good : Good (run step (begin config idrAt direct fullRange start) ls) :=
    run_invariant step Good (fun s l inv => good_moves inv (step_moves s l))
      (good_begin config idrAt direct fullRange start) ls
  constructor
  · exact fun holds => good.consecutive.mp holds.1
  · intro fine
    have consecutive := good.consecutive.mpr fine
    obtain ⟨g, accepted, -⟩ := gate_accepts _ consecutive good.valid (sent_head good.recovered)
    refine ⟨consecutive, ?_, good.recovered⟩
    rw [accepted]
    rfl

def idrUnit : Output := ⟨[0, 0, 1, 0x67, 1, 0, 0, 1, 0x68, 1, 0, 0, 1, 0x65, 0x88], 0, 0⟩

def retriedRun : List Label :=
  [.turn, .drained, .frame 1000000 1016000 { idrUnit with submitUs := 1016500, doneUs := 1022000 },
    .control { h := { kind := .ack, seq := 1 } }, .unchanged 1022500 0,
    .turn, .drained, .fault 1022600 2022600 .failed, .turn, .drained, .reopen 2122900 (.opened true true),
    .turn, .drained, .frame 2223200 2233000 { idrUnit with submitUs := 2233500, doneUs := 2239000 }]

theorem retry_restarts_sequence :
    ¬ ∀ (config : Config) (idrAt : UInt32) (direct fullRange : Bool) (start : UInt64)
        (ls : List Label),
      let h := (run step (begin config idrAt direct fullRange start) ls).history
      Consecutive (sent h) ∧ ((sent h).foldlM SequenceGate.accept {}).isOk ∧ Recovered true h := by
  intro always
  have consecutive := (always { codec := .h264 } 0 true true 1000000 retriedRun).1
  exact absurd consecutive (by decide +kernel)

end Video.Worker

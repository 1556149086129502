import Mathlib.Data.List.Basic
import Mathlib.Data.List.Nodup
import Mathlib.Logic.Relation
import RkmoonKvm.Library.Runs
import RkmoonKvm.Video.Annexb

/-! The capture loop of the bridge: which frames of the worker reach the queue of
the video sender, and which are dropped until the worker delivers a fresh IDR. -/
namespace Video.Bridge
open Runs

structure Queue where
  waiting : List Message := []
  running : Bool := true
  deriving DecidableEq

def Queue.rkmoonTryRaise (q : Queue) (limit : Nat) (m : Message) : Option Queue :=
  if !q.running || limit ≤ q.waiting.length then none
  else some { q with waiting := q.waiting ++ [m] }

inductive Phase where
  | waiting
  /-- About to try the queue, or after an attempt that found it full. -/
  | raising (m : Message)
  | full (m : Message)
  | decided (m : Message) (deliver : Bool)
  | ended
  deriving DecidableEq

structure State where
  config : Config
  phase : Phase := .waiting
  gate : SequenceGate := {}
  awaitIdr : Bool := false
  dropped : UInt64 := 0
  lastProgress : UInt64
  queue : Queue := {}
  /-- Controls sent to the worker, frames accepted by the gate and frames handed to
  the queue, oldest first. -/
  controls : List Message := []
  accepted : List Message := []
  delivered : List Message := []
  deriving DecidableEq

inductive Label where
  | requestIdr
  | quiet (now : UInt64)
  | frame (m : Message) (now : UInt64)
  | tryRaise
  | waited (shutdown : Bool) (clock : UInt64)
  | answer (now : UInt64)
  | shutdown
  /-- A call of the loop throws. -/
  | broken
  /-- The sender takes a packet, and the queue is stopped. -/
  | pop
  | stop
  deriving DecidableEq

def idrControl : Message := { h := { kind := .idr } }
def ackControl (seq : UInt64) : Message := { h := { kind := .ack, seq } }

def requestIdr (s : State) : State := { s with controls := s.controls ++ [idrControl] }

/-- From the gate to the decision to deliver; `now` is read after the gate. -/
def receive (m : Message) (now : UInt64) (s : State) : Except String State := do
  let gate ← s.gate.accept m
  let s := { s with gate, accepted := s.accepted ++ [m] }
  if m.h.width ≠ s.config.width ∨ m.h.height ≠ s.config.height ∨ m.h.codec ≠ s.config.codec then
    throw "frame format epoch mismatch"
  else if now + 1000 < m.h.doneUs ∨ now < m.h.dequeueUs then
    throw "frame timestamps from the future"
  else
    let awaitIdr := s.awaitIdr && !m.isIdr
    let deliver := !awaitIdr && now - m.h.dequeueUs ≤ 200000
    pure { s with awaitIdr, phase := if deliver then .raising m else .decided m false }

/-- A dropped frame starts the wait for an IDR; every frame is acknowledged. -/
def acknowledge (m : Message) (deliver : Bool) (now : UInt64) (s : State) : State :=
  let s :=
    if deliver then s
    else
      let s := { s with dropped := s.dropped + 1 }
      if s.awaitIdr then s else requestIdr { s with awaitIdr := true }
  { s with controls := s.controls ++ [ackControl m.h.seq], lastProgress := now, phase := .waiting }

def step (s : State) : Label → State
  | .requestIdr => if s.phase = .waiting then requestIdr s else s
  | .quiet now =>
    if s.phase = .waiting ∧ 7000000 < now - s.lastProgress then { s with phase := .ended } else s
  | .frame m now =>
    if s.phase = .waiting then
      match receive m now s with
      | .ok s' => s'
      | .error _ => { s with phase := .ended }
    else s
  | .tryRaise =>
    match s.phase with
    | .raising m =>
      match s.queue.rkmoonTryRaise 2 m with
      | some queue => { s with queue, delivered := s.delivered ++ [m], phase := .decided m true }
      | none => { s with phase := .full m }
    | _ => s
  | .waited shutdown clock =>
    match s.phase with
    | .full m =>
      if shutdown || !s.queue.running then { s with phase := .ended }
      else if 50000 < clock - m.h.dequeueUs then { s with phase := .decided m false }
      else { s with phase := .raising m }
    | _ => s
  | .answer now =>
    match s.phase with
    | .decided m deliver => acknowledge m deliver now s
    | _ => s
  | .shutdown => if s.phase = .waiting then { s with phase := .ended } else s
  | .broken => { s with phase := .ended }
  | .pop => { s with queue := { s.queue with waiting := s.queue.waiting.tail } }
  | .stop => { s with queue := { s.queue with running := false } }

def start (config : Config) (lastProgress : UInt64) : State := { config, lastProgress }

def Decodable (ds : List Message) (m : Message) : Prop :=
  m.isIdr ∨ ∃ q ∈ ds, q.h.seq.toNat + 1 = m.h.seq.toNat

/-- An accepted P frame refers to the accepted frame before it. -/
def Refers (accepted : List Message) (q m : Message) : Prop :=
  q ∈ accepted ∧ m ∈ accepted ∧ ¬ m.isIdr ∧ q.h.seq.toNat + 1 = m.h.seq.toNat

/-- What each phase knows of the frame in hand, and of the last one between frames. -/
def Held (s : State) : Prop :=
  match s.phase with
  | .waiting => s.awaitIdr = false → ∀ m, s.accepted.getLast? = some m → m ∈ s.delivered
  | .raising m | .full m =>
    s.accepted.getLast? = some m ∧ (∀ p ∈ s.delivered, p.h.seq < m.h.seq) ∧ Decodable s.delivered m
  | .decided m deliver => s.accepted.getLast? = some m ∧ (deliver → m ∈ s.delivered)
  | .ended => True

structure Inv (s : State) : Prop where
  numbered : Consecutive s.accepted
  last : s.gate.last.toNat = s.accepted.length
  opening : s.accepted = [] → s.gate.needIdr
  known : ∀ p ∈ s.delivered, p ∈ s.accepted
  sorted : s.delivered.Pairwise fun p q => p.h.seq < q.h.seq
  opens : ∀ p ∈ s.delivered.head?, p.isIdr
  chained : ∀ p ∈ s.delivered, Decodable s.delivered p
  queued : s.queue.waiting <:+ s.delivered
  held : Held s

theorem seq_le {ms : List Message} (numbered : Consecutive ms) {m : Message} (member : m ∈ ms) :
    m.h.seq.toNat ≤ ms.length := by
  have image : m.h.seq.toNat ∈ ms.map fun m => m.h.seq.toNat := List.mem_map_of_mem member
  rw [numbered, List.mem_range'_1] at image
  omega

theorem seq_injective {ms : List Message} (numbered : Consecutive ms) {p q : Message}
    (hp : p ∈ ms) (hq : q ∈ ms) (same : p.h.seq.toNat = q.h.seq.toNat) : p = q := by
  have distinct : (ms.map fun m => m.h.seq.toNat).Nodup := by
    rw [numbered]
    exact List.nodup_range'
  exact List.inj_on_of_nodup_map distinct hp hq same

theorem last_seq {ms : List Message} (numbered : Consecutive ms) {m : Message}
    (last : ms.getLast? = some m) : m.h.seq.toNat = ms.length := by
  obtain ⟨front, rfl⟩ := List.getLast?_eq_some_iff.mp last
  have next := ((consecutive_concat front m).mp numbered).2
  rw [next, List.length_append, List.length_singleton]

theorem receive_ok {s s' : State} {m : Message} {now : UInt64}
    (received : receive m now s = .ok s') :
    ∃ gate, s.gate.accept m = .ok gate ∧
      s' = { s with
        gate, accepted := s.accepted ++ [m], awaitIdr := s.awaitIdr && !m.isIdr,
        phase := if !(s.awaitIdr && !m.isIdr) && now - m.h.dequeueUs ≤ 200000 then .raising m
          else .decided m false } := by
  unfold receive at received
  cases accepted : s.gate.accept m with
  | error x =>
    rw [accepted] at received
    cases received
  | ok gate =>
    simp only [accepted, bind, Except.bind] at received
    split at received
    · cases received
    · split at received
      · cases received
      · cases received
        exact ⟨gate, rfl, rfl⟩

theorem next_decodable {s : State} (inv : Inv s) (idle : s.phase = .waiting) {m : Message}
    {gate : SequenceGate} (accepted : s.gate.accept m = .ok gate)
    (free : (s.awaitIdr && !m.isIdr) = false) : Decodable s.delivered m := by
  obtain ⟨next, -, -, idr⟩ := SequenceGate.accept_numbers accepted
  by_cases fresh : m.isIdr
  · exact .inl fresh
  · have awaiting : s.awaitIdr = false := by simpa [fresh] using free
    have started : s.accepted ≠ [] := fun none => fresh (idr (inv.opening none))
    have held := inv.held
    simp only [Held, idle] at held
    have last := List.getLast?_eq_some_getLast started
    refine .inr ⟨_, held awaiting _ last, ?_⟩
    rw [last_seq inv.numbered last, next, inv.last]

theorem inv_receive {s s' : State} {m : Message} {now : UInt64} (inv : Inv s)
    (idle : s.phase = .waiting) (received : receive m now s = .ok s') : Inv s' := by
  obtain ⟨gate, accepted, rfl⟩ := receive_ok received
  obtain ⟨next, last, opened, -⟩ := SequenceGate.accept_numbers accepted
  have count : m.h.seq.toNat = s.accepted.length + 1 := by rw [next, inv.last]
  have earlier : ∀ p ∈ s.delivered, p.h.seq < m.h.seq := by
    intro p member
    have bound := seq_le inv.numbered (inv.known p member)
    exact UInt64.lt_iff_toNat_lt.mpr (by omega)
  exact { inv with
    numbered := (consecutive_concat _ m).mpr ⟨inv.numbered, count⟩
    last := by rw [last, count, List.length_append]; rfl
    opening := fun none => by simp at none
    known := fun p member => List.mem_append_left _ (inv.known p member)
    held := by
      cases goes : !(s.awaitIdr && !m.isIdr) && now - m.h.dequeueUs ≤ 200000 with
      | true =>
        have free : (s.awaitIdr && !m.isIdr) = false := by
          simp only [Bool.and_eq_true, Bool.not_eq_true'] at goes
          exact goes.1
        simp only [Held, if_true]
        exact ⟨List.getLast?_concat, earlier, next_decodable inv idle accepted free⟩
      | false =>
        simp only [Held, Bool.false_eq_true, if_false]
        exact ⟨List.getLast?_concat, fun none => nomatch none⟩ }

theorem decodable_append {ds : List Message} {p : Message} (m : Message) (h : Decodable ds p) :
    Decodable (ds ++ [m]) p :=
  h.imp_right fun ⟨q, member, seq⟩ => ⟨q, List.mem_append_left _ member, seq⟩

theorem inv_raise {s : State} {m : Message} (inv : Inv s) (raising : s.phase = .raising m)
    {queue : Queue} (raised : s.queue.rkmoonTryRaise 2 m = some queue) :
    Inv { s with queue, delivered := s.delivered ++ [m], phase := .decided m true } := by
  have held := inv.held
  simp only [Held, raising] at held
  obtain ⟨last, earlier, decodable⟩ := held
  have known : m ∈ s.accepted := List.mem_of_getLast? last
  exact { inv with
    known := by
      intro p member
      rcases List.mem_append.mp member with old | new
      · exact inv.known p old
      · exact List.mem_singleton.mp new ▸ known
    sorted := by
      refine List.pairwise_append.mpr ⟨inv.sorted, List.pairwise_singleton _ _, fun p old q new => ?_⟩
      exact List.mem_singleton.mp new ▸ earlier p old
    opens := by
      intro p head
      cases before : s.delivered with
      | nil =>
        simp only [before, List.nil_append, List.head?_cons, Option.mem_some_iff] at head
        subst head
        exact decodable.resolve_right fun ⟨q, member, _⟩ => by simp [before] at member
      | cons d ds =>
        refine inv.opens p ?_
        simpa [before] using head
    chained := by
      intro p member
      rcases List.mem_append.mp member with old | new
      · exact decodable_append m (inv.chained p old)
      · exact List.mem_singleton.mp new ▸ decodable_append m decodable
    queued := by
      unfold Queue.rkmoonTryRaise at raised
      split at raised
      · cases raised
      · cases raised
        exact List.suffix_append_self_iff.mpr inv.queued
    held := ⟨last, fun _ => by simp⟩ }

theorem inv_acknowledge {s : State} {m : Message} {deliver : Bool} (inv : Inv s)
    (decided : s.phase = .decided m deliver) (now : UInt64) :
    Inv (acknowledge m deliver now s) := by
  have held := inv.held
  simp only [Held, decided] at held
  obtain ⟨last, delivered⟩ := held
  unfold acknowledge
  cases deliver with
  | true =>
    exact { inv with
      held := fun _ p same => by
        cases last.symm.trans same
        exact delivered rfl }
  | false =>
    cases awaiting : s.awaitIdr with
    | true => exact { inv with held := fun free => by cases free }
    | false => exact { inv with held := fun free => by cases free }

theorem inv_step (s : State) (l : Label) (inv : Inv s) : Inv (step s l) := by
  have ends : Inv { s with phase := .ended } := { inv with held := trivial }
  cases l with
  | requestIdr =>
    simp only [step]
    split
    · exact { inv with }
    · exact inv
  | quiet now =>
    simp only [step]
    split
    · exact ends
    · exact inv
  | frame m now =>
    simp only [step]
    split
    · rename_i idle
      split
      · rename_i received
        exact inv_receive inv idle received
      · exact ends
    · exact inv
  | tryRaise =>
    simp only [step]
    split
    · rename_i m raising
      split
      · rename_i raised
        exact inv_raise inv raising raised
      · exact { inv with held := by simpa only [Held, raising] using inv.held }
    · exact inv
  | waited shutdown clock =>
    simp only [step]
    split
    · rename_i m full
      have held := inv.held
      simp only [Held, full] at held
      split
      · exact ends
      · split
        · exact { inv with held := ⟨held.1, fun none => nomatch none⟩ }
        · exact { inv with held := held }
    · exact inv
  | answer now =>
    simp only [step]
    split
    · rename_i decided
      exact inv_acknowledge inv decided now
    · exact inv
  | shutdown =>
    simp only [step]
    split
    · exact ends
    · exact inv
  | broken => exact ends
  | pop => exact { inv with queued := (List.tail_suffix _).trans inv.queued }
  | stop => exact { inv with }

theorem inv_start (config : Config) (lastProgress : UInt64) : Inv (start config lastProgress) where
  numbered := rfl
  last := rfl
  opening := fun _ => rfl
  known := fun _ none => nomatch none
  sorted := .nil
  opens := fun _ none => nomatch none
  chained := fun _ none => nomatch none
  queued := List.suffix_refl _
  held := fun _ _ none => nomatch none

theorem references_delivered {s : State} (inv : Inv s) {q p : Message}
    (refers : Relation.TransGen (Refers s.accepted) q p) (delivered : p ∈ s.delivered) :
    q ∈ s.delivered := by
  have direct {q p : Message} (refers : Refers s.accepted q p) (member : p ∈ s.delivered) :
      q ∈ s.delivered := by
    obtain ⟨known, -, dependent, seq⟩ := refers
    obtain ⟨q', member', seq'⟩ := (inv.chained p member).resolve_left dependent
    have same := seq_injective inv.numbered known (inv.known q' member') (by omega)
    exact same ▸ member'
  induction refers with
  | single refers => exact direct refers delivered
  | tail _ refers ih => exact ih (direct refers delivered)

/-- The frames handed to the queue are in order, each at most once, from an IDR on, and
each is an IDR or follows its predecessor; nothing delivered depends on a dropped frame. -/
theorem deliveries_decodable (config : Config) (lastProgress : UInt64) (ls : List Label) :
    let s := run step (start config lastProgress) ls
    (∀ p ∈ s.delivered, p ∈ s.accepted) ∧ s.queue.waiting <:+ s.delivered ∧
      (s.delivered.Pairwise fun p q => p.h.seq < q.h.seq) ∧
      (∀ p ∈ s.delivered.head?, p.isIdr) ∧
      (∀ p ∈ s.delivered, Decodable s.delivered p) ∧
      ∀ q p, Relation.TransGen (Refers s.accepted) q p → p ∈ s.delivered → q ∈ s.delivered := by
  intro s
  have inv : Inv s := run_invariant step Inv inv_step (inv_start config lastProgress) ls
  exact ⟨inv.known, inv.queued, inv.sorted, inv.opens, inv.chained,
    fun q p refers => references_delivered inv refers⟩

end Video.Bridge

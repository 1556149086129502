import Mathlib.Algebra.Order.Ring.Nat
import RkmoonKvm.Library.Runs
import RkmoonKvm.Video.Worker

/-! From a frame to its access unit: `Encoder::encode` with the packets that MPP makes of a frame, and the loop
that fetches them one by one. What a call returns is always the whole access unit of its own frame. -/
namespace Video.Packets
open Runs

inductive Status where
  | ok | timeout | failed
  deriving DecidableEq

/-- `MppPacket`; the timestamp is the sequence number of the frame that was put. -/
structure Packet where
  pts : UInt64
  bytes : List UInt8
  /-- The position of the payload is a null pointer. -/
  null : Bool := false
  partition : Bool := false
  eoi : Bool := false
  deriving DecidableEq

def Packet.ends (p : Packet) : Bool := !p.partition || p.eoi

/-- How a poll of MPP ends: with a status, and with the oldest packet it has made or with none. -/
structure Poll where
  status : Status
  fetched : Bool
  deriving DecidableEq

def take (seq : UInt64) (bytes : List UInt8) (status : Status) (p : Packet) : Except String (List UInt8) :=
  if status ≠ .ok then throw "MPP get_packet failed"
  else if p.pts ≠ seq then throw "MPP reordered/mismatched PTS"
  else if maxAu - bytes.length < p.bytes.length then throw "MPP AU exceeds bound"
  else if p.bytes ≠ [] ∧ p.null then throw "MPP null packet payload"
  else pure (bytes ++ p.bytes)

/-- The loop, for the polls until its deadline passes; each packet that it fetched is gone from MPP. -/
def collect (seq : UInt64) : List Poll → List Packet → List UInt8 → Except String (List UInt8) × List Packet
  | [], pending, _ => (.error "MPP AU completion timeout; do not QBUF held input", pending)
  | poll :: polls, pending, bytes =>
    match poll.fetched, pending with
    | true, p :: pending =>
      match take seq bytes poll.status p with
      | .error e => (.error e, pending)
      | .ok bytes => if p.ends then (.ok bytes, pending) else collect seq polls pending bytes
    | _, pending =>
      if poll.status = .failed then (.error "MPP get_packet failed", pending)
      else collect seq polls pending bytes

structure Call where
  dequeueUs : UInt64
  submitUs : UInt64
  doneUs : UInt64
  force : Bool
  /-- MPP accepts the request for an IDR, and takes the frame. -/
  idrAccepted : Bool := true
  frameTaken : Bool := true
  polls : List Poll
  /-- What MPP makes of the frame, by the number that it gets. -/
  made : UInt64 → List Packet

structure State where
  config : Config
  encoder : Option Worker.Encoder
  /-- What MPP has made and nobody has fetched, oldest first. -/
  pending : List Packet := []
  results : List (Call × Except String Message) := []

def State.returned (s : State) (c : Call) (r : Except String Message) : State :=
  { s with results := s.results ++ [(c, r)] }

def State.counted (s : State) (e : Worker.Encoder) : State := { s with encoder := some { e with seq := e.seq + 1 } }

def encode (s : State) (c : Call) : State :=
  match s.encoder with
  | none => s
  | some e =>
    if c.force ∧ !c.idrAccepted then s.returned c (.error "MPP request IDR failed")
    else
      let s := s.counted e
      if !c.frameTaken then s.returned c (.error "MPP put_frame failed")
      else
        let fetched := collect (e.seq + 1) c.polls (s.pending ++ c.made (e.seq + 1)) []
        let s := { s with pending := fetched.2 }
        match fetched.1 with
        | .error x => s.returned c (.error x)
        | .ok bytes =>
          s.returned c ((e.encode c.dequeueUs ⟨bytes, c.submitUs, c.doneUs⟩ c.force).map Prod.fst)

/-- `recover` opens the pipeline again, in a new context of MPP. The sequence goes on where the encoder was,
and starts again if the last attempt has left none. -/
def reopen (r : Worker.Reopen) (s : State) : State :=
  let last := s.encoder.elim 0 Worker.Encoder.sequence
  let closed := { s with encoder := none, pending := [] }
  match r with
  | .failed | .changed => closed
  | .opened direct fullRange =>
    match Worker.openEncoder s.config direct fullRange with
    | .error _ => closed
    | .ok e => { closed with encoder := some (e.continueSequence last) }

inductive Label where
  | frame (c : Call)
  | reopen (r : Worker.Reopen)

def step (s : State) : Label → State
  | .frame c => encode s c
  | .reopen r => reopen r s

def fresh (e : Worker.Encoder) : State := { config := e.config, encoder := some e }

/-- MPP answers a frame with packets of its timestamp, of which the last one and no other ends the unit. -/
structure Marked (seq : UInt64) (ps : List Packet) : Prop where
  stamped : ∀ p ∈ ps, p.pts = seq
  ended : ∃ front last, ps = front ++ [last] ∧ (∀ p ∈ front, p.ends = false) ∧ last.ends = true

def Label.Marked : Label → Prop
  | .frame c => ∀ seq, Packets.Marked seq (c.made seq)
  | .reopen _ => True

def whole (ps : List Packet) : List UInt8 := ps.flatMap Packet.bytes

/-! One access unit. -/

attribute [local simp] collect

theorem take_ok {seq : UInt64} {bytes bytes' : List UInt8} {status : Status} {p : Packet}
    (taken : take seq bytes status p = .ok bytes') : p.pts = seq ∧ bytes' = bytes ++ p.bytes := by
  unfold take at taken
  split at taken
  · cases taken
  split at taken
  · cases taken
  rename_i same
  split at taken
  · cases taken
  split at taken
  · cases taken
  cases taken
  exact ⟨not_not.mp same, rfl⟩

theorem collect_suffix (seq : UInt64) (polls : List Poll) (pending : List Packet) (bytes : List UInt8) :
    (collect seq polls pending bytes).2 <:+ pending := by
  induction polls generalizing pending bytes with
  | nil => exact List.suffix_rfl
  | cons poll polls ih =>
    obtain ⟨status, fetched⟩ := poll
    cases fetched with
    | false =>
      simp only [collect]
      split
      · exact List.suffix_rfl
      · exact ih pending bytes
    | true =>
      cases pending with
      | nil =>
        simp only [collect]
        split
        · exact List.suffix_rfl
        · exact ih [] bytes
      | cons p pending =>
        have shorter : pending <:+ p :: pending := List.suffix_cons p pending
        simp only [collect]
        split
        · exact shorter
        · split
          · exact shorter
          · exact (ih pending _).trans shorter

theorem collect_whole {seq : UInt64} {polls : List Poll} {front : List Packet} {last : Packet}
    {bytes out : List UInt8} (going : ∀ p ∈ front, p.ends = false) (ends : last.ends = true)
    (collected : (collect seq polls (front ++ [last]) bytes).1 = .ok out) :
    out = bytes ++ whole (front ++ [last]) ∧ (collect seq polls (front ++ [last]) bytes).2 = [] := by
  induction polls generalizing front bytes with
  | nil => cases collected
  | cons poll polls ih =>
    obtain ⟨status, fetched⟩ := poll
    cases fetched with
    | false =>
      simp only [collect] at collected ⊢
      split at collected
      · cases collected
      · rename_i fine
        simp only [if_neg fine]
        exact ih going collected
    | true =>
      cases front with
      | nil =>
        simp only [List.nil_append, collect, ends] at collected ⊢
        split at collected
        · cases collected
        · rename_i bytes' taken
          simp only [if_true] at collected ⊢
          cases collected
          obtain ⟨-, rfl⟩ := take_ok taken
          simp [whole]
      | cons p front =>
        have goes : p.ends = false := going p List.mem_cons_self
        have rest : ∀ q ∈ front, q.ends = false := fun q member => going q (List.mem_cons_of_mem p member)
        simp only [List.cons_append, collect, goes] at collected ⊢
        split at collected
        · cases collected
        · rename_i bytes' taken
          simp only [Bool.false_eq_true, if_false] at collected ⊢
          obtain ⟨-, rfl⟩ := take_ok taken
          obtain ⟨same, none⟩ := ih rest collected
          exact ⟨by simpa [whole] using same, none⟩

theorem collect_stale {seq : UInt64} {p : Packet} (stale : p.pts ≠ seq) (polls : List Poll) (pending : List Packet)
    (bytes out : List UInt8) : (collect seq polls (p :: pending) bytes).1 ≠ .ok out := by
  induction polls with
  | nil => rintro ⟨⟩
  | cons poll polls ih =>
    obtain ⟨status, fetched⟩ := poll
    cases fetched with
    | false =>
      simp only [collect]
      split
      · rintro ⟨⟩
      · exact ih
    | true =>
      simp only [collect]
      split
      · rintro ⟨⟩
      · rename_i bytes' taken
        exact absurd (take_ok taken).1 stale

theorem take_fits {seq : UInt64} {bytes : List UInt8} {p : Packet} (own : p.pts = seq) (held : p.null = false)
    (room : ¬ maxAu - bytes.length < p.bytes.length) : take seq bytes .ok p = .ok (bytes ++ p.bytes) := by
  simp [take, own, room, held, pure, Except.pure]

theorem collect_complete {seq : UInt64} {polls : List Poll} {front : List Packet} {last : Packet}
    {bytes : List UInt8} (stamped : ∀ p ∈ front ++ [last], p.pts = seq) (going : ∀ p ∈ front, p.ends = false)
    (ends : last.ends = true) (there : ∀ p ∈ front ++ [last], p.null = false)
    (fits : bytes.length + (whole (front ++ [last])).length ≤ maxAu)
    (fine : ∀ poll ∈ polls, poll.status ≠ .failed ∧ (poll.fetched = true → poll.status = .ok))
    (enough : front.length < (polls.filter Poll.fetched).length) :
    collect seq polls (front ++ [last]) bytes = (.ok (bytes ++ whole (front ++ [last])), []) := by
  induction polls generalizing front bytes with
  | nil => exact absurd enough (Nat.not_lt_zero _)
  | cons poll polls ih =>
    obtain ⟨⟨sound, clean⟩, rest⟩ := List.forall_mem_cons.mp fine
    obtain ⟨status, fetched⟩ := poll
    cases fetched with
    | false =>
      simp only [collect, if_neg sound]
      exact ih stamped going there fits rest (by simpa using enough)
    | true =>
      obtain rfl : status = .ok := clean rfl
      cases front with
      | nil =>
        have own : last.pts = seq := stamped last (by simp)
        have room : ¬ maxAu - bytes.length < last.bytes.length := by
          simp [whole] at fits
          omega
        have held : last.null = false := there last (by simp)
        have taken := take_fits own held room
        simp [collect, taken, ends, whole]
      | cons p front =>
        have own : p.pts = seq := stamped p (by simp)
        have held : p.null = false := there p (by simp)
        have sizes : bytes.length + (p.bytes.length + (whole (front ++ [last])).length) ≤ maxAu := by
          simpa [whole] using fits
        have room : ¬ maxAu - bytes.length < p.bytes.length := by omega
        have taken := take_fits own held room
        have goes : p.ends = false := going p (by simp)
        have fetched := ih (fun q member => stamped q (List.mem_cons_of_mem p member))
          (fun q member => going q (List.mem_cons_of_mem p member))
          (fun q member => there q (List.mem_cons_of_mem p member))
          (show (bytes ++ p.bytes).length + _ ≤ maxAu by rw [List.length_append]; omega) rest
          (by simpa using enough)
        simp [collect, taken, goes, fetched, whole]

/-! One call. -/

theorem encode_bytes {e e' : Worker.Encoder} {dequeueUs : UInt64} {out : Worker.Output} {force : Bool} {m : Message}
    (encoded : e.encode dequeueUs out force = .ok (m, e')) : m.bytes = out.bytes := by
  unfold Worker.Encoder.encode at encoded
  split at encoded
  · cases encoded
  · cases inspected : inspectAnnexb e.config.codec out.bytes with
    | error x =>
      rw [inspected] at encoded
      cases encoded
    | ok n =>
      simp only [inspected, bind, Except.bind] at encoded
      split at encoded
      · cases encoded
      · cases encoded
        cases n.idr <;> rfl

theorem encode_cases {s : State} {e : Worker.Encoder} (opened : s.encoder = some e) (c : Call) :
    (∃ x, encode s c = s.returned c (.error x)) ∨ (∃ x, encode s c = (s.counted e).returned c (.error x)) ∨
    ∃ r, encode s c = { s.counted e with
        pending := (collect (e.seq + 1) c.polls (s.pending ++ c.made (e.seq + 1)) []).2 }.returned c r ∧
      ∀ m, r = .ok m → m.h.seq = e.seq + 1 ∧
        (collect (e.seq + 1) c.polls (s.pending ++ c.made (e.seq + 1)) []).1 = .ok m.bytes := by
  unfold encode
  rw [opened]
  dsimp only
  split
  · exact .inl ⟨_, rfl⟩
  · split
    · exact .inr (.inl ⟨_, rfl⟩)
    · refine .inr (.inr ?_)
      have front : (s.counted e).pending = s.pending := rfl
      rw [front]
      rcases collect (e.seq + 1) c.polls (s.pending ++ c.made (e.seq + 1)) [] with ⟨x | bytes, left⟩
      · exact ⟨.error x, rfl, fun m failed => by cases failed⟩
      · refine ⟨_, rfl, fun m returned => ?_⟩
        cases encoded : e.encode c.dequeueUs ⟨bytes, c.submitUs, c.doneUs⟩ c.force with
        | error x =>
          rw [encoded] at returned
          cases returned
        | ok result =>
          rw [encoded] at returned
          cases returned
          exact ⟨(Worker.encode_ok encoded).1, by rw [encode_bytes encoded]⟩

/-! All calls. -/

def Numbered (start : UInt64) (n : Nat) (seq : UInt64) : Prop := ∃ k ≤ n, seq = start + UInt64.ofNat k

theorem numbered_later {start : UInt64} {n n' : Nat} (later : n ≤ n') {seq : UInt64} :
    Numbered start n seq → Numbered start n' seq := fun ⟨k, within, same⟩ => ⟨k, Nat.le_trans within later, same⟩

/-- The next number is none of those before it. -/
theorem next_fresh {start seq old : UInt64} {n : Nat} (bound : n + 1 < 2 ^ 64) (last : seq = start + UInt64.ofNat n)
    (earlier : Numbered start n old) : old ≠ seq + 1 := by
  obtain ⟨k, within, rfl⟩ := earlier
  rintro same
  rw [last, UInt64.add_assoc] at same
  have numbers : UInt64.ofNat k = UInt64.ofNat (n + 1) := by
    have cancelled := UInt64.add_right_inj start |>.mp same
    rw [cancelled, UInt64.ofNat_add]
    rfl
  have values : k = n + 1 := by
    have := congrArg UInt64.toNat numbers
    rwa [UInt64.toNat_ofNat', UInt64.toNat_ofNat', Nat.mod_eq_of_lt (by omega), Nat.mod_eq_of_lt bound] at this
  omega

/-- After `n` frames of a context: what MPP still holds is of frames that were counted in it, and what was
returned is whole; nothing is held where no call has failed. -/
structure Inv (n : Nat) (s : State) : Prop where
  context : ∀ e ∈ s.encoder, ∃ start, e.seq = start + UInt64.ofNat n ∧ ∀ p ∈ s.pending, Numbered start n p.pts
  returned : ∀ c m, (c, .ok m) ∈ s.results → m.bytes = whole (c.made m.h.seq)
  synced : (∀ r ∈ s.results, r.2.isOk) → s.pending = []

theorem inv_error {n : Nat} {s : State} (returned : ∀ c m, (c, .ok m) ∈ s.results → m.bytes = whole (c.made m.h.seq))
    (context : ∀ e ∈ s.encoder, ∃ start, e.seq = start + UInt64.ofNat n ∧ ∀ p ∈ s.pending, Numbered start n p.pts)
    (c : Call) (x : String) : Inv n (s.returned c (.error x)) where
  context := context
  returned c' m member := by
    rcases List.mem_append.mp member with before | last
    · exact returned c' m before
    · cases List.mem_singleton.mp last
  synced fine := by
    have ok := fine _ (List.mem_append_right _ (List.mem_singleton.mpr rfl))
    cases ok

theorem counted_context {n : Nat} {e : Worker.Encoder} {start : UInt64} (number : e.seq = start + UInt64.ofNat n) :
    e.seq + 1 = start + UInt64.ofNat (n + 1) := by
  rw [number, UInt64.add_assoc, UInt64.ofNat_add]
  rfl

/-- A call that succeeds finds no packet of another frame. -/
theorem collect_synced {start seq out} {n : Nat} {pending ps : List Packet} {polls : List Poll} {bytes : List UInt8}
    (number : seq = start + UInt64.ofNat n) (earlier : ∀ p ∈ pending, Numbered start n p.pts)
    (bound : n + 1 < 2 ^ 64) (collected : (collect (seq + 1) polls (pending ++ ps) bytes).1 = .ok out) :
    pending = [] := by
  cases pending with
  | nil => rfl
  | cons p pending =>
    have stale := next_fresh bound number (earlier p List.mem_cons_self)
    exact absurd collected (collect_stale stale polls (pending ++ ps) bytes out)

theorem inv_encode {n : Nat} {s : State} {c : Call} (marked : ∀ seq, Marked seq (c.made seq))
    (bound : n + 1 < 2 ^ 64) (inv : Inv n s) : ∃ n' ≤ n + 1, Inv n' (encode s c) := by
  cases opened : s.encoder with
  | none =>
    have same : encode s c = s := by rw [encode, opened]
    exact ⟨n, Nat.le_succ n, same.symm ▸ inv⟩
  | some e =>
    obtain ⟨start, number, earlier⟩ := inv.context e opened
    have later : ∀ p ∈ s.pending, Numbered start (n + 1) p.pts :=
      fun p member => numbered_later (Nat.le_succ n) (earlier p member)
    obtain ⟨x, same⟩ | ⟨x, same⟩ | ⟨r, same, unit⟩ := encode_cases opened c
    · exact ⟨n, Nat.le_succ n, same ▸ inv_error inv.returned inv.context c x⟩
    · refine ⟨n + 1, Nat.le_refl _, same ▸ @inv_error _ (s.counted e) inv.returned ?_ c x⟩
      rintro e' ⟨⟩
      exact ⟨start, counted_context number, later⟩
    · refine ⟨n + 1, Nat.le_refl _, same ▸ ?_⟩
      have context : ∀ e' ∈ (s.counted e).encoder, ∃ start', e'.seq = start' + UInt64.ofNat (n + 1) ∧
          ∀ p ∈ (collect (e.seq + 1) c.polls (s.pending ++ c.made (e.seq + 1)) []).2,
            Numbered start' (n + 1) p.pts := by
        rintro e' ⟨⟩
        refine ⟨start, counted_context number, fun p member => ?_⟩
        rcases List.mem_append.mp ((collect_suffix _ _ _ _).subset member) with old | new
        · exact later p old
        · rw [(marked _).stamped p new]
          exact ⟨n + 1, Nat.le_refl _, counted_context number⟩
      cases r with
      | error x =>
        exact inv_error (s := { s.counted e with
          pending := (collect (e.seq + 1) c.polls (s.pending ++ c.made (e.seq + 1)) []).2 })
          inv.returned context c x
      | ok m =>
        obtain ⟨seq, collected⟩ := unit m rfl
        have synced := collect_synced number earlier bound collected
        obtain ⟨front, last, parts, going, ends⟩ := (marked (e.seq + 1)).ended
        rw [synced, List.nil_append, parts] at collected
        obtain ⟨whole, none⟩ := collect_whole going ends collected
        refine ⟨context, fun c' m' member => ?_, fun _ => ?_⟩
        · rcases List.mem_append.mp member with before | last
          · exact inv.returned c' m' before
          · cases List.mem_singleton.mp last
            rw [seq, parts]
            exact whole
        · show (collect _ _ (s.pending ++ _) _).2 = []
          rw [synced, List.nil_append, parts]
          exact none

theorem inv_reopen {n : Nat} {s : State} (inv : Inv n s) (r : Worker.Reopen) : Inv 0 (reopen r s) := by
  have closed : Inv 0 { s with encoder := none, pending := [] } :=
    ⟨fun e none => (by cases none), inv.returned, fun _ => rfl⟩
  unfold reopen
  dsimp only
  split
  · exact closed
  · exact closed
  · split
    · exact closed
    · refine ⟨?_, inv.returned, fun _ => rfl⟩
      rintro e ⟨⟩
      exact ⟨_, (UInt64.add_zero _).symm, fun p none => absurd none List.not_mem_nil⟩

theorem inv_run {n : Nat} {s : State} (ls : List Label) (marked : ∀ l ∈ ls, l.Marked)
    (bound : n + ls.length < 2 ^ 64) (inv : Inv n s) : ∃ n' ≤ n + ls.length, Inv n' (run step s ls) := by
  induction ls generalizing n s with
  | nil => exact ⟨n, Nat.le_refl _, inv⟩
  | cons l ls ih =>
    rw [List.length_cons] at bound
    obtain ⟨first, rest⟩ := List.forall_mem_cons.mp marked
    have one : ∃ n' ≤ n + 1, Inv n' (step s l) := by
      cases l with
      | frame c => exact inv_encode first (by omega) inv
      | reopen r => exact ⟨0, Nat.zero_le _, inv_reopen inv r⟩
    obtain ⟨n', most, inv'⟩ := one
    obtain ⟨n'', most', ended⟩ := ih rest (by omega) inv'
    exact ⟨n'', by rw [List.length_cons]; omega, ended⟩

theorem inv_fresh (e : Worker.Encoder) : Inv 0 (fresh e) where
  context := by
    rintro e' ⟨⟩
    exact ⟨e.seq, (UInt64.add_zero _).symm, fun p none => absurd none List.not_mem_nil⟩
  returned c m none := absurd none List.not_mem_nil
  synced _ := rfl

/-- MPP takes the call and hands out every packet of its unit in time, and the unit fits into a message. -/
structure Served (ps : List Packet) (c : Call) : Prop where
  idr : c.force = true → c.idrAccepted = true
  taken : c.frameTaken = true
  there : ∀ p ∈ ps, p.null = false
  fits : (whole ps).length ≤ maxAu
  fine : ∀ poll ∈ c.polls, poll.status ≠ .failed ∧ (poll.fetched = true → poll.status = .ok)
  enough : ps.length ≤ (c.polls.filter Poll.fetched).length

theorem encode_served {s : State} {e : Worker.Encoder} {c : Call} (opened : s.encoder = some e)
    (marked : Marked (e.seq + 1) (c.made (e.seq + 1))) (synced : s.pending = [])
    (served : Served (c.made (e.seq + 1)) c) : (encode s c).results = s.results ++ [(c,
      (e.encode c.dequeueUs ⟨whole (c.made (e.seq + 1)), c.submitUs, c.doneUs⟩ c.force).map Prod.fst)] := by
  obtain ⟨front, last, parts, going, ends⟩ := marked.ended
  have short : front.length < (c.polls.filter Poll.fetched).length := by
    have enough := served.enough
    simp only [parts, List.length_append, List.length_singleton] at enough
    exact enough
  have fetched := @collect_complete _ _ _ _ [] (parts ▸ marked.stamped) going ends (parts ▸ served.there)
    (by simpa [← parts] using served.fits) served.fine short
  rw [← parts, List.nil_append] at fetched
  have asked : ¬ (c.force = true ∧ (!c.idrAccepted) = true) := by
    rintro ⟨force, refused⟩
    simp [served.idr force] at refused
  have front : (s.counted e).pending = [] := synced
  unfold encode
  simp only [opened, if_neg asked, served.taken, Bool.not_true, Bool.false_eq_true, if_false, front,
    List.nil_append, fetched]
  rfl

/-- Whatever failed before, and however often the pipeline was opened again, or was not: a frame that a call
returns is its own whole access unit. While no call has failed, one that MPP serves is encoded from all of its
unit. -/
theorem returned_whole (e : Worker.Encoder) (ls : List Label) (marked : ∀ l ∈ ls, l.Marked)
    (bound : ls.length < 2 ^ 64) :
    let s := run step (fresh e) ls
    (∀ c m, (c, .ok m) ∈ s.results → m.bytes = whole (c.made m.h.seq)) ∧
    ((∀ r ∈ s.results, r.2.isOk) → ∀ e' ∈ s.encoder, ∀ c, (∀ seq, Marked seq (c.made seq)) →
      Served (c.made (e'.seq + 1)) c → (encode s c).results = s.results ++ [(c,
        (e'.encode c.dequeueUs ⟨whole (c.made (e'.seq + 1)), c.submitUs, c.doneUs⟩ c.force).map Prod.fst)]) := by
  obtain ⟨n, -, inv⟩ := inv_run ls marked (by omega) (inv_fresh e)
  exact ⟨inv.returned, fun fine e' opened c own served => encode_served opened (own _) (inv.synced fine) served⟩

/-! A keyframe in two packets, of which the second comes too late for the first call. -/

def halves (seq : UInt64) : List Packet :=
  [{ pts := seq, bytes := [0, 0, 0, 1, 0x67, 0, 0, 1, 0x68], partition := true },
   { pts := seq, bytes := [0, 0, 1, 0x65, 0x80], partition := true, eoi := true }]

theorem halves_marked (seq : UInt64) : Marked seq (halves seq) where
  stamped p member := by
    simp only [halves, List.mem_cons, List.not_mem_nil, or_false] at member
    rcases member with rfl | rfl <;> rfl
  ended := ⟨[{ pts := seq, bytes := [0, 0, 0, 1, 0x67, 0, 0, 1, 0x68], partition := true }], _, rfl,
    List.forall_mem_singleton.mpr rfl, rfl⟩

def patient : Call where
  dequeueUs := 1
  submitUs := 2
  doneUs := 3
  force := true
  polls := [⟨.ok, true⟩, ⟨.timeout, false⟩, ⟨.ok, true⟩]
  made := halves

def late : Call := { patient with polls := [⟨.ok, true⟩, ⟨.timeout, false⟩] }

def pal : Worker.Encoder := { config := { codec := .h264 }, direct := false, fullRange := true }

def restarted : List Label := [.frame late, .frame patient, .reopen .failed, .reopen (.opened true true), .frame patient]

theorem returned_whole_keyframe : ∃ c m, (c, .ok m) ∈ (run step (fresh pal) restarted).results ∧
    m.h.seq = 1 ∧ m.bytes = whole (c.made 1) := by
  have shown : ((run step (fresh pal) restarted).results.any fun r => r.2.toOption.any (·.h.seq = 1)) = true := by
    decide +kernel
  have marked : ∀ l ∈ restarted, l.Marked := by
    simp only [restarted, List.forall_mem_cons, Label.Marked]
    exact ⟨halves_marked, halves_marked, trivial, trivial, halves_marked, List.forall_mem_nil _⟩
  obtain ⟨⟨c, r⟩, member, good⟩ := List.any_eq_true.mp shown
  cases r with
  | error x => cases good
  | ok m =>
    have first : m.h.seq = 1 := of_decide_eq_true good
    have returned := (returned_whole pal restarted marked (by decide)).1 c m member
    exact ⟨c, m, member, first, first ▸ returned⟩

end Video.Packets

import Mathlib.Data.List.Basic
import RkmoonKvm.Library.Runs

/-! The audio capture loop: the block that is filled anew for each packet, the reads that fill
it, and the blocks that reach the encoder. Times are in nanoseconds; what ALSA, the clock and
the shutdown event give back is free in every turn. -/
namespace Sunshine.Audio
open Runs

def epipe : Int := -32
def eagain : Int := -11

def millis (n : Nat) : Int := n * 1000000

/-! Opening the device. -/

/-- What the ALSA calls of one attempt give back, `none` for an error. -/
structure Hardware where
  openPcm : Bool
  any : Bool
  access : Bool
  format : Bool
  channels : Bool
  rate : Bool
  periodNear : Option Nat
  bufferNear : Option Nat
  hwParams : Bool
  actualRate : Option Nat
  actualPeriod : Option Nat
  actualBuffer : Option Nat
  actualChannels : Option Nat
  /-- Whether the format that is set is `SND_PCM_FORMAT_S16_LE`. -/
  actualFormat : Option Bool
  prepare : Bool

def openPcm (packetFrames : Nat) (a : Hardware) : Option Nat := do
  guard (a.openPcm && a.any && a.access && a.format && a.channels && a.rate)
  let period ← a.periodNear
  guard (max (period * 3) (packetFrames * 3) ≤ 4800)
  let buffer ← a.bufferNear
  guard (buffer ≤ 4800 ∧ a.hwParams)
  let actualRate ← a.actualRate
  let actualPeriod ← a.actualPeriod
  guard (actualPeriod ≠ 0 ∧ actualPeriod ≤ 4800)
  let actualBuffer ← a.actualBuffer
  guard (actualBuffer ≤ 4800)
  let actualChannels ← a.actualChannels
  let actualFormat ← a.actualFormat
  guard (actualRate = 48000 ∧ actualChannels = 2 ∧ actualFormat ∧ a.prepare)
  return actualPeriod

inductive Call where
  | opened (period : Nat)
  | available (n : Int)
  | drop (ok : Bool)
  | prepare (ok : Bool)
  | readi
  | close
  deriving DecidableEq

/-! The reads of one packet. -/

abbrev StereoFrame := Int16 × Int16

def interleaved (frames : List StereoFrame) : List Int16 := frames.flatMap fun f => [f.1, f.2]

/-- What `snd_pcm_readi` gives back for a request: some frames and no more than asked for, or
zero or an error. -/
inductive Readi (request : Nat) where
  | frames (l : List StereoFrame) (positive : 0 < l.length) (within : l.length ≤ request)
  | status (n : Int) (nonpositive : n ≤ 0)

/-- One turn of the read loop; a loop that has no further turn ends at its deadline. -/
structure Read where
  shutdown : Bool
  now : Int
  readi : (request : Nat) → Readi request

/-- The block and the reads into it. `got` is what the reads have returned, and `writes` are
the places of the block that they have written. -/
structure Reading where
  samples : List Int16
  received : Nat
  valid : Bool
  xruns : Nat
  got : List Int16
  writes : List (Nat × Nat)
  calls : List Call

namespace Reading

def called (r : Reading) : Reading := { r with calls := r.calls ++ [.readi] }

def store (r : Reading) (l : List StereoFrame) : Reading :=
  let items := interleaved l
  let place := r.received * 2
  { r with
    samples := r.samples.take place ++ items ++ r.samples.drop (place + items.length)
    received := r.received + l.length
    got := r.got ++ items
    writes := r.writes ++ [(place, items.length)] }

def fail (r : Reading) (error : Int) : Reading :=
  { r with valid := false, xruns := if error = epipe then r.xruns + 1 else r.xruns }

def loop (frames : Nat) (deadline : Int) : List Read → Reading → Reading
  | [], r => r
  | a :: rest, r =>
    if r.valid ∧ r.received < frames ∧ ¬ a.shutdown ∧ a.now < deadline then
      match a.readi (frames - r.received) with
      | .frames l _ _ => loop frames deadline rest (r.called.store l)
      | .status n _ => if n = eagain ∨ n = 0 then loop frames deadline rest r.called else r.called.fail n
    else r

end Reading

/-! The loop of the packets. -/

/-- What was read for a packet, and the calls from the check of the ring to the last read. -/
structure Taken where
  got : List Int16 := []
  calls : List Call := []

structure Block where
  samples : List Int16
  frames : Nat
  taken : Taken
  period : Nat

structure Loop where
  pcm : Bool := false
  capturePeriod : Nat := 0
  retryAt : Int
  nextPacket : Int
  recovered : Nat := 0
  silent : Nat := 0
  stale : Nat := 0
  xruns : Nat := 0
  quiet : Bool := false
  pcmSamples : List Int16
  ended : Bool := false
  blocks : List Block := []
  writes : List (Nat × Nat) := []
  calls : List Call := []

structure Turn where
  shutdown : Bool
  now : Int
  opened : Hardware
  available : Int
  drop : Bool
  prepare : Bool
  readStart : Int
  reads : List Read
  readEnd : Int
  shutdownAfter : Bool
  encoded : Int
  encodeEnd : Int

section loop
variable (packetDuration : Nat)

def frames : Nat := packetDuration * 48

def silence : List Int16 := List.replicate (frames packetDuration * 2) 0

/-- One native period plus a packet, and never less than two packets. -/
def staleLimit (period : Nat) : Int := max (frames packetDuration * 2 : Int) (period + frames packetDuration)

def start (now : Int) : Loop where
  retryAt := now
  nextPacket := now
  pcmSamples := silence packetDuration

namespace Loop
variable (s : Loop) (t : Turn)

def reopen : Loop :=
  if !s.pcm ∧ s.retryAt ≤ t.now then
    let s := { s with retryAt := t.now + if s.recovered ≠ 0 then millis 250 else millis 2000 }
    match openPcm (frames packetDuration) t.opened with
    | some period => { s with
      pcm := true, capturePeriod := period, recovered := s.recovered + 1, calls := s.calls ++ [.opened period] }
    | none => s
  else s

structure Checked where
  pcm : Bool
  valid : Bool
  clearedStale : Bool
  stale : Nat
  xruns : Nat
  calls : List Call

def check : Checked :=
  let xruns := if t.available = epipe then s.xruns + 1 else s.xruns
  if t.available > staleLimit packetDuration s.capturePeriod then
    let calls := .drop t.drop :: if t.drop then [.prepare t.prepare] else []
    let cleared := t.drop && t.prepare
    ⟨cleared, false, cleared, s.stale + 1, xruns, if cleared then calls else calls ++ [.close]⟩
  else if t.available < 0 ∧ t.available ≠ eagain then ⟨false, false, false, s.stale, xruns, [.close]⟩
  else ⟨s.pcm, true, false, s.stale, xruns, []⟩

def readBudgetMs : Nat := max packetDuration ((s.capturePeriod + 47) / 48) + 5

def reading : Reading :=
  let c := s.check packetDuration t
  Reading.loop (frames packetDuration) (t.readStart + millis (s.readBudgetMs packetDuration)) t.reads
    ⟨s.pcmSamples, 0, c.valid, c.xruns, [], s.writes, .available t.available :: c.calls⟩

def record : Loop × Taken × Bool :=
  let c := s.check packetDuration t
  let r := s.reading packetDuration t
  let valid := r.valid && r.received == frames packetDuration
  let s := { s with
    pcm := c.pcm, stale := c.stale, xruns := r.xruns, pcmSamples := r.samples, writes := r.writes
    calls := s.calls ++ r.calls }
  if valid then ({ s with quiet := false }, ⟨r.got, r.calls⟩, true)
  else if c.clearedStale then ({ s with pcmSamples := silence packetDuration }, ⟨r.got, r.calls⟩, false)
  else
    ({ s with
      pcm := false, retryAt := t.readEnd + millis 250, quiet := true,
      pcmSamples := silence packetDuration
      calls := if c.pcm then s.calls ++ [.close] else s.calls }, ⟨r.got, r.calls⟩, false)

def encode (taken : Taken) : Loop :=
  let block : Block := ⟨s.pcmSamples, frames packetDuration, taken, s.capturePeriod⟩
  let s := { s with blocks := s.blocks ++ [block] }
  if t.encoded < 0 then { s with ended := true }
  else { s with nextPacket := max (s.nextPacket + millis packetDuration) t.encodeEnd }

def fill : Loop × Taken × Bool :=
  let s := { s with pcmSamples := silence packetDuration }
  if s.pcm then s.record packetDuration t else (s, {}, false)

def packet : Loop :=
  let f := s.fill packetDuration t
  let s := if f.2.2 then f.1 else { f.1 with silent := f.1.silent + 1 }
  if t.shutdownAfter then { s with ended := true } else s.encode packetDuration t f.2.1

def step : Loop :=
  if s.ended then s
  else if t.shutdown then { s with ended := true }
  else
    let s := s.reopen packetDuration t
    if t.now < s.nextPacket then s else s.packet packetDuration t

end Loop

end loop

/-! What the reads leave in the block. -/

@[simp] theorem length_interleaved (l : List StereoFrame) : (interleaved l).length = l.length * 2 := by
  induction l with
  | nil => rfl
  | cons f rest ih =>
    rw [interleaved, List.flatMap_cons, List.length_append, ← interleaved, ih, List.length_cons]
    exact (Nat.add_comm _ _).trans (Nat.succ_mul _ _).symm

structure Filled (n : Nat) (r : Reading) : Prop where
  length : r.samples.length = n * 2
  received : r.received ≤ n
  front : r.samples.take (r.received * 2) = r.got
  inside : ∀ w ∈ r.writes, w.1 + w.2 ≤ n * 2

namespace Filled
variable {n : Nat} {r : Reading}

theorem called (filled : Filled n r) : Filled n r.called :=
  ⟨filled.length, filled.received, filled.front, filled.inside⟩

theorem store (filled : Filled n r) {l : List StereoFrame} (within : l.length ≤ n - r.received) :
    Filled n (r.store l) := by
  have length := filled.length
  have received := filled.received
  have place : (r.samples.take (r.received * 2)).length = r.received * 2 := by
    rw [List.length_take]
    omega
  refine ⟨?_, ?_, ?_, ?_⟩
  · simp only [Reading.store, List.length_append, List.length_take, List.length_drop, length_interleaved]
    omega
  · simp only [Reading.store]
    omega
  · have reached : (r.store l).received * 2 =
        (r.samples.take (r.received * 2) ++ interleaved l).length := by
      rw [List.length_append, place, length_interleaved, Reading.store]
      exact Nat.add_mul _ _ _
    rw [reached, Reading.store, List.take_left', filled.front]
    rfl
  · intro w member
    rcases List.mem_append.mp member with old | new
    · exact filled.inside w old
    · rw [List.mem_singleton.mp new, length_interleaved]
      dsimp only
      omega

theorem loop (filled : Filled n r) (deadline : Int) (reads : List Read) :
    Filled n (Reading.loop n deadline reads r) := by
  induction reads generalizing r with
  | nil => exact filled
  | cons a rest ih =>
    unfold Reading.loop
    split
    · cases a.readi (n - r.received) with
      | frames l positive within => exact ih (filled.called.store within)
      | status error nonpositive =>
        by_cases again : error = eagain ∨ error = 0
        · simp only [again, if_true]
          exact ih filled.called
        · simp only [again, if_false]
          exact ⟨filled.length, filled.received, filled.front, filled.inside⟩
    · exact filled

/-- Nothing is missing from a block whose reads have got to its end. -/
theorem whole (filled : Filled n r) (all : r.received = n) : r.samples = r.got := by
  have front := filled.front
  rwa [all, ← filled.length, List.take_length] at front

end Filled

theorem loop_invalid {r : Reading} (invalid : r.valid = false) (n : Nat) (deadline : Int) (reads : List Read) :
    Reading.loop n deadline reads r = r := by
  cases reads with
  | nil => rfl
  | cons a rest => exact if_neg fun now => absurd now.1 (by simp [invalid])

theorem loop_calls (n : Nat) (deadline : Int) (reads : List Read) (r : Reading) :
    ∃ k, (Reading.loop n deadline reads r).calls = r.calls ++ List.replicate k .readi := by
  induction reads generalizing r with
  | nil => exact ⟨0, (List.append_nil _).symm⟩
  | cons a rest ih =>
    have more {r' : Reading} (one : r'.calls = r.calls ++ [.readi]) :
        ∃ k, (Reading.loop n deadline rest r').calls = r.calls ++ List.replicate k .readi := by
      obtain ⟨k, calls⟩ := ih r'
      exact ⟨k + 1, by rw [calls, one, List.append_assoc, List.replicate_succ]; rfl⟩
    unfold Reading.loop
    split
    · cases a.readi (n - r.received) with
      | frames l positive within => exact more rfl
      | status error nonpositive =>
        by_cases again : error = eagain ∨ error = 0
        · simp only [again, if_true]
          exact more rfl
        · simp only [again, if_false]
          exact ⟨1, rfl⟩
    · exact ⟨0, (List.append_nil _).symm⟩

/-! The ring of the device, as its calls leave it. -/

/-- The period of the device, and whether its ring holds samples that were found to be stale. -/
structure Ring where
  period : Nat := 0
  old : Bool := false

section ring
variable {d : Nat}

def Ring.step (d : Nat) (r : Ring) : Call → Ring
  | .opened period => ⟨period, false⟩
  | .available n => if staleLimit d r.period < n then { r with old := true } else r
  | .drop ok => if ok then { r with old := false } else r
  | .close => { r with old := false }
  | .prepare _ | .readi => r

/-- No read takes samples that were found to be stale. -/
def Clean (r : Ring) (c : Call) : Prop := c = .readi → r.old = false

structure Clears (d : Nat) (r : Ring) (calls : List Call) : Prop where
  clean : Meets (Ring.step d) Clean r calls
  rest : (run (Ring.step d) r calls).old = false
  period : (run (Ring.step d) r calls).period = r.period

theorem Clears.append {r : Ring} {calls calls' : List Call} (first : Clears d r calls)
    (later : Clears d (run (Ring.step d) r calls) calls') : Clears d r (calls ++ calls') := by
  refine ⟨meets_append.mpr ⟨first.clean, later.clean⟩, ?_, ?_⟩
  · rw [run_append]
    exact later.rest
  · rw [run_append, later.period, first.period]

theorem clears_readi {r : Ring} (rest : r.old = false) (k : Nat) : Clears d r (List.replicate k .readi) := by
  induction k with
  | zero => exact ⟨trivial, rest, rfl⟩
  | succ k ih => exact ⟨⟨fun _ => rest, ih.clean⟩, ih.rest, ih.period⟩

theorem clears_close (r : Ring) : Clears d r [.close] :=
  ⟨⟨fun other => (by cases other), trivial⟩, rfl, rfl⟩

/-- A stale ring is dropped or closed before anything is read from it. -/
theorem clears_check {s : Loop} {r : Ring} (rest : r.old = false) (period : r.period = s.capturePeriod) (t : Turn) :
    Clears d r (.available t.available :: (s.check d t).calls) := by
  have other (c : Call) (no : c ≠ .readi) (r : Ring) : Clean r c := fun is => absurd is no
  unfold Loop.check
  dsimp only
  split
  next stale =>
    have found : r.step d (.available t.available) = { r with old := true } := by
      rw [Ring.step, period]
      exact if_pos stale
    have cleared (r : Ring) : Clears d r (if t.drop && t.prepare then
        .drop t.drop :: (if t.drop then [.prepare t.prepare] else [])
      else (.drop t.drop :: if t.drop then [.prepare t.prepare] else []) ++ [.close]) := by
      cases t.drop <;> cases t.prepare <;> exact ⟨by simp [Meets, Clean], rfl, rfl⟩
    refine ⟨⟨other _ (by simp) _, (cleared _).clean⟩, (cleared _).rest, (cleared _).period.trans ?_⟩
    rw [found]
  next fresh =>
    have same : r.step d (.available t.available) = r := by
      rw [Ring.step, period]
      exact if_neg fresh
    split
    · exact ⟨⟨other _ (by simp) _, same.symm ▸ (clears_close (d := d) r).clean⟩, rfl, by rw [run_cons, same]; rfl⟩
    · exact ⟨⟨other _ (by simp) _, trivial⟩, by rw [run_cons, same]; exact rest, by rw [run_cons, same]; rfl⟩

end ring

section packets
variable {d : Nat}

def Unusable (d period : Nat) (available : Int) : Prop :=
  staleLimit d period < available ∨ available < 0 ∧ available ≠ eagain

structure Silent (d : Nat) (b : Block) : Prop where
  got : b.taken.got = []
  unread : .readi ∉ b.taken.calls
  samples : b.samples = List.replicate (d * 48 * 2) 0

/-- A block of the right size that is what was read for it, or silent. -/
structure Whole (d : Nat) (b : Block) : Prop where
  frames : b.frames = d * 48
  length : b.samples.length = d * 48 * 2
  content : b.samples = b.taken.got ∨ b.samples = List.replicate (d * 48 * 2) 0
  broken : b.taken.got.length ≠ d * 48 * 2 → b.samples = List.replicate (d * 48 * 2) 0
  unusable : ∀ n, .available n ∈ b.taken.calls → Unusable d b.period n → Silent d b

structure Sound (d : Nat) (s : Loop) : Prop where
  blocks : ∀ b ∈ s.blocks, Whole d b
  writes : ∀ w ∈ s.writes, w.1 + w.2 ≤ d * 48 * 2
  clean : Meets (Ring.step d) Clean {} s.calls
  rest : (run (Ring.step d) {} s.calls).old = false
  period : s.pcm = true → (run (Ring.step d) {} s.calls).period = s.capturePeriod

theorem length_silence (d : Nat) : (silence d).length = d * 48 * 2 := List.length_replicate

structure Recorded (d : Nat) (s : Loop) (taken : Taken) : Prop where
  content : s.pcmSamples = taken.got ∨ s.pcmSamples = silence d
  length : s.pcmSamples.length = d * 48 * 2
  unusable : ∀ n, .available n ∈ taken.calls → Unusable d s.capturePeriod n →
    taken.got = [] ∧ .readi ∉ taken.calls

theorem reading_unusable {s : Loop} {t : Turn} (unusable : Unusable d s.capturePeriod t.available) :
    (s.reading d t).got = [] ∧ .readi ∉ (s.reading d t).calls := by
  have invalid : (s.check d t).valid = false ∧ .readi ∉ (s.check d t).calls := by
    unfold Loop.check
    dsimp only
    by_cases stale : t.available > staleLimit d s.capturePeriod
    · rw [if_pos stale]
      cases t.drop <;> cases t.prepare <;> simp
    · have lost := unusable.resolve_left stale
      rw [if_neg stale, if_pos lost]
      simp
  unfold Loop.reading
  rw [loop_invalid invalid.1]
  exact ⟨rfl, by simp [invalid.2]⟩

theorem available_check (s : Loop) (t : Turn) (n : Int) : .available n ∉ (s.check d t).calls := by
  unfold Loop.check
  dsimp only
  split
  · cases t.drop <;> cases t.prepare <;> simp
  · split <;> simp

theorem reading_calls (s : Loop) (t : Turn) : ∃ k, (s.reading d t).calls =
    .available t.available :: (s.check d t).calls ++ List.replicate k .readi := loop_calls _ _ _ _

theorem reading_available {s : Loop} {t : Turn} {n : Int} (member : .available n ∈ (s.reading d t).calls) :
    n = t.available := by
  obtain ⟨k, calls⟩ := reading_calls (d := d) s t
  rw [calls] at member
  rcases List.mem_append.mp member with front | reads
  · rcases List.mem_cons.mp front with same | other
    · cases same
      rfl
    · exact absurd other (available_check s t n)
  · cases (List.mem_replicate.mp reads).2

theorem clears_reading {s : Loop} {r : Ring} (rest : r.old = false) (period : r.period = s.capturePeriod)
    (t : Turn) : Clears d r (s.reading d t).calls := by
  obtain ⟨k, calls⟩ := reading_calls (d := d) s t
  have checked := clears_check (d := d) rest period t
  exact calls ▸ checked.append (clears_readi checked.rest k)

theorem record_sound {s : Loop} (sound : Sound d s) (opened : s.pcm = true) (silent : s.pcmSamples = silence d)
    (t : Turn) : Sound d (s.record d t).1 ∧ Recorded d (s.record d t).1 (s.record d t).2.1 := by
  have filled : Filled (frames d) (s.reading d t) := by
    refine Filled.loop ⟨?_, Nat.zero_le _, rfl, sound.writes⟩ _ _
    rw [silent]
    exact length_silence d
  have unusable : ∀ n, .available n ∈ (s.reading d t).calls → Unusable d s.capturePeriod n →
      (s.reading d t).got = [] ∧ .readi ∉ (s.reading d t).calls :=
    fun n member bad => reading_unusable (reading_available member ▸ bad)
  have cleared := clears_reading (d := d) sound.rest (sound.period opened) t
  have clean : Meets (Ring.step d) Clean {} (s.calls ++ (s.reading d t).calls) :=
    meets_append.mpr ⟨sound.clean, cleared.clean⟩
  have rest : (run (Ring.step d) {} (s.calls ++ (s.reading d t).calls)).old = false := by
    rw [run_append]
    exact cleared.rest
  have period : (run (Ring.step d) {} (s.calls ++ (s.reading d t).calls)).period = s.capturePeriod := by
    rw [run_append, cleared.period, sound.period opened]
  unfold Loop.record
  dsimp only
  split
  next valid =>
    have all : (s.reading d t).received = frames d := by
      simp only [Bool.and_eq_true, beq_iff_eq] at valid
      exact valid.2
    exact ⟨⟨sound.blocks, filled.inside, clean, rest, fun _ => period⟩,
      ⟨.inl (filled.whole all), filled.length, unusable⟩⟩
  next =>
    split
    · exact ⟨⟨sound.blocks, filled.inside, clean, rest, fun _ => period⟩,
        ⟨.inr rfl, length_silence d, unusable⟩⟩
    · refine ⟨⟨sound.blocks, filled.inside, ?_, ?_, fun closed => by cases closed⟩,
        ⟨.inr rfl, length_silence d, unusable⟩⟩
      · dsimp only
        split
        · exact meets_append.mpr ⟨clean, (clears_close _).clean⟩
        · exact clean
      · dsimp only
        split
        · rw [run_concat]
          rfl
        · exact rest

theorem fill_sound {s : Loop} (sound : Sound d s) (t : Turn) :
    Sound d (s.fill d t).1 ∧ Recorded d (s.fill d t).1 (s.fill d t).2.1 := by
  have fresh : Sound d { s with pcmSamples := silence d } :=
    ⟨sound.blocks, sound.writes, sound.clean, sound.rest, sound.period⟩
  unfold Loop.fill
  dsimp only
  split
  next opened => exact record_sound fresh opened rfl t
  next => exact ⟨fresh, .inr rfl, length_silence d, fun n member => absurd member List.not_mem_nil⟩

theorem encode_sound {s : Loop} (sound : Sound d s) {taken : Taken} (recorded : Recorded d s taken) (t : Turn) :
    Sound d (s.encode d t taken) := by
  have broken (short : taken.got.length ≠ d * 48 * 2) : s.pcmSamples = silence d :=
    recorded.content.resolve_left fun same => short (same ▸ recorded.length)
  have unusable (n : Int) (member : .available n ∈ taken.calls) (bad : Unusable d s.capturePeriod n) :
      Silent d ⟨s.pcmSamples, frames d, taken, s.capturePeriod⟩ := by
    obtain ⟨nothing, unread⟩ := recorded.unusable n member bad
    refine ⟨nothing, unread, ?_⟩
    rcases recorded.content with same | silent
    · have empty : d * 48 * 2 = 0 := by rw [← recorded.length, same, nothing]; rfl
      rw [same, nothing, empty]
      rfl
    · exact silent
  have blocks : ∀ b ∈ s.blocks ++ [⟨s.pcmSamples, frames d, taken, s.capturePeriod⟩], Whole d b := by
    intro b member
    rcases List.mem_append.mp member with old | new
    · exact sound.blocks b old
    · rw [List.mem_singleton.mp new]
      exact ⟨rfl, recorded.length, recorded.content, broken, unusable⟩
  unfold Loop.encode
  dsimp only
  split <;> exact ⟨blocks, sound.writes, sound.clean, sound.rest, sound.period⟩

theorem packet_sound {s : Loop} (sound : Sound d s) (t : Turn) : Sound d (s.packet d t) := by
  obtain ⟨filled, recorded⟩ := fill_sound sound t
  have counted : Sound d { (s.fill d t).1 with silent := (s.fill d t).1.silent + 1 } :=
    ⟨filled.blocks, filled.writes, filled.clean, filled.rest, filled.period⟩
  unfold Loop.packet
  dsimp only
  split
  · split <;> exact ⟨filled.blocks, filled.writes, filled.clean, filled.rest, filled.period⟩
  · split
    · exact encode_sound filled recorded t
    · exact encode_sound counted ⟨recorded.content, recorded.length, recorded.unusable⟩ t

theorem reopen_sound {s : Loop} (sound : Sound d s) (t : Turn) : Sound d (s.reopen d t) := by
  unfold Loop.reopen
  split
  · dsimp only
    split
    · refine ⟨sound.blocks, sound.writes, ?_, ?_, fun _ => ?_⟩
      · exact meets_append.mpr ⟨sound.clean, fun other => (by cases other), trivial⟩
      · rw [run_concat]
        rfl
      · rw [run_concat]
        rfl
    · exact ⟨sound.blocks, sound.writes, sound.clean, sound.rest, sound.period⟩
  · exact sound

theorem step_sound (s : Loop) (t : Turn) (sound : Sound d s) : Sound d (s.step d t) := by
  unfold Loop.step
  split
  · exact sound
  · split
    · exact ⟨sound.blocks, sound.writes, sound.clean, sound.rest, sound.period⟩
    · dsimp only
      split
      · exact reopen_sound sound t
      · exact packet_sound (reopen_sound sound t) t

end packets

def hdmi : Hardware :=
  ⟨true, true, true, true, true, true, some 240, some 720, true, some 48000, some 240, some 720, some 2,
    some true, true⟩

def ready (n : Nat) : Readi n :=
  if h : 0 < n then .frames (List.replicate n (7, -7)) (by simpa using h) (by simp) else .status 0 (Int.le_refl 0)

def twice (second : (n : Nat) → Readi n) : Turn where
  shutdown := false
  now := 0
  opened := hdmi
  available := 0
  drop := true
  prepare := true
  readStart := 0
  reads := [⟨false, 0, fun n => if h : 0 < n then .frames [(7, -7)] (by simp) h else .status 0 (Int.le_refl 0)⟩,
    ⟨false, 1, second⟩]
  readEnd := 2
  shutdownAfter := false
  encoded := 100
  encodeEnd := 2

example : ((start 1 0).step 1 (twice ready)).blocks.map Block.samples =
    [interleaved (List.replicate 48 (7, -7))] := by decide +kernel

example : ((start 1 0).step 1 (twice fun _ => .status epipe (by decide))).blocks.map
    (fun b => (b.samples, b.taken.got)) = [(silence 1, [7, -7])] := by decide +kernel

end Sunshine.Audio

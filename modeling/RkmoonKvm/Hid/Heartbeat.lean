import RkmoonKvm.Library.Relay
import RkmoonKvm.Library.Runs

/-! The heartbeat: the loop of `HidClient::run` with its pings on one side, the reader and the watchdog of a
lease on the other, and the clock that both processes read. -/
namespace Hid.Heartbeat
open Runs

def timeout : ℚ := 2

/-- `min(0.2,self.timeout/4)` -/
def interval : ℚ := min (1 / 5) (timeout / 4)

/-- Where the client's loop is: it waits for an event, sends one, looks at its clock or sends a ping. -/
inductive Phase where
  | waiting | sending | checking | pinging
  deriving DecidableEq

/-- A phase takes its own time at most, and then as long as the scheduler is late: 20 ms for the wait, and
for a send its deadline of 100 ms with the poll of 10 ms that begins before it. -/
def Phase.limit (late : ℚ) : Phase → ℚ
  | .waiting => 1 / 50 + late
  | .sending => 11 / 100 + late
  | .checking => late
  | .pinging => 11 / 100 + late

structure State where
  now : ℚ
  phase : Phase := .waiting
  /-- When the phase began. -/
  since : ℚ
  /-- The client's variable. -/
  heartbeat : ℚ
  /-- When each line on the connection was written. -/
  wire : List ℚ := []
  /-- The server's variable. -/
  last : ℚ
  /-- When the watchdog last went to sleep. -/
  checked : ℚ
  expired : Bool := false
  deriving DecidableEq

inductive Label where
  | pass (d : ℚ)
  /-- The wait of the client ends, with an event or without one. -/
  | wake (have_ : Bool)
  | sent
  | beat
  | pinged
  | read
  | watch

namespace State

def enter (s : State) (phase : Phase) : State := { s with phase, since := s.now }

def write (s : State) : State := { s with wire := s.wire ++ [s.now] }

/-- The client's loop and the workers of the lease; an expired lease reads no more. -/
def step (s : State) : Label → State
  | .pass d => { s with now := s.now + d }
  | .wake have_ => if s.phase = .waiting then s.enter (if have_ then .sending else .checking) else s
  | .sent => if s.phase = .sending then s.write.enter .checking else s
  | .beat =>
    if s.phase = .checking then s.enter (if s.now - s.heartbeat ≥ 1 / 4 then .pinging else .waiting) else s
  | .pinged => if s.phase = .pinging then { s.write with heartbeat := s.now }.enter .waiting else s
  | .read =>
    match s.wire with
    | [] => s
    | _ :: wire => if s.expired then s else { s with wire, last := s.now }
  | .watch =>
    if s.expired ∨ s.now < s.checked + interval then s
    else { s with checked := s.now, expired := s.now - s.last > timeout }

end State

def fresh (start : ℚ) : State where
  now := start
  since := start
  heartbeat := start
  last := 0
  checked := 0

/-- No phase of the client overruns, and no line is long on its way. -/
def Prompt (late delay : ℚ) (s : State) : Label → Prop
  | .pass d => 0 ≤ d ∧ s.now + d ≤ s.since + s.phase.limit late ∧ ∀ w ∈ s.wire, s.now + d ≤ w + delay
  | _ => True

def Watched (slack : ℚ) (s : State) : Label → Prop
  | .pass d => 0 ≤ d ∧ s.now + d ≤ s.checked + interval + slack
  | _ => True

instance (late delay : ℚ) (s : State) (l : Label) : Decidable (Prompt late delay s l) := by
  cases l <;> unfold Prompt <;> infer_instance

instance (slack : ℚ) (s : State) (l : Label) : Decidable (Watched slack s l) := by
  cases l <;> unfold Watched <;> infer_instance

/-! The client writes often enough. -/

def Phase.begins (late : ℚ) : Phase → ℚ
  | .waiting => 1 / 4
  | .sending => 1 / 4 + (1 / 50 + late)
  | .checking => 1 / 4 + (1 / 50 + late) + (11 / 100 + late)
  | .pinging => 1 / 4 + (1 / 50 + late) + (11 / 100 + late) + late

def gap (late : ℚ) : ℚ := 49 / 100 + 4 * late

structure Beats (late : ℚ) (s : State) : Prop where
  past : s.heartbeat ≤ s.since ∧ s.since ≤ s.now
  began : s.since ≤ s.heartbeat + s.phase.begins late
  inTime : s.now ≤ s.since + s.phase.limit late

theorem beats_gap {late : ℚ} {s : State} (lates : 0 ≤ late) (beats : Beats late s) :
    s.now ≤ s.heartbeat + gap late := by
  have began := beats.began
  have inTime := beats.inTime
  unfold gap
  cases phase : s.phase <;> simp only [phase, Phase.begins, Phase.limit] at began inTime <;> linarith

theorem limit_nonneg {late : ℚ} (lates : 0 ≤ late) (p : Phase) : 0 ≤ p.limit late := by
  cases p <;> simp only [Phase.limit] <;> linarith

theorem beats_enter {late : ℚ} {s : State} {p : Phase} (lates : 0 ≤ late) (past : s.heartbeat ≤ s.now)
    (began : s.now ≤ s.heartbeat + p.begins late) : Beats late (s.enter p) where
  past := ⟨past, le_rfl⟩
  began := began
  inTime := le_add_of_nonneg_right (limit_nonneg lates p)

theorem beats_step {late delay : ℚ} (lates : 0 ≤ late) (s : State) (l : Label) (beats : Beats late s)
    (prompt : Prompt late delay s l) : Beats late (s.step l) := by
  obtain ⟨⟨earlier, now⟩, began, inTime⟩ := beats
  have past : s.heartbeat ≤ s.now := earlier.trans now
  cases l with
  | pass d =>
    obtain ⟨forward, inTime, _⟩ := prompt
    exact ⟨⟨earlier, now.trans (le_add_of_nonneg_right forward)⟩, began, inTime⟩
  | wake have_ =>
    simp only [State.step]
    split
    · rename_i waiting
      simp only [waiting, Phase.begins, Phase.limit] at began inTime
      apply beats_enter lates past
      cases have_ <;> simp only [Bool.false_eq_true, if_true, if_false, Phase.begins] <;> linarith
    · exact ⟨⟨earlier, now⟩, began, inTime⟩
  | sent =>
    simp only [State.step]
    split
    · rename_i sending
      simp only [sending, Phase.begins, Phase.limit] at began inTime
      apply beats_enter (s := s.write) lates past
      simp only [State.write, Phase.begins]
      linarith
    · exact ⟨⟨earlier, now⟩, began, inTime⟩
  | beat =>
    simp only [State.step]
    split
    · rename_i checking
      simp only [checking, Phase.begins, Phase.limit] at began inTime
      apply beats_enter lates past
      by_cases due : s.now - s.heartbeat ≥ 1 / 4
      · simp only [due, if_true, Phase.begins]
        linarith
      · simp only [due, if_false, Phase.begins]
        linarith
    · exact ⟨⟨earlier, now⟩, began, inTime⟩
  | pinged =>
    simp only [State.step]
    split
    · apply beats_enter lates le_rfl
      simp only [State.write, Phase.begins]
      linarith
    · exact ⟨⟨earlier, now⟩, began, inTime⟩
  | read =>
    simp only [State.step]
    split
    · exact ⟨⟨earlier, now⟩, began, inTime⟩
    · split <;> exact ⟨⟨earlier, now⟩, began, inTime⟩
  | watch =>
    simp only [State.step]
    split <;> exact ⟨⟨earlier, now⟩, began, inTime⟩

/-! The connection is a relay from the client to the reader. -/

structure Linked (start late delay : ℚ) (s : State) (written : ℚ) : Prop where
  beats : Beats late s
  heard : s.heartbeat ≤ written
  fresh : Relay.Fresh start (gap late) delay ⟨s.now, written, s.last, s.wire⟩

section linked
variable {start late delay : ℚ} (starts : 0 ≤ start) (lates : 0 ≤ late) (delays : 0 ≤ delay)
include starts lates delays

theorem linked_step (s : State) (l : Label) {written : ℚ} (linked : Linked start late delay s written)
    (prompt : Prompt late delay s l) : ∃ written, Linked start late delay (s.step l) written := by
  have beats := beats_step lates s l linked.beats prompt
  have gaps : 0 ≤ gap late := by
    unfold gap
    linarith
  have relays := fun l' => Relay.fresh_step starts gaps delays _ l' linked.fresh
  obtain ⟨⟨⟨earlier, now⟩, _, _⟩, heard, fresh⟩ := linked
  suffices next : ∃ written, (s.step l).heartbeat ≤ written ∧
      Relay.Fresh start (gap late) delay ⟨(s.step l).now, written, (s.step l).last, (s.step l).wire⟩ by
    obtain ⟨written, heard, fresh⟩ := next
    exact ⟨written, beats, heard, fresh⟩
  cases l with
  | pass d =>
    obtain ⟨forward, _, line⟩ := prompt
    have sender : s.now + d ≤ s.heartbeat + gap late := beats_gap lates beats
    have kept : s.heartbeat + gap late ≤ written + gap late := by linarith
    exact ⟨written, heard, relays (.pass d) ⟨forward, sender.trans kept, line⟩⟩
  | wake have_ | beat =>
    simp only [State.step]
    split <;> exact ⟨written, heard, fresh⟩
  | sent =>
    simp only [State.step]
    split
    · exact ⟨s.now, earlier.trans now, relays .write trivial⟩
    · exact ⟨written, heard, fresh⟩
  | pinged =>
    simp only [State.step]
    split
    · exact ⟨s.now, le_rfl, relays .write trivial⟩
    · exact ⟨written, heard, fresh⟩
  | read =>
    have moved := relays .read trivial
    simp only [State.step]
    split
    · exact ⟨written, heard, fresh⟩
    · rename_i rest held
      simp only [Relay.step, held] at moved
      split
      · exact ⟨written, heard, fresh⟩
      · exact ⟨written, heard, moved⟩
  | watch =>
    simp only [State.step]
    split <;> exact ⟨written, heard, fresh⟩

theorem alive_step (enough : start + gap late + delay ≤ timeout) (s : State) (l : Label)
    (alive : s.expired = false ∧ ∃ written, Linked start late delay s written) (prompt : Prompt late delay s l) :
    (s.step l).expired = false ∧ ∃ written, Linked start late delay (s.step l) written := by
  obtain ⟨live, written, linked⟩ := alive
  refine ⟨?_, linked_step starts lates delays s l linked prompt⟩
  have recent := linked.fresh.recent delays
  have soon : s.now - s.last ≤ timeout := by linarith
  cases l with
  | pass d => exact live
  | wake have_ | sent | beat | pinged =>
    simp only [State.step]
    split <;> exact live
  | read =>
    simp only [State.step]
    split
    · exact live
    · split <;> exact live
  | watch =>
    simp only [State.step]
    split
    · exact live
    · exact decide_eq_false (not_lt.mpr soon)

end linked

/-- A lease that has not expired was found in time at the last check, and the next one is near. -/
def Checked (slack : ℚ) (s : State) : Prop :=
  s.checked ≤ s.last + timeout ∧ s.last ≤ s.now ∧ s.now ≤ s.checked + interval + slack

theorem checked_step {slack : ℚ} (slacks : 0 ≤ slack) (s : State) (l : Label)
    (checked : s.expired = true ∨ Checked slack s) (watched : Watched slack s l) :
    (s.step l).expired = true ∨ Checked slack (s.step l) := by
  have intervals : 0 ≤ interval := by norm_num [interval, timeout]
  rcases checked with finished | ⟨found, past, near⟩
  · left
    cases l with
    | pass d => exact finished
    | wake have_ | sent | beat | pinged =>
      simp only [State.step]
      split <;> exact finished
    | read =>
      simp only [State.step]
      split
      · exact finished
      · simp [finished]
    | watch => simp [State.step, finished]
  · cases l with
    | pass d =>
      obtain ⟨forward, near⟩ := watched
      exact .inr ⟨found, past.trans (le_add_of_nonneg_right forward), near⟩
    | wake have_ | sent | beat | pinged =>
      right
      simp only [State.step]
      split <;> exact ⟨found, past, near⟩
    | read =>
      right
      simp only [State.step]
      split
      · exact ⟨found, past, near⟩
      · split
        · exact ⟨found, past, near⟩
        · exact ⟨by show s.checked ≤ s.now + timeout; linarith, le_rfl, near⟩
    | watch =>
      simp only [State.step]
      split
      · exact .inr ⟨found, past, near⟩
      · by_cases silent : s.now - s.last > timeout
        · exact .inl (decide_eq_true silent)
        · right
          refine ⟨?_, past, ?_⟩
          · show s.now ≤ s.last + timeout
            linarith
          · show s.now ≤ s.now + interval + slack
            linarith

theorem linked_fresh {start late delay : ℚ} (lates : 0 ≤ late) :
    Linked start late delay (fresh start) start where
  beats := ⟨⟨le_rfl, le_rfl⟩, le_add_of_nonneg_right (by simp only [fresh, Phase.begins]; norm_num),
    le_add_of_nonneg_right (limit_nonneg lates _)⟩
  heard := le_rfl
  fresh := {
    past := ⟨le_rfl, List.forall_mem_nil _⟩
    sender := le_add_of_nonneg_right (by unfold gap; linarith)
    line := List.forall_mem_nil _
    first := nofun
    quiet := fun _ => (zero_add start).ge }

/-- The watchdog tells a client that runs from one that does not: as long as no phase of the client overruns
and no line is held up for long, the lease never expires; and at any time a lease that has not expired was heard
within the timeout, one sleep of the watchdog and its slack. -/
theorem heartbeat_decides (start late delay slack : ℚ) (starts : 0 ≤ start) (lates : 0 ≤ late)
    (delays : 0 ≤ delay) (slacks : 0 ≤ slack) (ls : List Label) :
    let s := run State.step (fresh start) ls
    (start + gap late + delay ≤ timeout → Meets State.step (Prompt late delay) (fresh start) ls →
      s.expired = false) ∧
    (start ≤ interval + slack → Meets State.step (Watched slack) (fresh start) ls →
      s.expired = true ∨ s.now ≤ s.last + timeout + interval + slack) := by
  intro s
  constructor
  · intro enough prompt
    exact (meets_invariant State.step (Prompt late delay)
      (fun s => s.expired = false ∧ ∃ written, Linked start late delay s written)
      (fun s l alive prompt => alive_step starts lates delays enough s l alive prompt)
      ⟨rfl, start, linked_fresh lates⟩ ls prompt).1
  · intro soon watched
    have first : Checked slack (fresh start) := by
      refine ⟨by norm_num [fresh, timeout], starts, ?_⟩
      show start ≤ 0 + interval + slack
      rwa [zero_add]
    have checked := meets_invariant State.step (Watched slack) (fun s => s.expired = true ∨ Checked slack s)
      (fun s l checked watched => checked_step slacks s l checked watched) (.inr first) ls watched
    apply checked.imp_right
    rintro ⟨found, _, near⟩
    show s.now ≤ s.last + timeout + interval + slack
    have recent : s.checked ≤ s.last + timeout := found
    linarith

theorem heartbeat_decides_ping :
    let ls : List Label :=
      [.pass (1 / 5), .wake true, .pass (1 / 5), .sent, .pass (1 / 10), .read, .beat, .pinged, .read]
    (run State.step (fresh 0) (ls ++ [.watch])).expired = false ∧
      ((run State.step (fresh 0) (ls ++ [.pass 3, .watch])).expired = true) := by
  intro ls
  have decided := heartbeat_decides 0 (1 / 5) (1 / 10) (1 / 10) le_rfl (by norm_num) (by norm_num) (by norm_num)
    (ls ++ [.watch])
  refine ⟨decided.1 (by norm_num [gap, timeout]) (by decide +kernel), by decide +kernel⟩

end Hid.Heartbeat

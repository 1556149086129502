import Mathlib.Tactic.Ring
import RkmoonKvm.Library.Pacer
import RkmoonKvm.Library.Runs

/-! The pacing of the reports to the USB endpoints: a keyboard and a mouse slot, each with
the time from which it is free. Times are exact; a sleep can end too early or too late. -/
namespace Hid.Pacing
open Runs

def mouseReportInterval : ℚ := 42 / 10000

inductive Slot where
  | mouse | keyboard
  deriving DecidableEq

inductive Sender where
  | key | button | absolute | wheel
  | moveMany (deltas : Nat)

def Sender.slot : Sender → Slot
  | .key => .keyboard
  | .button | .absolute | .wheel | .moveMany _ => .mouse

def Sender.reports : Sender → Nat
  | .key | .button | .absolute | .wheel => 1
  | .moveMany deltas => deltas

structure Batch where
  time : ℚ
  reports : Nat
  deriving DecidableEq

/-- A call that sleeps: since when and for how long, and what it read before. -/
structure Sleeper where
  since : ℚ
  duration : ℚ
  freeAt : ℚ
  reports : Nat

structure Lane where
  freeAt : ℚ := 0
  sleeper : Option Sleeper := none
  sent : List Batch := []

namespace Lane

def grant (l : Lane) (now freeAt : ℚ) (reports : Nat) : Lane where
  freeAt := max now freeAt + reports * mouseReportInterval
  sleeper := none
  sent := l.sent ++ [⟨now, reports⟩]

/-- `_slot`, up to its sleep; the calls of one slot are awaited one after the other. -/
def enter (l : Lane) (now : ℚ) (reports : Nat) : Lane :=
  match l.sleeper with
  | some _ => l
  | none =>
    if l.freeAt > now then { l with sleeper := some ⟨now, l.freeAt - now, l.freeAt, reports⟩ }
    else l.grant now l.freeAt reports

def wake (l : Lane) (now : ℚ) : Lane :=
  match l.sleeper with
  | some s => l.grant now s.freeAt s.reports
  | none => l

end Lane

inductive Move where
  | enter (now : ℚ) (reports : Nat)
  | wake (now : ℚ)

def Lane.step (l : Lane) : Move → Lane
  | .enter now reports => l.enter now reports
  | .wake now => l.wake now

/-- A sleep ends at most one clock resolution early. -/
def Timely (resolution : ℚ) (l : Lane) : Move → Prop
  | .enter _ _ => True
  | .wake now => ∀ s ∈ l.sleeper, s.since + s.duration - resolution ≤ now

instance (resolution : ℚ) (l : Lane) (m : Move) : Decidable (Timely resolution l m) := by
  cases m <;> unfold Timely <;> infer_instance

structure Stream where
  mouse : Lane := {}
  keyboard : Lane := {}

inductive Label where
  | call (sender : Sender) (now : ℚ)
  | wake (slot : Slot) (now : ℚ)

namespace Stream

def lane (s : Stream) : Slot → Lane
  | .mouse => s.mouse
  | .keyboard => s.keyboard

def moved (s : Stream) (slot : Slot) (m : Move) : Stream :=
  match slot with
  | .mouse => { s with mouse := s.mouse.step m }
  | .keyboard => { s with keyboard := s.keyboard.step m }

def step (s : Stream) : Label → Stream
  | .call sender now => s.moved sender.slot (.enter now sender.reports)
  | .wake slot now => s.moved slot (.wake now)

end Stream

def Label.move (slot : Slot) : Label → Option Move
  | .call sender now => if sender.slot = slot then some (.enter now sender.reports) else none
  | .wake slot' now => if slot' = slot then some (.wake now) else none

def AllTimely (resolution : ℚ) (ls : List Label) : Prop :=
  ∀ slot, Meets Stream.step (fun s l => ∀ m ∈ l.move slot, Timely resolution (s.lane slot) m) {} ls

theorem lane_moves (slot : Slot) (s : Stream) (l : Label) :
    (s.step l).lane slot = (l.move slot).elim (s.lane slot) (s.lane slot).step := by
  cases l with
  | call sender now =>
    simp only [Stream.step, Label.move]
    cases sender.slot <;> cases slot <;> rfl
  | wake slot' now =>
    simp only [Stream.step, Label.move]
    cases slot' <;> cases slot <;> rfl

/-! One lane. -/

def cost (b : Batch) : ℚ := b.reports * mouseReportInterval

structure Good (resolution : ℚ) (l : Lane) : Prop where
  paced : Pacer.Paced Batch.time cost resolution l.sent l.freeAt
  asleep : ∀ s ∈ l.sleeper, s.freeAt = l.freeAt ∧ s.since + s.duration = l.freeAt

theorem good_grant {resolution : ℚ} {l : Lane} (good : Good resolution l) {now : ℚ} (reports : Nat)
    (soon : l.freeAt - resolution ≤ now) : Good resolution (l.grant now l.freeAt reports) where
  paced := by
    have granted := good.paced.grant (x := ⟨now, reports⟩) soon
    exact granted
  asleep := nofun

/-- A call that does not sleep is late enough, and one that does is early by the error of its
sleep, which the next one then waits for. -/
theorem good_step {resolution : ℚ} (nonneg : 0 ≤ resolution) (l : Lane) (m : Move)
    (good : Good resolution l) (timely : Timely resolution l m) : Good resolution (l.step m) := by
  cases m with
  | enter now reports =>
    simp only [Lane.step, Lane.enter]
    cases sleeper : l.sleeper with
    | some s => exact good
    | none =>
      by_cases early : l.freeAt > now
      · simp only [early, if_true]
        refine ⟨good.paced, fun s member => ?_⟩
        cases member
        exact ⟨rfl, by ring⟩
      · simp only [early, if_false]
        exact good_grant good reports (by linarith)
  | wake now =>
    simp only [Lane.step, Lane.wake]
    cases sleeper : l.sleeper with
    | none => exact good
    | some s =>
      obtain ⟨same, until_free⟩ := good.asleep s sleeper
      have late : l.freeAt - resolution ≤ now := until_free ▸ timely s sleeper
      simp only [same]
      exact good_grant good s.reports late

theorem total_cost (batches : List Batch) :
    Pacer.total cost batches = ((batches.map Batch.reports).sum : ℕ) * mouseReportInterval := by
  induction batches with
  | nil => simp
  | cons b rest ih =>
    rw [Pacer.total_cons, ih, cost, List.map_cons, List.sum_cons]
    push_cast
    ring

/-- Between any two batches of a slot lies the whole length of what was sent from the first
one on, up to one resolution of the clock, whatever the other slot does. -/
theorem reports_paced {resolution : ℚ} (nonneg : 0 ≤ resolution) {ls : List Label}
    (timely : AllTimely resolution ls) (slot : Slot) (before : List Batch) (first : Batch)
    (mid : List Batch) (next : Batch) (after : List Batch)
    (sent : ((run Stream.step {} ls).lane slot).sent = before ++ first :: (mid ++ next :: after)) :
    (((first :: mid).map Batch.reports).sum : ℕ) * mouseReportInterval - resolution ≤
      next.time - first.time := by
  let lane := fun s : Stream => s.lane slot
  have moves : ∀ s l, lane (Stream.step s l) = (Label.move slot l).elim (lane s) (Lane.step (lane s)) :=
    lane_moves slot
  have own : Meets Lane.step (Timely resolution) (lane {}) (ls.filterMap (Label.move slot)) :=
    (meets_part moves (Timely resolution) {} ls).mp (timely slot)
  have start : Good resolution (lane {}) := by
    cases slot <;> exact ⟨Pacer.paced_nil _, nofun⟩
  have good := meets_invariant Lane.step (Timely resolution) (Good resolution) (good_step nonneg) start _ own
  rw [← run_part moves] at good
  rw [← total_cost]
  exact good.paced.apart before first mid next after sent

def draggedClick : List Label :=
  [.call (.moveMany 2) 1, .call .key 1, .call .button 1, .wake .mouse (10074 / 10000)]

theorem draggedClick_paced :
    ((run Stream.step {} draggedClick).lane .mouse).sent = [⟨1, 2⟩, ⟨10074 / 10000, 1⟩] ∧
      (2 : ℕ) * mouseReportInterval - 1 / 1000 ≤ 10074 / 10000 - 1 := by
  have timely : AllTimely (1 / 1000) draggedClick := by
    intro slot
    cases slot <;> decide +kernel
  have sent : ((run Stream.step {} draggedClick).lane .mouse).sent = [⟨1, 2⟩, ⟨10074 / 10000, 1⟩] := by
    decide +kernel
  exact ⟨sent, reports_paced (by norm_num) timely .mouse [] ⟨1, 2⟩ [] ⟨10074 / 10000, 1⟩ [] sent⟩

end Hid.Pacing

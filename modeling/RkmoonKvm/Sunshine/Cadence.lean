import RkmoonKvm.Library.Pacer
import RkmoonKvm.Sunshine.Audio

/-! The packet clock of the audio loop: how far apart its packets are, whatever the device and the
clock do, and that it neither drifts nor catches up. -/
namespace Sunshine.Audio
open Runs

/-- A packet that was raised: when its turn began and when it was encoded. -/
structure Raised where
  now : Int
  encodeEnd : Int
  deriving DecidableEq

structure Clock where
  loop : Loop
  raised : List Raised := []

section cadence
variable (d : Nat)

def raises (s : Loop) (t : Turn) : Bool :=
  !s.ended && !t.shutdown && s.nextPacket ≤ t.now && !t.shutdownAfter && 0 ≤ t.encoded

def Clock.step (c : Clock) (t : Turn) : Clock where
  loop := c.loop.step d t
  raised := if raises c.loop t then c.raised ++ [⟨t.now, t.encodeEnd⟩] else c.raised

theorem reopen_next (s : Loop) (t : Turn) :
    (s.reopen d t).nextPacket = s.nextPacket ∧ (s.reopen d t).ended = s.ended := by
  unfold Loop.reopen
  split
  · dsimp only
    split <;> exact ⟨rfl, rfl⟩
  · exact ⟨rfl, rfl⟩

theorem record_next (s : Loop) (t : Turn) :
    (s.record d t).1.nextPacket = s.nextPacket ∧ (s.record d t).1.ended = s.ended := by
  unfold Loop.record
  dsimp only
  split
  · exact ⟨rfl, rfl⟩
  · split <;> exact ⟨rfl, rfl⟩

theorem fill_next (s : Loop) (t : Turn) :
    (s.fill d t).1.nextPacket = s.nextPacket ∧ (s.fill d t).1.ended = s.ended := by
  unfold Loop.fill
  dsimp only
  split
  · exact record_next d { s with pcmSamples := silence d } t
  · exact ⟨rfl, rfl⟩

theorem step_next (s : Loop) (t : Turn) : (s.step d t).nextPacket =
    if raises s t then max (s.nextPacket + millis d) t.encodeEnd else s.nextPacket := by
  unfold Loop.step raises
  obtain ⟨next, ended⟩ := reopen_next d s t
  cases finished : s.ended with
  | true => rfl
  | false =>
    cases told : t.shutdown with
    | true => rfl
    | false =>
      by_cases due : s.nextPacket ≤ t.now
      · have turn : ¬ t.now < (s.reopen d t).nextPacket := by rw [next]; omega
        obtain ⟨filled, _⟩ := fill_next d (s.reopen d t) t
        simp only [Bool.false_eq_true, if_false, turn, Loop.packet, Loop.encode]
        cases after : t.shutdownAfter with
        | true =>
          simp only [if_true]
          split <;> simp [filled, next]
        | false =>
          by_cases fine : t.encoded < 0
          · have refused : ¬ 0 ≤ t.encoded := by omega
            simp only [Bool.false_eq_true, if_false, if_pos fine, refused]
            split <;> simp [filled, next]
          · have encoded : 0 ≤ t.encoded := by omega
            simp only [Bool.false_eq_true, if_false, if_neg fine, encoded, due]
            split <;> simp [filled, next]
      · have early : t.now < s.nextPacket := by omega
        simp only [Bool.false_eq_true, if_false, next, if_pos early]
        simp [due]

/-- The clock does not run backwards inside a turn. -/
def Forward (t : Turn) : Prop := t.now ≤ t.encodeEnd

instance (t : Turn) : Decidable (Forward t) := inferInstanceAs (Decidable (_ ≤ _))

def Raised.time (r : Raised) : ℚ := r.encodeEnd

theorem step_paced (c : Clock) (t : Turn) (forward : Forward t)
    (paced : Pacer.Paced Raised.time (fun _ => (millis d : ℚ)) (millis d) c.raised
      (c.loop.nextPacket + millis d)) :
    Pacer.Paced Raised.time (fun _ => (millis d : ℚ)) (millis d) (c.step d t).raised
      ((c.step d t).loop.nextPacket + millis d) := by
  have next := step_next d c.loop t
  cases raised : raises c.loop t with
  | false =>
    rw [raised] at next
    simp only [Clock.step, raised, next, Bool.false_eq_true, if_false]
    exact paced
  | true =>
    rw [raised] at next
    simp only [Clock.step, raised, next, if_true]
    have due : c.loop.nextPacket ≤ t.now := by
      simp only [raises, Bool.and_eq_true, decide_eq_true_eq] at raised
      exact raised.1.1.2
    rw [max_comm, Int.cast_max, Int.cast_add]
    refine paced.grant ?_
    rw [add_sub_cancel_right, Raised.time]
    exact_mod_cast le_trans due forward

def Punctual (c : Clock) (t : Turn) : Prop :=
  raises c.loop t → t.encodeEnd ≤ c.loop.nextPacket + millis d

theorem step_punctual {now : Int} (c : Clock) (t : Turn)
    (due : c.loop.nextPacket = now + c.raised.length * millis d) (punctual : Punctual d c t) :
    (c.step d t).loop.nextPacket = now + (c.step d t).raised.length * millis d := by
  have next := step_next d c.loop t
  cases raised : raises c.loop t with
  | false =>
    rw [raised] at next
    simp only [Clock.step, raised, next, Bool.false_eq_true, if_false]
    exact due
  | true =>
    have early := punctual raised
    rw [raised] at next
    rw [if_pos rfl, max_eq_left early, due] at next
    simp only [Clock.step, raised, if_true, next, List.length_append, List.length_singleton,
      Nat.cast_add, Nat.cast_one, add_mul, one_mul, add_assoc]

end cadence

/-- Whatever the device gives and whenever the turns come: two packets with `n` others between them are at
least `n` packet durations apart, so that a late read is never caught up with in a burst; and as long as
every packet is encoded before the next is due, the packet behind `n` others is due exactly `n` packet
durations after the start. -/
theorem packet_clock (packetDuration : Nat) (now : Int) (turns : List Turn)
    (forward : ∀ t ∈ turns, Forward t) :
    let c := run (Clock.step packetDuration) { loop := start packetDuration now } turns
    (∀ before a mid b after, c.raised = before ++ a :: (mid ++ b :: after) →
      a.encodeEnd + mid.length * millis packetDuration ≤ b.encodeEnd) ∧
    (Meets (Clock.step packetDuration) (Punctual packetDuration)
        { loop := start packetDuration now } turns →
      c.loop.nextPacket = now + c.raised.length * millis packetDuration) := by
  intro c
  constructor
  · intro before a mid b after raised
    have paced := meets_invariant (Clock.step packetDuration) (fun _ => Forward) _
      (fun c t paced forward => step_paced packetDuration c t forward paced)
      (Pacer.paced_nil _) turns (meets_of_forall forward { loop := start packetDuration now })
    have apart := paced.metronome raised
    rw [Raised.time, Raised.time, le_sub_iff_add_le, add_comm] at apart
    exact_mod_cast apart
  · intro punctual
    refine meets_invariant (Clock.step packetDuration) (Punctual packetDuration)
      (fun c => c.loop.nextPacket = now + c.raised.length * millis packetDuration)
      (fun c t due punctual => step_punctual packetDuration c t due punctual) ?_ turns punctual
    simp [start]

def lateTurns : List Turn :=
  [{ twice ready with encodeEnd := millis 1000 }, { twice ready with now := millis 1000, encodeEnd := millis 1000 }]

theorem packet_clock_late : ∃ a b : Raised,
    (run (Clock.step 10) { loop := start 10 0 } lateTurns).raised = [a, b] ∧
      a.encodeEnd + 0 * millis 10 ≤ b.encodeEnd := by
  have forward : ∀ t ∈ lateTurns, Forward t := by decide +kernel
  have raised : ∃ a b : Raised, (run (Clock.step 10) { loop := start 10 0 } lateTurns).raised = [a, b] :=
    ⟨⟨0, millis 1000⟩, ⟨millis 1000, millis 1000⟩, by decide +kernel⟩
  obtain ⟨a, b, raised⟩ := raised
  exact ⟨a, b, raised, (packet_clock 10 0 lateTurns forward).1 [] a [] b [] raised⟩

end Sunshine.Audio

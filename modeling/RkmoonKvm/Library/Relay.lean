import Mathlib.Algebra.Order.Field.Basic
import Mathlib.Tactic.Linarith

/-! A sender, a line that keeps the order, and a receiver, with their clock. Where the sender does not stay
silent and the line does not hold anything for long, the receiver never waits long. -/
namespace Relay

variable {K : Type} [Field K] [LinearOrder K]

structure State (K : Type) where
  now : K
  /-- When the sender last wrote. -/
  written : K
  /-- When the receiver last read. -/
  last : K
  /-- When what is still on the line was written, oldest first. -/
  wire : List K := []

inductive Label (K : Type) where
  | pass (d : K)
  | write
  | read

def step (s : State K) : Label K → State K
  | .pass d => { s with now := s.now + d }
  | .write => { s with written := s.now, wire := s.wire ++ [s.now] }
  | .read =>
    match s.wire with
    | [] => s
    | _ :: wire => { s with wire, last := s.now }

/-- Time does not pass the next write of the sender, nor the delivery of anything on the line. -/
def Timely (gap delay : K) (s : State K) : Label K → Prop
  | .pass d => 0 ≤ d ∧ s.now + d ≤ s.written + gap ∧ ∀ w ∈ s.wire, s.now + d ≤ w + delay
  | _ => True

/-- The receiver started at most `lag` before the sender. -/
structure Fresh (lag gap delay : K) (s : State K) : Prop where
  past : s.written ≤ s.now ∧ ∀ w ∈ s.wire, w ≤ s.now
  sender : s.now ≤ s.written + gap
  line : ∀ w ∈ s.wire, s.now ≤ w + delay
  first : ∀ w ∈ s.wire.head?, w ≤ s.last + lag + gap
  quiet : s.wire = [] → s.written ≤ s.last + lag

variable [IsStrictOrderedRing K] {lag gap delay : K} {s : State K}

theorem fresh_pass (fresh : Fresh lag gap delay s) {d : K} (timely : Timely gap delay s (.pass d)) :
    Fresh lag gap delay (step s (.pass d)) := by
  obtain ⟨forward, sender, line⟩ := timely
  obtain ⟨written, wire⟩ := fresh.past
  have later : s.now ≤ s.now + d := le_add_of_nonneg_right forward
  exact ⟨⟨written.trans later, fun w member => (wire w member).trans later⟩, sender, line, fresh.first, fresh.quiet⟩

theorem fresh_write (fresh : Fresh lag gap delay s) (gaps : 0 ≤ gap) (delays : 0 ≤ delay) :
    Fresh lag gap delay (step s .write) := by
  have soon : s.now ≤ s.now + gap := le_add_of_nonneg_right gaps
  constructor
  · refine ⟨le_rfl, ?_⟩
    exact List.forall_mem_append.mpr ⟨fresh.past.2, List.forall_mem_singleton.mpr le_rfl⟩
  · exact soon
  · exact List.forall_mem_append.mpr
      ⟨fresh.line, List.forall_mem_singleton.mpr (le_add_of_nonneg_right delays)⟩
  · intro w first
    cases held : s.wire with
    | nil =>
      have same : w = s.now := by simpa [step, held, eq_comm] using first
      have sender := fresh.sender
      have quiet := fresh.quiet held
      rw [same]
      show s.now ≤ s.last + lag + gap
      linarith
    | cons front rest =>
      have same : front = w := by simpa [step, held] using first
      exact fresh.first w (by simp [held, same])
  · intro none_
    exact absurd none_ (by simp [step])

theorem fresh_read (fresh : Fresh lag gap delay s) (lags : 0 ≤ lag) (gaps : 0 ≤ gap) :
    Fresh lag gap delay (step s .read) := by
  cases held : s.wire with
  | nil =>
    have same : step s .read = s := by simp [step, held]
    rw [same]
    exact fresh
  | cons front rest =>
    have same : step s .read = { s with wire := rest, last := s.now } := by simp [step, held]
    have inside : ∀ w ∈ rest, w ∈ s.wire := by
      intro w member
      rw [held]
      exact List.mem_cons_of_mem _ member
    obtain ⟨written, wire⟩ := fresh.past
    rw [same]
    constructor
    · exact ⟨written, fun w member => wire w (inside w member)⟩
    · exact fresh.sender
    · exact fun w member => fresh.line w (inside w member)
    · intro w first
      have before := wire w (inside w (List.mem_of_mem_head? first))
      show w ≤ s.now + lag + gap
      linarith
    · intro _
      show s.written ≤ s.now + lag
      linarith

theorem fresh_step (lags : 0 ≤ lag) (gaps : 0 ≤ gap) (delays : 0 ≤ delay) (s : State K) (l : Label K)
    (fresh : Fresh lag gap delay s) (timely : Timely gap delay s l) : Fresh lag gap delay (step s l) := by
  cases l with
  | pass d => exact fresh_pass fresh timely
  | write => exact fresh_write fresh gaps delays
  | read => exact fresh_read fresh lags gaps

theorem Fresh.recent (fresh : Fresh lag gap delay s) (delays : 0 ≤ delay) : s.now ≤ s.last + lag + gap + delay := by
  cases held : s.wire with
  | nil =>
    have sender := fresh.sender
    have quiet := fresh.quiet held
    linarith
  | cons w rest =>
    have line := fresh.line w (by simp [held])
    have first := fresh.first w (by simp [held])
    linarith

end Relay

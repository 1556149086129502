import RkmoonKvm.Library.Runs
import RkmoonKvm.Video.Nal

/-! The gate of a session over whole runs of calls: what it accepts is numbered
without a gap, starts behind every recovery with a keyframe, and owes nothing to
the messages that it rejected. -/
namespace Video

/-- The statements of `accept` one by one, with the gate that an exception leaves. -/
def SequenceGate.acceptStatements (g : SequenceGate) (m : Message) :
    Except String Unit × SequenceGate :=
  match validateAu m g.needIdr with
  | .error e => (.error e, g)
  | .ok () =>
    if m.h.seq ≠ g.last + 1 then (.error discontinuity, g)
    else
      let g := { g with last := m.h.seq }
      let g := { g with needIdr := false }
      (.ok (), g)

theorem SequenceGate.accept_statements (g : SequenceGate) (m : Message) :
    g.accept m = (g.acceptStatements m).1.map fun _ => (g.acceptStatements m).2 := by
  unfold accept acceptStatements
  cases valid : validateAu m g.needIdr with
  | error e => rfl
  | ok u =>
    by_cases next : m.h.seq ≠ g.last + 1
    · simp only [bind, Except.bind, if_pos next]
      rfl
    · simp only [bind, Except.bind, if_neg next]
      rfl

inductive GateCall where
  | accept (m : Message)
  | recover
  deriving DecidableEq

/-- The gate of a session, and what it has accepted, oldest first. -/
structure GateRun where
  gate : SequenceGate := {}
  accepted : List Message := []
  deriving DecidableEq

namespace GateRun

def step (s : GateRun) : GateCall → GateRun
  | .accept m =>
    { gate := (s.gate.acceptStatements m).2,
      accepted := match (s.gate.acceptStatements m).1 with
        | .ok () => s.accepted ++ [m]
        | .error _ => s.accepted }
  | .recover => { s with gate := s.gate.recover }

def throws (s : GateRun) : GateCall → Bool
  | .accept m => match s.gate.accept m with
    | .ok _ => false
    | .error _ => true
  | .recover => false

def kept : GateRun → List GateCall → List GateCall
  | _, [] => []
  | s, c :: cs => if s.throws c then kept (s.step c) cs else c :: kept (s.step c) cs

/-- What an accept does, said once: it appends its message, or it changes nothing. -/
theorem step_accept (s : GateRun) (m : Message) :
    (∃ g, s.gate.accept m = .ok g ∧ s.throws (.accept m) = false ∧
      s.step (.accept m) = { gate := g, accepted := s.accepted ++ [m] }) ∨
    (∃ e, s.gate.accept m = .error e ∧ s.throws (.accept m) = true ∧
      s.step (.accept m) = s) := by
  have statements := s.gate.accept_statements m
  unfold step throws
  unfold SequenceGate.acceptStatements at statements ⊢
  cases valid : validateAu m s.gate.needIdr with
  | error e =>
    right
    simp only [valid] at statements ⊢
    exact ⟨e, statements, by rw [statements]; rfl, trivial⟩
  | ok u =>
    by_cases next : m.h.seq ≠ s.gate.last + 1
    · right
      simp only [valid, if_pos next] at statements ⊢
      exact ⟨_, statements, by rw [statements]; rfl, trivial⟩
    · left
      simp only [valid, if_neg next] at statements ⊢
      exact ⟨_, statements, by rw [statements]; rfl, rfl⟩

/-- The gate remembers the number of the last message, and asks for a keyframe first. -/
structure Numbered (s : GateRun) : Prop where
  consecutive : Consecutive s.accepted
  last : s.gate.last.toNat = s.accepted.length

theorem step_numbered (s : GateRun) (c : GateCall) (h : Numbered s) : Numbered (s.step c) := by
  cases c with
  | recover => exact ⟨h.consecutive, h.last⟩
  | accept m =>
    obtain ⟨g, accepted, -, stepped⟩ | ⟨e, -, -, stepped⟩ := step_accept s m
    · obtain ⟨seq, last, -⟩ := SequenceGate.accept_numbers accepted
      rw [stepped]
      refine ⟨(consecutive_concat _ m).mpr ⟨h.consecutive, ?_⟩, ?_⟩
      · rw [seq, h.last]
      · rw [last, seq, h.last, List.length_append, List.length_singleton]
    · rwa [stepped]

theorem run_numbered (calls : List GateCall) : Numbered (Runs.run step {} calls) :=
  Runs.run_invariant step Numbered step_numbered
    ⟨show Consecutive [] from rfl, rfl⟩ calls

theorem run_appends (s : GateRun) (calls : List GateCall) :
    ∃ ms, (Runs.run step s calls).accepted = s.accepted ++ ms ∧
      (s.gate.needIdr → ∀ m ∈ ms.head?, Recovery m) := by
  induction calls generalizing s with
  | nil => exact ⟨[], by simp, by simp⟩
  | cons c calls ih =>
    obtain ⟨ms, appended, starts⟩ := ih (s.step c)
    rw [Runs.run_cons, appended]
    cases c with
    | recover => exact ⟨ms, rfl, fun _ => starts rfl⟩
    | accept m =>
      obtain ⟨g, accepted, -, stepped⟩ | ⟨e, -, -, stepped⟩ := step_accept s m
      · refine ⟨m :: ms, by rw [stepped, List.append_assoc, List.singleton_append], ?_⟩
        intro needed m' head
        obtain rfl : m = m' := by simpa using head
        have valid := (SequenceGate.accept_ok accepted).1
        rw [needed] at valid
        exact ((validateAu_recovery m).mp valid).2.2.2
      · rw [stepped] at starts ⊢
        exact ⟨ms, rfl, starts⟩

theorem run_kept (s : GateRun) (calls : List GateCall) :
    Runs.run step s (kept s calls) = Runs.run step s calls := by
  induction calls generalizing s with
  | nil => rfl
  | cons c calls ih =>
    rw [Runs.run_cons, kept]
    split
    · rename_i thrown
      have unchanged : s.step c = s := by
        cases c with
        | recover => cases thrown
        | accept m =>
          obtain ⟨g, -, quiet, -⟩ | ⟨e, -, -, stepped⟩ := step_accept s m
          · cases quiet.symm.trans thrown
          · exact stepped
      rw [unchanged]
      exact ih s
    · rw [Runs.run_cons]
      exact ih _

/-- Over every run of calls on a fresh gate: the accepted messages are numbered
1, 2, ..., k; the first of all and the first behind every recovery is a keyframe with
its parameter sets; and the calls that throw leave no trace. -/
theorem gate_runs (calls : List GateCall) :
    Consecutive (Runs.run step {} calls).accepted ∧
    (∀ m ∈ (Runs.run step {} calls).accepted.head?, Recovery m) ∧
    (∀ before after, calls = before ++ .recover :: after →
      ∀ m ∈ ((Runs.run step {} calls).accepted.drop
        (Runs.run step {} before).accepted.length).head?, Recovery m) ∧
    Runs.run step {} (kept {} calls) = Runs.run step {} calls := by
  refine ⟨(run_numbered calls).consecutive, ?_, ?_, run_kept {} calls⟩
  · obtain ⟨ms, appended, starts⟩ := run_appends {} calls
    rw [appended]
    exact starts rfl
  · rintro before after rfl
    obtain ⟨ms, appended, starts⟩ := run_appends ((Runs.run step {} before).step .recover) after
    have all : (Runs.run step {} (before ++ .recover :: after)).accepted =
        (Runs.run step {} before).accepted ++ ms := by
      rw [Runs.run, List.foldl_append]
      exact appended
    rw [all, List.drop_left]
    exact starts rfl

end GateRun
end Video

import RkmoonKvm.Library.Log
import RkmoonKvm.Library.Runs
import RkmoonKvm.Client.Retry

/-! The bookkeeping of reconnects: the attempt counter, the pending flag and its timer, and
what each launch of a session is due to. -/
namespace Client.Reconnect
open Runs Window

/-- What a launch is due to: a click on Start, an attempt that was scheduled, or the restart
that follows a confirmed change of the source mode. -/
inductive Cause
  | start | retry | restart
  deriving DecidableEq

inductive Event
  | clicked
  | launched (due : Option Cause)
  /-- `scheduleReconnect` has raised the attempt count. -/
  | raised
  /-- A session has ended with a confirmed mode restart. -/
  | restarted
  deriving DecidableEq

structure State where
  window : Window := {}
  log : List Event := []

def Event.cause : Event → Option Cause
  | .clicked => some .start
  | .launched _ => none
  | .raised => some .retry
  | .restarted => some .restart

def due (log : List Event) : Option Cause := log.getLast?.bind Event.cause

def clicks : Label → Bool
  | .startClicked => true
  | _ => false

def connects : Label → Bool
  | .connectionStarted => true
  | _ => false

def launching (w : Window) : Label → Bool
  | .runStream _ =>
    0 < w.launches && !(w.streaming || w.connecting || !w.wantStream || !w.display.canStart) &&
      w.mouseSupported
  | _ => false

def restarting (w : Window) : Label → Bool
  | .cleanupReady => w.streaming && w.cleanup && w.wantStream && !w.userQuit && w.restart
  | _ => false

/-- The log after a step: a click, a launch, a raise and a restart are noted in this order. -/
def noted (log : List Event) (clicked launched raised restarts : Bool) : List Event :=
  log ++ (if clicked then [.clicked] else []) ++ (if launched then [.launched (due log)] else []) ++
    (if raised then [.raised] else []) ++ (if restarts then [.restarted] else [])

def step (s : State) (l : Label) : State where
  window := s.window.step l
  log := noted s.log (clicks l) (launching s.window l)
    (s.window.reconnectAttempt < (s.window.step l).reconnectAttempt) (restarting s.window l)

/-- A launch that is queued runs before the next poll reply is processed. -/
def Orderly (s : State) : Label → Prop
  | .poll _ => s.window.pollBusy → s.window.launches = 0
  | _ => True

instance (s : State) (l : Label) : Decidable (Orderly s l) := by
  cases l <;> unfold Orderly <;> infer_instance

structure Core where
  want : Bool
  streaming : Bool
  pending : Bool
  timer : Option Nat
  attempt : Nat
  launches : Nat
  connected : Bool

def core (w : Window) : Core where
  want := w.wantStream
  streaming := w.streaming
  pending := w.reconnectPending
  timer := w.reconnectTimer
  attempt := w.reconnectAttempt
  launches := w.launches
  connected := w.sessionConnected

def Core.halted (c : Core) : Core :=
  { c with want := false, pending := false, timer := none, attempt := 0 }

def Core.raised (c : Core) : Core :=
  { c with
    attempt := c.attempt + 1, pending := true,
    timer := some (min (1000 <<< c.attempt) reconnectMaxDelayMs) }

/-- What a step can do to the bookkeeping; whether it is a click on Start, the signal of a
connection, a launch or a restart. -/
inductive Does (c : Core) : Core → (clicked begun launched restarts : Bool) → Prop
  | stays (clicked begun : Bool) : Does c c clicked begun false false
  | halts (streaming : Bool) (launches : Nat) (connected clicked launched : Bool)
      (fewer : launches ≤ c.launches) (ends : streaming → c.streaming)
      (ready : launched → clicked = false ∧ c.want ∧ c.streaming = false) :
      Does c { c.halted with streaming, launches, connected } clicked false launched false
  | starts (free : c.streaming = false) : Does c { c.halted with want := true } true false false false
  | loses (playing : c.streaming) : Does c { c with want := false } false false false false
  | queues (want : c.want) (free : c.streaming = false) (settled : c.pending = false)
      (alone : c.launches = 0) : Does c { c with launches := 1 } false false false false
  | fires : Does c { c with pending := false, timer := none } false false false false
  | launches (queued : 0 < c.launches) (want : c.want) (free : c.streaming = false) :
      Does c { c with streaming := true, launches := c.launches - 1, connected := false }
        false false true false
  | drops : Does c { c with launches := c.launches - 1 } false false false false
  | connects (playing : c.streaming) :
      Does c { c with connected := true, attempt := 0, pending := false, timer := none }
        false true false false
  | restarts (playing : c.streaming) (want : c.want) :
      Does c { c with streaming := false } false false false true
  | raises (want : c.want) (below : c.attempt < reconnectLimit)
      (counted : 0 < c.attempt ∨ c.streaming ∧ c.connected) (alone : c.streaming ∨ c.launches = 0) :
      Does c { c.raised with streaming := false } false false false false
  | fails (queued : 0 < c.launches) (want : c.want) (free : c.streaming = false)
      (below : c.attempt < reconnectLimit) (counted : 0 < c.attempt) :
      Does c { c.raised with launches := c.launches - 1, connected := false } false false true false

@[simp] theorem core_stopFollowing (w : Window) : core w.stopFollowing = (core w).halted := rfl

@[simp] theorem core_resumeInfoPolling (w : Window) : core w.resumeInfoPolling = core w := by
  unfold resumeInfoPolling
  split <;> rfl

@[simp] theorem core_pollDisplay (w : Window) : core w.pollDisplay = core w := by
  unfold pollDisplay
  split <;> rfl

@[simp] theorem core_modeSeen (w : Window) : core w.modeSeen = core w := by
  unfold modeSeen
  split
  · rfl
  · dsimp only
    split <;> split <;> rfl

theorem core_scheduleReconnect (w : Window) :
    core w.scheduleReconnect =
      if reconnectLimit ≤ w.reconnectAttempt then (core w).halted else (core w).raised := by
  unfold scheduleReconnect
  dsimp only
  split
  · exact core_resumeInfoPolling w.stopFollowing
  · rfl

theorem Does.after {c c₁ c' : Core} {clicked begun launched restarts : Bool}
    (does : Does c c₁ clicked begun launched restarts) (same : c' = c₁) :
    Does c c' clicked begun launched restarts :=
  same ▸ does

section poll
variable {w : Window} {c : Core}

theorem pollFailed_does (same : core w = c) (alone : c.launches = 0) (error : String) :
    Does c (core (w.pollFailed error)) false false false false := by
  subst same
  unfold pollFailed
  split
  next recovering =>
    simp only [Bool.and_eq_true, Bool.not_eq_true', decide_eq_true_eq] at recovering
    obtain ⟨⟨⟨_, want⟩, idle⟩, counted⟩ := recovering
    split
    next free =>
      rw [core_scheduleReconnect]
      split
      next used =>
        exact .halts w.streaming w.launches w.sessionConnected false false (Nat.le_refl _) id nofun
      next below =>
        refine (Does.raises want (Nat.lt_of_not_le below) (.inl counted) (.inr alone)).after ?_
        simp only [core, Core.raised, idle]
    next => exact .stays false false
  next =>
    split
    · exact .stays false false
    · split
      · exact .stays false false
      · exact .halts w.streaming w.launches w.sessionConnected false false (Nat.le_refl _) id nofun

theorem pollSucceeded_does (same : core w = c) (alone : c.launches = 0) :
    Does c (core w.pollSucceeded) false false false false := by
  subst same
  unfold pollSucceeded
  dsimp only
  split
  next playing =>
    simp only [Bool.and_eq_true] at playing
    obtain ⟨⟨⟨streaming, want, kept⟩, _⟩, _⟩ := playing
    rw [core_modeSeen]
    refine (Does.stays false false).after ?_
    simp only [core, want, kept, Bool.true_and]
  next =>
    split
    next ready =>
      simp only [Bool.and_eq_true, Bool.not_eq_true'] at ready
      obtain ⟨⟨⟨idle, want, kept⟩, settled⟩, _⟩ := ready
      refine (Does.queues want idle settled alone).after ?_
      have one : w.launches + 1 = 1 := congrArg (· + 1) alone
      simp only [core, want, kept, one, Bool.true_and, Bool.not_false]
    next =>
      cases quits : w.userQuit && w.streaming with
      | false =>
        refine (Does.stays false false).after ?_
        simp only [core, Bool.not_false, Bool.and_true]
      | true =>
        have streaming : w.streaming = true := by simp only [Bool.and_eq_true] at quits; exact quits.2
        refine (Does.loses streaming).after ?_
        simp only [core, Bool.not_true, Bool.and_false]

theorem pollReply_does (alone : w.pollBusy → w.launches = 0) (r : Reply) :
    Does (core w) (core (w.pollReply r)) false false false false := by
  unfold pollReply
  split
  · exact .stays false false
  next busy =>
    have alone : (core w).launches = 0 := alone (by simpa using busy)
    cases r with
    | failed error transient =>
      dsimp only
      refine pollFailed_does ?_ alone error
      rfl
    | info i =>
      dsimp only
      refine pollSucceeded_does ?_ alone
      rfl

end poll

section session
variable {w : Window} {c : Core}

theorem launchFailed_core (e : LaunchError) (w : Window) :
    (core (w.launchFailed e) = { (core w).halted with streaming := false }) ∨
    (w.wantStream = true ∧ 0 < w.reconnectAttempt ∧ w.reconnectAttempt < reconnectLimit ∧
      core (w.launchFailed e) = { (core w).raised with streaming := false }) := by
  unfold launchFailed
  dsimp only
  split
  next going =>
    simp only [Bool.and_eq_true, decide_eq_true_eq] at going
    obtain ⟨⟨_, want⟩, counted⟩ := going
    rw [core_scheduleReconnect]
    split
    · exact .inl rfl
    next below => exact .inr ⟨want, counted, Nat.lt_of_not_le below, rfl⟩
  next => exact .inl (core_resumeInfoPolling _)

theorem sessionEnded_does (same : core w = { c with streaming := false }) (playing : c.streaming) :
    Does c (core w.sessionEnded) false false false (w.wantStream && !w.userQuit && w.restart) := by
  obtain ⟨want, streaming, pending, timer, attempt, launches, connected⟩ := c
  simp only [core, Core.mk.injEq] at same
  obtain ⟨rfl, idle, rfl, rfl, rfl, rfl, rfl⟩ := same
  have ends : Does { core w with streaming } { (core w).halted with streaming := false }
      false false false false := .halts false w.launches w.sessionConnected false false (Nat.le_refl _) nofun nofun
  unfold sessionEnded
  dsimp only
  cases want : w.wantStream && !w.userQuit with
  | false =>
    rw [if_pos (by decide)]
    have resumed := core_resumeInfoPolling { w with
      wantStream := false, restart := false, pendingModePolls := 0, reconnectTimer := none,
      reconnectPending := false, reconnectAttempt := 0 }
    refine ends.after (resumed.trans ?_)
    simp only [core, Core.halted, idle]
  | true =>
    have wanted : w.wantStream = true := by simp only [Bool.and_eq_true] at want; exact want.1
    rw [if_neg (by decide), Bool.true_and]
    cases restart : w.restart with
    | true =>
      refine (Does.restarts playing wanted).after ?_
      simp only [core, if_true, wanted, idle]
    | false =>
      rw [if_neg (by decide)]
      split
      next fresh =>
        refine ends.after ((core_resumeInfoPolling _).trans ?_)
        simp only [core, stopFollowing, Core.halted, idle]
      next counted =>
        have counts : 0 < w.reconnectAttempt ∨ streaming ∧ w.sessionConnected := by
          simp only [Bool.and_eq_true, Bool.not_eq_true', decide_eq_true_eq, not_and] at counted
          cases connected : w.sessionConnected with
          | true => exact .inr ⟨playing, rfl⟩
          | false => exact .inl (Nat.pos_of_ne_zero (counted connected))
        rw [core_scheduleReconnect]
        dsimp only
        split
        next =>
          refine ends.after ?_
          simp only [core, Core.halted, idle]
        next below =>
          refine (Does.raises wanted (Nat.lt_of_not_le below) counts (.inl playing)).after ?_
          simp only [core, Core.raised, wanted, idle]

theorem launchFailed_does (e : LaunchError) (playing : w.streaming) :
    Does (core w) (core (w.launchFailed e)) false false false false := by
  rcases launchFailed_core e w with halted | ⟨want, counted, below, raised⟩
  · exact (Does.halts false w.launches w.sessionConnected false false (Nat.le_refl _) nofun nofun).after halted
  · exact (Does.raises want below (.inl counted) (.inl playing)).after raised

theorem runStream_does (thrown : Option LaunchError) :
    Does (core w) (core (w.runStream thrown)) false false (launching w (.runStream thrown)) false := by
  unfold Window.runStream
  split
  next none =>
    have idle : launching w (.runStream thrown) = false := by simp [launching, none]
    rw [idle]
    exact .stays false false
  next queued =>
    have queued : 0 < w.launches := Nat.pos_of_ne_zero queued
    unfold launch
    split
    next refused =>
      have idle : launching w (.runStream thrown) = false := by
        simp only [launching, refused, Bool.not_true, Bool.and_false, Bool.false_and]
      rw [idle]
      exact .drops
    next starts =>
      rw [Bool.not_eq_true] at starts
      dsimp only at starts
      have free : w.streaming = false := by
        simp only [Bool.or_eq_false_iff] at starts
        exact starts.1.1.1
      have want : w.wantStream = true := by
        simp only [Bool.or_eq_false_iff, Bool.not_eq_false'] at starts
        exact starts.1.2
      split
      next unsupported =>
        have idle : launching w (.runStream thrown) = false := by
          have unsupported : w.mouseSupported = false := (Bool.not_eq_true' _).mp unsupported
          simp only [launching, unsupported, Bool.and_false]
        rw [idle]
        exact (Does.halts w.streaming (w.launches - 1) w.sessionConnected false false
          (Nat.sub_le _ _) id nofun).after (core_resumeInfoPolling _)
      next supported =>
        have launched : launching w (.runStream thrown) = true := by
          have supported : w.mouseSupported = true := Bool.of_not_eq_false (mt (Bool.not_eq_true' _).mpr supported)
          simp only [launching, queued, starts, supported]
          rfl
        rw [launched]
        cases thrown with
        | none => exact .launches queued want free
        | some e =>
          dsimp only
          rcases launchFailed_core e { w with
            launches := w.launches - 1, runningMode := w.display, request := requested w.display,
            restart := false, sessionConnected := false, sessionError := "" } with halted | raised
          · exact (Does.halts false (w.launches - 1) false false true (Nat.sub_le _ _) nofun
              fun _ => ⟨rfl, want, free⟩).after halted
          · obtain ⟨_, counted, below, raised⟩ := raised
            refine (Does.fails queued want free below counted).after (raised.trans ?_)
            simp only [core, Core.raised, free]

end session

section labels
variable {w : Window}

theorem startStream_does (w : Window) :
    Does (core w) (core w.startStream) true false false false := by
  unfold startStream
  split
  next => exact .stays true false
  next free =>
    split
    next =>
      exact (Does.halts w.streaming w.launches w.sessionConnected true false (Nat.le_refl _) id nofun).after
        (core_resumeInfoPolling _)
    next =>
      have free : w.streaming = false := by
        simp only [Bool.or_eq_true, not_or, Bool.not_eq_true] at free
        exact free.1.1
      exact (Does.starts free).after (core_pollDisplay _)

theorem reconnectNow_does (w : Window) (tidy : w.reconnectPending → w.wantStream ∧ w.streaming = false)
    (armed : w.reconnectTimer.isSome → w.reconnectPending) :
    Does (core w) (core (w.step .reconnectTimeout)) false false false false := by
  simp only [Window.step]
  split
  next fires =>
    have pending := armed fires
    obtain ⟨want, free⟩ := tidy pending
    have on : (!w.wantStream || w.streaming || !w.reconnectPending) = false := by
      simp only [want, free, pending, Bool.not_true, Bool.or_self]
    unfold reconnectNow
    rw [if_neg (by simpa using on)]
    exact Does.fires.after (core_pollDisplay _)
  next => exact .stays false false

theorem stopped_does (w : Window) (streaming : Bool) (ends : streaming → w.streaming) :
    Does (core w) { (core w).halted with streaming } false false false false :=
  .halts streaming w.launches w.sessionConnected false false (Nat.le_refl _) ends nofun

theorem spares_core {w w' : Window} (spares : Retry.Spares w w') : core w' = core w := by
  simp only [core, spares.want, spares.streaming, spares.pending, spares.timer, spares.attempt,
    spares.launches, spares.connected]

theorem step_does (log : List Event) (l : Label) (alone : Orderly ⟨w, log⟩ l)
    (tidy : w.reconnectPending → w.wantStream ∧ w.streaming = false)
    (armed : w.reconnectTimer.isSome → w.reconnectPending) :
    Does (core w) (core (w.step l)) (clicks l) (connects l) (launching w l) (restarting w l) := by
  cases l with
  | startClicked => exact startStream_does w
  | connectClicked =>
    simp only [Window.step, connectHost]
    split
    · exact .stays false false
    · exact stopped_does w w.streaming id
  | closeClicked =>
    simp only [Window.step, closeEvent]
    split
    · exact .stays false false
    · exact stopped_does w w.streaming id
  | forgetAnswered yes =>
    simp only [Window.step, Window.forgetAnswered]
    split
    · exact .stays false false
    · split
      · exact .stays false false
      · exact stopped_does w w.streaming id
  | poll r => exact pollReply_does alone r
  | reconnectTimeout => exact reconnectNow_does w tidy armed
  | runStream thrown => exact runStream_does thrown
  | connectionStarted =>
    simp only [Window.step]
    split
    next playing => exact .connects playing
    next => exact .stays false true
  | execThrew e =>
    simp only [Window.step, Window.execThrew]
    split
    next running =>
      simp only [Bool.and_eq_true] at running
      exact launchFailed_does e running.1
    next => exact .stays false false
  | cleanupReady =>
    simp only [Window.step, Window.cleanupReady, restarting]
    split
    next ending =>
      have playing : w.streaming = true := by simp only [Bool.and_eq_true] at ending; exact ending.1
      rw [ending, Bool.true_and]
      refine sessionEnded_does ?_ playing
      rfl
    next idle =>
      rw [Bool.not_eq_true] at idle
      simp only [idle, Bool.false_and]
      exact .stays false false
  | _ => exact (Does.stays false false).after (spares_core (Retry.idle_spares rfl w))

end labels

/-! What holds of the bookkeeping and of its log after every run. -/

def delay (attempt : Nat) : Nat := min (1000 * 2 ^ (attempt - 1)) reconnectMaxDelayMs

structure Tidy (c : Core) (log : List Event) : Prop where
  limit : c.attempt ≤ reconnectLimit
  pending : c.pending → c.want ∧ c.streaming = false ∧ 1 ≤ c.attempt ∧ c.timer = some (delay c.attempt)
  timer : c.timer.isSome → c.pending
  quiet : c.want = false → c.streaming = false → c.pending = false ∧ c.timer = none ∧ c.attempt = 0
  one : c.launches ≤ 1
  queued : 0 < c.launches → c.streaming = false ∧ c.pending = false
  owed : c.want → c.streaming = false → due log ≠ none

@[simp] theorem due_concat (log : List Event) (e : Event) : due (log ++ [e]) = e.cause := by
  simp [due]

theorem due_raised (log : List Event) (clicked launched : Bool) :
    due (noted log clicked launched true false) = some .retry :=
  (congrArg due (List.append_nil _)).trans (due_concat _ .raised)

theorem due_restarts (log : List Event) (clicked launched raised : Bool) :
    due (noted log clicked launched raised true) = some .restart :=
  due_concat _ .restarted

theorem due_nothing (log : List Event) : due (noted log false false false false) = due log := by
  simp [noted]

theorem shift_delay (attempt : Nat) : min (1000 <<< attempt) reconnectMaxDelayMs = delay (attempt + 1) := by
  rw [delay, Nat.shiftLeft_eq, Nat.add_sub_cancel]

theorem tidy_does {c c' : Core} {clicked begun launched restarts : Bool} {log : List Event}
    (does : Does c c' clicked begun launched restarts) (h : Tidy c log) :
    Tidy c' (noted log clicked launched (c.attempt < c'.attempt) restarts) := by
  cases does with
  | stays =>
    refine ⟨h.limit, h.pending, h.timer, h.quiet, h.one, h.queued, fun want free => ?_⟩
    have owed := h.owed want free
    cases clicked with
    | false => simpa [noted] using owed
    | true => simp [noted, Event.cause]
  | halts streaming launches connected _ _ fewer ends _ =>
    refine ⟨Nat.zero_le _, nofun, nofun, fun _ _ => ⟨rfl, rfl, rfl⟩, Nat.le_trans fewer h.one, ?_, nofun⟩
    intro queued
    have free := (h.queued (Nat.lt_of_lt_of_le queued fewer)).1
    exact ⟨Bool.of_not_eq_true fun playing => by simp [ends playing] at free, rfl⟩
  | starts free =>
    exact ⟨Nat.zero_le _, nofun, nofun, nofun, h.one, fun _ => ⟨free, rfl⟩, fun _ _ => by
      simp [noted, Core.halted, Event.cause]⟩
  | loses playing =>
    refine ⟨h.limit, fun pending => ?_, h.timer, fun _ free => ?_, h.one, h.queued, nofun⟩
    · simp [(h.pending pending).2.1] at playing
    · simp [playing] at free
  | queues want free settled alone =>
    refine ⟨h.limit, h.pending, h.timer, h.quiet, Nat.le_refl _, fun _ => ⟨free, settled⟩, ?_⟩
    simpa [noted] using h.owed
  | fires =>
    refine ⟨h.limit, nofun, nofun, fun want free => ⟨rfl, rfl, (h.quiet want free).2.2⟩, h.one,
      fun queued => ⟨(h.queued queued).1, rfl⟩, ?_⟩
    simpa [noted] using h.owed
  | launches queued want free =>
    have settled := (h.queued queued).2
    have last : c.launches - 1 = 0 := Nat.sub_eq_zero_of_le h.one
    refine ⟨h.limit, fun pending => ?_, h.timer, fun no => ?_, ?_, ?_, nofun⟩
    · exact absurd pending (by simp [settled])
    · exact absurd want (by simp [show c.want = false from no])
    · exact Nat.le_trans (Nat.sub_le _ _) h.one
    · simp [last]
  | drops =>
    refine ⟨h.limit, h.pending, h.timer, h.quiet, Nat.le_trans (Nat.sub_le _ _) h.one, fun queued => ?_, ?_⟩
    · exact h.queued (Nat.lt_of_lt_of_le queued (Nat.sub_le _ _))
    · simpa [noted] using h.owed
  | connects playing =>
    refine ⟨Nat.zero_le _, nofun, nofun, fun _ _ => ⟨rfl, rfl, rfl⟩, h.one,
      fun queued => ⟨(h.queued queued).1, rfl⟩, fun _ free => ?_⟩
    simp [show c.streaming = false from free] at playing
  | restarts playing want =>
    refine ⟨h.limit, fun pending => ?_, h.timer, fun no => ?_, h.one, fun queued => ?_, fun _ _ => ?_⟩
    · simp [(h.pending pending).2.1] at playing
    · exact absurd want (by simp [show c.want = false from no])
    · exact ⟨rfl, (h.queued queued).2⟩
    · simp [due_restarts]
  | raises want below _ alone =>
    refine ⟨below, fun _ => ⟨want, rfl, Nat.succ_pos _, ?_⟩, fun _ => rfl, fun no => ?_, h.one,
      fun queued => ?_, fun _ _ => ?_⟩
    · exact congrArg some (shift_delay c.attempt)
    · exact absurd want (by simp [show c.want = false from no])
    · rcases alone with playing | none
      · simp [(h.queued queued).1] at playing
      · exact absurd none (Nat.ne_of_gt queued)
    · simp [Core.raised, due_raised]
  | fails queued want free below _ =>
    have last : c.launches - 1 = 0 := Nat.sub_eq_zero_of_le h.one
    refine ⟨below, fun _ => ⟨want, free, Nat.succ_pos _, ?_⟩, fun _ => rfl, fun no => ?_, ?_, ?_,
      fun _ _ => ?_⟩
    · exact congrArg some (shift_delay c.attempt)
    · exact absurd want (by simp [show c.want = false from no])
    · exact Nat.le_trans (Nat.sub_le _ _) h.one
    · simp [last]
    · simp [Core.raised, due_raised]

def Event.unforced : Event → Bool
  | .launched due => due ≠ some .restart
  | _ => false

def Event.launch : Event → Bool
  | .launched _ => true
  | _ => false

/-- How many launches without a restart can still follow if nothing connects and no one clicks. -/
def left (c : Core) (log : List Event) : Nat :=
  if c.want then
    (if c.streaming = false ∧ due log ≠ some .restart then 1 else 0) +
      if c.attempt = 0 then if c.streaming ∧ c.connected then reconnectLimit else 0
      else reconnectLimit - c.attempt
  else 0

theorem left_le {c : Core} {log : List Event} : left c log ≤ reconnectLimit := by
  have limit : reconnectLimit = 5 := rfl
  unfold left
  cases streaming : c.streaming <;> grind

theorem left_does (log : List Event) {c c' : Core} {launched restarts : Bool}
    (does : Does c c' false false launched restarts) :
    (if launched ∧ due log ≠ some .restart then 1 else 0) +
      left c' (noted log false launched (c.attempt < c'.attempt) restarts) ≤ left c log := by
  have limit : reconnectLimit = 5 := rfl
  cases does with
  | stays | queues | fires | drops => simp [left, due_nothing]
  | halts streaming _ _ _ _ _ _ ready =>
    cases launched with
    | false => simp [left, Core.halted]
    | true =>
      obtain ⟨_, want, free⟩ := ready rfl
      simp [left, Core.halted, want, free]
  | loses => simp [left]
  | launches _ want free => simp [left, want, free]
  | restarts playing want =>
    simp only [left, due_restarts, want, playing]
    grind
  | raises want below counted alone =>
    simp only [left, Core.raised, Nat.lt_succ_self, decide_true, due_raised, want]
    grind
  | fails queued want free below counted =>
    simp only [left, Core.raised, Nat.lt_succ_self, decide_true, due_raised, want, free]
    grind

theorem Does.ready {c c' : Core} {clicked begun restarts : Bool}
    (does : Does c c' clicked begun true restarts) :
    clicked = false ∧ c.want ∧ c.streaming = false := by
  cases does with
  | halts _ _ _ _ _ _ _ ready => exact ready rfl
  | launches _ want free => exact ⟨rfl, want, free⟩
  | fails _ want free => exact ⟨rfl, want, free⟩

theorem Does.wanted {c c' : Core} {begun launched restarts : Bool}
    (does : Does c c' false begun launched restarts) (want : c'.want) : c.want := by
  cases does with
  | halts => cases want
  | loses => cases want
  | queues wanted | launches _ wanted | restarts _ wanted | raises wanted | fails _ wanted => exact wanted
  | stays | fires | drops | connects => exact want

theorem unforced_noted (log : List Event) (clicked launched raised restarts : Bool) :
    (noted log clicked launched raised restarts).countP Event.unforced =
      log.countP Event.unforced + if launched ∧ due log ≠ some .restart then 1 else 0 := by
  have count (there : Bool) (e : Event) (other : e.unforced = false) :
      (if there then [e] else []).countP Event.unforced = 0 := by
    cases there <;> simp [other]
  simp only [noted, List.countP_append, count clicked .clicked rfl, count raised .raised rfl,
    count restarts .restarted rfl, Nat.add_zero]
  cases launched <;> simp [Event.unforced, List.countP_singleton]

theorem launch_noted (log : List Event) (clicked raised restarts : Bool) :
    (noted log clicked false raised restarts).countP Event.launch = log.countP Event.launch := by
  have count (there : Bool) (e : Event) (other : e.launch = false) :
      (if there then [e] else []).countP Event.launch = 0 := by
    cases there <;> simp [other]
  simp only [noted, List.countP_append, count clicked .clicked rfl, count raised .raised rfl,
    count restarts .restarted rfl, Nat.add_zero]
  rfl

/-- Every launch is due to the last cause since the launch before it. -/
def Sound (log : List Event) : Prop :=
  ∀ before d after, log = before ++ .launched d :: after → d = due before ∧ d ≠ none

theorem sound_concat {log : List Event} {e : Event} (sound : Sound log)
    (new : ∀ d, e = .launched d → d = due log ∧ d ≠ none) : Sound (log ++ [e]) := by
  intro before d after same
  rcases Log.concat_split same with ⟨rfl, last, _⟩ | ⟨after', front, _⟩
  · exact new d last.symm
  · exact sound before d after' front

theorem sound_noted {log : List Event} {clicked launched raised restarts : Bool} (sound : Sound log)
    (ready : launched → clicked = false ∧ due log ≠ none) :
    Sound (noted log clicked launched raised restarts) := by
  have quiet (there : Bool) (e : Event) (other : e.launch = false) {log' : List Event}
      (sound' : Sound log') : Sound (log' ++ if there then [e] else []) := by
    cases there with
    | false => simpa using sound'
    | true => exact sound_concat sound' fun d same => by rw [same] at other; cases other
  refine quiet restarts .restarted rfl (quiet raised .raised rfl ?_)
  cases launched with
  | false => simpa using quiet clicked .clicked rfl sound
  | true =>
    obtain ⟨rfl, owed⟩ := ready rfl
    have same : log ++ (if false then [Event.clicked] else []) = log := List.append_nil log
    rw [same]
    exact sound_concat sound fun d same => by cases same; exact ⟨rfl, owed⟩

/-- Between two launches there is a click, a raise or a restart. -/
theorem sound_between {log before mid after : List Event} {d d' : Option Cause} (sound : Sound log)
    (same : log = before ++ .launched d :: (mid ++ .launched d' :: after)) (unclicked : .clicked ∉ mid) :
    .raised ∈ mid ∨ .restarted ∈ mid := by
  have shape : log = (before ++ .launched d :: mid) ++ .launched d' :: after := by rw [same]; simp
  obtain ⟨due_last, owed⟩ := sound _ _ _ shape
  rcases List.eq_nil_or_concat mid with rfl | ⟨mid', last, rfl⟩
  · exact absurd (due_last.trans (due_concat before _)) owed
  · have cause : d' = last.cause := by
      rw [due_last, ← due_concat (before ++ .launched d :: mid')]
      simp
    cases last with
    | clicked => simp at unclicked
    | launched _ => exact absurd cause owed
    | raised => simp
    | restarted => simp

structure Kept (s : State) : Prop where
  tidy : Tidy (core s.window) s.log
  sound : Sound s.log

theorem kept_does {s : State} (kept : Kept s) {l : Label} (alone : Orderly s l) :
    Does (core s.window) (core (s.window.step l)) (clicks l) (connects l) (launching s.window l)
      (restarting s.window l) :=
  step_does s.log l alone
    (fun pending => ⟨(kept.tidy.pending pending).1, (kept.tidy.pending pending).2.1⟩) kept.tidy.timer

theorem kept_step (s : State) (l : Label) (kept : Kept s) (alone : Orderly s l) : Kept (step s l) := by
  have does := kept_does kept alone
  refine ⟨tidy_does does kept.tidy, sound_noted kept.sound fun launched => ?_⟩
  rw [launched] at does
  obtain ⟨unclicked, want, free⟩ := does.ready
  exact ⟨unclicked, kept.tidy.owed want free⟩

theorem kept_initial : Kept {} :=
  ⟨⟨Nat.zero_le _, nofun, nofun, fun _ _ => ⟨rfl, rfl, rfl⟩, Nat.zero_le _, nofun, nofun⟩,
    fun before d after same => by simp at same⟩

theorem silent_run {s : State} (kept : Kept s) (ended : s.window.wantStream = false) {ls : List Label}
    (orderly : Meets step Orderly s ls) (unclicked : ∀ l ∈ ls, clicks l = false) :
    (run step s ls).log.countP Event.launch = s.log.countP Event.launch := by
  let I (s' : State) : Prop :=
    Kept s' ∧ s'.window.wantStream = false ∧ s'.log.countP Event.launch = s.log.countP Event.launch
  have keeps (s' : State) (l : Label) (held : I s') (cond : Orderly s' l ∧ clicks l = false) :
      I (step s' l) := by
    obtain ⟨kept', ended', same⟩ := held
    have does := kept_does kept' cond.1
    rw [cond.2] at does
    have idle : launching s'.window l = false := by
      refine Bool.of_not_eq_true fun launched => ?_
      rw [launched] at does
      have want : s'.window.wantStream = true := does.ready.2.1
      simp [ended'] at want
    refine ⟨kept_step s' l kept' cond.1, Bool.of_not_eq_true fun want => ?_, ?_⟩
    · have before : s'.window.wantStream = true := does.wanted want
      simp [ended'] at before
    · rw [← same]
      simp only [step, idle]
      exact launch_noted _ _ _ _
  have meets := meets_and orderly (meets_of_forall unclicked s)
  exact (meets_invariant step _ I keeps ⟨kept, ended, rfl⟩ ls meets).2.2

/-- Launches without a restart use up what is left. -/
theorem few_run {s : State} (kept : Kept s) {ls : List Label} (orderly : Meets step Orderly s ls)
    (still : ∀ l ∈ ls, clicks l = false ∧ connects l = false) :
    (run step s ls).log.countP Event.unforced ≤ s.log.countP Event.unforced + reconnectLimit := by
  let I (s' : State) : Prop :=
    Kept s' ∧ s'.log.countP Event.unforced + left (core s'.window) s'.log ≤
      s.log.countP Event.unforced + left (core s.window) s.log
  have keeps (s' : State) (l : Label) (held : I s')
      (cond : Orderly s' l ∧ clicks l = false ∧ connects l = false) : I (step s' l) := by
    obtain ⟨kept', bound⟩ := held
    have does := kept_does kept' cond.1
    refine ⟨kept_step s' l kept' cond.1, ?_⟩
    rw [cond.2.1, cond.2.2] at does
    have used := left_does s'.log does
    show (step s' l).log.countP Event.unforced + left (core (s'.window.step l)) (step s' l).log ≤ _
    have count : (step s' l).log.countP Event.unforced = s'.log.countP Event.unforced +
        if launching s'.window l ∧ due s'.log ≠ some .restart then 1 else 0 := unforced_noted ..
    have after : (step s' l).log = noted s'.log false (launching s'.window l)
        ((core s'.window).attempt < (core (s'.window.step l)).attempt) (restarting s'.window l) := by
      simp only [step, cond.2.1]
      rfl
    rw [count, after]
    omega
  have meets := meets_and orderly (meets_of_forall still s)
  obtain ⟨_, bound⟩ := meets_invariant step _ I keeps ⟨kept, Nat.le_refl _⟩ ls meets
  have start : left (core s.window) s.log ≤ reconnectLimit := left_le
  omega

/-- The bookkeeping of reconnects holds at every point of every run, and bounds the launches. -/
theorem reconnects_bounded (ls ls' : List Label) (orderly : Meets step Orderly {} (ls ++ ls')) :
    let s := run step {} ls
    let s' := run step s ls'
    s.window.reconnectAttempt ≤ 5 ∧
    (s.window.reconnectPending → s.window.wantStream ∧ !s.window.streaming ∧
      1 ≤ s.window.reconnectAttempt ∧
      s.window.reconnectTimer = some (min (1000 * 2 ^ (s.window.reconnectAttempt - 1)) 8000)) ∧
    (!s.window.wantStream → !s.window.streaming → !s.window.reconnectPending ∧
      s.window.reconnectTimer = none ∧ s.window.reconnectAttempt = 0) ∧
    (!s.window.wantStream → (∀ l ∈ ls', l ≠ .startClicked) →
      s'.log.countP Event.launch = s.log.countP Event.launch) ∧
    (∀ before d mid d' after, s.log = before ++ .launched d :: (mid ++ .launched d' :: after) →
      .clicked ∉ mid → .raised ∈ mid ∨ .restarted ∈ mid) ∧
    ((∀ l ∈ ls', l ≠ .startClicked ∧ l ≠ .connectionStarted) →
      s'.log.countP Event.unforced ≤ s.log.countP Event.unforced + 5) := by
  obtain ⟨first, rest⟩ := meets_append.mp orderly
  have kept := meets_invariant step Orderly Kept kept_step kept_initial ls first
  have unclicked (l : Label) (other : l ≠ .startClicked) : clicks l = false := by
    cases l <;> first | rfl | exact absurd rfl other
  have unconnected (l : Label) (other : l ≠ .connectionStarted) : connects l = false := by
    cases l <;> first | rfl | exact absurd rfl other
  refine ⟨kept.tidy.limit, fun pending => ?_, fun ended idle => ?_, fun ended still => ?_, ?_, fun still => ?_⟩
  · obtain ⟨want, free, counted, armed⟩ := kept.tidy.pending pending
    exact ⟨want, (Bool.not_eq_true' _).mpr free, counted, armed⟩
  · obtain ⟨settled, stopped, none⟩ :=
      kept.tidy.quiet ((Bool.not_eq_true' _).mp ended) ((Bool.not_eq_true' _).mp idle)
    exact ⟨(Bool.not_eq_true' _).mpr settled, stopped, none⟩
  · exact silent_run kept ((Bool.not_eq_true' _).mp ended) rest fun l member => unclicked l (still l member)
  · exact fun before d mid d' after same => sound_between kept.sound same
  · exact few_run kept rest fun l member =>
      ⟨unclicked l (still l member).1, unconnected l (still l member).2⟩

def lost : List Label := Retry.started Retry.hd ++ [.execReturned, .cleanupReady]

def retried : List Label :=
  [.reconnectTimeout, .poll (.info Retry.hd), .runStream (some (.networkReply "")), .reconnectTimeout,
   .poll (.info Retry.hd), .runStream none]

theorem reconnects_bounded_lost :
    let s := run step {} lost
    s.window.reconnectPending ∧ s.window.reconnectTimer = some (min (1000 * 2 ^ (1 - 1)) 8000) ∧
      (run step s retried).log = [.clicked, .launched (some .start), .raised, .launched (some .retry),
        .raised, .launched (some .retry)] ∧
      (run step s retried).log.countP Event.unforced ≤ s.log.countP Event.unforced + 5 := by
  obtain ⟨_, pending, _, _, _, few⟩ := reconnects_bounded lost retried (by decide)
  exact ⟨by decide, (pending (by decide)).2.2.2, by decide, few (by simp [retried])⟩

end Client.Reconnect

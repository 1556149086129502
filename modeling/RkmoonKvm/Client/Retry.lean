import RkmoonKvm.Library.Runs
import RkmoonKvm.Client.Window

/-! The retry policy: what may end following once a session has connected. -/
namespace Client.Retry
open Runs

structure State where
  window : Window := {}
  /-- A session has connected since the last click that started following. -/
  connectedSince : Bool := false
  /-- How many polls in a row have failed transiently. -/
  failures : Nat := 0

def State.connectedAfter (s : State) : Label → Bool
  | .startClicked => s.connectedSince && s.window.wantStream
  | .connectionStarted => s.connectedSince || s.window.streaming
  | _ => s.connectedSince

def State.failuresAfter (s : State) : Label → Nat
  | .poll (.failed _ transient) =>
    if !s.window.pollBusy then s.failures else if transient then s.failures + 1 else 0
  | .poll (.info _) => if !s.window.pollBusy then s.failures else 0
  | _ => s.failures

def step (s : State) (l : Label) : State where
  window := s.window.step l
  connectedSince := s.connectedAfter l
  failures := s.failuresAfter l

def exhausted (w : Window) : Label → Bool
  | .poll (.failed _ transient) =>
    transient && !w.streaming && !w.reconnectPending && reconnectLimit ≤ w.reconnectAttempt
  | .runStream thrown => thrown.any LaunchError.transport && reconnectLimit ≤ w.reconnectAttempt
  | .execThrew e => e.transport && reconnectLimit ≤ w.reconnectAttempt
  | .cleanupReady => !w.restart && reconnectLimit ≤ w.reconnectAttempt
  | _ => false

/-- What may end following: the user, a refusal, the tenth transient poll failure in a
row while streaming, or the end of the attempts. -/
def Allowed (s : State) (l : Label) : Bool :=
  exhausted s.window l || match l with
    | .startClicked | .connectClicked | .closeClicked | .forgetAnswered true => true
    | .poll (.info _) => s.window.userQuit
    | .poll (.failed _ transient) =>
      !transient || (s.window.streaming && pollFailureLimit ≤ s.failures + 1)
    | .runStream thrown => !s.window.mouseSupported || thrown.any fun e => !e.transport
    | .execThrew e => !e.transport
    | .cleanupReady => s.window.userQuit
    | _ => false

def Kept (s : State) (l : Label) : Prop :=
  s.connectedSince → s.window.wantStream → !(s.window.step l).wantStream → Allowed s l

/-- What the window buffers only while it counts attempts. -/
def Interrupts (w : Window) : Label → Bool
  | .poll (.failed _ transient) => w.pollBusy && transient && !w.streaming
  | .runStream thrown =>
    0 < w.launches && !w.streaming && !w.connecting && w.display.canStart && w.mouseSupported &&
      thrown.any LaunchError.transport
  | .execThrew e => w.streaming && !w.cleanup && e.transport
  | .cleanupReady => w.streaming && w.cleanup && !w.userQuit && !w.restart && !w.sessionConnected
  | _ => false

def Buffered (s : State) (l : Label) : Prop :=
  s.connectedSince → s.window.wantStream → s.window.reconnectAttempt = 0 → !Interrupts s.window l

instance (s : State) (l : Label) : Decidable (Kept s l) := by
  unfold Kept
  infer_instance

instance (s : State) (l : Label) : Decidable (Buffered s l) := by
  unfold Buffered
  infer_instance

/-! What each callback does to the wish to stream. -/

open Window

@[simp] theorem stopFollowing_want (w : Window) : w.stopFollowing.wantStream = false := rfl

@[simp] theorem resumeInfoPolling_want (w : Window) :
    w.resumeInfoPolling.wantStream = w.wantStream := by
  unfold resumeInfoPolling
  split <;> rfl

theorem scheduleReconnect_want (w : Window) :
    w.scheduleReconnect.wantStream = (w.wantStream && w.reconnectAttempt < reconnectLimit) := by
  unfold scheduleReconnect
  by_cases used : reconnectLimit ≤ w.reconnectAttempt
  · rw [if_pos used, decide_eq_false (Nat.not_lt.mpr used), Bool.and_false]
    exact resumeInfoPolling_want w.stopFollowing
  · rw [if_neg used, decide_eq_true (Nat.lt_of_not_le used), Bool.and_true]

@[simp] theorem pollDisplay_want (w : Window) : w.pollDisplay.wantStream = w.wantStream := by
  unfold pollDisplay
  split <;> rfl

theorem modeSeen_want (w : Window) : w.modeSeen.wantStream = w.wantStream := by
  simp only [modeSeen, apply_ite Window.wantStream, ite_self]

theorem pollSucceeded_want (w : Window) :
    w.pollSucceeded.wantStream = (w.wantStream && !(w.userQuit && w.streaming)) := by
  unfold pollSucceeded
  dsimp only
  split
  · rw [modeSeen_want]
  · split <;> rfl

theorem sessionEnded_want (w : Window) :
    w.sessionEnded.wantStream = (w.wantStream && !w.userQuit && (w.restart ||
      ((w.sessionConnected || w.reconnectAttempt ≠ 0) && w.reconnectAttempt < reconnectLimit))) := by
  unfold sessionEnded
  dsimp only
  cases want : w.wantStream && !w.userQuit with
  | false => simp
  | true =>
    cases w.restart with
    | true => rfl
    | false =>
      simp only [Bool.not_true, Bool.false_eq_true, if_false, Bool.true_and, Bool.false_or]
      split
      · rename_i first
        obtain ⟨fresh, unused⟩ : w.sessionConnected = false ∧ w.reconnectAttempt = 0 := by
          simpa using first
        simp [fresh, unused]
      · rename_i later
        have counted : (w.sessionConnected || decide (w.reconnectAttempt ≠ 0)) = true := by
          cases connected : w.sessionConnected with
          | true => rfl
          | false => simpa [connected] using later
        rw [scheduleReconnect_want, counted]

theorem launchFailed_want (e : LaunchError) (w : Window) :
    (w.launchFailed e).wantStream = (e.transport && w.wantStream && 0 < w.reconnectAttempt &&
      w.reconnectAttempt < reconnectLimit) := by
  unfold launchFailed
  dsimp only
  split
  · rename_i going
    rw [scheduleReconnect_want, going, Bool.true_and]
    obtain ⟨⟨-, want⟩, -⟩ : (e.transport = true ∧ w.wantStream = true) ∧ 0 < w.reconnectAttempt := by
      simpa using going
    rw [want, Bool.true_and]
  · rename_i stops
    rw [Bool.not_eq_true] at stops
    rw [stops, Bool.false_and]
    exact resumeInfoPolling_want (stopFollowing _)

theorem pollFailed_want (error : String) (w : Window) :
    (w.pollFailed error).wantStream = (w.wantStream && w.transientFailure &&
      if w.streaming then decide (w.pollFailures < pollFailureLimit)
      else 0 < w.reconnectAttempt && (w.reconnectPending || w.reconnectAttempt < reconnectLimit)) := by
  unfold pollFailed
  split
  · rename_i recovering
    simp only [Bool.and_eq_true, Bool.not_eq_true', decide_eq_true_eq] at recovering
    obtain ⟨⟨⟨transient, want⟩, idle⟩, counted⟩ := recovering
    split
    · rename_i free
      rw [Bool.not_eq_true'] at free
      rw [scheduleReconnect_want]
      simp [transient, want, idle, counted, free]
    · rename_i pending
      simp only [Bool.not_eq_true', Bool.not_eq_false] at pending
      simp [transient, want, idle, counted, pending]
  · rename_i other
    split
    · rename_i playing
      simp only [Bool.and_eq_true, decide_eq_true_eq] at playing
      obtain ⟨⟨⟨transient, want⟩, streaming⟩, few⟩ := playing
      simp [transient, want, streaming, few]
    · rename_i other'
      split
      · rename_i idle
        simp only [Bool.and_eq_true, Bool.not_eq_true'] at idle
        simp [idle.1.2]
      · show false = _
        simp only [Bool.and_eq_true, Bool.not_eq_true', decide_eq_true_eq, not_and,
          Nat.not_lt] at other other'
        cases transient : w.transientFailure with
        | false => simp
        | true =>
          cases want : w.wantStream with
          | false => rfl
          | true =>
            cases streaming : w.streaming with
            | true => simpa using other' ⟨⟨transient, want⟩, streaming⟩
            | false =>
              have none := other ⟨⟨transient, want⟩, streaming⟩
              simp
              omega

theorem launch_want (thrown : Option LaunchError) (w : Window) :
    (launch thrown w).wantStream =
      if w.streaming || w.connecting || !w.wantStream || !w.display.canStart then w.wantStream
      else w.mouseSupported && thrown.all fun e => e.transport && 0 < w.reconnectAttempt &&
        w.reconnectAttempt < reconnectLimit := by
  unfold launch
  split
  · rfl
  · rename_i starts
    split
    · rename_i unsupported
      rw [Bool.not_eq_true'] at unsupported
      rw [unsupported, Bool.false_and]
      exact resumeInfoPolling_want w.stopFollowing
    · rename_i supported
      simp only [Bool.or_eq_true, Bool.not_eq_true', not_or, Bool.not_eq_false] at starts supported
      rw [supported, Bool.true_and]
      cases thrown with
      | none => exact starts.1.2
      | some e =>
        simp only [launchFailed_want, starts.1.2, Bool.and_true, Option.all_some]

/-- A label that leaves the wish to stream as it is. -/
def quiet : Label → Bool
  | .forgetClicked | .forgetAnswered false | .settingsOpened | .settingsClosed => true
  | .mouseModeChosen _ | .serverinfo _ | .applist _ | .pollTimeout | .reconnectTimeout => true
  | .connectionStarted | .sessionFailed _ | .quitObserved | .execReturned => true
  | _ => false

def idle : Label → Bool
  | .forgetClicked | .settingsOpened | .settingsClosed | .mouseModeChosen _ => true
  | .serverinfo _ | .applist _ | .pollTimeout | .sessionFailed _ | .quitObserved | .execReturned => true
  | _ => false

structure Spares (w w' : Window) : Prop where
  want : w'.wantStream = w.wantStream
  streaming : w'.streaming = w.streaming
  pending : w'.reconnectPending = w.reconnectPending
  timer : w'.reconnectTimer = w.reconnectTimer
  attempt : w'.reconnectAttempt = w.reconnectAttempt
  launches : w'.launches = w.launches
  connected : w'.sessionConnected = w.sessionConnected
  failures : w'.pollFailures ≤ w.pollFailures

section steps
attribute [local simp] Window.step

theorem idle_spares {l : Label} (q : idle l = true) (w : Window) : Spares w (w.step l) := by
  have stays : Spares w w := ⟨rfl, rfl, rfl, rfl, rfl, rfl, rfl, Nat.le_refl _⟩
  cases l with
  | startClicked | connectClicked | closeClicked | forgetAnswered | poll | reconnectTimeout | runStream
  | connectionStarted | execThrew | cleanupReady => cases q
  | forgetClicked =>
    simp only [Window.step, forget]
    split <;> exact { stays with }
  | settingsOpened =>
    simp only [Window.step, openSettings]
    split <;> exact { stays with }
  | settingsClosed =>
    simp only [Window.step, closeSettings]
    split <;> exact { stays with }
  | mouseModeChosen absolute =>
    simp only [Window.step, chooseMouseMode]
    split <;> exact { stays with }
  | serverinfo r =>
    simp only [Window.step, serverinfoReply]
    split
    · exact stays
    · cases r <;> exact { stays with }
  | applist failure =>
    simp only [Window.step, applistReply]
    split
    · exact stays
    · cases failure with
      | none => exact { stays with failures := Nat.zero_le _ }
      | some _ => exact { stays with }
  | pollTimeout =>
    simp only [Window.step, pollDisplay]
    split
    · split <;> exact { stays with }
    · exact stays
  | sessionFailed | quitObserved | execReturned =>
    simp only [Window.step]
    split <;> exact { stays with }

theorem quiet_want {l : Label} (q : quiet l = true) (w : Window) :
    (w.step l).wantStream = w.wantStream := by
  cases l with
  | startClicked | connectClicked | closeClicked | poll | runStream | execThrew | cleanupReady => cases q
  | forgetAnswered yes =>
    cases yes with
    | true => cases q
    | false =>
      simp only [Window.step, Window.forgetAnswered]
      split <;> rfl
  | reconnectTimeout =>
    simp only [Window.step, reconnectNow]
    split
    · split
      · rfl
      · exact pollDisplay_want _
    · rfl
  | connectionStarted =>
    simp only [Window.step]
    split <;> rfl
  | _ => exact (idle_spares rfl w).want

theorem poll_failed_want {w : Window} (busy : w.pollBusy = true) (error : String) (transient : Bool) :
    (w.step (.poll (.failed error transient))).wantStream = (w.wantStream && transient &&
      if w.streaming then decide (w.pollFailures + 1 < pollFailureLimit)
      else 0 < w.reconnectAttempt && (w.reconnectPending || w.reconnectAttempt < reconnectLimit)) := by
  simp only [Window.step, pollReply, busy, Bool.not_true, Bool.false_eq_true, if_false]
  exact pollFailed_want error _

theorem runStream_want {w : Window} (queued : w.launches ≠ 0) (thrown : Option LaunchError) :
    (w.step (.runStream thrown)).wantStream =
      if w.streaming || w.connecting || !w.wantStream || !w.display.canStart then w.wantStream
      else w.mouseSupported && thrown.all fun e => e.transport && 0 < w.reconnectAttempt &&
        w.reconnectAttempt < reconnectLimit := by
  simp only [Window.step, Window.runStream, queued, if_false]
  exact launch_want thrown _

theorem step_want {w : Window} {l : Label} (other : l ≠ .startClicked)
    (want : (w.step l).wantStream = true) : w.wantStream = true := by
  cases q : quiet l with
  | true => exact quiet_want q w ▸ want
  | false =>
    cases l with
    | startClicked => exact absurd rfl other
    | connectClicked =>
      simp only [Window.step, connectHost] at want
      split at want
      · exact want
      · cases want
    | closeClicked =>
      simp only [Window.step, closeEvent] at want
      split at want
      · exact want
      · cases want
    | forgetAnswered yes =>
      simp only [Window.step, Window.forgetAnswered] at want
      split at want
      · exact want
      · split at want
        · exact want
        · cases want
    | poll r =>
      simp only [Window.step, pollReply] at want
      split at want
      · exact want
      · cases r with
        | failed error transient =>
          rw [pollFailed_want] at want
          simp only [Bool.and_eq_true] at want
          exact want.1.1
        | info i =>
          rw [pollSucceeded_want] at want
          simp only [Bool.and_eq_true] at want
          exact want.1
    | runStream thrown =>
      simp only [Window.step, Window.runStream] at want
      split at want
      · exact want
      · rw [launch_want] at want
        split at want
        · exact want
        · rename_i starts
          simp only [Bool.or_eq_true, Bool.not_eq_true', not_or, Bool.not_eq_false] at starts
          exact starts.1.2
    | execThrew e =>
      simp only [Window.step, Window.execThrew] at want
      split at want
      · rw [launchFailed_want] at want
        simp only [Bool.and_eq_true] at want
        exact want.1.1.2
      · exact want
    | cleanupReady =>
      simp only [Window.step, Window.cleanupReady] at want
      split at want
      · rw [sessionEnded_want] at want
        simp only [Bool.and_eq_true] at want
        exact want.1.1
      · exact want
    | _ => cases q

end steps

/-! The count of failed polls. -/

@[simp] theorem resumeInfoPolling_failures (w : Window) :
    w.resumeInfoPolling.pollFailures = w.pollFailures := by
  unfold resumeInfoPolling
  split <;> rfl

@[simp] theorem pollDisplay_failures (w : Window) : w.pollDisplay.pollFailures = w.pollFailures := by
  unfold pollDisplay
  split <;> rfl

@[simp] theorem scheduleReconnect_failures (w : Window) :
    w.scheduleReconnect.pollFailures = w.pollFailures := by
  unfold scheduleReconnect
  by_cases used : reconnectLimit ≤ w.reconnectAttempt
  · rw [if_pos used]
    exact resumeInfoPolling_failures w.stopFollowing
  · rw [if_neg used]

theorem sessionEnded_failures (w : Window) : w.sessionEnded.pollFailures = w.pollFailures := by
  unfold sessionEnded
  dsimp only
  split
  · exact resumeInfoPolling_failures _
  · split
    · rfl
    · split
      · exact resumeInfoPolling_failures (stopFollowing _)
      · exact scheduleReconnect_failures _

theorem launchFailed_failures (e : LaunchError) (w : Window) :
    (w.launchFailed e).pollFailures = w.pollFailures := by
  unfold launchFailed
  dsimp only
  split
  · exact scheduleReconnect_failures _
  · exact resumeInfoPolling_failures (stopFollowing _)

theorem launch_failures (thrown : Option LaunchError) (w : Window) :
    (launch thrown w).pollFailures = w.pollFailures := by
  unfold launch
  split
  · rfl
  · split
    · exact resumeInfoPolling_failures w.stopFollowing
    · cases thrown with
      | none => rfl
      | some e => exact launchFailed_failures e _

theorem pollFailed_failures (error : String) (w : Window) :
    (w.pollFailed error).pollFailures = w.pollFailures := by
  unfold pollFailed
  split
  · split
    · exact scheduleReconnect_failures _
    · rfl
  · split
    · rfl
    · split <;> rfl

theorem pollSucceeded_failures (w : Window) : w.pollSucceeded.pollFailures = 0 := by
  unfold pollSucceeded
  dsimp only
  split
  · simp only [modeSeen, apply_ite Window.pollFailures, ite_self]
  · split <;> rfl

theorem step_failures {w : Window} {l : Label} (other : ∀ r, l ≠ .poll r) :
    (w.step l).pollFailures ≤ w.pollFailures := by
  cases l with
  | poll r => exact absurd rfl (other r)
  | startClicked =>
    simp only [Window.step, startStream]
    split
    · exact Nat.le_refl _
    · split
      · exact Nat.le_of_eq (resumeInfoPolling_failures w.stopFollowing)
      · exact Nat.le_of_eq (pollDisplay_failures _)
  | connectClicked =>
    simp only [Window.step, connectHost]
    split <;> exact Nat.le_refl _
  | closeClicked =>
    simp only [Window.step, closeEvent]
    split <;> exact Nat.le_refl _
  | forgetAnswered yes =>
    simp only [Window.step, Window.forgetAnswered]
    split
    · exact Nat.le_refl _
    · split <;> exact Nat.le_refl _
  | reconnectTimeout =>
    simp only [Window.step, reconnectNow]
    split
    · split
      · exact Nat.le_refl _
      · exact Nat.le_of_eq (pollDisplay_failures _)
    · exact Nat.le_refl _
  | runStream thrown =>
    simp only [Window.step, Window.runStream]
    split
    · exact Nat.le_refl _
    · exact Nat.le_of_eq (launch_failures thrown _)
  | connectionStarted =>
    simp only [Window.step]
    split
    · exact Nat.zero_le _
    · exact Nat.le_refl _
  | execThrew e =>
    simp only [Window.step, Window.execThrew]
    split
    · exact Nat.le_of_eq (launchFailed_failures e w)
    · exact Nat.le_refl _
  | cleanupReady =>
    simp only [Window.step, Window.cleanupReady]
    split
    · exact Nat.le_of_eq (sessionEnded_failures _)
    · exact Nat.le_refl _
  | _ => exact (idle_spares rfl w).failures

/-- The invariant: while following counts, no failed poll is counted twice. -/
def Counted (s : State) : Prop :=
  s.connectedSince → s.window.wantStream → s.window.pollFailures ≤ s.failures

theorem counted_poll {s : State} {r : Reply} (h : Counted s) : Counted (step s (.poll r)) := by
  intro since want
  have before : s.window.wantStream = true := step_want (fun same => by cases same) want
  have few := h since before
  simp only [step, Window.step, pollReply, State.failuresAfter] at want ⊢
  cases busy : s.window.pollBusy with
  | false => cases r <;> exact few
  | true =>
    simp only [busy, Bool.not_true, Bool.false_eq_true, if_false] at want ⊢
    cases r with
    | failed error transient =>
      rw [pollFailed_want] at want
      rw [pollFailed_failures]
      cases transient with
      | false => simp at want
      | true => exact Nat.succ_le_succ few
    | info i =>
      exact Nat.le_of_eq (pollSucceeded_failures _)

theorem counted_step (s : State) (l : Label) (h : Counted s) : Counted (step s l) := by
  by_cases polled : ∃ r, l = .poll r
  · obtain ⟨r, rfl⟩ := polled
    exact counted_poll h
  · have other : ∀ r, l ≠ .poll r := fun r same => polled ⟨r, same⟩
    have same : s.failuresAfter l = s.failures := by
      cases l <;> first | rfl | exact absurd rfl (other _)
    have kept := step_failures (w := s.window) other
    intro since want
    show (s.window.step l).pollFailures ≤ s.failuresAfter l
    rw [same]
    by_cases begins : l = .startClicked
    · subst begins
      have both : s.connectedSince = true ∧ s.window.wantStream = true := by
        simpa [step, State.connectedAfter] using since
      exact Nat.le_trans kept (h both.1 both.2)
    · have before := step_want begins want
      by_cases connects : l = .connectionStarted
      · subst connects
        simp only [Window.step]
        split
        · exact Nat.zero_le _
        · rename_i idle
          have since' : s.connectedSince = true := by
            simpa [step, State.connectedAfter, idle] using since
          exact h since' before
      · have since' : s.connectedSince = true := by
          cases l <;> first | exact since | exact absurd rfl begins | exact absurd rfl connects
        exact Nat.le_trans kept (h since' before)

/-! What ends following, label by label. -/

/-- The reason for which a label ends following, as far as no attempt is counted. -/
def Settled (s : State) (l : Label) : Prop :=
  (!(s.window.step l).wantStream → Allowed s l) ↔
    (s.window.reconnectAttempt = 0 → !Interrupts s.window l)

theorem settled_quiet {s : State} {l : Label} (same : (s.window.step l).wantStream = true)
    (quiet : Interrupts s.window l = false) : Settled s l := by
  simp [Settled, same, quiet]

theorem settled_allowed {s : State} {l : Label} (allowed : Allowed s l = true)
    (quiet : Interrupts s.window l = false) : Settled s l := by
  simp [Settled, allowed, quiet]

theorem settled_interrupt {s : State} {l : Label}
    (want : (s.window.step l).wantStream = (decide (0 < s.window.reconnectAttempt) &&
      decide (s.window.reconnectAttempt < reconnectLimit)))
    (allowed : Allowed s l = decide (reconnectLimit ≤ s.window.reconnectAttempt))
    (interrupts : Interrupts s.window l = true) : Settled s l := by
  have limit : reconnectLimit = 5 := rfl
  simp [Settled, want, allowed, interrupts]
  omega

section interrupts
attribute [local simp] Allowed Interrupts

theorem settled_poll {s : State} (h : Counted s) (since : s.connectedSince = true)
    (want : s.window.wantStream = true) (r : Reply) : Settled s (.poll r) := by
  cases busy : s.window.pollBusy with
  | false =>
    apply settled_quiet
    · simpa [Window.step, pollReply, busy] using want
    · cases r <;> simp [Interrupts, busy]
  | true =>
    have few := h since want
    cases r with
    | info i =>
      cases quit : s.window.userQuit with
      | true => exact settled_allowed (by simp [Allowed, quit]) rfl
      | false =>
        apply settled_quiet
        · simp [Window.step, pollReply, busy, pollSucceeded_want, Window.accept, want, quit]
        · rfl
    | failed error transient =>
      have after := poll_failed_want busy error transient
      rw [want, Bool.true_and] at after
      cases transient with
      | false => exact settled_allowed (by simp [Allowed]) (by simp [Interrupts])
      | true =>
        cases streaming : s.window.streaming with
        | true =>
          simp only [streaming, Bool.true_and, if_true] at after
          by_cases many : pollFailureLimit ≤ s.window.pollFailures + 1
          · have enough : pollFailureLimit ≤ s.failures + 1 := by omega
            exact settled_allowed (by simp [Allowed, streaming, enough]) (by simp [Interrupts, streaming])
          · apply settled_quiet
            · rw [after]
              simpa using many
            · simp [Interrupts, streaming]
        | false =>
          simp only [streaming, Bool.true_and, Bool.false_eq_true, if_false] at after
          cases pending : s.window.reconnectPending with
          | false =>
            apply settled_interrupt
            · simpa [pending] using after
            · simp [Allowed, exhausted, streaming, pending]
            · simp [Interrupts, busy, streaming]
          | true =>
            simp [Settled, after, pending, Allowed, exhausted, streaming, Interrupts, busy]

theorem settled_runStream {s : State} (want : s.window.wantStream = true)
    (thrown : Option LaunchError) : Settled s (.runStream thrown) := by
  by_cases queued : s.window.launches = 0
  · apply settled_quiet
    · simpa [Window.step, Window.runStream, queued] using want
    · simp [Interrupts, queued]
  · have after := runStream_want queued thrown
    by_cases idle : (s.window.streaming || s.window.connecting || !s.window.wantStream ||
        !s.window.display.canStart) = true
    · rw [if_pos idle] at after
      apply settled_quiet (after.trans want)
      simp only [want, Bool.not_true, Bool.or_false, Bool.or_eq_true, Bool.not_eq_true'] at idle
      rcases idle with (streaming | connecting) | unready
      · simp [Interrupts, streaming]
      · simp [Interrupts, connecting]
      · simp [Interrupts, unready]
    · rw [if_neg idle] at after
      simp only [Bool.or_eq_true, Bool.not_eq_true', not_or, Bool.not_eq_true, Bool.not_eq_false] at idle
      obtain ⟨⟨⟨streaming, connecting⟩, -⟩, ready⟩ := idle
      cases mouse : s.window.mouseSupported with
      | false => exact settled_allowed (by simp [Allowed, mouse]) (by simp [Interrupts, mouse])
      | true =>
        cases thrown with
        | none => exact settled_quiet (by simpa [mouse] using after) (by simp [Interrupts])
        | some e =>
          cases transport : e.transport with
          | false => exact settled_allowed (by simp [Allowed, transport]) (by simp [Interrupts, transport])
          | true =>
            apply settled_interrupt
            · simpa [mouse, transport] using after
            · simp [Allowed, exhausted, mouse, transport]
            · simp [Interrupts, streaming, connecting, ready, mouse, transport, Nat.pos_of_ne_zero queued]

theorem settled_execThrew {s : State} (want : s.window.wantStream = true) (e : LaunchError) :
    Settled s (.execThrew e) := by
  by_cases running : (s.window.streaming && !s.window.cleanup) = true
  · cases transport : e.transport with
    | false => exact settled_allowed (by simp [Allowed, transport]) (by simp [Interrupts, transport])
    | true =>
      apply settled_interrupt
      · simp only [Window.step, Window.execThrew, running, if_true, launchFailed_want, transport, want,
          Bool.true_and]
      · simp [Allowed, exhausted, transport]
      · simp only [Interrupts, running, transport, Bool.and_true]
  · rw [Bool.not_eq_true] at running
    apply settled_quiet
    · simpa [Window.step, Window.execThrew, running] using want
    · simp only [Interrupts, running, Bool.false_and]

theorem settled_cleanupReady {s : State} (want : s.window.wantStream = true) :
    Settled s .cleanupReady := by
  by_cases ending : (s.window.streaming && s.window.cleanup) = true
  · have after : (s.window.step .cleanupReady).wantStream = (s.window.wantStream &&
        !s.window.userQuit && (s.window.restart || ((s.window.sessionConnected ||
          s.window.reconnectAttempt ≠ 0) && s.window.reconnectAttempt < reconnectLimit))) := by
      simp only [Window.step, Window.cleanupReady, ending, if_true]
      exact sessionEnded_want _
    rw [want, Bool.true_and] at after
    cases quit : s.window.userQuit with
    | true => exact settled_allowed (by simp [Allowed, quit]) (by simp [Interrupts, quit])
    | false =>
      cases restart : s.window.restart with
      | true => exact settled_quiet (by simpa [quit, restart] using after) (by simp [Interrupts, restart])
      | false =>
        have allowed : Allowed s .cleanupReady = decide (reconnectLimit ≤ s.window.reconnectAttempt) := by
          simp [Allowed, exhausted, quit, restart]
        cases connected : s.window.sessionConnected with
        | true =>
          by_cases left : s.window.reconnectAttempt < reconnectLimit
          · apply settled_quiet
            · rw [after]
              simp [quit, connected, left]
            · simp [Interrupts, connected]
          · exact settled_allowed (by rw [allowed]; simpa using left) (by simp [Interrupts, connected])
        | false =>
          apply settled_interrupt
          · simpa [quit, restart, connected, Nat.pos_iff_ne_zero] using after
          · exact allowed
          · simp only [Interrupts, ending, quit, restart, connected]
            rfl
  · rw [Bool.not_eq_true] at ending
    apply settled_quiet
    · simpa [Window.step, Window.cleanupReady, ending] using want
    · simp only [Interrupts, ending, Bool.false_and]

end interrupts

theorem settled {s : State} (h : Counted s) (since : s.connectedSince = true)
    (want : s.window.wantStream = true) (l : Label) : Settled s l := by
  cases q : quiet l with
  | true =>
    apply settled_quiet ((quiet_want q s.window).trans want)
    cases l <;> first | rfl | cases q
  | false =>
    cases l with
    | startClicked | connectClicked | closeClicked => exact settled_allowed rfl rfl
    | forgetAnswered yes =>
      cases yes with
      | true => exact settled_allowed rfl rfl
      | false => cases q
    | poll r => exact settled_poll h since want r
    | runStream thrown => exact settled_runStream want thrown
    | execThrew e => exact settled_execThrew want e
    | cleanupReady => exact settled_cleanupReady want
    | _ => cases q

theorem kept_iff {s : State} (h : Counted s) (l : Label) : Kept s l ↔ Buffered s l :=
  forall_congr' fun since => forall_congr' fun want => settled h since want l

/-- Following ends for no other reason than those allowed, in every run without such
an interruption and in no other. -/
theorem following_kept_iff (ls : List Label) : Meets step Kept {} ls ↔ Meets step Buffered {} ls :=
  meets_congr step Counted counted_step (fun s l h => kept_iff h l) (fun since => by cases since) ls

def started (i : Info) : List Label :=
  [.connectClicked, .serverinfo (.info i), .applist none, .startClicked, .poll (.info i),
   .runStream none, .connectionStarted]

def restarted (i : Info) : List Label :=
  [.pollTimeout, .poll (.info i), .pollTimeout, .poll (.info i), .execReturned, .cleanupReady]

def hd : Info := ⟨⟨.ready, 1920, 1080, 6000⟩, true, true⟩
def wqhd : Info := ⟨⟨.ready, 2560, 1440, 6000⟩, true, true⟩

/-- After the restart one transient poll failure ends following. -/
theorem restart_forgets_following :
    let s := run step {} (started hd ++ restarted wqhd ++ [.pollTimeout])
    let lost := Label.poll (.failed "Host request failed; check connection and password" true)
    s.connectedSince ∧ s.window.wantStream ∧ !(step s lost).window.wantStream ∧ !Allowed s lost ∧
      ¬ Meets step Kept {} (started hd ++ restarted wqhd ++ [.pollTimeout, lost]) := by
  decide

end Client.Retry

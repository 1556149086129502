import RkmoonKvm.Client.Retry

/-! The debounce of the source's mode: which successful poll of a session asks for a
restart, over the modes that the polls of this session have reported. -/
namespace Client.Debounce
open Runs

structure State where
  window : Window := {}
  modes : List Display := []

def reported (w : Window) (modes : List Display) : Label → List Display
  | .poll (.info i) => if w.pollBusy then modes ++ [i.display] else modes
  | _ => modes

def step (s : State) (l : Label) : State where
  window := s.window.step l
  modes :=
    if !s.window.streaming && (s.window.step l).streaming then [] else reported s.window s.modes l

/-- A session that is followed: not quit, not cleaned up, and without a restart under way. -/
def Followed (w : Window) : Prop :=
  w.streaming ∧ w.wantStream ∧ w.cleanup = false ∧ w.restart = false ∧ w.userQuit = false

instance (w : Window) : Decidable (Followed w) := inferInstanceAs (Decidable (_ ∧ _))

/-- The mode is the one of the poll before, and not the running one. -/
def Stable (s : State) (mode : Display) : Prop :=
  ∃ before, s.modes.getLast? = some before ∧ before.same s.window.runningMode = false ∧
    mode.same s.window.runningMode = false ∧ mode.same before = true

/-- Where the count of a session is passed on to the next one: a launch that throws while
the client is recovering does not clear it. -/
def Cleared (s : State) : Label → Prop
  | .execThrew e => s.window.streaming → s.window.cleanup = false → e.transport →
      s.window.wantStream → 0 < s.window.reconnectAttempt → s.window.reconnectAttempt < reconnectLimit →
      s.window.pendingModePolls = 0
  | _ => True

instance (s : State) : (l : Label) → Decidable (Cleared s l)
  | .execThrew e => inferInstanceAs (Decidable (s.window.streaming → s.window.cleanup = false →
      e.transport → s.window.wantStream → 0 < s.window.reconnectAttempt →
      s.window.reconnectAttempt < reconnectLimit → s.window.pendingModePolls = 0))
  | .startClicked | .connectClicked | .closeClicked | .forgetClicked | .forgetAnswered _
  | .settingsOpened | .settingsClosed | .mouseModeChosen _ | .serverinfo _ | .applist _ | .poll _
  | .pollTimeout | .reconnectTimeout | .runStream _ | .connectionStarted | .sessionFailed _
  | .quitObserved | .execReturned | .cleanupReady => .isTrue trivial

structure Core where
  streaming : Bool
  want : Bool
  cleanup : Bool
  restart : Bool
  quit : Bool
  polls : Nat
  pending : Display
  running : Display

def core (w : Window) : Core where
  streaming := w.streaming
  want := w.wantStream
  cleanup := w.cleanup
  restart := w.restart
  quit := w.userQuit
  polls := w.pendingModePolls
  pending := w.pendingMode
  running := w.runningMode

namespace Core

def halted (c : Core) : Core := { c with want := false, restart := false, polls := 0 }

def Followed (c : Core) : Prop :=
  c.streaming ∧ c.want ∧ c.cleanup = false ∧ c.restart = false ∧ c.quit = false

def Armed (c : Core) (modes : List Display) : Prop :=
  (c.polls = 0 ∧ ∀ m ∈ modes.getLast?, m.same c.running = true) ∨
    (c.polls = 1 ∧ modes.getLast? = some c.pending ∧ c.pending.same c.running = false)

structure Inv (c : Core) (modes : List Display) : Prop where
  idle : c.streaming = false → c.polls = 0
  armed : c.Followed → c.Armed modes

inductive Leaves (c : Core) : Core → Prop
  | same : Leaves c c
  | idle {c' : Core} (streaming : c'.streaming = false) (polls : c'.polls = 0) : Leaves c c'
  | quiet {c' : Core} (want : c'.want = false) (polls : c'.polls = 0) : Leaves c c'
  | begins (free : c.streaming = false) (running : Display) :
      Leaves c { c with streaming := true, restart := false, quit := false, running := running }
  | quits : Leaves c { c with quit := true }
  | cleans : Leaves c { c with cleanup := true }

theorem Leaves.after {c c₁ c' : Core} (leaves : Leaves c c₁) (same : c' = c₁) : Leaves c c' := same ▸ leaves

theorem Leaves.inv {c c' : Core} {modes : List Display} (leaves : Leaves c c') (inv : c.Inv modes) :
    c'.Inv (if !c.streaming && c'.streaming then [] else modes) := by
  cases leaves with
  | same =>
    rw [Bool.not_and_self, if_neg Bool.false_ne_true]
    exact inv
  | idle streaming polls =>
    refine ⟨fun _ => polls, fun followed => ?_⟩
    exact absurd followed.1 (by simp [streaming])
  | quiet want polls =>
    refine ⟨fun _ => polls, fun followed => ?_⟩
    exact absurd followed.2.1 (by simp [want])
  | begins free running =>
    rw [free]
    exact ⟨nofun, fun _ => .inl ⟨inv.idle free, nofun⟩⟩
  | quits => exact ⟨fun free => inv.idle free, fun followed => nomatch followed.2.2.2.2⟩
  | cleans => exact ⟨fun free => inv.idle free, fun followed => nomatch followed.2.2.1⟩

end Core

open Client.Debounce.Core

section core
variable (w : Window)

@[simp] theorem core_stopFollowing : core w.stopFollowing = (core w).halted := rfl

@[simp] theorem core_resumeInfoPolling : core w.resumeInfoPolling = core w := by
  unfold Window.resumeInfoPolling
  split <;> rfl

@[simp] theorem core_pollDisplay : core w.pollDisplay = core w := by
  unfold Window.pollDisplay
  split <;> rfl

theorem core_scheduleReconnect : core w.scheduleReconnect =
    if reconnectLimit ≤ w.reconnectAttempt then (core w).halted else core w := by
  unfold Window.scheduleReconnect
  dsimp only
  split
  · exact core_resumeInfoPolling w.stopFollowing
  · rfl

end core

section labels
variable {w : Window}

theorem startStream_leaves (w : Window) : Leaves (core w) (core w.startStream) := by
  unfold Window.startStream
  split
  · exact .same
  next free =>
    split
    · exact (@Leaves.quiet _ (core w).halted rfl rfl).after (core_resumeInfoPolling _)
    · have free : w.streaming = false := by
        simp only [Bool.or_eq_true, not_or, Bool.not_eq_true] at free
        exact free.1.1
      exact (@Leaves.idle _ { (core w).halted with want := true } free rfl).after (core_pollDisplay _)

theorem pollFailed_leaves {c : Core} (same : core w = c) (error : String) :
    Leaves c (core (w.pollFailed error)) := by
  subst same
  unfold Window.pollFailed
  split
  · split
    · rw [core_scheduleReconnect]
      split
      · exact .quiet rfl rfl
      · exact .same
    · exact .same
  · split
    · exact .same
    · split
      · exact .same
      · exact .quiet rfl rfl

theorem pollFailed_restart (idle : w.restart = false) (error : String) :
    (core (w.pollFailed error)).restart = false := by
  unfold Window.pollFailed
  split
  · split
    · rw [core_scheduleReconnect]
      split
      · rfl
      · exact idle
    · exact idle
  · split
    · exact idle
    · split
      · exact idle
      · rfl

theorem launchFailed_core (e : LaunchError) (w : Window) :
    (core (w.launchFailed e)).streaming = false ∧
      ((e.transport → w.wantStream → 0 < w.reconnectAttempt → w.reconnectAttempt < reconnectLimit →
        w.pendingModePolls = 0) → (core (w.launchFailed e)).polls = 0) := by
  unfold Window.launchFailed
  dsimp only
  split
  next going =>
    simp only [Bool.and_eq_true, decide_eq_true_eq] at going
    obtain ⟨⟨transport, want⟩, counted⟩ := going
    rw [core_scheduleReconnect]
    split
    · exact ⟨rfl, fun _ => rfl⟩
    next below => exact ⟨rfl, fun cleared => cleared transport want counted (Nat.lt_of_not_le below)⟩
  next =>
    have halted := core_resumeInfoPolling (Window.stopFollowing { w with
      streaming := false, cleanup := false, connectEnabled := true, startEnabled := true,
      sessionError := e.text })
    exact ⟨congrArg Core.streaming halted, fun _ => congrArg Core.polls halted⟩

theorem runStream_leaves (inv : w.streaming = false → w.pendingModePolls = 0)
    (thrown : Option LaunchError) : Leaves (core w) (core (w.runStream thrown)) := by
  unfold Window.runStream
  split
  · exact .same
  · unfold Window.launch
    split
    · exact .same
    next starts =>
      have free : w.streaming = false := by
        rw [Bool.not_eq_true] at starts
        simp only [Bool.or_eq_false_iff] at starts
        exact starts.1.1.1
      split
      · exact (@Leaves.quiet _ (core w).halted rfl rfl).after (core_resumeInfoPolling _)
      · cases thrown with
        | none => exact .begins free w.display
        | some e =>
          obtain ⟨streaming, polls⟩ := launchFailed_core e { w with
            launches := w.launches - 1, runningMode := w.display, request := Window.requested w.display,
            restart := false, sessionConnected := false, sessionError := "" }
          exact .idle streaming (polls fun _ _ _ _ => inv free)

theorem execThrew_leaves {modes : List Display} {e : LaunchError}
    (cleared : Cleared ⟨w, modes⟩ (.execThrew e)) : Leaves (core w) (core (w.execThrew e)) := by
  unfold Window.execThrew
  split
  next running =>
    simp only [Bool.and_eq_true, Bool.not_eq_true'] at running
    obtain ⟨streaming, polls⟩ := launchFailed_core e w
    exact .idle streaming (polls (cleared running.1 running.2))
  next => exact .same

theorem sessionEnded_core (w : Window) : (core w.sessionEnded).streaming = w.streaming ∧
    (core w.sessionEnded).polls = 0 := by
  have resumed (w : Window) : (core w.resumeInfoPolling).streaming = w.streaming ∧
      (core w.resumeInfoPolling).polls = w.pendingModePolls := by
    rw [core_resumeInfoPolling]
    exact ⟨rfl, rfl⟩
  unfold Window.sessionEnded
  dsimp only
  split
  · exact resumed _
  · split
    · exact ⟨rfl, rfl⟩
    · split
      · exact resumed _
      · rw [core_scheduleReconnect]
        split <;> exact ⟨rfl, rfl⟩

theorem step_leaves {modes : List Display} {l : Label} (inv : (core w).Inv modes)
    (cleared : Cleared ⟨w, modes⟩ l) (other : ∀ i, l = .poll (.info i) → w.pollBusy = false) :
    Leaves (core w) (core (w.step l)) := by
  cases l with
  | startClicked => exact startStream_leaves w
  | connectClicked =>
    simp only [Window.step, Window.connectHost]
    split
    · exact .same
    · exact .quiet rfl rfl
  | closeClicked =>
    simp only [Window.step, Window.closeEvent]
    split
    · exact .same
    · exact .quiet rfl rfl
  | forgetClicked =>
    simp only [Window.step, Window.forget]
    split <;> exact .same
  | forgetAnswered yes =>
    simp only [Window.step, Window.forgetAnswered]
    split
    · exact .same
    · split
      · exact .same
      · exact .quiet rfl rfl
  | settingsOpened =>
    simp only [Window.step, Window.openSettings]
    split <;> exact .same
  | settingsClosed =>
    simp only [Window.step, Window.closeSettings]
    split <;> exact .same
  | mouseModeChosen absolute =>
    simp only [Window.step, Window.chooseMouseMode]
    split <;> exact .same
  | serverinfo r =>
    simp only [Window.step, Window.serverinfoReply]
    split
    · exact .same
    · cases r <;> exact .same
  | applist failure =>
    simp only [Window.step, Window.applistReply]
    split
    · exact .same
    · cases failure <;> exact .same
  | poll r =>
    simp only [Window.step, Window.pollReply]
    split
    · exact .same
    next busy =>
      cases r with
      | failed error transient =>
        dsimp only
        refine pollFailed_leaves ?_ error
        rfl
      | info i =>
        have idle := other i rfl
        simp [idle] at busy
  | pollTimeout =>
    simp only [Window.step]
    split
    · exact Leaves.same.after (core_pollDisplay w)
    · exact .same
  | reconnectTimeout =>
    simp only [Window.step, Window.reconnectNow]
    split
    · split
      · exact .same
      · exact Leaves.same.after (core_pollDisplay _)
    · exact .same
  | runStream thrown => exact runStream_leaves inv.idle thrown
  | connectionStarted =>
    simp only [Window.step]
    split <;> exact .same
  | sessionFailed text =>
    simp only [Window.step]
    split <;> exact .same
  | quitObserved =>
    simp only [Window.step]
    split
    · exact .quits
    · exact .same
  | execThrew e => exact execThrew_leaves cleared
  | execReturned =>
    simp only [Window.step]
    split
    · exact .cleans
    · exact .same
  | cleanupReady =>
    simp only [Window.step, Window.cleanupReady]
    split
    · exact .idle (sessionEnded_core _).1 (sessionEnded_core _).2
    · exact .same

end labels

/-! A successful poll. -/

section poll
variable {w : Window} {modes : List Display}

theorem modeSeen_running (running : w.display.same w.runningMode = true) :
    w.modeSeen = { w with pendingModePolls := 0 } := if_pos running

theorem modeSeen_first (running : w.display.same w.runningMode = false)
    (fresh : ¬ (0 < w.pendingModePolls ∧ w.display.same w.pendingMode = true)) :
    w.modeSeen = { w with pendingMode := w.display, pendingModePolls := 1 } := by
  unfold Window.modeSeen
  rw [running, if_neg Bool.false_ne_true]
  simp only [fresh, if_false]
  rfl

theorem modeSeen_again (running : w.display.same w.runningMode = false) (one : w.pendingModePolls = 1)
    (again : w.display.same w.pendingMode = true) :
    w.modeSeen = { w with pendingModePolls := 0, restart := true, internalQuitPending := true } := by
  unfold Window.modeSeen
  rw [running, if_neg Bool.false_ne_true]
  have both : 0 < w.pendingModePolls ∧ w.display.same w.pendingMode = true := ⟨by omega, again⟩
  simp only [both, one]
  rfl

structure Answered (w : Window) (modes : List Display) (w' : Window) : Prop where
  asks : w'.restart = true ↔ Stable ⟨w, modes⟩ w.display
  stops : w'.restart = true → w'.internalQuitPending = true
  next : w'.restart = false → (core w').Armed (modes ++ [w.display])
  streaming : w'.streaming = w.streaming

theorem Answered.quiet {w' : Window} (idle : w'.restart = false) (moved : ¬ Stable ⟨w, modes⟩ w.display)
    (armed : (core w').Armed (modes ++ [w.display])) (streaming : w'.streaming = w.streaming) :
    Answered w modes w' where
  asks := iff_of_false (ne_true_of_eq_false idle) moved
  stops asked := absurd asked (ne_true_of_eq_false idle)
  next _ := armed
  streaming := streaming

/-- The modes of two polls in a row are compared with each other, and each with the running
one; the counter never gets past one without a restart. -/
theorem modeSeen_answered (armed : (core w).Armed modes) (idle : w.restart = false) :
    Answered w modes w.modeSeen := by
  cases running : w.display.same w.runningMode with
  | true =>
    have moved : ¬ Stable ⟨w, modes⟩ w.display := by
      rintro ⟨_, _, _, new, _⟩
      cases running.symm.trans new
    rw [modeSeen_running running]
    refine .quiet idle moved (.inl ⟨rfl, fun m member => ?_⟩) rfl
    rw [List.getLast?_concat] at member
    cases member
    exact running
  | false =>
    have first (fresh : ¬ (0 < w.pendingModePolls ∧ w.display.same w.pendingMode = true))
        (moved : ¬ Stable ⟨w, modes⟩ w.display) : Answered w modes w.modeSeen := by
      rw [modeSeen_first running fresh]
      exact .quiet idle moved (.inr ⟨rfl, List.getLast?_concat, running⟩) rfl
    rcases armed with ⟨none, last⟩ | ⟨one, last, pending⟩
    · have none : w.pendingModePolls = 0 := none
      refine first (fun both => absurd none (Nat.ne_of_gt both.1)) ?_
      rintro ⟨before, member, old, _, _⟩
      cases (last before member).symm.trans old
    · have one : w.pendingModePolls = 1 := one
      cases again : w.display.same w.pendingMode with
      | true =>
        rw [modeSeen_again running one again]
        exact ⟨iff_of_true rfl ⟨w.pendingMode, last, pending, running, again⟩, fun _ => rfl, nofun, rfl⟩
      | false =>
        refine first (fun both => Bool.false_ne_true (again.symm.trans both.2)) ?_
        rintro ⟨before, member, _, _, equal⟩
        cases last.symm.trans member
        cases again.symm.trans equal

theorem pollSucceeded_followed (followed : (core w).Followed) :
    ∃ w' : Window, w.pollSucceeded = w'.modeSeen ∧ core w' = core w ∧ w'.display = w.display := by
  obtain ⟨streaming, want, cleanup, restart, quit⟩ := followed
  have streaming : w.streaming = true := streaming
  have want : w.wantStream = true := want
  have cleanup : w.cleanup = false := cleanup
  have restart : w.restart = false := restart
  have quit : w.userQuit = false := quit
  unfold Window.pollSucceeded
  dsimp only
  rw [if_pos (by simp [streaming, want, cleanup, restart, quit])]
  refine ⟨_, rfl, ?_, rfl⟩
  simp [core, quit, want]

theorem pollSucceeded_unfollowed (unfollowed : ¬ (core w).Followed) :
    core w.pollSucceeded = { core w with want := w.wantStream && !(w.userQuit && w.streaming) } := by
  have off : (w.streaming && (w.wantStream && !(w.userQuit && w.streaming)) && !w.cleanup && !w.restart) =
      false := by
    by_contra on
    simp only [Bool.not_eq_false, Bool.and_eq_true, Bool.not_eq_true'] at on
    obtain ⟨⟨⟨streaming, want, quit⟩, cleanup⟩, restart⟩ := on
    rw [streaming, Bool.and_true] at quit
    exact unfollowed ⟨streaming, want, cleanup, restart, quit⟩
  unfold Window.pollSucceeded
  dsimp only
  rw [if_neg (by rw [off]; exact Bool.false_ne_true)]
  split <;> rfl

theorem polled_inv (inv : (core w).Inv modes) : (core w.pollSucceeded).Inv (modes ++ [w.display]) ∧
    w.pollSucceeded.streaming = w.streaming := by
  by_cases followed : (core w).Followed
  · obtain ⟨w', seen, same, display⟩ := pollSucceeded_followed followed
    have armed := inv.armed followed
    rw [← same] at armed followed
    obtain ⟨_, _, next, streaming⟩ := modeSeen_answered armed followed.2.2.2.1
    have playing : w'.streaming = true := followed.1
    rw [seen, ← display]
    refine ⟨⟨fun free => ?_, fun now => next now.2.2.2.1⟩, streaming.trans (congrArg Core.streaming same)⟩
    rw [show (core w'.modeSeen).streaming = w'.streaming from streaming, playing] at free
    cases free
  · have left := pollSucceeded_unfollowed followed
    refine ⟨left ▸ ⟨inv.idle, fun now => absurd now ?_⟩, congrArg Core.streaming left⟩
    rintro ⟨streaming, want, cleanup, restart, quit⟩
    simp only [Bool.and_eq_true] at want
    exact followed ⟨streaming, want.1, cleanup, restart, quit⟩

end poll

/-! Every run. -/

def Good (s : State) : Prop := (core s.window).Inv s.modes

theorem step_polled {w : Window} (busy : w.pollBusy = true) (i : Info) :
    w.step (.poll (.info i)) = Window.pollSucceeded { w.accept i with pollBusy := false } := by
  simp only [Window.step, Window.pollReply, busy]
  rfl

theorem step_failed {w : Window} (busy : w.pollBusy = true) (error : String) (transient : Bool) :
    w.step (.poll (.failed error transient)) = Window.pollFailed error { w with
      pollBusy := false, transientFailure := transient, pollFailures := w.pollFailures + 1 } := by
  simp only [Window.step, Window.pollReply, busy]
  rfl

theorem good_step (s : State) (l : Label) (good : Good s) (cleared : Cleared s l) : Good (step s l) := by
  by_cases polled : ∃ i, l = .poll (.info i) ∧ s.window.pollBusy = true
  · obtain ⟨i, rfl, busy⟩ := polled
    have stepped := step_polled busy i
    have kept : (core { s.window.accept i with pollBusy := false }).Inv s.modes := good
    obtain ⟨inv, streaming⟩ := polled_inv kept
    have same : (s.window.step (.poll (.info i))).streaming = s.window.streaming := by
      rw [stepped, streaming]
      rfl
    unfold Good step
    dsimp only
    rw [same, Bool.not_and_self, if_neg Bool.false_ne_true, stepped, reported, if_pos busy]
    exact inv
  · have other (i : Info) (is_poll : l = .poll (.info i)) : s.window.pollBusy = false := by
      by_contra busy
      exact polled ⟨i, is_poll, by simpa using busy⟩
    have modes : reported s.window s.modes l = s.modes := by
      unfold reported
      split
      next i =>
        rw [other i rfl]
        rfl
      next => rfl
    unfold Good step
    dsimp only
    rw [modes]
    exact (step_leaves good cleared other).inv good

theorem followed_answered {s : State} (good : Good s) (busy : s.window.pollBusy = true)
    (followed : Followed s.window) (i : Info) :
    ((s.window.step (.poll (.info i))).restart = true ↔ Stable s i.display) ∧
      ((s.window.step (.poll (.info i))).restart = true →
        (s.window.step (.poll (.info i))).internalQuitPending = true) := by
  obtain ⟨w', seen, same, display⟩ := pollSucceeded_followed
    (w := { s.window.accept i with pollBusy := false }) followed
  have armed : (core w').Armed s.modes := same ▸ good.armed followed
  have idle : w'.restart = false := (congrArg Core.restart same).trans followed.2.2.2.1
  have running : w'.runningMode = s.window.runningMode := congrArg Core.running same
  have mode : w'.display = i.display := display
  have answered := modeSeen_answered armed idle
  rw [step_polled busy i, seen]
  refine ⟨?_, answered.stops⟩
  rw [answered.asks, mode, Stable, Stable]
  simp only [running]

/-- In every run that never passes the count of a session on: a successful poll of a followed
session asks for a restart exactly for a stable new mode, and a failed one never does. -/
theorem restart_debounced {ls : List Label} (cleared : Meets step Cleared {} ls)
    (busy : (run step {} ls).window.pollBusy = true) (followed : Followed (run step {} ls).window) :
    (∀ i, ((run step {} ls).window.step (.poll (.info i))).restart = true ↔
      Stable (run step {} ls) i.display) ∧
    (∀ i, ((run step {} ls).window.step (.poll (.info i))).restart = true →
      ((run step {} ls).window.step (.poll (.info i))).internalQuitPending = true) ∧
    ∀ error transient,
      ((run step {} ls).window.step (.poll (.failed error transient))).restart = false := by
  have start : Good {} := ⟨fun _ => rfl, fun now => nomatch now.1⟩
  have good := meets_invariant step Cleared Good good_step start ls cleared
  have answered := followed_answered good busy followed
  refine ⟨fun i => (answered i).1, fun i => (answered i).2, fun error transient => ?_⟩
  rw [step_failed busy]
  refine pollFailed_restart ?_ error
  exact followed.2.2.2.1

/-- A connected session is lost, and the next one is launched; a poll of it reports a new
mode before its launch throws, and the one after it runs in the old mode again. -/
def passedOn : List Label :=
  Retry.started Retry.hd ++ [.execReturned, .cleanupReady, .reconnectTimeout, .poll (.info Retry.hd),
    .runStream none, .pollTimeout, .poll (.info Retry.wqhd), .execThrew (.networkReply ""),
    .reconnectTimeout, .poll (.info Retry.hd), .runStream none, .pollTimeout]

theorem restart_passed_on : (run step {} passedOn).window.pollBusy = true ∧
    Followed (run step {} passedOn).window ∧ (run step {} passedOn).modes = [] ∧
    ((run step {} passedOn).window.step (.poll (.info Retry.wqhd))).restart = true ∧
    ¬ (((run step {} passedOn).window.step (.poll (.info Retry.wqhd))).restart = true ↔
      Stable (run step {} passedOn) Retry.wqhd.display) := by
  have empty : (run step {} passedOn).modes = [] := by decide
  have asks : ((run step {} passedOn).window.step (.poll (.info Retry.wqhd))).restart = true := by decide
  refine ⟨by decide, by decide, empty, asks, fun exact => ?_⟩
  obtain ⟨before, member, _⟩ := exact.mp asks
  rw [empty] at member
  cases member

def settled : List Label :=
  Retry.started Retry.hd ++ [.pollTimeout, .poll (.info Retry.wqhd), .pollTimeout]

theorem restart_settled :
    ((run step {} settled).window.step (.poll (.info Retry.wqhd))).restart = true ∧
    ((run step {} settled).window.step (.poll (.info Retry.hd))).restart = false := by
  have debounced := @restart_debounced settled (by decide) (by decide) (by decide)
  have modes : (run step {} settled).modes = [Retry.wqhd.display] := by decide
  refine ⟨(debounced.1 Retry.wqhd).mpr ⟨Retry.wqhd.display, by rw [modes]; rfl, by decide⟩, ?_⟩
  by_contra asks
  obtain ⟨_, _, _, new, _⟩ := (debounced.1 Retry.hd).mp (by simpa using asks)
  exact absurd new (by decide)

end Client.Debounce

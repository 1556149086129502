import RkmoonKvm.Client.Display

/-! The main window of the client: its flags, counters and timers, and the callbacks
that update them. Nested event loops are cut at their waits, so a poll reply or a
click can come while a session runs, while it is cleaned up, or under a dialog. -/
namespace Client

def pollFailureLimit : Nat := 10
def reconnectLimit : Nat := 5
def reconnectMaxDelayMs : Nat := 8000
def modeStablePolls : Nat := 2

inductive Binding where
  | serverinfo | applist
  deriving DecidableEq

structure Request where
  width : Int := 1920
  height : Int := 1080
  fps : Int := 60
  deriving DecidableEq

structure Window where
  wantStream : Bool := false
  restart : Bool := false
  cleanup : Bool := false
  reconnectPending : Bool := false
  sessionConnected : Bool := false
  reconnectAttempt : Nat := 0
  pollFailures : Nat := 0
  pendingMode : Display := {}
  pendingModePolls : Nat := 0
  sessionError : String := ""
  pollBusy : Bool := false
  runningMode : Display := {}
  streaming : Bool := false
  connecting : Bool := false
  connected : Bool := false
  unreachable : Bool := false
  /-- The host, as its last reply has left it. -/
  display : Display := {}
  supportsAbsoluteMouse : Bool := false
  supportsRelativeMouse : Bool := false
  transientFailure : Bool := false
  /-- The configured mouse mode and the stream that the next launch asks for. -/
  absoluteMouse : Bool := true
  request : Request := {}
  /-- `RkmoonSessionControl` -/
  userQuit : Bool := false
  internalQuitPending : Bool := false
  /-- The poll timer, the interval of an armed reconnect timer, and queued launches. -/
  polling : Bool := false
  reconnectTimer : Option Nat := none
  launches : Nat := 0
  binding : Option Binding := none
  /-- The question of Forget, or the settings, are open. -/
  forgetting : Bool := false
  settings : Bool := false
  startEnabled : Bool := false
  connectEnabled : Bool := true
  startText : String := "Start"
  status : String := "Not connected"

structure Info where
  display : Display
  absolute : Bool
  relative : Bool

/-- `KvmHost::accept`; an old host that names no mouse modes has the relative one. -/
def Info.read (get : String → String) : Except String Info := do
  let display ← Display.parse get
  let advertised := (get "RKMoonMouseModes").toList
  let mouseModes := advertised.splitOn ','
  return {
    display
    absolute := mouseModes.contains "absolute".toList
    relative := advertised.isEmpty || mouseModes.contains "relative".toList }

theorem Info.read_ok {get : String → String} {d : Display} (parsed : Display.parse get = .ok d) :
    ∃ info, Info.read get = .ok info ∧ info.display = d ∧
      info.absolute = ((get "RKMoonMouseModes").toList.splitOn ',').contains "absolute".toList := by
  unfold Info.read
  rw [parsed]
  exact ⟨_, rfl, rfl, rfl⟩

inductive Reply where
  | failed (error : String) (transient : Bool)
  | info (i : Info)

inductive LaunchError where
  | gfeHttpResponse (text : String)
  | networkReply (text : String)
  | other (text : String)

def LaunchError.text : LaunchError → String
  | .gfeHttpResponse t | .networkReply t | .other t => "Stream refused: " ++ t

def LaunchError.transport : LaunchError → Bool
  | .networkReply _ => true
  | _ => false

namespace Window

def stopFollowing (w : Window) : Window :=
  { w with
    wantStream := false, restart := false, polling := false, reconnectTimer := none,
    reconnectPending := false, reconnectAttempt := 0, pendingModePolls := 0 }

def resumeInfoPolling (w : Window) : Window :=
  if w.connected && !w.polling then { w with polling := true } else w

def closeEvent (w : Window) : Window :=
  if w.connecting || w.streaming || w.pollBusy then w
  else { w.stopFollowing with polling := false }

def forget (w : Window) : Window :=
  if w.streaming || w.connecting || w.pollBusy then w else { w with forgetting := true }

/-- The question is answered; its dialog has run an event loop of its own. -/
def forgetAnswered (yes : Bool) (w : Window) : Window :=
  if !w.forgetting then w
  else if !yes then { w with forgetting := false }
  else { w.stopFollowing with
    forgetting := false, polling := false, connected := false, startEnabled := false,
    status := "Host binding forgotten." }

def chooseMouseMode (absolute : Bool) (w : Window) : Window :=
  if w.streaming || w.connecting || w.pollBusy || w.cleanup then w
  else { w with absoluteMouse := absolute }

def openSettings (w : Window) : Window :=
  if w.streaming || w.connecting || w.pollBusy then w
  else { w with settings := true, connecting := true }

def closeSettings (w : Window) : Window :=
  if w.settings then { w with settings := false, connecting := false } else w

def connectHost (w : Window) : Window :=
  if w.streaming || w.connecting || w.pollBusy then w
  else { w.stopFollowing with
    polling := false, connected := false, unreachable := false, connecting := true,
    startEnabled := false, status := "Connecting…", binding := some .serverinfo }

def accept (i : Info) (w : Window) : Window :=
  { w with
    transientFailure := false, display := i.display, supportsAbsoluteMouse := i.absolute,
    supportsRelativeMouse := i.relative }

def connectFailed (error : String) (transient : Bool) (w : Window) : Window :=
  { w with
    transientFailure := transient, binding := none, connecting := false, status := error }

def serverinfoReply (r : Reply) (w : Window) : Window :=
  if w.binding ≠ some .serverinfo then w
  else match r with
    | .failed error transient => w.connectFailed error transient
    | .info i => { w.accept i with binding := some .applist }

def applistReply (failure : Option (String × Bool)) (w : Window) : Window :=
  if w.binding ≠ some .applist then w
  else match failure with
    | some (error, transient) => w.connectFailed error transient
    | none => { w with
        transientFailure := false, binding := none, connecting := false, connected := true,
        pollFailures := 0, startEnabled := true, startText := "Start",
        status := "Connected. Click Start to open the remote screen.", polling := true }

def scheduleReconnect (w : Window) : Window :=
  let detail := if w.sessionError = "" then "" else "\n" ++ w.sessionError
  if reconnectLimit ≤ w.reconnectAttempt then
    { w.stopFollowing.resumeInfoPolling with
      startText := "Start",
      status := "连接中断，自动重连 " ++ toString reconnectLimit ++
        " 次未成功；请点击 Start 重试。" ++ detail }
  else
    let attempt := w.reconnectAttempt + 1
    { w with
      reconnectAttempt := attempt, reconnectPending := true,
      reconnectTimer := some (min (1000 <<< (attempt - 1)) reconnectMaxDelayMs),
      polling := true, startText := "Cancel", startEnabled := true,
      status := "连接中断，正在重连（" ++ toString attempt ++ "/" ++ toString reconnectLimit ++
        "）" ++ detail }

def pollDisplay (w : Window) : Window :=
  if w.pollBusy || w.connecting then w else { w with pollBusy := true }

/-- Only transport failures while playing or recovering are buffered. -/
def pollFailed (error : String) (w : Window) : Window :=
  if w.transientFailure && w.wantStream && !w.streaming && 0 < w.reconnectAttempt then
    if !w.reconnectPending then scheduleReconnect { w with sessionError := error } else w
  else if w.transientFailure && w.wantStream && w.streaming && w.pollFailures < pollFailureLimit then
    { w with status := "Display status temporarily unavailable; retrying (" ++
        toString w.pollFailures ++ "/" ++ toString pollFailureLimit ++ ")" }
  else if w.transientFailure && !w.wantStream && !w.streaming then { w with unreachable := true }
  else
    { w.stopFollowing with
      sessionError := error, connected := false, status := error, startEnabled := false,
      internalQuitPending := w.internalQuitPending || w.streaming }

def modeSeen (w : Window) : Window :=
  if w.display.same w.runningMode then { w with pendingModePolls := 0 }
  else
    let polls := if 0 < w.pendingModePolls ∧ w.display.same w.pendingMode
      then w.pendingModePolls + 1 else 1
    let pending := if 0 < w.pendingModePolls ∧ w.display.same w.pendingMode
      then w.pendingMode else w.display
    if polls < modeStablePolls then { w with pendingMode := pending, pendingModePolls := polls }
    else { w with
      pendingMode := pending, pendingModePolls := 0, restart := true, internalQuitPending := true }

def pollSucceeded (w : Window) : Window :=
  let w := { w with
    pollFailures := 0, unreachable := false,
    startText := if w.wantStream && !w.streaming then "Cancel" else "Start",
    status := if w.wantStream && !w.streaming && w.sessionError = "" && !w.display.canStart
      then "Waiting for the capture: " ++ w.display.status.text else w.status,
    wantStream := w.wantStream && !(w.userQuit && w.streaming) }
  if w.streaming && w.wantStream && !w.cleanup && !w.restart then w.modeSeen
  else if !w.streaming && w.wantStream && !w.reconnectPending && w.display.canStart then
    { w with launches := w.launches + 1 }
  else w

def pollReply (r : Reply) (w : Window) : Window :=
  if !w.pollBusy then w
  else match r with
    | .failed error transient => pollFailed error { w with
        pollBusy := false, transientFailure := transient, pollFailures := w.pollFailures + 1 }
    | .info i => pollSucceeded { w.accept i with pollBusy := false }

def startStream (w : Window) : Window :=
  if w.streaming || w.connecting || !w.startEnabled then w
  else if w.wantStream then
    { w.stopFollowing.resumeInfoPolling with startText := "Start", status := "Cancelled" }
  else pollDisplay { w.stopFollowing with
    wantStream := true, startText := "Cancel", status := "Starting…", polling := true }

def markConnected (w : Window) : Window :=
  { w with
    sessionConnected := true, reconnectAttempt := 0, pollFailures := 0, reconnectPending := false,
    reconnectTimer := none, status := "HDMI stream connected" }

def sessionEnded (w : Window) : Window :=
  let restart := w.restart
  let w := { w with
    wantStream := w.wantStream && !w.userQuit, restart := false, pendingModePolls := 0 }
  if !w.wantStream then
    let w := resumeInfoPolling { w with
      reconnectTimer := none, reconnectPending := false, reconnectAttempt := 0 }
    { w with
      startText := "Start",
      status := if w.status = "HDMI stream connected"
        then "Stream ended; click Start to resume." else w.status }
  else if restart then w -- Confirmed source mode change: the next ready poll relaunches.
  else if !w.sessionConnected && w.reconnectAttempt = 0 then
    -- First launch never connected: report the launch failure, do not loop.
    let w := w.stopFollowing.resumeInfoPolling
    { w with
      startText := "Start",
      status := if w.sessionError = "" then "Stream ended; click Start to retry." else w.status }
  else w.scheduleReconnect

def launchFailed (e : LaunchError) (w : Window) : Window :=
  let w := { w with
    streaming := false, cleanup := false, connectEnabled := true, startEnabled := true,
    sessionError := e.text }
  if e.transport && w.wantStream && 0 < w.reconnectAttempt then w.scheduleReconnect
  else { w.stopFollowing.resumeInfoPolling with startText := "Start", status := e.text }

def reconnectNow (w : Window) : Window :=
  if !w.wantStream || w.streaming || !w.reconnectPending then w
  else pollDisplay { w with reconnectPending := false }

def mouseSupported (w : Window) : Bool :=
  if w.absoluteMouse then w.supportsAbsoluteMouse else w.supportsRelativeMouse

/-- What the launch asks for; a source that sends no picture gets the placeholder. -/
def requested (d : Display) : Request :=
  if d.ready then { width := d.width, height := d.height, fps := (d.fpsX100 + 50).tdiv 100 }
  else { width := 1920, height := 1080, fps := 60 }

theorem requested_fps {get : String → String} {d : Display} (accepted : Display.parse get = .ok d) :
    1 ≤ (requested d).fps ∧ (requested d).fps ≤ 120 := by
  unfold requested
  cases ready : d.ready with
  | false =>
    rw [if_neg (by decide)]
    decide
  | true =>
    obtain ⟨rate_ge, rate_le⟩ := (Display.parse_limits accepted ready).rate
    rw [if_pos rfl]
    dsimp only
    rw [Int.tdiv_eq_ediv_of_nonneg (by omega)]
    omega

/-- Up to the call of `exec`, or to an exception before it. -/
def launch (thrown : Option LaunchError) (w : Window) : Window :=
  if w.streaming || w.connecting || !w.wantStream || !w.display.canStart then w
  else if !w.mouseSupported then
    { w.stopFollowing.resumeInfoPolling with
      startText := "Start",
      status := "Server does not advertise the selected mouse mode; upgrade/configure its input support or choose a supported mode." }
  else
    let w := { w with
      runningMode := w.display, request := requested w.display, restart := false,
      sessionConnected := false, sessionError := "" }
    match thrown with
    | some e => w.launchFailed e
    | none => { w with
        streaming := true, startEnabled := false, connectEnabled := false,
        userQuit := false, internalQuitPending := false }

def runStream (thrown : Option LaunchError) (w : Window) : Window :=
  if w.launches = 0 then w else launch thrown { w with launches := w.launches - 1 }

def cleanupReady (w : Window) : Window :=
  if w.streaming && w.cleanup then
    sessionEnded { w with
      cleanup := false, streaming := false, connectEnabled := true, startEnabled := true }
  else w

def execThrew (e : LaunchError) (w : Window) : Window :=
  if w.streaming && !w.cleanup then w.launchFailed e else w

end Window

inductive Label where
  | startClicked | connectClicked | closeClicked
  | forgetClicked | forgetAnswered (yes : Bool)
  | settingsOpened | settingsClosed
  | mouseModeChosen (absolute : Bool)
  | serverinfo (r : Reply)
  | applist (failure : Option (String × Bool))
  | poll (r : Reply)
  | pollTimeout | reconnectTimeout
  | runStream (thrown : Option LaunchError)
  | connectionStarted | sessionFailed (text : String) | quitObserved
  | execThrew (e : LaunchError) | execReturned | cleanupReady

def Window.step (w : Window) : Label → Window
  | .startClicked => w.startStream
  | .connectClicked => w.connectHost
  | .closeClicked => w.closeEvent
  | .forgetClicked => w.forget
  | .forgetAnswered yes => w.forgetAnswered yes
  | .settingsOpened => w.openSettings
  | .settingsClosed => w.closeSettings
  | .mouseModeChosen absolute => w.chooseMouseMode absolute
  | .serverinfo r => w.serverinfoReply r
  | .applist failure => w.applistReply failure
  | .poll r => w.pollReply r
  | .pollTimeout => if w.polling then w.pollDisplay else w
  | .reconnectTimeout =>
    if w.reconnectTimer.isSome then reconnectNow { w with reconnectTimer := none } else w
  | .runStream thrown => w.runStream thrown
  | .connectionStarted => if w.streaming then w.markConnected else w
  | .sessionFailed text => if w.streaming then { w with sessionError := text, status := text } else w
  | .quitObserved => if w.streaming then { w with userQuit := true } else w
  | .execThrew e => w.execThrew e
  | .execReturned => if w.streaming && !w.cleanup then { w with cleanup := true } else w
  | .cleanupReady => w.cleanupReady

end Client

import RkmoonKvm.Hid.Tracking

/-! One connection of the bridge: the coroutine `Server.handle` cut at its awaits,
followed by the retry of its release. What it does to the flags that all
connections share is its effect. -/
namespace Hid
open Await

def handshake : Line → Except PyError MouseMode
  | .other => .error (.inputError "invalid local lease handshake")
  | .object e =>
    let named := e.any fun p => p.1 == "mouse_mode"
    let mode := if named then field e "mouse_mode" else .str "relative"
    let fields := if named then ["op", "version", "mouse_mode"] else ["op", "version"]
    if sameFields e fields ∧ field e "op" = .str "hello" ∧ field e "version" = .int 1 then
      match mode with
      | .str "relative" => .ok .relative
      | .str "absolute" => .ok .absolute
      | _ => .error (.inputError "invalid local lease handshake")
    else .error (.inputError "invalid local lease handshake")

namespace Server

abbrev Work (A : Type) := Prog Lease Call Unit PyError A

/-- Where a handler waits: in its body, in its `finally`, or after its end in the
retry of its release. -/
inductive Phase where
  | absent
  | refusing | hello | selecting (mode : MouseMode) | opening (mode : MouseMode) | replying
  | serving (work : Work Unit)
  | joining | closing | flushing | sleeping | streamClosing
  | releasing (rest : Work Bool)
  | retryTop | retrySleeping
  | retryReleasing (rest : Work Bool)
  | retryFinal (rest : Work Bool)
  | finished
  /-- The `finally` was cancelled; the last release of a stopped retry has ended. -/
  | aborted | abandoned

def Phase.body : Phase → Bool
  | .refusing | .hello | .selecting _ | .opening _ | .replying | .serving _ => true
  | _ => false

def Phase.leaving : Phase → Bool
  | .joining | .closing | .flushing | .sleeping | .streamClosing | .releasing _ => true
  | _ => false

def Phase.retrying : Phase → Bool
  | .retryTop | .retrySleeping | .retryReleasing _ | .retryFinal _ => true
  | _ => false

structure Conn where
  phase : Phase := .absent
  owns : Bool := false
  stream : Bool := false
  lease : Option Lease := none
  reply : Option Bool := none
  /-- `cancel` was called and the error is not raised yet. -/
  cancelled : Bool := false
  /-- The awaited call of the lease was made after `close`. -/
  fresh : Bool := false

inductive Effect where
  | none
  /-- The handler enters the set of handlers, the second with the lease claimed. -/
  | enters | claims
  /-- It is discarded: with nothing to release, with the lease free, with a retry. -/
  | leaves | frees | retries
  deriving DecidableEq

structure Flags where
  busy : Bool
  stopping : Bool
  /-- The backend has `open_stream`. -/
  streams : Bool

inductive Act where
  | start (uidOk : Bool)
  | drained (ok : Bool)
  | hello (line : Option Line)
  | selected (ok : Bool)
  | opened (ok : Bool)
  | event (e : Event)
  | answer (acked : Bool)
  | ended
  | joined
  | closed (ks : List Key) (bs : List Button)
  | flushed (ok : Bool)
  | slept
  | streamClosed (ks : List Key) (bs : List Button)
  | retry (ks : List Key) (bs : List Button)
  | retrySlept (ks : List Key) (bs : List Button)
  | cancelled

namespace Conn

def active (c : Conn) : Bool := c.phase.body || c.phase.leaving

/-- The lease once the error was raised at the call that its program awaits. -/
def interrupted (c : Conn) : Option Lease :=
  match c.phase with
  | .serving (.wait _ _ k) => some (k (.error .cancelledError)).object
  | .releasing (.wait _ _ k) => some (k (.error .cancelledError)).object
  | _ => c.lease

/-- The start of the `finally`: the workers are cancelled, the consumer at its call. -/
def teardown (c : Conn) : Conn := { c with phase := .joining, lease := c.interrupted }

def start (f : Flags) (uidOk : Bool) (c : Conn) : Conn × Effect :=
  match c.phase with
  | .absent =>
    if !uidOk || f.busy || f.stopping then ({ c with phase := .refusing, reply := some false }, .enters)
    else ({ c with phase := .hello, owns := true }, .claims)
  | _ => (c, .none)

/-- The lease is created and the reply written, before the next await. -/
def grant (mode : MouseMode) (stream : Bool) (c : Conn) : Conn :=
  { c with phase := .replying, stream, lease := some { mouseMode := mode, stream },
           reply := some true }

def drained (ok : Bool) (c : Conn) : Conn :=
  match c.phase, c.lease with
  | .refusing, _ => c.teardown
  | .replying, some l =>
    if ok then { c with phase := .serving (.done (.ok ()) l) } else c.teardown
  | _, _ => c

def greeted (line : Option Line) (c : Conn) : Conn :=
  match c.phase, line.map handshake with
  | .hello, some (.ok mode) => { c with phase := .selecting mode }
  | .hello, _ => c.teardown
  | _, _ => c

def selected (f : Flags) (ok : Bool) (c : Conn) : Conn :=
  match c.phase with
  | .selecting mode =>
    if !ok then c.teardown
    else if f.streams then { c with phase := .opening mode }
    else c.grant mode false
  | _ => c

def opened (ok : Bool) (c : Conn) : Conn :=
  match c.phase with
  | .opening mode => c.grant mode ok
  | _ => c

def serve (f : Flags) (work : Work Unit) (c : Conn) : Conn :=
  { c with phase := .serving work, lease := some work.object, fresh := f.stopping }

def event (f : Flags) (e : Event) (c : Conn) : Conn :=
  match c.phase with
  | .serving (.done (.ok _) l) => c.serve f (Lease.apply e l)
  | _ => c

def ended (c : Conn) : Conn :=
  match c.phase with
  | .serving _ => c.teardown
  | _ => c

def joined (c : Conn) : Conn :=
  match c.phase with
  | .joining => { c with phase := .closing }
  | _ => c

def settleAs (f : Flags) (waiting : Work Bool → Phase) (unfinished : Effect) (raised : Phase)
    (rest : Work Bool) (c : Conn) : Conn × Effect :=
  let c := { c with lease := some rest.object, fresh := f.stopping }
  match rest with
  | .done (.ok true) _ => ({ c with phase := .finished }, .frees)
  | .done (.ok false) _ => ({ c with phase := .retryTop }, unfinished)
  | .done (.error _) _ => ({ c with phase := raised }, .none)
  | .wait .. => ({ c with phase := waiting rest }, .none)

/-- The release of the handler, and the one inside the loop of `retry_release`. -/
def settle (f : Flags) (rest : Work Bool) (c : Conn) : Conn × Effect :=
  c.settleAs f .releasing .retries .aborted rest

def settleRetry (f : Flags) (rest : Work Bool) (c : Conn) : Conn × Effect :=
  c.settleAs f .retryReleasing .none .abandoned rest

def quit (f : Flags) (ks : List Key) (bs : List Button) (c : Conn) : Conn × Effect :=
  if !c.owns then ({ c with phase := .finished }, .leaves)
  else match c.lease with
    | none => ({ c with phase := .finished }, .frees)
    | some l => if l.listed ks bs then c.settle f (Lease.release ks bs l) else (c, .none)

def closed (f : Flags) (ks : List Key) (bs : List Button) (c : Conn) : Conn × Effect :=
  match c.phase with
  | .closing => if c.stream then ({ c with phase := .flushing }, .none) else c.quit f ks bs
  | _ => (c, .none)

def flushed (ok : Bool) (c : Conn) : Conn :=
  match c.phase with
  | .flushing => { c with phase := if ok then .streamClosing else .sleeping }
  | _ => c

def slept (c : Conn) : Conn :=
  match c.phase with
  | .sleeping => { c with phase := .streamClosing }
  | _ => c

def streamClosed (f : Flags) (ks : List Key) (bs : List Button) (c : Conn) : Conn × Effect :=
  match c.phase with
  | .streamClosing => c.quit f ks bs
  | _ => (c, .none)

/-- The release behind that loop, whose answer nobody reads. -/
def settleFinal (f : Flags) (rest : Work Bool) (c : Conn) : Conn :=
  let c := { c with lease := some rest.object, fresh := f.stopping }
  match rest with
  | .done _ _ => { c with phase := .abandoned }
  | .wait .. => { c with phase := .retryFinal rest }

def retry (f : Flags) (ks : List Key) (bs : List Button) (c : Conn) : Conn :=
  match c.phase, c.lease with
  | .retryTop, some l =>
    if !f.stopping then { c with phase := .retrySleeping }
    else if l.listed ks bs then c.settleFinal f (Lease.release ks bs l)
    else c
  | _, _ => c

def retrySlept (f : Flags) (ks : List Key) (bs : List Button) (c : Conn) : Conn × Effect :=
  match c.phase, c.lease with
  | .retrySleeping, some l =>
    if l.listed ks bs then c.settleRetry f (Lease.release ks bs l) else (c, .none)
  | _, _ => (c, .none)

def reported : Bool → Except PyError Unit
  | true => .ok ()
  | false => .error (.backendError "kvmd operation failed or timed out")

def answer (f : Flags) (acked : Bool) (c : Conn) : Conn × Effect :=
  match c.phase with
  | .serving (.wait _ _ k) => (c.serve f (k (reported acked)), .none)
  | .releasing (.wait _ _ k) =>
    if c.cancelled then (c, .none) else c.settle f (k (reported acked))
  | .retryReleasing (.wait _ _ k) => c.settleRetry f (k (reported acked))
  | .retryFinal (.wait _ _ k) => (c.settleFinal f (k (reported acked)), .none)
  | _ => (c, .none)

/-- CancelledError is raised where the handler waits. Its body catches it, its
`finally` does not. -/
def cancel (c : Conn) : Conn :=
  if c.phase.body then { c.teardown with cancelled := false }
  else if c.phase.leaving then
    { c with phase := .aborted, lease := c.interrupted, cancelled := false }
  else { c with cancelled := false }

/-- A cancelled handler does nothing before the error is raised; its consumer, and
the retry of a release, are tasks of their own. -/
def act (f : Flags) (a : Act) (c : Conn) : Conn × Effect :=
  match a with
  | .event e => (c.event f e, .none)
  | .answer acked => c.answer f acked
  | .retry ks bs => (c.retry f ks bs, .none)
  | .retrySlept ks bs => c.retrySlept f ks bs
  | .cancelled => if c.cancelled then (c.cancel, .none) else (c, .none)
  | a =>
    if c.cancelled then (c, .none)
    else match a with
      | .start uidOk => c.start f uidOk
      | .drained ok => (c.drained ok, .none)
      | .hello line => (c.greeted line, .none)
      | .selected ok => (c.selected f ok, .none)
      | .opened ok => (c.opened ok, .none)
      | .ended => (c.ended, .none)
      | .joined => (c.joined, .none)
      | .closed ks bs => c.closed f ks bs
      | .flushed ok => (c.flushed ok, .none)
      | .slept => (c.slept, .none)
      | .streamClosed ks bs => c.streamClosed f ks bs
      | _ => (c, .none)

end Conn
end Server
end Hid

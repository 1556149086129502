import RkmoonKvm.Hid.Handler

/-! What one act of a handler can do, said once: the invariants of a connection and
its effect on the shared flags are read off from it. -/
namespace Hid
open Await

namespace Server
namespace Conn

def neutral (c : Conn) : Prop := ∀ l ∈ c.lease, l.neutral

/-- Between claiming the lease and the end of its release, a pending retry included. -/
def holds (c : Conn) : Bool :=
  c.owns && match c.phase with
    | .finished => false
    | _ => true

end Conn

def Phase.owner : Phase → Bool
  | .absent | .refusing | .joining | .closing | .flushing | .sleeping | .streamClosing
  | .finished | .aborted => false
  | _ => true

def Phase.rest? : Phase → Option (Work Bool)
  | .releasing rest | .retryReleasing rest | .retryFinal rest => some rest
  | _ => none

/-- A release answers whether anything is still tracked; it catches every error but
a cancellation. -/
structure Answers (rest : Work Bool) : Prop where
  ends : Ends (fun r l => ∀ b, r = .ok b → b = l.neutral) rest
  settles : Settles PyError.isException rest
  uncaught : Uncaught .cancelledError rest

theorem releaseKeys_uncaught (ks : List Key) (l : Lease) :
    Uncaught .cancelledError (Lease.releaseKeys ks l) := by
  induction ks generalizing l with
  | nil => exact trivial
  | cons k ks ih =>
    refine uncaught_bind (uncaught_rescue rfl ?_ fun _ => trivial) fun _ s => ih s
    exact uncaught_bind (uncaught_call _ _ _) fun _ _ => trivial

theorem releaseButtons_uncaught (bs : List Button) (l : Lease) :
    Uncaught .cancelledError (Lease.releaseButtons bs l) := by
  induction bs generalizing l with
  | nil => exact trivial
  | cons b bs ih =>
    refine uncaught_bind (uncaught_rescue rfl ?_ fun _ => trivial) fun _ s => ih s
    exact uncaught_bind (uncaught_call _ _ _) fun _ _ => trivial

theorem round_settles (c : Call) (drop : Lease → Lease) (l : Lease) :
    Settles PyError.isException ((Method.attempt PyError.isException
      (do
        let _ ← Method.call c
        modify drop)
      (pure ()) : Lease.Code Unit) l) := by
  refine ⟨fun _ => rfl, fun e caught => ?_⟩
  simp only [Prog.rescue, Prog.bind, caught, if_true]
  rfl

theorem releaseKeys_settles (ks : List Key) (l : Lease) :
    Settles PyError.isException (Lease.releaseKeys ks l) := by
  induction ks generalizing l with
  | nil => exact rfl
  | cons k ks ih => exact settles_bind (round_settles _ _ l) fun _ s => ih s

theorem releaseButtons_settles (bs : List Button) (l : Lease) :
    Settles PyError.isException (Lease.releaseButtons bs l) := by
  induction bs generalizing l with
  | nil => exact rfl
  | cons b bs ih => exact settles_bind (round_settles _ _ l) fun _ s => ih s

theorem release_answers (ks : List Key) (bs : List Button) (l : Lease) :
    Answers (Lease.release ks bs l) := by
  constructor
  · have rules : Releases (⟨fun _ d => d, fun _ d => d⟩ : World Call Unit) (fun _ _ => True)
        (fun _ _ => True) :=
      ⟨fun _ _ => trivial, fun _ _ => trivial, fun _ _ _ => trivial, fun _ => trivial⟩
    have kept := release_keeps rules (fun _ => trivial) ks bs (d := ()) (l := l) trivial
    exact ends_of_keeps (fun _ => trivial) kept
  · have keys := releaseKeys_settles ks l.forgetAliases
    have buttons := fun s => releaseButtons_settles bs s
    exact settles_bind (p := Lease.releaseKeys ks l.forgetAliases) keys fun _ s =>
      settles_bind (p := Lease.releaseButtons bs s) (buttons s) fun _ _ => rfl
  · have keys := releaseKeys_uncaught ks l.forgetAliases
    have buttons := fun s => releaseButtons_uncaught bs s
    exact uncaught_bind (p := Lease.releaseKeys ks l.forgetAliases) keys fun _ s =>
      uncaught_bind (p := Lease.releaseButtons bs s) (buttons s) fun _ _ => trivial

theorem Answers.next {op : Call} {l : Lease} {k : Except PyError Unit → Work Bool}
    (answers : Answers (.wait op l k)) (acked : Bool) : Answers (k (Conn.reported acked)) := by
  refine ⟨answers.ends _, ?_, answers.uncaught.2 _⟩
  cases acked with
  | true => exact answers.settles.1 ()
  | false => exact answers.settles.2 _ rfl

structure Sound (c : Conn) : Prop where
  unowned : c.owns = false → c.lease = none
  owner : c.phase.owner → c.owns
  absent : c.phase = .absent → c.owns = false
  finished : c.phase = .finished → c.neutral
  rest : ∀ rest ∈ c.phase.rest?, c.lease = some rest.object ∧ Answers rest

theorem sound_absent : Sound {} where
  unowned _ := rfl
  owner p := by cases p
  absent _ := rfl
  finished p := by cases p
  rest _ p := by cases p

def Effect.Spec (f : Flags) (c c' : Conn) : Effect → Prop
  | .none => c'.holds = c.holds
  | .enters | .leaves => c.holds = false ∧ c'.holds = false
  | .claims => f.busy = false ∧ c.holds = false ∧ c'.holds
  | .frees => c.holds ∧ c'.holds = false
  | .retries => c.holds ∧ c'.holds

structure Acted (f : Flags) (c c' : Conn) (effect : Effect) : Prop where
  sound : Sound c'
  spec : effect.Spec f c c'
  reply : c'.reply = some true → c.reply = some true ∨ c.holds

/-- What one act can do to a connection. -/
inductive Turn (f : Flags) (a : Act) (c : Conn) : Conn → Effect → Prop where
  | stay : Turn f a c c .none
  | refuse (here : c.phase = .absent) :
      Turn f a c { c with phase := .refusing, reply := some false } .enters
  | claim (here : c.phase = .absent) (free : f.busy = false) (up : f.stopping = false) :
      Turn f a c { c with phase := .hello, owns := true } .claims
  | proceed (p : Phase) (here : c.phase.body) (owner : c.phase.owner) (live : c.cancelled = false)
      (next : p.body) (plain : p.rest? = none) : Turn f a c { c with phase := p } .none
  | grant (mode : MouseMode) (stream : Bool) (here : c.phase.body) (owner : c.phase.owner)
      (live : c.cancelled = false) : Turn f a c (c.grant mode stream) .none
  | serve (old work : Work Unit) (here : c.phase = .serving old) : Turn f a c (c.serve f work) .none
  | leave (flag : Bool) (here : c.phase.body) (off : flag = false) :
      Turn f a c { c with phase := .joining, lease := c.interrupted, cancelled := flag } .none
  | depart (p : Phase) (here : c.phase.leaving) (live : c.cancelled = false) (next : p.leaving)
      (plain : p.rest? = none) : Turn f a c { c with phase := p } .none
  | abort (here : c.phase.leaving) (flagged : c.cancelled) :
      Turn f a c { c with phase := .aborted, lease := c.interrupted, cancelled := false } .none
  | unflag (here : c.phase.body = false) (there : c.phase.leaving = false) :
      Turn f a c { c with cancelled := false } .none
  | vacate (here : c.phase.leaving) (live : c.cancelled = false) (owns : c.owns = false) :
      Turn f a c { c with phase := .finished } .leaves
  | give (here : c.phase.leaving) (live : c.cancelled = false) (owns : c.owns)
      (lease : c.lease = none) : Turn f a c { c with phase := .finished } .frees
  | release (rest : Work Bool) (here : c.phase.leaving) (live : c.cancelled = false) (owns : c.owns)
      (answers : Answers rest) : Turn f a c (c.settle f rest).1 (c.settle f rest).2
  | pause (here : c.phase.retrying) : Turn f a c { c with phase := .retrySleeping } .none
  | retry (rest : Work Bool) (here : c.phase.retrying) (answers : Answers rest) :
      Turn f a c (c.settleRetry f rest).1 (c.settleRetry f rest).2
  | final (ks : List Key) (bs : List Button) (l : Lease) (here : c.phase.retrying)
      (stopping : f.stopping) (listed : l.listed ks bs) :
      Turn f a c (c.settleFinal f (Lease.release ks bs l)) .none
  | finish (op : Call) (l : Lease) (k : Except PyError Unit → Work Bool) (acked : Bool)
      (here : c.phase = .retryFinal (.wait op l k)) (answered : a = .answer acked)
      (answers : Answers (k (Conn.reported acked))) :
      Turn f a c (c.settleFinal f (k (Conn.reported acked))) .none

section
variable {f : Flags} {a : Act} {c : Conn}

theorem turn_teardown (here : c.phase.body) (live : c.cancelled = false) :
    Turn f a c c.teardown .none := .leave c.cancelled here live

theorem turn_start (uidOk : Bool) : Turn f a c (c.start f uidOk).1 (c.start f uidOk).2 := by
  unfold Conn.start
  split
  · rename_i absent
    split
    · exact .refuse absent
    · rename_i free
      simp only [Bool.or_eq_true, not_or, Bool.not_eq_true] at free
      exact .claim absent free.1.2 free.2
  · exact .stay

theorem turn_drained (live : c.cancelled = false) (ok : Bool) : Turn f a c (c.drained ok) .none := by
  unfold Conn.drained
  split
  · rename_i refusing
    exact turn_teardown (by rw [refusing]; rfl) live
  · rename_i replying lease
    have here : c.phase.body := by rw [replying]; rfl
    split
    · exact .proceed _ here (by rw [replying]; rfl) live rfl rfl
    · exact turn_teardown here live
  · exact .stay

theorem turn_greeted (live : c.cancelled = false) (line : Option Line) :
    Turn f a c (c.greeted line) .none := by
  unfold Conn.greeted
  split
  · rename_i hello _
    exact .proceed _ (by rw [hello]; rfl) (by rw [hello]; rfl) live rfl rfl
  · rename_i hello _
    exact turn_teardown (by rw [hello]; rfl) live
  · exact .stay

theorem turn_selected (live : c.cancelled = false) (ok : Bool) :
    Turn f a c (c.selected f ok) .none := by
  unfold Conn.selected
  split
  · rename_i mode selecting
    have here : c.phase.body := by rw [selecting]; rfl
    have owner : c.phase.owner := by rw [selecting]; rfl
    split
    · exact turn_teardown here live
    · split
      · exact .proceed _ here owner live rfl rfl
      · exact .grant mode false here owner live
  · exact .stay

theorem turn_opened (live : c.cancelled = false) (ok : Bool) :
    Turn f a c (c.opened ok) .none := by
  unfold Conn.opened
  split
  · rename_i mode opening
    exact .grant mode ok (by rw [opening]; rfl) (by rw [opening]; rfl) live
  · exact .stay

theorem turn_event (e : Event) : Turn f a c (c.event f e) .none := by
  unfold Conn.event
  split
  · rename_i serving
    exact .serve _ _ serving
  · exact .stay

theorem turn_ended (live : c.cancelled = false) : Turn f a c c.ended .none := by
  unfold Conn.ended
  split
  · rename_i serving
    exact turn_teardown (by rw [serving]; rfl) live
  · exact .stay

theorem turn_joined (live : c.cancelled = false) : Turn f a c c.joined .none := by
  unfold Conn.joined
  split
  · rename_i joining
    exact .depart _ (by rw [joining]; rfl) live rfl rfl
  · exact .stay

theorem turn_quit (here : c.phase.leaving) (live : c.cancelled = false) (ks : List Key)
    (bs : List Button) : Turn f a c (c.quit f ks bs).1 (c.quit f ks bs).2 := by
  unfold Conn.quit
  split
  · rename_i owns
    exact .vacate here live (by simpa using owns)
  · rename_i owns
    have owner : c.owns := by simpa using owns
    split
    · rename_i lease
      exact .give here live owner lease
    · split
      · exact .release _ here live owner (release_answers ks bs _)
      · exact .stay

theorem turn_closed (live : c.cancelled = false) (ks : List Key) (bs : List Button) :
    Turn f a c (c.closed f ks bs).1 (c.closed f ks bs).2 := by
  unfold Conn.closed
  split
  · rename_i closing
    have here : c.phase.leaving := by rw [closing]; rfl
    split
    · exact .depart _ here live rfl rfl
    · exact turn_quit here live ks bs
  · exact .stay

theorem turn_flushed (live : c.cancelled = false) (ok : Bool) :
    Turn f a c (c.flushed ok) .none := by
  unfold Conn.flushed
  split
  · rename_i flushing
    have here : c.phase.leaving := by rw [flushing]; rfl
    cases ok <;> exact .depart _ here live rfl rfl
  · exact .stay

theorem turn_slept (live : c.cancelled = false) : Turn f a c c.slept .none := by
  unfold Conn.slept
  split
  · rename_i sleeping
    exact .depart _ (by rw [sleeping]; rfl) live rfl rfl
  · exact .stay

theorem turn_streamClosed (live : c.cancelled = false) (ks : List Key) (bs : List Button) :
    Turn f a c (c.streamClosed f ks bs).1 (c.streamClosed f ks bs).2 := by
  unfold Conn.streamClosed
  split
  · rename_i closing
    exact turn_quit (by rw [closing]; rfl) live ks bs
  · exact .stay

theorem turn_retry (ks : List Key) (bs : List Button) : Turn f a c (c.retry f ks bs) .none := by
  unfold Conn.retry
  split
  · rename_i l top lease
    have here : c.phase.retrying := by rw [top]; rfl
    split
    · exact .pause here
    · rename_i stopping
      split
      · rename_i listed
        exact .final ks bs l here (by simpa using stopping) listed
      · exact .stay
  · exact .stay

theorem turn_retrySlept (ks : List Key) (bs : List Button) :
    Turn f a c (c.retrySlept f ks bs).1 (c.retrySlept f ks bs).2 := by
  unfold Conn.retrySlept
  split
  · rename_i l sleeping lease
    split
    · exact .retry _ (by rw [sleeping]; rfl) (release_answers ks bs l)
    · exact .stay
  · exact .stay

theorem turn_answer (sound : Sound c) (acked : Bool) (answered : a = .answer acked) :
    Turn f a c (c.answer f acked).1 (c.answer f acked).2 := by
  have rest {op l k} (p : Work Bool → Phase) (here : c.phase = p (.wait op l k))
      (known : (p (.wait op l k)).rest? = some (.wait op l k)) :
      Answers (k (Conn.reported acked)) :=
    (sound.rest (.wait op l k) (by rw [here, known]; rfl)).2.next acked
  unfold Conn.answer
  split
  · rename_i serving
    exact .serve _ _ serving
  · rename_i releasing
    split
    · exact .stay
    · rename_i live
      have owns := sound.owner (by rw [releasing]; rfl)
      exact .release _ (by rw [releasing]; rfl) (by simpa using live) owns (rest _ releasing rfl)
  · rename_i releasing
    exact .retry _ (by rw [releasing]; rfl) (rest _ releasing rfl)
  · rename_i releasing
    exact .finish _ _ _ acked releasing answered (rest _ releasing rfl)
  · exact .stay

theorem turn_cancel (flagged : c.cancelled) : Turn f a c c.cancel .none := by
  unfold Conn.cancel
  split
  · rename_i body
    exact .leave false body rfl
  · rename_i body
    split
    · rename_i leaving
      exact .abort leaving flagged
    · rename_i leaving
      exact .unflag (by simpa using body) (by simpa using leaving)

theorem act_turn (sound : Sound c) (a : Act) : Turn f a c (c.act f a).1 (c.act f a).2 := by
  have gated {r : Conn × Effect} (h : c.cancelled = false → Turn f a c r.1 r.2) :
      Turn f a c (if c.cancelled then (c, .none) else r).1
        (if c.cancelled then (c, .none) else r).2 := by
    split
    · exact .stay
    · rename_i live
      exact h (by simpa using live)
  cases a with
  | start uidOk => exact gated fun _ => turn_start uidOk
  | drained ok => exact gated fun live => turn_drained live ok
  | hello line => exact gated fun live => turn_greeted live line
  | selected ok => exact gated fun live => turn_selected live ok
  | opened ok => exact gated fun live => turn_opened live ok
  | event e => exact turn_event e
  | answer acked => exact turn_answer sound acked rfl
  | ended => exact gated fun live => turn_ended live
  | joined => exact gated fun live => turn_joined live
  | closed ks bs => exact gated fun live => turn_closed live ks bs
  | flushed ok => exact gated fun live => turn_flushed live ok
  | slept => exact gated fun live => turn_slept live
  | streamClosed ks bs => exact gated fun live => turn_streamClosed live ks bs
  | retry ks bs => exact turn_retry ks bs
  | retrySlept ks bs => exact turn_retrySlept ks bs
  | cancelled =>
    simp only [Conn.act]
    split
    · rename_i flagged
      exact turn_cancel flagged
    · exact .stay

theorem holds_of_leaving (leaving : c.phase.leaving) (owns : c.owns) : c.holds := by
  unfold Conn.holds
  split <;> simp_all [Phase.leaving]

theorem retrying_owner {p : Phase} (retrying : p.retrying) : p.owner ∧ p ≠ .finished := by
  cases p <;> simp_all [Phase.retrying, Phase.owner]

theorem interrupted_unowned (sound : Sound c) (owns : c.owns = false) : c.interrupted = none := by
  have lease := sound.unowned owns
  have stranger : c.phase.owner = false := by
    have owner := sound.owner
    simpa [owns] using owner
  unfold Conn.interrupted
  split <;> simp_all [Phase.owner]

theorem acted_interrupt (sound : Sound c) (live : c.phase ≠ .finished) (p : Phase)
    (stranger : p.owner = false) (plain : p.rest? = none) (later : p ≠ .absent ∧ p ≠ .finished)
    (flag : Bool) :
    Acted f c { c with phase := p, lease := c.interrupted, cancelled := flag } .none := by
  refine ⟨⟨interrupted_unowned sound, ?_, ?_, ?_, ?_⟩, ?_, .inl⟩ <;>
    simp_all [Effect.Spec, Conn.holds]

theorem acted_phase (sound : Sound c) (live : c.phase ≠ .finished) (p : Phase)
    (owner : p.owner → c.owns) (plain : p.rest? = none) (later : p ≠ .absent ∧ p ≠ .finished) :
    Acted f c { c with phase := p } .none := by
  refine ⟨⟨sound.unowned, owner, ?_, ?_, ?_⟩, ?_, .inl⟩ <;> simp_all [Effect.Spec, Conn.holds]

theorem acted_grant (sound : Sound c) (owner : c.phase.owner) (live : c.phase ≠ .finished)
    (mode : MouseMode) (stream : Bool) : Acted f c (c.grant mode stream) .none := by
  have owns := sound.owner owner
  have holds : c.holds := by
    unfold Conn.holds
    split <;> simp_all
  refine ⟨⟨?_, ?_, ?_, ?_, ?_⟩, ?_, fun _ => .inr holds⟩ <;>
    simp_all [Phase.rest?, Effect.Spec, Conn.holds, Conn.grant]

theorem acted_serve (sound : Sound c) {old : Work Unit} (serving : c.phase = .serving old)
    (work : Work Unit) : Acted f c (c.serve f work) .none := by
  have owns := sound.owner (by rw [serving]; rfl)
  refine ⟨⟨?_, ?_, ?_, ?_, ?_⟩, ?_, .inl⟩ <;>
    simp_all [Phase.rest?, Effect.Spec, Conn.holds, Conn.serve]

theorem acted_settleAs {waiting : Work Bool → Phase} {unfinished : Effect} {raised : Phase}
    (waits : ∀ p, (waiting p).rest? = some p) (pending : unfinished = .none ∨ unfinished = .retries)
    (fails : raised.rest? = none ∧ raised ≠ .absent ∧ raised ≠ .finished) (holds : c.holds)
    {rest : Work Bool} (answers : Answers rest) :
    Acted f c (c.settleAs f waiting unfinished raised rest).1
      (c.settleAs f waiting unfinished raised rest).2 := by
  have owns : c.owns := by simp_all [Conn.holds]
  have later (p : Work Bool) : waiting p ≠ .absent ∧ waiting p ≠ .finished := by
    have rest := waits p
    constructor <;> intro same <;> simp [same, Phase.rest?] at rest
  unfold Conn.settleAs
  match rest, answers with
  | .done (.ok true) l, answers =>
    have neutral := answers.ends true rfl
    refine ⟨⟨?_, ?_, ?_, ?_, ?_⟩, ?_, .inl⟩ <;>
      simp_all [Phase.rest?, Effect.Spec, Conn.holds, Conn.neutral, Prog.object]
  | .done (.ok false) l, answers =>
    refine ⟨⟨?_, ?_, ?_, ?_, ?_⟩, ?_, .inl⟩
    · simp_all
    · simp_all
    · simp
    · simp
    · simp [Phase.rest?]
    · rcases pending with rfl | rfl <;> simp_all [Effect.Spec, Conn.holds]
  | .done (.error e) l, answers =>
    refine ⟨⟨?_, ?_, ?_, ?_, ?_⟩, ?_, .inl⟩ <;> simp_all [Effect.Spec, Conn.holds]
  | .wait op l k, answers =>
    refine ⟨⟨?_, ?_, ?_, ?_, ?_⟩, ?_, .inl⟩ <;> simp_all [Effect.Spec, Conn.holds]

theorem acted_settle (holds : c.holds) {rest : Work Bool} (answers : Answers rest) :
    Acted f c (c.settle f rest).1 (c.settle f rest).2 :=
  acted_settleAs (fun _ => rfl) (.inr rfl) ⟨rfl, by simp, by simp⟩ holds answers

theorem acted_settleRetry (holds : c.holds) {rest : Work Bool} (answers : Answers rest) :
    Acted f c (c.settleRetry f rest).1 (c.settleRetry f rest).2 :=
  acted_settleAs (fun _ => rfl) (.inl rfl) ⟨rfl, by simp, by simp⟩ holds answers

theorem acted_settleFinal (holds : c.holds) {rest : Work Bool} (answers : Answers rest) : Acted f c (c.settleFinal f rest) .none := by
  have owns : c.owns := by simp_all [Conn.holds]
  unfold Conn.settleFinal
  match rest, answers with
  | .done r l, answers =>
    refine ⟨⟨?_, ?_, ?_, ?_, ?_⟩, ?_, .inl⟩ <;> simp_all [Phase.rest?, Effect.Spec, Conn.holds]
  | .wait op l k, answers =>
    refine ⟨⟨?_, ?_, ?_, ?_, ?_⟩, ?_, .inl⟩ <;> simp_all [Phase.rest?, Effect.Spec, Conn.holds]

theorem holds_of_owner (sound : Sound c) (owner : c.phase.owner) (live : c.phase ≠ .finished) :
    c.holds := by
  have owns := sound.owner owner
  unfold Conn.holds
  split <;> simp_all

theorem turn_acted {c' : Conn} {e : Effect} (sound : Sound c) (turn : Turn f a c c' e) :
    Acted f c c' e := by
  have live (p : c.phase.body ∨ c.phase.leaving) : c.phase ≠ .finished := by
    intro same
    simp [same, Phase.body, Phase.leaving] at p
  cases turn with
  | stay => exact ⟨sound, rfl, .inl⟩
  | refuse here =>
    have owns := sound.absent here
    refine ⟨⟨sound.unowned, ?_, ?_, ?_, ?_⟩, ?_, ?_⟩ <;>
      simp_all [Phase.owner, Phase.rest?, Effect.Spec, Conn.holds]
  | claim here free up =>
    have lease := sound.unowned (sound.absent here)
    have owns := sound.absent here
    refine ⟨⟨?_, ?_, ?_, ?_, ?_⟩, ?_, .inl⟩ <;>
      simp_all [Phase.rest?, Effect.Spec, Conn.holds]
  | proceed p here owner _ next plain =>
    refine acted_phase sound (live (.inl here)) p (fun _ => sound.owner owner) plain ?_
    constructor <;> intro same <;> simp [same, Phase.body] at next
  | grant mode stream here owner _ => exact acted_grant sound owner (live (.inl here)) mode stream
  | serve old work here => exact acted_serve sound here work
  | leave flag here _ => exact acted_interrupt sound (live (.inl here)) .joining rfl rfl (by simp) flag
  | depart p here _ next plain =>
    have later : p ≠ .absent ∧ p ≠ .finished := by
      constructor <;> intro same <;> simp [same, Phase.leaving] at next
    refine acted_phase sound (live (.inr here)) p (fun owner => ?_) plain later
    cases p <;> simp_all [Phase.owner, Phase.leaving, Phase.rest?]
  | abort here _ => exact acted_interrupt sound (live (.inr here)) .aborted rfl rfl (by simp) false
  | unflag _ _ =>
    exact ⟨⟨sound.unowned, sound.owner, sound.absent, sound.finished, sound.rest⟩, rfl, .inl⟩
  | vacate here _ owns =>
    have lease := sound.unowned owns
    refine ⟨⟨sound.unowned, ?_, ?_, ?_, ?_⟩, ?_, .inl⟩ <;>
      simp_all [Phase.owner, Phase.rest?, Effect.Spec, Conn.holds, Conn.neutral]
  | give here _ owns lease =>
    have holds := holds_of_leaving here owns
    refine ⟨⟨sound.unowned, ?_, ?_, ?_, ?_⟩, ⟨holds, ?_⟩, .inl⟩ <;>
      simp_all [Phase.owner, Phase.rest?, Conn.holds, Conn.neutral]
  | release rest here _ owns answers => exact acted_settle (holds_of_leaving here owns) answers
  | pause here =>
    obtain ⟨owner, running⟩ := retrying_owner here
    exact acted_phase sound running _ (fun _ => sound.owner owner) rfl (by simp)
  | retry rest here answers =>
    obtain ⟨owner, running⟩ := retrying_owner here
    exact acted_settleRetry (holds_of_owner sound owner running) answers
  | final ks bs l here _ _ =>
    obtain ⟨owner, running⟩ := retrying_owner here
    exact acted_settleFinal (holds_of_owner sound owner running) (release_answers ks bs l)
  | finish op l k acked here _ answers =>
    have holds := holds_of_owner sound (by rw [here]; rfl) (by simp [here])
    exact acted_settleFinal holds answers

theorem act_acted (sound : Sound c) (a : Act) : Acted f c (c.act f a).1 (c.act f a).2 :=
  turn_acted sound (act_turn sound a)

end
end Server
end Hid

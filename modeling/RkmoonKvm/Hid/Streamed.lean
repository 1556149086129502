import RkmoonKvm.Library.Runs
import RkmoonKvm.Hid.Tracking

/-! A lease whose events go to a websocket stream, up to the end of the teardown in
`Server.handle`. kvmd applies the frames in order at arbitrary later times; when
the connection dies the frames not yet applied are lost. The releases go over
HTTP, so the two channels race. -/
namespace Hid.Streamed
open Await Runs

structure Net where
  device : Device := {}
  /-- Frames written to the stream and not applied, oldest first. -/
  fifo : List Report := []
  connected : Bool := true
  deriving DecidableEq

namespace Net

def deliver (n : Net) : Net :=
  match n.fifo with
  | r :: rest => if n.connected then { n with device := n.device.press r, fifo := rest } else n
  | [] => n

def lose (n : Net) : Net := if n.connected then n else { n with fifo := [] }

def settled (n : Net) : Device := n.fifo.foldl Device.press n.device

end Net

/-- A frame takes effect when it is written; an HTTP request when kvmd applies it. -/
def world : World Call Net where
  land c n :=
    match c.via with
    | .events => { n with fifo := n.fifo ++ [c.report] }
    | .backend => { n with device := n.device.press c.report }
  heard _ n := n

inductive Phase where
  | serving | flushing | closing | releasing | cleared
  deriving DecidableEq, Repr

structure State where
  phase : Phase
  task : Task Lease Call Unit PyError (Option Bool) Net

inductive Label where
  | apply (e : Event)
  | finish
  | flush (confirmed : Bool)
  | close
  | release (ks : List Key) (bs : List Button)
  | clear
  | land
  | answer (r : Except PyError Unit)
  | deliver
  | die
  | lose

def State.lease (s : State) : Lease := s.task.prog.object
def State.net (s : State) : Net := s.task.world

def fresh (mode : MouseMode) : State :=
  ⟨.serving, .start (.done (.ok none) { mouseMode := mode, stream := true }) {}⟩

def step (s : State) : Label → State
  | .apply e =>
    match s.phase, s.task.prog.result with
    | .serving, some (.ok _) =>
      { s with task := .start ((do Lease.apply e; return none : Lease.Code _) s.lease) s.net }
    | _, _ => s -- A failed event has ended the consumer.
  | .finish =>
    if s.phase = .serving ∧ s.task.prog.result.isSome then { s with phase := .flushing } else s
  | .flush confirmed =>
    -- The pong answers a ping behind every earlier frame.
    if s.phase = .flushing ∧ (confirmed → s.net.connected ∧ s.net.fifo = []) then
      { s with phase := .closing }
    else s
  | .close =>
    if s.phase = .closing then ⟨.releasing, .start (.done (.ok none) s.lease) s.net⟩ else s
  | .release ks bs =>
    -- The first release of the teardown, or one of `retry_release`.
    match s.phase, s.task.prog.result with
    | .releasing, some (.ok v) =>
      if v ≠ some true ∧ s.lease.listed ks bs then
        { s with task := .start ((do return some (← Lease.release ks bs) : Lease.Code _) s.lease) s.net }
      else s
    | _, _ => s
  | .clear =>
    match s.phase, s.task.prog.result with
    | .releasing, some (.ok (some true)) => { s with phase := .cleared }
    | _, _ => s
  | .land => { s with task := s.task.land world }
  | .answer r => { s with task := s.task.answer world r }
  | .deliver => { s with task := s.task.move s.net.deliver }
  | .die => { s with task := s.task.move { s.net with connected := false } }
  | .lose => { s with task := s.task.move s.net.lose }

/-- kvmd applies no down frame once the HTTP releases have begun, and loses no up
frame of a control that is down. -/
def Orderly (s : State) : Label → Prop
  | .deliver => s.phase = .releasing ∨ s.phase = .cleared →
      ∀ r ∈ s.net.fifo.head?, ∀ c ∈ r.edge, c.2 = false
  | .lose => s.net.connected = false →
      ∀ r ∈ s.net.fifo, ∀ c ∈ r.edge, c.2 = false → ¬ s.net.device.down c.1
  | _ => True

instance (s : State) (l : Label) : Decidable (Orderly s l) := by
  cases l <;> simp only [Orderly] <;> infer_instance

/-- Down now, or down once the frames in flight are applied. -/
def Pending (c : Control) (n : Net) : Prop := n.settled.down c

def Stuck (c : Control) (n : Net) : Prop := n.device.down c ∧ c.report false ∉ n.fifo

theorem settled_deliver (n : Net) : n.deliver.settled = n.settled := by
  obtain ⟨d, fifo, up⟩ := n
  cases fifo with
  | nil => rfl
  | cons r rest => cases up <;> rfl

theorem down_foldl {c : Control} (fs : List Report) {d : Device} (live : d.down c)
    (noUp : c.report false ∉ fs) : (fs.foldl Device.press d).down c := by
  induction fs generalizing d with
  | nil => exact live
  | cons r fs ih =>
    rw [List.mem_cons, not_or] at noUp
    obtain ⟨other, rest⟩ := noUp
    apply ih _ rest
    refine (Device.down_press d r c).mpr (.inr ⟨live, fun up => other ?_⟩)
    exact (report_of_edge up).symm

theorem pending_of_stuck {c : Control} {n : Net} (h : Stuck c n) : Pending c n :=
  down_foldl n.fifo h.1 h.2

/-- What the world may do by itself while the lease sends events. -/
def Drains (n n' : Net) : Prop := ∀ c, Pending c n' → Pending c n

/-- What the world may do by itself once the releases have begun. -/
def Fades (n n' : Net) : Prop :=
  (∀ c, Stuck c n' → Stuck c n) ∧ ∀ c, n'.device.down c → n.device.down c

theorem drains_deliver (n : Net) : Drains n n.deliver := by
  intro c h
  rwa [Pending, settled_deliver] at h

theorem fades_deliver (n : Net) (noDown : ∀ r ∈ n.fifo.head?, ∀ c ∈ r.edge, c.2 = false) :
    Fades n n.deliver := by
  obtain ⟨d, fifo, up⟩ := n
  cases fifo with
  | nil => exact ⟨fun _ h => h, fun _ h => h⟩
  | cons r rest =>
    cases up with
    | false => exact ⟨fun _ h => h, fun _ h => h⟩
    | true =>
      have older : ∀ c, (d.press r).down c → d.down c ∧ r.edge ≠ some (c, false) := by
        intro c h
        rcases (Device.down_press d r c).mp h with down | old
        · cases noDown r rfl _ down
        · exact old
      refine ⟨fun c h => ⟨(older c h.1).1, ?_⟩, fun c h => (older c h).1⟩
      rw [List.mem_cons, not_or]
      refine ⟨fun same => (older c h.1).2 ?_, h.2⟩
      rw [← same, edge_report]

theorem lost_up {n : Net} (h : ∀ r ∈ n.fifo, ∀ c ∈ r.edge, c.2 = false → ¬ n.device.down c.1)
    {c : Control} (live : n.device.down c) : c.report false ∉ n.fifo :=
  fun lost => h _ lost (c, false) (edge_report c false) rfl live

theorem drains_lose (n : Net) (h : n.connected = false →
    ∀ r ∈ n.fifo, ∀ c ∈ r.edge, c.2 = false → ¬ n.device.down c.1) : Drains n n.lose := by
  intro c live
  unfold Net.lose at live
  split at live
  · exact live
  · rename_i dead
    exact down_foldl n.fifo live (lost_up (h (by simpa using dead)) live)

theorem fades_lose (n : Net) (h : n.connected = false →
    ∀ r ∈ n.fifo, ∀ c ∈ r.edge, c.2 = false → ¬ n.device.down c.1) : Fades n n.lose := by
  unfold Net.lose
  split
  · exact ⟨fun _ h => h, fun _ h => h⟩
  · rename_i dead
    exact ⟨fun c live => ⟨live.1, lost_up (h (by simpa using dead)) live.1⟩, fun _ live => live⟩

theorem follows : Follows world Drains Pending .events where
  moved m h := m _ h
  pressed {c r n} h := by
    simp only [Pending, Net.settled, world, List.foldl_append, List.foldl_cons, List.foldl_nil,
      Device.down_press] at h
    exact h.elim .inr fun old => .inl old.1
  released {c r n} up h := by
    simp only [Pending, Net.settled, world, List.foldl_append, List.foldl_cons, List.foldl_nil,
      Device.down_press, up] at h
    rcases h with down | ⟨_, other⟩
    · cases down
    · exact other rfl
  heard h := h

theorem releases : Releases world Fades (Tracks Stuck) where
  moved m h := fun c live => h c (m.1 c live)
  landed c h := by
    intro c' live
    rcases (Device.down_press _ _ _).mp live.1 with down | ⟨old, _⟩
    · simp at down
    · exact h c' ⟨old, live.2⟩
  dropped c h m := by
    intro c' live
    rcases (Device.down_press _ _ _).mp (m.2 c' live.1) with down | ⟨old, other⟩
    · simp at down
    · refine (tracks_drop _ c' c).mpr ⟨h c' ⟨old, (m.1 c' live).2⟩, fun same => other ?_⟩
      rw [same, edge_report]
  aliases h := fun c live => (tracks_forgetAliases _ c).mpr (h c live)

theorem drains_refl (n : Net) : Drains n n := fun _ h => h
theorem fades_refl (n : Net) : Fades n n := ⟨fun _ h => h, fun _ h => h⟩

theorem drains_trans (a b c : Net) (h : Drains a b) (h' : Drains b c) : Drains a c :=
  fun x live => h x (h' x live)

theorem fades_trans (a b c : Net) (h : Fades a b) (h' : Fades b c) : Fades a c :=
  ⟨fun x live => h.1 x (h'.1 x live), fun x live => h.2 x (h'.2 x live)⟩

def Returned (r : Except PyError (Option Bool)) (l : Lease) (_ : Net) : Prop :=
  ∀ v, r = .ok (some v) → v = l.neutral

def Serving (t : Task Lease Call Unit PyError (Option Bool) Net) : Prop :=
  Safe world Drains (Tracks Pending) (fun _ _ _ => True) t

def Releasing (t : Task Lease Call Unit PyError (Option Bool) Net) : Prop :=
  Safe world Fades (Tracks Stuck) Returned t

def Inv (s : State) : Prop :=
  match s.phase with
  | .serving | .flushing | .closing => Serving s.task
  | .releasing => Releasing s.task
  | .cleared => s.task.prog.result.isSome ∧ ∀ c, ¬ Stuck c s.net

theorem serving_apply {t : Task Lease Call Unit PyError (Option Bool) Net} (h : Serving t)
    (e : Event) :
    Serving (.start ((do Lease.apply e; return none : Lease.Code _) t.prog.object) t.world) := by
  apply safe_start
  apply keeps_bind drains_refl
  refine keeps_mono (fun _ _ h => h) ?_ (apply_tracks follows (safe_object drains_refl h) e)
  rintro (e | _) l d -
  · trivial
  · exact fun tracked => keeps_done follows tracked _

theorem releasing_close {t : Task Lease Call Unit PyError (Option Bool) Net} (h : Serving t) :
    Releasing (.start (.done (.ok none) t.prog.object) t.world) := by
  apply safe_start
  intro n m
  refine ⟨fun c stuck => ?_, fun v same => by cases same⟩
  exact safe_object drains_refl h c (pending_of_stuck (m.1 c stuck))

theorem releasing_release {t : Task Lease Call Unit PyError (Option Bool) Net} (h : Releasing t)
    (ks : List Key) (bs : List Button) :
    Releasing (.start ((do return some (← Lease.release ks bs) : Lease.Code _) t.prog.object)
      t.world) := by
  apply safe_start
  apply keeps_bind fades_refl
  refine keeps_mono (fun _ _ h => h) ?_
    (release_keeps releases fades_refl ks bs (safe_object fades_refl h))
  rintro (e | v) l d answer
  · exact fun v same => by cases same
  · intro tracked n m
    exact ⟨releases.moved m tracked, fun v' same => by cases same; exact answer v rfl⟩

theorem inv_fresh (mode : MouseMode) : Inv (fresh mode) := by
  have start : Tracks Pending { mouseMode := mode, stream := true } {} := by
    intro c live
    cases c <;> simp [Pending, Net.settled, Device.down] at live
  exact safe_start (keeps_done follows start _)

theorem inv_move {s : State} (h : Inv s) {n : Net} (drains : Drains s.net n)
    (fades : s.phase = .releasing ∨ s.phase = .cleared → Fades s.net n) :
    Inv { s with task := s.task.move n } := by
  obtain ⟨phase, t⟩ := s
  cases phase with
  | serving => exact safe_move drains_trans h drains
  | flushing => exact safe_move drains_trans h drains
  | closing => exact safe_move drains_trans h drains
  | releasing => exact safe_move fades_trans h (fades (.inl rfl))
  | cleared => exact ⟨h.1, fun c stuck => h.2 c ((fades (.inr rfl)).1 c stuck)⟩

theorem inv_task {s : State} (h : Inv s) {t : Task Lease Call Unit PyError (Option Bool) Net}
    (serving : Serving s.task → Serving t) (releasing : Releasing s.task → Releasing t)
    (ended : s.task.prog.result.isSome → t = s.task) : Inv { s with task := t } := by
  obtain ⟨phase, t₀⟩ := s
  cases phase with
  | serving => exact serving h
  | flushing => exact serving h
  | closing => exact serving h
  | releasing => exact releasing h
  | cleared => exact ended h.1 ▸ h

theorem inv_step (s : State) (l : Label) (h : Inv s) (orderly : Orderly s l) : Inv (step s l) := by
  obtain ⟨phase, t⟩ := s
  cases l with
  | apply e =>
    simp only [step]
    split
    · exact serving_apply h e
    · exact h
  | finish =>
    simp only [step]
    split
    · rename_i now
      obtain ⟨rfl, -⟩ := now
      exact h
    · exact h
  | flush confirmed =>
    simp only [step]
    split
    · rename_i now
      obtain ⟨rfl, -⟩ := now
      exact h
    · exact h
  | close =>
    simp only [step]
    split
    · rename_i now
      subst now
      exact releasing_close h
    · exact h
  | release ks bs =>
    simp only [step]
    split
    · split
      · exact releasing_release h ks bs
      · exact h
    · exact h
  | clear =>
    simp only [step]
    split
    · rename_i ended
      refine ⟨by simp [ended], fun c stuck => ?_⟩
      have up := safe_done fades_refl h ended true rfl
      exact (neutral_iff _).mp up.symm c (safe_object fades_refl h c stuck)
    · exact h
  | land =>
    exact inv_task h (safe_land drains_refl) (safe_land fades_refl) (Task.land_done world)
  | answer r =>
    exact inv_task h (fun h => safe_answer drains_refl h r) (fun h => safe_answer fades_refl h r)
      (Task.answer_done world r)
  | deliver => exact inv_move h (drains_deliver _) fun late => fades_deliver _ (orderly late)
  | die => exact inv_move h (fun _ live => live) fun _ => ⟨fun _ stuck => stuck, fun _ live => live⟩
  | lose => exact inv_move h (drains_lose _ orderly) fun _ => fades_lose _ orderly

/-- A failed, delayed or cut stream leaves nothing down in the runs that stay
orderly: once busy is cleared and no frame is left, the device is neutral. -/
theorem orderly_run_releases (mode : MouseMode) (ls : List Label)
    (orderly : Meets step Orderly (fresh mode) ls) :
    let s := run step (fresh mode) ls
    s.phase = .cleared → s.net.fifo = [] → s.net.device = {} := by
  intro s cleared drained
  have h : Inv s := meets_invariant step Orderly Inv inv_step (inv_fresh mode) ls orderly
  simp only [Inv, cleared] at h
  apply Device.eq_empty
  intro c live
  exact h.2 c ⟨live, by simp [drained]⟩

def quietRun : List Label :=
  [.apply (.key 0x41 true), .land, .answer (.ok ()), .deliver,
   .apply (.key 0x41 false), .land, .deliver, .answer (.ok ()),
   .finish, .flush true, .close, .release [] [], .clear]

theorem quietRun_neutral : (run step (fresh .relative) quietRun).net.device = {} :=
  orderly_run_releases .relative quietRun (by decide) (by decide) (by decide)

/-- The connection dies between the two frames of one key: the lease has stopped
tracking the key when its up frame was written, so the releases do not send it. -/
def cutRun : List Label :=
  [.apply (.key 0x41 true), .land, .answer (.ok ()), .deliver,
   .apply (.key 0x41 false), .land, .answer (.ok ()), .die, .lose,
   .finish, .flush false, .close, .release [] [], .clear]

theorem cut_stream_leaves_key_down :
    ¬ ∀ (mode : MouseMode) (ls : List Label),
      let s := run step (fresh mode) ls
      s.phase = .cleared → s.net.fifo = [] → s.net.device = {} := by
  intro always
  have up := always .relative cutRun (by decide) (by decide)
  exact absurd up (by decide)

end Hid.Streamed

import RkmoonKvm.Library.Runs
import RkmoonKvm.Hid.Tracking

/-! A lease whose events go to the acknowledged backend. Every request may take
effect and still be answered with an error, or be cancelled, at every wait of
`apply` and `release`. -/
namespace Hid
open Await Runs

namespace Direct

structure Desk where
  device : Device := {}
  acked : List Report := []

def world : World Call Desk where
  land c d := { d with device := d.device.press c.report }
  heard c d := { d with acked := c.report :: d.acked }

/-- A call of the lease in progress or ended; `before` is the lease that a release began with. -/
structure State where
  task : Task Lease Call Unit PyError (Option Bool) Desk
  before : Option Lease

inductive Label where
  | apply (e : Event)
  | release (ks : List Key) (bs : List Button)
  | land
  | answer (r : Except PyError Unit)

def State.lease (s : State) : Lease := s.task.prog.object
def State.device (s : State) : Device := s.task.world.device

def State.returned (s : State) : Option Bool :=
  match s.task.prog.result with
  | some (.ok v) => v
  | _ => none

def fresh (mode : MouseMode) : State :=
  ⟨.start (.done (.ok none) { mouseMode := mode, stream := false }) {}, none⟩

def begin (p : Lease.Code (Option Bool)) (s : State) (before : Option Lease) : State :=
  ⟨.start (p s.lease) { s.task.world with acked := [] }, before⟩

/-- Calls are made one after another, whether the last one returned or raised. -/
def step (s : State) : Label → State
  | .apply e =>
    if s.task.prog.result.isSome then
      begin (do Lease.apply e; return none) s none
    else s
  | .release ks bs =>
    if s.task.prog.result.isSome ∧ s.lease.listed ks bs then
      begin (do return some (← Lease.release ks bs)) s (some s.lease)
    else s
  | .land => { s with task := s.task.land world }
  | .answer r => { s with task := s.task.answer world r }

theorem follows (via : Via) : Follows world (· = ·) (fun c d => d.device.down c) via where
  moved same h := same ▸ h
  pressed h := ((Device.down_press _ _ _).mp h).elim .inr fun old => .inl old.1
  released up h := by
    rcases (Device.down_press _ _ _).mp h with down | ⟨_, other⟩
    · rw [up] at down
      cases down
    · exact other up
  heard h := h

/-- A release keeps exactly the controls whose up was not acknowledged. -/
def Unacknowledged (l₀ l : Lease) (d : Desk) : Prop :=
  ∀ c, l.tracks c ↔ l₀.tracks c ∧ c.report false ∉ d.acked

def Sound (before : Option Lease) (l : Lease) (d : Desk) : Prop :=
  Tracks (fun c d => d.device.down c) l d ∧ ∀ l₀ ∈ before, Unacknowledged l₀ l d

theorem report_injective {c c' : Control} (same : c.report false = c'.report false) : c = c' := by
  cases c <;> cases c' <;> cases same <;> rfl

theorem releases (before : Option Lease) : Releases world (· = ·) (Sound before) where
  moved same h := same ▸ h
  landed c h := by
    refine ⟨fun c' live => ?_, h.2⟩
    rcases (Device.down_press _ _ _).mp live with down | ⟨old, _⟩
    · simp at down
    · exact h.1 c' old
  dropped c h same := by
    subst same
    constructor
    · intro c' live
      rcases (Device.down_press _ _ _).mp live with down | ⟨old, other⟩
      · simp at down
      · refine (tracks_drop _ c' c).mpr ⟨h.1 c' old, fun same => other ?_⟩
        rw [same, edge_report]
    · intro l₀ begun c'
      rw [tracks_drop, h.2 l₀ begun c']
      have other : c'.report false = c.report false ↔ c' = c :=
        ⟨report_injective, fun same => by rw [same]⟩
      simp only [world, List.mem_cons, not_or, other]
      tauto
  aliases h := ⟨fun c live => (tracks_forgetAliases _ c).mpr (h.1 c live),
    fun l₀ begun c => (tracks_forgetAliases _ c).trans (h.2 l₀ begun c)⟩

def Returns (before : Option Lease) (r : Except PyError (Option Bool)) (l : Lease) (_ : Desk) : Prop :=
  ∀ v, r = .ok v → v = before.map fun _ => l.neutral

def Inv (s : State) : Prop := Safe world (· = ·) (Sound s.before) (Returns s.before) s.task

theorem inv_fresh (mode : MouseMode) : Inv (fresh mode) := by
  apply safe_start
  rintro d rfl
  refine ⟨⟨fun c live => ?_, by simp [fresh]⟩, fun v same => ?_⟩
  · cases c <;> simp [Device.down] at live
  · cases same
    rfl

theorem inv_lease {s : State} (h : Inv s) :
    Tracks (fun c d => d.device.down c) s.lease s.task.world :=
  (safe_object (fun _ => rfl) h).1

theorem inv_apply {s : State} (h : Inv s) (e : Event) :
    Inv (begin (do Lease.apply e; return none) s none) := by
  apply safe_start
  apply keeps_bind (fun _ => rfl)
  have tracked := apply_tracks (follows .events) (d := { s.task.world with acked := [] })
    (inv_lease h) e
  refine keeps_mono (fun l d t => ⟨t, fun l₀ none => by cases none⟩) ?_ tracked
  rintro (e | _) l d -
  · exact fun v same => by cases same
  rintro sound d₁ rfl
  exact ⟨sound, fun v same => by cases same; rfl⟩

theorem inv_release {s : State} (h : Inv s) (ks : List Key) (bs : List Button) :
    Inv (begin (do return some (← Lease.release ks bs)) s (some s.lease)) := by
  apply safe_start
  apply keeps_bind (fun _ => rfl)
  have begun : Sound (some s.lease) s.lease { s.task.world with acked := [] } :=
    ⟨inv_lease h, fun l₀ same c => by cases same; simp⟩
  refine keeps_mono (fun _ _ h => h) ?_
    (release_keeps (releases (some s.lease)) (fun _ => rfl) ks bs begun)
  rintro (e | v) l d answer
  · exact fun v same => by cases same
  rintro sound d₁ rfl
  exact ⟨sound, fun v' same => by cases same; rw [answer v rfl]; rfl⟩

theorem inv_step (s : State) (l : Label) (h : Inv s) : Inv (step s l) := by
  cases l with
  | apply e =>
    simp only [step]
    split
    · exact inv_apply h e
    · exact h
  | release ks bs =>
    simp only [step]
    split
    · exact inv_release h ks bs
    · exact h
  | land => exact safe_land (fun _ => rfl) h
  | answer r => exact safe_answer (fun _ => rfl) h r

theorem inv_run (mode : MouseMode) (ls : List Label) : Inv (run step (fresh mode) ls) :=
  run_invariant step Inv inv_step (inv_fresh mode) ls

/-- At every point of every run what is down is tracked. A release that returns has
kept exactly the controls whose up was not acknowledged, it returns whether there
is none, and then nothing is down. -/
theorem down_is_tracked (mode : MouseMode) (ls : List Label) :
    let s := run step (fresh mode) ls
    s.device.keys ⊆ s.lease.possiblyDown ∧ s.device.buttons ⊆ s.lease.buttons ∧
    ∀ v, s.returned = some v → ∃ l₀, s.before = some l₀ ∧
      s.lease.possiblyDown = l₀.possiblyDown.filter (fun k => .key k false ∉ s.task.world.acked) ∧
      s.lease.buttons = l₀.buttons.filter (fun b => .button b false ∉ s.task.world.acked) ∧
      (v = true ↔ s.lease.possiblyDown = ∅ ∧ s.lease.buttons = ∅) ∧
      (v = true → s.device = {}) := by
  intro s
  have h : Inv s := inv_run mode ls
  have sound := safe_object (fun _ => rfl) h
  refine ⟨fun k live => sound.1 (.key k) live, fun b live => sound.1 (.button b) live, ?_⟩
  intro v returned
  have ended : s.task.prog.result = some (.ok (some v)) := by
    unfold State.returned at returned
    split at returned
    · rename_i r ended
      rw [ended, returned]
    · cases returned
  have value := safe_done (fun _ => rfl) h ended (some v) rfl
  cases begun : s.before with
  | none => rw [begun] at value; cases value
  | some l₀ =>
    rw [begun] at value
    have answer : v = s.lease.neutral := Option.some.inj value
    have kept := sound.2 l₀ begun
    refine ⟨l₀, rfl, ?_, ?_, ?_, fun up => ?_⟩
    · ext k
      rw [Finset.mem_filter]
      exact kept (.key k)
    · ext b
      rw [Finset.mem_filter]
      exact kept (.button b)
    · rw [answer, Lease.neutral, decide_eq_true_eq]
    · apply Device.eq_empty
      intro c live
      exact (neutral_iff _).mp (answer ▸ up) c (sound.1 c live)

end Direct
end Hid

import RkmoonKvm.Hid.Calm

/-! Keys with several VKs: what a lease sends for them, and what is down after every run. -/
namespace Hid.Aliases
open Await Runs Calm

structure KeyEvent where
  vk : Nat
  down : Bool
  supported : (keys vk).isSome

namespace KeyEvent

def event (e : KeyEvent) : Event := .key e.vk e.down

def key (e : KeyEvent) : Key := (keys e.vk).get e.supported

theorem keys_vk (e : KeyEvent) : keys e.vk = some e.key := (Option.some_get e.supported).symm

end KeyEvent

def lastDown (vk : Nat) (es : List KeyEvent) : Bool :=
  (es.filter (·.vk = vk)).getLast?.any KeyEvent.down

theorem lastDown_concat (vk : Nat) (es : List KeyEvent) (e : KeyEvent) :
    lastDown vk (es ++ [e]) = if e.vk = vk then e.down else lastDown vk es := by
  unfold lastDown
  rw [List.filter_append]
  split
  next same => simp [same]
  next other => simp [other]

def edges (k : Key) (sent : List Report) : List Bool :=
  sent.filterMap fun
    | .key k' down => if k' = k then some down else none
    | _ => none

def alternating (n : Nat) : List Bool := (List.range n).map fun i => i % 2 = 0

theorem alternating_succ (n : Nat) : alternating (n + 1) = alternating n ++ [decide (n % 2 = 0)] := by
  simp [alternating, List.range_succ]

/-- What a key event sends, and the lease that it leaves. -/
inductive Presses (l : Lease) (e : KeyEvent) : List Report → Lease → Prop
  | repeated (down : e.down) (known : e.vk ∈ l.virtual) : Presses l e [] l
  | joins (down : e.down) (new : e.vk ∉ l.virtual) (held : l.held e.key) :
      Presses l e [] { l with virtual := insert e.vk l.virtual }
  | presses (down : e.down) (new : e.vk ∉ l.virtual) (free : l.held e.key = false) :
      Presses l e [.key e.key true] { l with
        virtual := insert e.vk l.virtual, possiblyDown := insert e.key l.possiblyDown }
  | leaves (up : e.down = false)
      (kept : Lease.held { l with virtual := l.virtual.erase e.vk } e.key ∨ e.key ∉ l.possiblyDown) :
      Presses l e [] { l with virtual := l.virtual.erase e.vk }
  | releases (up : e.down = false)
      (free : Lease.held { l with virtual := l.virtual.erase e.vk } e.key = false)
      (tracked : e.key ∈ l.possiblyDown) :
      Presses l e [.key e.key false] { l with
        virtual := l.virtual.erase e.vk, possiblyDown := l.possiblyDown.erase e.key }

open Method in
theorem serve_presses (l : Lease) (e : KeyEvent) :
    Presses l e ((l.serve e.event).ops.map Call.report) (l.serve e.event).object := by
  unfold Lease.serve KeyEvent.event
  rw [Lease.apply, e.keys_vk]
  dsimp only
  cases down : e.down with
  | true =>
    simp only [Lease.applyKey, Lease.send, bind_apply, get_apply, modify_apply, pure_apply, call_apply,
      ite_method_apply, Prog.bind]
    split
    next known => exact .repeated down known
    next new =>
      split
      next free => exact .presses down new (by simpa using free)
      next held => exact .joins down new (by simpa using held)
  | false =>
    simp only [Lease.applyKey, Lease.send, bind_apply, get_apply, modify_apply, pure_apply, call_apply,
      ite_method_apply, Prog.bind]
    split
    next free =>
      simp only [Bool.and_eq_true, Bool.not_eq_true', decide_eq_true_eq] at free
      exact .releases down free.1 free.2
    next kept =>
      simp only [Bool.and_eq_true, Bool.not_eq_true', decide_eq_true_eq, not_and_or, Bool.not_eq_false] at kept
      exact .leaves down kept

def Holds (virtual : Finset Nat) (k : Key) : Prop := ∃ v ∈ virtual, keys v = some k

section holds
variable {l : Lease} {virtual : Finset Nat} {e : KeyEvent} {k : Key}

theorem held_iff : l.held k = true ↔ Holds l.virtual k := by simp [Lease.held, Holds]

theorem not_held : l.held k = false ↔ ¬ Holds l.virtual k := by
  rw [← held_iff, Bool.not_eq_true]

theorem holds_insert : Holds (insert e.vk virtual) k ↔ k = e.key ∨ Holds virtual k := by
  rw [Holds, Finset.exists_mem_insert, e.keys_vk, Option.some.injEq]
  exact or_congr eq_comm Iff.rfl

theorem holds_erase (other : k ≠ e.key) : Holds (virtual.erase e.vk) k ↔ Holds virtual k := by
  constructor
  · rintro ⟨v, member, known⟩
    exact ⟨v, Finset.mem_of_mem_erase member, known⟩
  · rintro ⟨v, member, known⟩
    refine ⟨v, Finset.mem_erase.mpr ⟨fun same => other ?_, member⟩, known⟩
    rw [same, e.keys_vk] at known
    exact (Option.some.inj known).symm

theorem holds_of_erase (holds : Holds (virtual.erase e.vk) k) : Holds virtual k := by
  obtain ⟨v, member, known⟩ := holds
  exact ⟨v, Finset.mem_of_mem_erase member, known⟩

end holds

theorem edges_concat (k k' : Key) (down : Bool) (sent : List Report) :
    edges k (sent ++ [.key k' down]) = edges k sent ++ if k' = k then [down] else [] := by
  unfold edges
  rw [List.filterMap_append]
  split
  next same => simp [same]
  next other => simp [other]

/-- The reports alternate for each key, and leave just these keys down. -/
structure Shows (sent : List Report) (possiblyDown : Finset Key) : Prop where
  device : ∀ k, (sent.foldl Device.press {}).down (.key k) ↔ k ∈ possiblyDown
  edges : ∀ k, ∃ n, edges k sent = alternating n ∧ (n % 2 = 1 ↔ k ∈ possiblyDown)

section shows
variable {sent : List Report} {possiblyDown : Finset Key} {key : Key}

theorem shows_down (h : Shows sent possiblyDown) (up : key ∉ possiblyDown) :
    Shows (sent ++ [.key key true]) (insert key possiblyDown) := by
  constructor
  · intro k
    rw [List.foldl_concat, Device.down_press, h.device, Finset.mem_insert]
    simp [Report.edge, eq_comm]
  · intro k
    obtain ⟨n, same, parity⟩ := h.edges k
    rw [edges_concat, same, Finset.mem_insert]
    split
    next own =>
      subst own
      have even : n % 2 = 0 := Nat.mod_two_ne_one.mp fun odd => up (parity.mp odd)
      refine ⟨n + 1, ?_, by simp; omega⟩
      rw [alternating_succ, decide_eq_true even]
    next other =>
      refine ⟨n, List.append_nil _, parity.trans ?_⟩
      simp [Ne.symm other]

theorem shows_up (h : Shows sent possiblyDown) (down : key ∈ possiblyDown) :
    Shows (sent ++ [.key key false]) (possiblyDown.erase key) := by
  constructor
  · intro k
    rw [List.foldl_concat, Device.down_press, h.device, Finset.mem_erase]
    simp [Report.edge, eq_comm, and_comm]
  · intro k
    obtain ⟨n, same, parity⟩ := h.edges k
    rw [edges_concat, same, Finset.mem_erase]
    split
    next own =>
      subst own
      have odd : n % 2 = 1 := parity.mpr down
      refine ⟨n + 1, ?_, by simp; omega⟩
      rw [alternating_succ, decide_eq_false (by omega)]
    next other =>
      refine ⟨n, List.append_nil _, parity.trans ?_⟩
      simp [Ne.symm other]

end shows

structure Inv (s : State) (es : List KeyEvent) : Prop where
  virtual : ∀ vk, vk ∈ s.lease.virtual ↔ lastDown vk es
  tracked : ∀ k, k ∈ s.lease.possiblyDown ↔ Holds s.lease.virtual k
  shows : Shows s.sent s.lease.possiblyDown

theorem inv_fresh (mode : MouseMode) (stream : Bool) : Inv (fresh mode stream) [] where
  virtual vk := by simp [fresh, lastDown]
  tracked k := by simp [fresh, Holds]
  shows := ⟨fun k => by simp [fresh, Device.down], fun k => ⟨0, rfl, by simp [fresh]⟩⟩

section virtual
variable {virtual : Finset Nat} {es : List KeyEvent} {e : KeyEvent}

theorem virtual_down (h : ∀ vk, vk ∈ virtual ↔ lastDown vk es) (down : e.down) (vk : Nat) :
    vk ∈ insert e.vk virtual ↔ lastDown vk (es ++ [e]) := by
  rw [lastDown_concat, Finset.mem_insert, h]
  split
  next same => simp [down, same]
  next other => simp [Ne.symm other]

theorem virtual_up (h : ∀ vk, vk ∈ virtual ↔ lastDown vk es) (up : e.down = false) (vk : Nat) :
    vk ∈ virtual.erase e.vk ↔ lastDown vk (es ++ [e]) := by
  rw [lastDown_concat, Finset.mem_erase, h]
  split
  next same => simp [up, same]
  next other => simp [Ne.symm other]

end virtual

theorem inv_step {s : State} {es : List KeyEvent} (h : Inv s es) (e : KeyEvent) :
    Inv (step s e.event) (es ++ [e]) := by
  have presses := serve_presses s.lease e
  unfold step
  generalize (s.lease.serve e.event).ops.map Call.report = reports at presses ⊢
  generalize (s.lease.serve e.event).object = l at presses ⊢
  cases presses with
  | repeated down known =>
    refine ⟨fun vk => ?_, h.tracked, by rw [List.append_nil]; exact h.shows⟩
    rw [← virtual_down h.virtual down, Finset.insert_eq_of_mem known]
  | joins down new held =>
    refine ⟨virtual_down h.virtual down, fun k => ?_, by rw [List.append_nil]; exact h.shows⟩
    rw [holds_insert, h.tracked]
    exact (or_iff_right_of_imp fun same => same ▸ held_iff.mp held).symm
  | presses down new free =>
    have up : e.key ∉ s.lease.possiblyDown := mt (h.tracked _).mp (not_held.mp free)
    refine ⟨virtual_down h.virtual down, fun k => ?_, shows_down h.shows up⟩
    rw [holds_insert, Finset.mem_insert, h.tracked]
  | leaves up kept =>
    refine ⟨virtual_up h.virtual up, fun k => ?_, by rw [List.append_nil]; exact h.shows⟩
    by_cases own : k = e.key
    · subst own
      rcases kept with held | untracked
      · have holds := held_iff.mp held
        exact iff_of_true ((h.tracked _).mpr (holds_of_erase holds)) holds
      · exact iff_of_false untracked fun holds => untracked ((h.tracked _).mpr (holds_of_erase holds))
    · exact (h.tracked k).trans (holds_erase own).symm
  | releases up free tracked =>
    refine ⟨virtual_up h.virtual up, fun k => ?_, shows_up h.shows tracked⟩
    rw [Finset.mem_erase]
    by_cases own : k = e.key
    · subst own
      exact iff_of_false (fun both => both.1 rfl) (not_held.mp free)
    · rw [holds_erase own, h.tracked]
      exact and_iff_right own

theorem inv_run (mode : MouseMode) (stream : Bool) (es : List KeyEvent) :
    Inv (run step (fresh mode stream) (es.map KeyEvent.event)) es := by
  induction es using List.reverseRecOn with
  | nil => exact inv_fresh mode stream
  | append_singleton es e ih =>
    rw [List.map_append, List.map_singleton, run_concat]
    exact inv_step ih e

/-- A repeated down, and an up that leaves the key held or finds it up, send nothing. -/
theorem serve_quiet {l : Lease} {e : KeyEvent} (known : e.down → e.vk ∈ l.virtual)
    (kept : e.down = false → Holds (l.virtual.erase e.vk) e.key ∨ e.key ∉ l.possiblyDown) :
    (l.serve e.event).ops = [] := by
  rw [← List.map_eq_nil_iff]
  have presses := serve_presses l e
  generalize (l.serve e.event).ops.map Call.report = reports at presses ⊢
  generalize (l.serve e.event).object = l' at presses
  cases presses with
  | repeated | joins | leaves => rfl
  | presses down new => exact absurd (known down) new
  | releases up free tracked =>
    rcases kept up with holds | untracked
    · exact absurd holds (not_held.mp free)
    · exact absurd tracked untracked

/-- A key is up or down exactly as its VKs are, and nothing is sent that changes nothing. -/
theorem aliases_agree (mode : MouseMode) (stream : Bool) (es : List KeyEvent) :
    let s := run step (fresh mode stream) (es.map KeyEvent.event)
    (∀ k, edges k s.sent = alternating (edges k s.sent).length) ∧
    (∀ k, s.device.down (.key k) ↔ ∃ vk, keys vk = some k ∧ lastDown vk es) ∧
    (∀ e : KeyEvent, e.down → lastDown e.vk es → (s.lease.serve e.event).ops = []) ∧
    (∀ e : KeyEvent, !e.down → !lastDown e.vk es → (s.lease.serve e.event).ops = []) ∧
    (∀ (e : KeyEvent) (vk : Nat), !e.down → keys vk = keys e.vk → vk ≠ e.vk → lastDown vk es →
      (s.lease.serve e.event).ops = []) := by
  have h := inv_run mode stream es
  intro s
  refine ⟨fun k => ?_, fun k => ?_, fun e down held => ?_, fun e up unheld => ?_,
    fun e vk up alias_ other held => ?_⟩
  · obtain ⟨n, same, _⟩ := h.shows.edges k
    rw [same]
    simp [alternating]
  · refine (h.shows.device k).trans ((h.tracked k).trans ?_)
    constructor
    · rintro ⟨vk, member, known⟩
      exact ⟨vk, known, (h.virtual vk).mp member⟩
    · rintro ⟨vk, known, held⟩
      exact ⟨vk, (h.virtual vk).mpr held, known⟩
  · exact serve_quiet (fun _ => (h.virtual _).mpr held) fun up => by simp [up] at down
  · have absent : e.vk ∉ s.lease.virtual := fun member => by simp [(h.virtual _).mp member] at unheld
    refine serve_quiet (fun down => by simp [down] at up) fun _ => ?_
    rw [Finset.erase_eq_of_notMem absent, ← h.tracked]
    exact em _
  · refine serve_quiet (fun down => by simp [down] at up) fun _ => .inl ?_
    exact ⟨vk, Finset.mem_erase.mpr ⟨other, (h.virtual vk).mpr held⟩, alias_.trans e.keys_vk⟩

/-- Either control VK holds the left key, which goes up with the last of them. -/
example :
    (run step (fresh .relative false) [.key 0x11 true, .key 0xA2 true, .key 0x11 false, .key 0xA2 false]).sent =
      [.key .controlLeft true, .key .controlLeft false] := by
  decide

end Hid.Aliases

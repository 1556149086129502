import RkmoonKvm.Hid.Device

/-! What a lease tracks and what is down. A control is live when it is, or can still
become, down; the discipline of the lease is that every live control is tracked.
The discipline is proved once, for any world in which only a down report makes a
control live and an up report ends it, and used for both channels to kvmd. -/
namespace Hid
open Await

def Lease.tracks (l : Lease) : Control → Prop
  | .key k => k ∈ l.possiblyDown
  | .button b => b ∈ l.buttons

def Lease.drop (l : Lease) : Control → Lease
  | .key k => { l with possiblyDown := l.possiblyDown.erase k }
  | .button b => { l with buttons := l.buttons.erase b }

def Lease.forgetAliases (l : Lease) : Lease := { l with virtual := ∅, wheelX := 0, wheelY := 0 }

theorem tracks_drop (l : Lease) (c c' : Control) : (l.drop c').tracks c ↔ l.tracks c ∧ c ≠ c' := by
  cases c <;> cases c' <;> simp [Lease.drop, Lease.tracks, and_comm]

@[simp] theorem tracks_forgetAliases (l : Lease) (c : Control) :
    l.forgetAliases.tracks c ↔ l.tracks c := by
  cases c <;> rfl

theorem neutral_iff (l : Lease) : l.neutral = true ↔ ∀ c, ¬ l.tracks c := by
  simp only [Lease.neutral, decide_eq_true_eq, Finset.eq_empty_iff_forall_notMem]
  constructor
  · rintro ⟨noKey, noButton⟩ (k | b)
    · exact noKey k
    · exact noButton b
  · intro none
    exact ⟨fun k => none (.key k), fun b => none (.button b)⟩

section discipline

variable {D : Type} (w : World Call D) (rely : D → D → Prop) (Live : Control → D → Prop)

def Tracks (l : Lease) (d : D) : Prop := ∀ c, Live c d → l.tracks c

/-- A world in which reports sent one way are all that makes a control live. -/
structure Follows (via : Via) : Prop where
  moved : ∀ {c d d'}, rely d d' → Live c d' → Live c d
  pressed : ∀ {c r d}, Live c (w.land ⟨via, r⟩ d) → Live c d ∨ r.edge = some (c, true)
  released : ∀ {c r d}, r.edge = some (c, false) → ¬ Live c (w.land ⟨via, r⟩ d)
  heard : ∀ {c op d}, Live c (w.heard op d) → Live c d

variable {w rely Live} {A : Type}

theorem Tracks.moved (f : Follows w rely Live via) {l : Lease} {d d' : D}
    (h : Tracks Live l d) (m : rely d d') : Tracks Live l d' :=
  fun c live => h c (f.moved m live)

theorem Tracks.grow {l l' : Lease} {d : D} (h : Tracks Live l d)
    (grows : ∀ c, l.tracks c → l'.tracks c) : Tracks Live l' d :=
  fun c live => grows c (h c live)

theorem keeps_done (f : Follows w rely Live via) {l : Lease} {d : D} (h : Tracks Live l d)
    (r : Except PyError A) :
    Keeps w rely (Tracks Live) (fun _ _ _ => True) (.done r l : Prog Lease Call Unit PyError A) d :=
  fun _ m => ⟨h.moved f m, trivial⟩

/-- One report, sent with its own control already tracked if it presses one. The
control of an acknowledged up report is not live when its caller goes on. -/
theorem keeps_send (f : Follows w rely Live via) {l : Lease} {d : D} (h : Tracks Live l d)
    {r : Report} (before : ∀ c, r.edge = some (c, true) → l.tracks c)
    {k : Except PyError Unit → Prog Lease Call Unit PyError A}
    (failed : ∀ e d', Tracks Live l d' → Keeps w rely (Tracks Live) (fun _ _ _ => True) (k (.error e)) d')
    (answered : ∀ d', Tracks Live l d' → (∀ c, r.edge = some (c, false) → ¬ Live c d') →
      Keeps w rely (Tracks Live) (fun _ _ _ => True) (k (.ok ())) d') :
    Keeps w rely (Tracks Live) (fun _ _ _ => True) (.wait ⟨via, r⟩ l k) d := by
  intro d₁ m₁
  have h₁ := h.moved f m₁
  refine ⟨h₁, fun e => failed e d₁ h₁, fun d₂ m₂ => ?_⟩
  have h₂ : Tracks Live l d₂ := by
    intro c live
    rcases f.pressed (f.moved m₂ live) with old | new
    · exact h₁ c old
    · exact before c new
  refine ⟨h₂, fun e => failed e d₂ h₂, fun _ => answered _ ?_ ?_⟩
  · exact fun c live => h₂ c (f.heard live)
  · exact fun c up live => f.released up (f.moved m₂ (f.heard live))

open Method in
theorem applyKey_tracks (f : Follows w rely Live .events) {l : Lease} {d : D} (h : Tracks Live l d)
    (vk : Nat) (key : Key) (down : Bool) :
    Keeps w rely (Tracks Live) (fun _ _ _ => True) (Lease.applyKey vk key down l) d := by
  cases down with
  | true =>
    simp only [Lease.applyKey, Lease.send, bind_apply, get_apply, modify_apply, pure_apply,
      call_apply, ite_method_apply, Prog.bind]
    split
    · exact keeps_done f h _
    · split
      · apply keeps_send f
        · exact h.grow fun c => by cases c <;> simp +contextual [Lease.tracks]
        · intro c pressed
          cases pressed
          exact Finset.mem_insert_self _ _
        · exact fun e d' h' => keeps_done f h' _
        · exact fun d' h' _ => keeps_done f h' _
      · exact keeps_done f (h.grow fun c => by cases c <;> exact id) _
  | false =>
    simp only [Lease.applyKey, Lease.send, bind_apply, get_apply, modify_apply, pure_apply,
      call_apply, ite_method_apply, Prog.bind]
    have h₁ : Tracks Live { l with virtual := l.virtual.erase vk } d :=
      h.grow fun c => by cases c <;> exact id
    split
    · apply keeps_send f h₁
      · intro c pressed
        cases pressed
      · exact fun e d' h' => keeps_done f h' _
      · intro d' h' up
        refine keeps_done f (fun c live => ?_) _
        exact (tracks_drop _ c (.key key)).mpr
          ⟨h' c live, fun same => up _ (by rw [same]; rfl) live⟩
    · exact keeps_done f h₁ _

open Method in
theorem applyButton_tracks (f : Follows w rely Live .events) {l : Lease} {d : D}
    (h : Tracks Live l d) (b : Button) (down : Bool) :
    Keeps w rely (Tracks Live) (fun _ _ _ => True) (Lease.applyButton b down l) d := by
  cases down with
  | true =>
    simp only [Lease.applyButton, Lease.send, bind_apply, get_apply, modify_apply, pure_apply,
      call_apply, ite_method_apply, Prog.bind]
    split
    · apply keeps_send f
      · exact h.grow fun c => by cases c <;> simp +contextual [Lease.tracks]
      · intro c pressed
        cases pressed
        exact Finset.mem_insert_self _ _
      · exact fun e d' h' => keeps_done f h' _
      · exact fun d' h' _ => keeps_done f h' _
    · exact keeps_done f h _
  | false =>
    simp only [Lease.applyButton, Lease.send, bind_apply, get_apply, pure_apply, call_apply,
      ite_method_apply, Prog.bind]
    split
    · apply keeps_send f h
      · intro c pressed
        cases pressed
      · exact fun e d' h' => keeps_done f h' _
      · intro d' h' up
        refine keeps_done f (fun c live => ?_) _
        exact (tracks_drop _ c (.button b)).mpr
          ⟨h' c live, fun same => up _ (by rw [same]; rfl) live⟩
    · exact keeps_done f h _

theorem sendEach_tracks (f : Follows w rely Live .events) (report : Int × Int → Report)
    (motion : ∀ p, (report p).edge = none) (ps : List (Int × Int)) {l : Lease} {d : D}
    (h : Tracks Live l d) :
    Keeps w rely (Tracks Live) (fun _ _ _ => True) (Lease.sendEach report ps l) d := by
  induction ps generalizing d with
  | nil => exact keeps_done f h _
  | cons p ps ih =>
    apply keeps_send f h
    · simp [motion]
    · exact fun e d' h' => keeps_done f h' _
    · exact fun d' h' _ => ih h'

open Method in
theorem apply_tracks (f : Follows w rely Live .events) {l : Lease} {d : D} (h : Tracks Live l d)
    (e : Event) : Keeps w rely (Tracks Live) (fun _ _ _ => True) (Lease.apply e l) d := by
  cases e with
  | ping => exact keeps_done f h _
  | bye => exact keeps_done f h _
  | key vk down =>
    simp only [Lease.apply]
    cases keys vk with
    | none => exact keeps_done f h _
    | some key => exact applyKey_tracks f h _ _ _
  | button n down =>
    simp only [Lease.apply]
    cases buttons n with
    | none => exact keeps_done f h _
    | some b => exact applyButton_tracks f h _ _
  | move x y =>
    simp only [Lease.apply, Lease.applyMove, Lease.send, bind_apply, get_apply, throw_apply,
      call_apply, pure_apply, ite_method_apply, Prog.bind]
    split
    · exact keeps_done f h _
    · split
      · split
        · apply keeps_send f h (by simp [Report.edge])
          · exact fun e d' h' => keeps_done f h' _
          · exact fun d' h' _ => keeps_done f h' _
        · exact keeps_done f h _
      · exact sendEach_tracks f _ (fun _ => rfl) _ h
  | absolute x y =>
    simp only [Lease.apply, Lease.applyAbsolute, Lease.send, bind_apply, get_apply, throw_apply,
      call_apply, ite_method_apply, Prog.bind]
    split
    · exact keeps_done f h _
    · apply keeps_send f h (by simp [Report.edge])
      · exact fun e d' h' => keeps_done f h' _
      · exact fun d' h' _ => keeps_done f h' _
  | wheel x y =>
    refine sendEach_tracks f _ (fun _ => rfl) _ (h.grow fun c => ?_)
    cases c <;> exact id

end discipline

section release

variable {D : Type} (w : World Call D) (rely : D → D → Prop) (I : Lease → D → Prop)

/-- An invariant of lease and world that outlives every release report: it stays
when one takes effect, and when its control is dropped after the acknowledgement. -/
structure Releases : Prop where
  moved : ∀ {l d d'}, rely d d' → I l d → I l d'
  landed : ∀ {l d} (c : Control), I l d → I l (w.land ⟨.backend, c.report false⟩ d)
  dropped : ∀ {l d d'} (c : Control), I l d → rely (w.land ⟨.backend, c.report false⟩ d) d' →
    I (l.drop c) (w.heard ⟨.backend, c.report false⟩ d')
  aliases : ∀ {l d}, I l d → I l.forgetAliases d

variable {w rely I}

open Method in
theorem attempt_release (rules : Releases w rely I) {l : Lease} {d : D} (h : I l d) (c : Control)
    {Q : Except PyError Unit → Lease → D → Prop} {rest : Lease.Code Unit}
    (next : ∀ l' d', I l' d' → Keeps w rely I Q (rest l') d')
    (cancelled : ∀ e l' d', Q (.error e) l' d') :
    Keeps w rely I Q ((do
      attempt PyError.isException
        (do
          let _ ← call ⟨.backend, c.report false⟩
          modify fun l => l.drop c)
        (pure ())
      rest : Lease.Code Unit) l) d := by
  have failed : ∀ (e : PyError) d', I l d' → Keeps w rely I Q
      (((Prog.done (.error e) l : Prog Lease Call Unit PyError Unit).rescue PyError.isException
        (pure () : Lease.Code Unit)).bind fun _ => rest) d' := by
    intro e d' h'
    simp only [Prog.rescue]
    split
    · exact next l d' h'
    · exact fun d₁ m => ⟨rules.moved m h', cancelled _ _ _⟩
  intro d₁ m₁
  have h₁ := rules.moved m₁ h
  refine ⟨h₁, fun e => failed e d₁ h₁, fun d₂ m₂ => ?_⟩
  have h₂ := rules.moved m₂ (rules.landed c h₁)
  exact ⟨h₂, fun e => failed e d₂ h₂, fun _ => next _ _ (rules.dropped c h₁ m₂)⟩

theorem releaseKeys_keeps (rules : Releases w rely I) (ks : List Key) {l : Lease} {d : D}
    (h : I l d) : Keeps w rely I (fun _ _ _ => True) (Lease.releaseKeys ks l) d := by
  induction ks generalizing l d with
  | nil => exact fun d₁ m => ⟨rules.moved m h, trivial⟩
  | cons k ks ih =>
    exact attempt_release rules h (.key k) (fun _ _ h' => ih h') fun _ _ _ => trivial

theorem releaseButtons_keeps (rules : Releases w rely I) (bs : List Button) {l : Lease} {d : D}
    (h : I l d) : Keeps w rely I (fun _ _ _ => True) (Lease.releaseButtons bs l) d := by
  induction bs generalizing l d with
  | nil => exact fun d₁ m => ⟨rules.moved m h, trivial⟩
  | cons b bs ih =>
    exact attempt_release rules h (.button b) (fun _ _ h' => ih h') fun _ _ _ => trivial

/-- `release` keeps the invariant, whatever fails, and answers whether anything is still tracked. -/
theorem release_keeps (rules : Releases w rely I) (refl : ∀ d, rely d d) (ks : List Key)
    (bs : List Button) {l : Lease} {d : D} (h : I l d) :
    Keeps w rely I (fun r l _ => ∀ b, r = .ok b → b = l.neutral) (Lease.release ks bs l) d := by
  refine keeps_bind refl (Lease.releaseKeys ks l.forgetAliases) ?_
  refine keeps_mono (fun _ _ h => h) ?_ (releaseKeys_keeps rules ks (rules.aliases h))
  rintro (e | _) l₁ d₁ -
  · exact fun b same => by cases same
  intro h₁
  refine keeps_bind refl (Lease.releaseButtons bs l₁) ?_
  refine keeps_mono (fun _ _ h => h) ?_ (releaseButtons_keeps rules bs h₁)
  rintro (e | _) l₂ d₂ -
  · exact fun b same => by cases same
  exact fun h₂ d₃ m => ⟨rules.moved m h₂, fun b same => by cases same; rfl⟩

end release
end Hid

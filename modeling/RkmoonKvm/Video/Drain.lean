import RkmoonKvm.Video.V4l2

/-! Which frame a capture call returns, for the buffers that the driver hands out in it. -/
namespace Video.V4l2
open Runs

/-- The driver hands these buffers out, takes back what it is given, and then has no more. -/
def offer (handed : List Handed) : List Attempt := handed.map fun b => ⟨.ok b, .ok ()⟩

def Stream.fits (s : Stream) (b : Handed) : Bool :=
  s.buffers[b.index]?.any fun buf => decide (b.inBounds buf.size s.layout)

def newest (handed : List Handed) : Option Handed := (handed.filter fun b => !b.flagged).getLast?

/-- What the call is for: the newest good frame, and errored buffers that only count. -/
structure Newest (s : Stream) (handed : List Handed) : Prop where
  newest : (∃ b ∈ handed, b.flagged = false) → (∀ b ∈ handed, b.flagged = false → s.fits b = true) →
    ∃ b, V4l2.newest handed = some b ∧
      ((latest (.ready 1) (offer handed)).run s).1 = .ok b.frame
  spared : ∀ before b after, handed = before ++ b :: after → b.flagged = true → ∀ found t,
    (drain (offer before) none).run s = (.ok found, t) →
    ∃ u, (drain (offer (before ++ [b])) none).run s = (.ok found, u) ∧
      u.log = t.log ++ [.dqbuf b.index, .qbuf b.index true] ∧ u.rawSkipped = t.rawSkipped + 1

theorem offer_append (handed more : List Handed) : offer (handed ++ more) = offer handed ++ offer more :=
  List.map_append

theorem drain_offer_append (handed : List Handed) (more : List Attempt) (latest : Option Frame)
    (s : Stream) : (drain (offer handed ++ more) latest).run s =
      (drain (offer handed) latest >>= drain more).run s := by
  induction handed generalizing latest s with
  | nil => rfl
  | cons b rest ih =>
    simp only [offer, List.map_cons, List.cons_append, drain]
    rw [Fallible.run_bind, Fallible.run_bind, Fallible.run_bind]
    rcases (take b (.ok ()) latest).run s with ⟨r, t⟩
    cases r with
    | ok newer => exact ih newer t
    | error e => rfl

/-! The log only grows, so a part of a lawful run is lawful. -/

def Grown (s₀ s : Stream) : Prop := s₀.log <+: s.log

theorem grown_issued {s₀ s : Stream} (grown : Grown s₀ s) (e : Ioctl) : Grown s₀ (s.issued e) :=
  grown.trans (List.prefix_append _ _)

theorem grown_release {s₀ : Stream} (i : Nat) (qbuf : Reply Unit) :
    Fallible.Keeps (Grown s₀) (release i qbuf) := by
  intro s grown
  rcases release_cases i qbuf s with ⟨e, refused⟩ | ⟨_, e, _, failed⟩ | ⟨_, _, done⟩
  · rwa [refused]
  · rw [failed]
    exact grown_issued grown _
  · rw [done]
    exact grown_issued grown _

theorem grown_hold {s₀ : Stream} (b : Handed) : Fallible.Keeps (Grown s₀) (hold b) := by
  intro s grown
  rcases hold_cases b s with ⟨_, e, refused⟩ | ⟨buf, _, _, taken⟩
  · rw [refused]
    exact grown_issued grown _
  · rw [taken]
    exact grown_issued grown _

theorem hold_log (b : Handed) (s : Stream) : ((hold b).run s).2.log = s.log ++ [.dqbuf b.index] := by
  rcases hold_cases b s with ⟨_, e, refused⟩ | ⟨buf, _, _, taken⟩
  · rw [refused]
    rfl
  · rw [taken]
    rfl

theorem drain_grown (attempts : List Attempt) (latest : Option Frame) (s : Stream) :
    s.log <+: ((drain attempts latest).run s).2.log :=
  keeps_drain grown_release grown_hold (fun _ grown => grown) attempts latest s (List.prefix_refl _)

theorem hold_bind_grown {A : Type} {f : Unit → Call A} (b : Handed) (s : Stream)
    (next : ∀ t, Fallible.Keeps (Grown t) (f ())) :
    s.log ++ [.dqbuf b.index] <+: ((hold b >>= f).run s).2.log := by
  rw [Fallible.run_bind, ← hold_log b s]
  rcases (hold b).run s with ⟨r, t⟩
  cases r with
  | ok u => exact next t t (List.prefix_refl _)
  | error e => exact List.prefix_refl _

theorem lawful_earlier {log more : List Ioctl} (before : log <+: more) (lawful : Lawful more) :
    Lawful log := by
  obtain ⟨rest, rfl⟩ := before
  exact Log.each_earlier lawful

/-! A buffer that fits is taken; one that does not ends the call, whatever its flags are. -/

/-- Between two turns: the newest frame so far is still held. -/
structure Turn (s₀ s : Stream) (latest : Option Frame) : Prop where
  apart : Apart s
  held : ∀ f ∈ latest, s.held f.index = true
  fits : ∀ b, s.fits b = s₀.fits b

def newer (latest : Option Frame) (b : Handed) : Option Frame := if b.flagged then latest else some b.frame

theorem marked_fits (s : Stream) (i : Nat) (v : Bool) (b : Handed) : (s.marked i v).fits b = s.fits b := by
  simp only [Stream.fits, Stream.marked, Stream.changed, List.getElem?_modify]
  cases s.buffers[b.index]? with
  | none => rfl
  | some buf =>
    by_cases h : i = b.index
    · simp only [h, if_true]
      rfl
    · simp only [h, if_false]
      rfl

namespace Turn
variable {s₀ s : Stream} {latest : Option Frame} {b : Handed}

theorem free (turn : Turn s₀ s latest) (has : owned s.log b.index = true) :
    b.index < s.buffers.length ∧ s.held b.index = false := by
  have flags := turn.apart.flags b.index
  rw [has] at flags
  simpa using flags.symm

theorem hold (turn : Turn s₀ s latest) (has : owned s.log b.index = true) : (V4l2.hold b).run s =
    (if s₀.fits b = true then .ok () else .error "invalid capture plane bounds",
      (s.issued (.dqbuf b.index)).marked b.index true) := by
  obtain ⟨inside, free⟩ := turn.free has
  rcases hold_cases b s with ⟨wrong, _⟩ | ⟨buf, found, _, taken⟩
  · rcases wrong with outside | holds
    · exact absurd inside (Nat.not_lt.mpr outside)
    · rw [free] at holds
      cases holds
  · rw [taken, ← turn.fits b, Stream.fits, found]
    simp

theorem dequeued (turn : Turn s₀ s latest) (has : owned s.log b.index = true) :
    Turn s₀ ((s.issued (.dqbuf b.index)).marked b.index true) latest ∧
      ∀ f ∈ latest, f.index ≠ b.index := by
  obtain ⟨inside, free⟩ := turn.free has
  have other (f : Frame) (member : f ∈ latest) : f.index ≠ b.index := by
    intro same
    have holds := turn.held f member
    rw [same, free] at holds
    cases holds
  refine ⟨⟨turn.apart.dequeued has, fun f member => ?_, fun x => ?_⟩, other⟩
  · rw [Stream.marked_held, if_neg fun both => other f member both.1]
    exact turn.held f member
  · exact (marked_fits _ _ _ x).trans (turn.fits x)

theorem skipped {i : Nat} (turn : Turn s₀ s latest) (holds : s.held i = true) :
    ∃ t, (skip i (.ok ())).run s = (.ok (), t) ∧ Turn s₀ t none ∧
      (∀ j, j ≠ i → t.held j = s.held j) ∧ t.log = s.log ++ [.qbuf i true] ∧
      t.rawSkipped = s.rawSkipped + 1 := by
  refine ⟨_, Fallible.bind_ok (release_held holds), ⟨?_, nofun, fun x => ?_⟩, fun j other => ?_, rfl, rfl⟩
  · have apart := turn.apart.requeued holds true
    exact ⟨apart.flags, apart.sole⟩
  · exact (marked_fits _ _ _ x).trans (turn.fits x)
  · exact (Stream.marked_held _ _ _ _).trans (if_neg fun both => other both.1)

theorem taken (turn : Turn s₀ s latest) (has : owned s.log b.index = true) (fits : s₀.fits b = true) :
    ∃ t, (take b (.ok ()) latest).run s = (.ok (newer latest b), t) ∧ Turn s₀ t (newer latest b) ∧
      (b.flagged = true → t.log = s.log ++ [.dqbuf b.index, .qbuf b.index true] ∧
        t.rawSkipped = s.rawSkipped + 1) := by
  obtain ⟨inside, free⟩ := turn.free has
  obtain ⟨out, other⟩ := turn.dequeued has
  have held : ((s.issued (.dqbuf b.index)).marked b.index true).held b.index = true := by
    rw [Stream.marked_held, if_pos ⟨rfl, inside⟩]
  have first := turn.hold has
  rw [if_pos fits] at first
  rw [take, Fallible.bind_ok first, newer, choose]
  cases flag : b.flagged with
  | true =>
    obtain ⟨t, back, turn', same, log, count⟩ := out.skipped held
    refine ⟨t, (Fallible.bind_ok back).trans rfl,
      ⟨turn'.apart, fun f member => ?_, turn'.fits⟩, fun _ => ?_⟩
    · rw [same f.index (other f member)]
      exact out.held f member
    · exact ⟨by simp [log], count⟩
  | false =>
    cases latest with
    | none =>
      refine ⟨_, rfl, ⟨out.apart, fun f member => ?_, out.fits⟩,
        fun flagged => absurd flagged Bool.false_ne_true⟩
      cases member
      exact held
    | some f =>
      obtain ⟨t, back, turn', same, _, _⟩ := out.skipped (out.held f rfl)
      refine ⟨t, (Fallible.bind_ok back).trans rfl, ⟨turn'.apart, fun g member => ?_, turn'.fits⟩,
        fun flagged => absurd flagged Bool.false_ne_true⟩
      cases member
      rw [same b.frame.index (other f rfl).symm]
      exact held

theorem refused (turn : Turn s₀ s latest) (has : owned s.log b.index = true)
    (unfit : s₀.fits b = false) (qbuf : Reply Unit) :
    ∃ t, (take b qbuf latest).run s = (.error "invalid capture plane bounds", t) := by
  have first := turn.hold has
  rw [if_neg (by simp [unfit])] at first
  exact ⟨_, Fallible.bind_error first⟩

end Turn

theorem first_owned {b : Handed} {rest : List Attempt} {qbuf : Reply Unit} {latest : Option Frame}
    {s : Stream} (lawful : Lawful ((drain (⟨.ok b, qbuf⟩ :: rest) latest).run s).2.log) :
    owned s.log b.index = true := by
  have begins : s.log ++ [.dqbuf b.index] <+: ((drain (⟨.ok b, qbuf⟩ :: rest) latest).run s).2.log := by
    have turn := hold_bind_grown (f := fun _ => choose b qbuf latest) b s fun t =>
      keeps_choose grown_release (fun _ grown => grown) b qbuf latest
    change _ <+: ((take b qbuf latest).run s).2.log at turn
    simp only [drain]
    rw [Fallible.run_bind]
    rcases taken : (take b qbuf latest).run s with ⟨r, t⟩
    rw [taken] at turn
    cases r with
    | ok newest => exact turn.trans (drain_grown rest newest t)
    | error e => exact turn
  exact ((Log.each_concat _ _).mp (lawful_earlier begins lawful)).2

def newestFrame (latest : Option Frame) (handed : List Handed) : Option Frame := handed.foldl newer latest

theorem newestFrame_eq (latest : Option Frame) (handed : List Handed) :
    newestFrame latest handed = ((newest handed).map Handed.frame).or latest := by
  induction handed generalizing latest with
  | nil => rfl
  | cons b rest ih =>
    rw [newestFrame, List.foldl_cons, ← newestFrame, ih, newer, newest, newest]
    cases flag : b.flagged with
    | true => simp [flag]
    | false =>
      rw [List.filter_cons_of_pos (by simp [flag])]
      cases last : (rest.filter fun b => !b.flagged).getLast? with
      | none => simp [List.getLast?_cons, last]
      | some x => simp [List.getLast?_cons, last]

section drain
variable {s₀ s : Stream} {latest : Option Frame} {handed : List Handed}

theorem drain_fits (turn : Turn s₀ s latest)
    (lawful : Lawful ((drain (offer handed) latest).run s).2.log)
    (fits : ∀ b ∈ handed, s₀.fits b = true) :
    ∃ t, (drain (offer handed) latest).run s = (.ok (newestFrame latest handed), t) ∧
      Turn s₀ t (newestFrame latest handed) := by
  induction handed generalizing s latest with
  | nil => exact ⟨s, rfl, turn⟩
  | cons b rest ih =>
    obtain ⟨fit, fits⟩ := List.forall_mem_cons.mp fits
    obtain ⟨t, taken, turn', _⟩ := turn.taken (first_owned lawful) fit
    have step : (drain (offer (b :: rest)) latest).run s = (drain (offer rest) (newer latest b)).run t :=
      Fallible.bind_ok taken
    rw [step] at lawful ⊢
    exact ih turn' lawful fits

theorem drain_returned {found : Option Frame} {t : Stream} (turn : Turn s₀ s latest)
    (returned : (drain (offer handed) latest).run s = (.ok found, t)) (lawful : Lawful t.log) :
    (∀ b ∈ handed, s₀.fits b = true) ∧ Turn s₀ t found := by
  induction handed generalizing s latest with
  | nil =>
    cases returned
    exact ⟨nofun, turn⟩
  | cons b rest ih =>
    have whole : Lawful ((drain (⟨.ok b, .ok ()⟩ :: offer rest) latest).run s).2.log := by
      change Lawful ((drain (offer (b :: rest)) latest).run s).2.log
      rw [returned]
      exact lawful
    have has : owned s.log b.index = true := first_owned whole
    cases fit : s₀.fits b with
    | true =>
      obtain ⟨u, taken, turn', _⟩ := turn.taken has fit
      obtain ⟨others, last⟩ := ih turn' ((Fallible.bind_ok taken).symm.trans returned)
      exact ⟨List.forall_mem_cons.mpr ⟨fit, others⟩, last⟩
    | false =>
      obtain ⟨u, refused⟩ := turn.refused has fit (.ok ())
      cases (Fallible.bind_error refused).symm.trans returned

end drain

section call
variable {s : Stream} {handed : List Handed} (apart : Apart s) (room : handed.length ≤ s.buffers.length)

theorem Turn.begun (apart : Apart s) : Turn s s none := ⟨apart, nofun, fun _ => rfl⟩

theorem drain_before {before after : List Handed} {latest found : Option Frame} {t : Stream}
    (returned : (drain (offer before) latest).run s = (.ok found, t)) :
    (drain (offer (before ++ after)) latest).run s = (drain (offer after) found).run t := by
  rw [offer_append, drain_offer_append, Fallible.bind_ok returned]

theorem before_lawful {before after : List Handed} {latest : Option Frame}
    (lawful : Lawful ((drain (offer (before ++ after)) latest).run s).2.log) :
    Lawful ((drain (offer before) latest).run s).2.log := by
  rw [offer_append, drain_offer_append, Fallible.run_bind] at lawful
  cases ran : (drain (offer before) latest).run s with | mk r t =>
  rw [ran] at lawful
  cases r with
  | ok found => exact lawful_earlier (drain_grown _ found t) lawful
  | error e => exact lawful

include room in
theorem latest_offer : (latest (.ready 1) (offer handed)).run s =
    (drain (offer handed) none >>= answer).run s := by
  have all : (offer handed).take s.buffers.length = offer handed :=
    List.take_of_length_le (by simpa [offer] using room)
  rw [latest, waited, Fallible.demand_true (by decide), Fallible.pure_bind, Fallible.reads_bind, all]

include room in
theorem latest_log :
    ((latest (.ready 1) (offer handed)).run s).2.log = ((drain (offer handed) none).run s).2.log := by
  rw [latest_offer room, Fallible.run_bind]
  rcases (drain (offer handed) none).run s with ⟨r, t⟩
  cases r with
  | ok found => cases found <;> rfl
  | error e => rfl

/-- If the first buffer that does not fit had no error flag, the bound on those without one
holds of all. -/
theorem fits_of_unflagged
    (first : ∀ b, handed.find? (fun b => !s.fits b) = some b → b.flagged = false)
    (bounds : ∀ b ∈ handed, b.flagged = false → s.fits b = true) :
    ∀ b ∈ handed, s.fits b = true := by
  intro b member
  cases found : handed.find? (fun b => !s.fits b) with
  | none => simpa using List.find?_eq_none.mp found b member
  | some x =>
    have unfit : s.fits x = false := by simpa using List.find?_some found
    have fit := bounds x (List.mem_of_find?_eq_some found) (first x found)
    rw [unfit] at fit
    cases fit

include apart room in
theorem latest_newest (lawful : Lawful ((drain (offer handed) none).run s).2.log)
    (fits : ∀ b ∈ handed, s.fits b = true) {good : Handed} (member : good ∈ handed)
    (unflagged : good.flagged = false) :
    ∃ b, newest handed = some b ∧ ((latest (.ready 1) (offer handed)).run s).1 = .ok b.frame := by
  obtain ⟨t, drained, _⟩ := drain_fits (Turn.begun apart) lawful fits
  have some_good : good ∈ handed.filter fun b => !b.flagged :=
    List.mem_filter.mpr ⟨member, by simp [unflagged]⟩
  obtain ⟨b, last⟩ := Option.isSome_iff_exists.mp
    (List.getLast?_isSome.mpr (List.ne_nil_of_mem some_good))
  have frame : newestFrame none handed = some b.frame := by
    rw [newestFrame_eq, newest, last]
    rfl
  refine ⟨b, last, ?_⟩
  rw [latest_offer room, Fallible.bind_ok drained, frame]
  rfl

include apart room in
/-- The first buffer that does not fit ends the call, so the call is good for what it is for
if that buffer has no error flag. -/
theorem newest_of_unflagged (lawful : Lawful ((drain (offer handed) none).run s).2.log)
    (first : ∀ b, handed.find? (fun b => !s.fits b) = some b → b.flagged = false) :
    Newest s handed := by
  constructor
  · rintro ⟨good, member, unflagged⟩ bounds
    exact latest_newest apart room lawful (fits_of_unflagged first bounds) member unflagged
  · rintro before b after rfl flagged found t returned
    rw [List.append_cons] at lawful
    have whole := before_lawful lawful
    rw [drain_before returned] at whole ⊢
    have has : owned t.log b.index = true := first_owned whole
    have lawful' : Lawful t.log := lawful_earlier (drain_grown _ found t) whole
    obtain ⟨fits, turn⟩ := drain_returned (Turn.begun apart) returned lawful'
    have fit : s.fits b = true := by
      by_contra unfit
      have here : (before ++ b :: after).find? (fun b => !s.fits b) = some b := by
        rw [List.find?_append, List.find?_eq_none.mpr (by simpa using fits), Option.none_or,
          List.find?_cons_of_pos (by simpa using unfit)]
      rw [first b here] at flagged
      cases flagged
    obtain ⟨u, taken, _, log⟩ := turn.taken has fit
    refine ⟨u, ?_, log flagged⟩
    rw [newer, flagged, if_pos rfl] at taken
    exact Fallible.bind_ok taken

include apart in
theorem unflagged_of_newest (lawful : Lawful ((drain (offer handed) none).run s).2.log)
    (good : Newest s handed) (b : Handed) (first : handed.find? (fun b => !s.fits b) = some b) :
    b.flagged = false := by
  obtain ⟨unfit, before, after, rfl, fits⟩ := List.find?_eq_some_iff_append.mp first
  by_contra flagged
  obtain ⟨t, drained, turn⟩ := drain_fits (Turn.begun apart) (before_lawful lawful) (by simpa using fits)
  rw [List.append_cons] at lawful
  have whole := before_lawful lawful
  rw [drain_before drained] at whole
  obtain ⟨u, refused⟩ := turn.refused (first_owned whole) (by simpa using unfit) (.ok ())
  obtain ⟨v, spared, _⟩ := good.spared before b after rfl (by simpa using flagged) _ t drained
  rw [drain_before drained] at spared
  cases (Fallible.bind_error refused).symm.trans spared

end call

/-- In every call on a started capture: the newest good frame comes back, and errored buffers
only count, exactly if the first buffer outside the plane bounds has no error flag. -/
theorem newest_iff {layout : Layout} {exportDma : Bool} {a : Setup} {s₀ : Stream}
    (started : (start exportDma a).run (Stream.opened layout) = (.ok (), s₀)) (calls : List Request)
    (handed : List Handed) (room : handed.length ≤ (run request s₀ calls).buffers.length)
    (lawful : Lawful ((latest (.ready 1) (offer handed)).run (run request s₀ calls)).2.log) :
    Newest (run request s₀ calls) handed ↔
      ∀ b, handed.find? (fun b => !(run request s₀ calls).fits b) = some b → b.flagged = false := by
  rw [latest_log room] at lawful
  have apart := good_run started calls (lawful_earlier (drain_grown _ _ _) lawful)
  exact ⟨unflagged_of_newest apart lawful, newest_of_unflagged apart room lawful⟩

def goodBehind (bytes : UInt32) : List Handed := [handedOut 0 bufFlagError bytes, handedOut 1 0 4]

theorem newest_behind_whole : Newest twoQueued (goodBehind 4) := by
  have started : (start true twoBuffers).run (Stream.opened fourBytes) = (.ok (), twoQueued) := rfl
  refine (newest_iff started [] (goodBehind 4) (by decide) (by decide)).mpr fun b found => ?_
  have fits : (goodBehind 4).find? (fun b => !twoQueued.fits b) = none := by decide
  cases fits.symm.trans found

/-- An errored buffer without any bytes makes the call fail. -/
theorem newest_behind_empty :
    Lawful ((latest (.ready 1) (offer (goodBehind 0))).run twoQueued).2.log ∧
      ((latest (.ready 1) (offer (goodBehind 0))).run twoQueued).1 =
        .error "invalid capture plane bounds" ∧
      ¬ Newest twoQueued (goodBehind 0) := by
  have call : ((latest (.ready 1) (offer (goodBehind 0))).run twoQueued).1 =
      .error "invalid capture plane bounds" := rfl
  refine ⟨by decide, call, fun good => ?_⟩
  obtain ⟨b, _, frame⟩ := good.newest (by decide) (by decide)
  rw [call] at frame
  cases frame

end Video.V4l2

import Mathlib.Algebra.Group.Prod
import RkmoonKvm.Library.Rounding
import RkmoonKvm.Hid.Aliases
import RkmoonKvm.Hid.Bounded

/-! Motion and the wheel: a move goes out in chunks, and the wheel in whole notches whose
rest is kept. Neither loses or invents anything on its two axes. -/
namespace Hid.Motion
open Await Runs Rounding Reader Coalesce
open Bounded (Side Ranged)

theorem natAbs_rest (n : Int) : (n - max (-127) (min 127 n)).natAbs = n.natAbs - 127 := by omega

def chunksWhile (x y : Int) : List (Int × Int) :=
  if x = 0 ∧ y = 0 then []
  else
    let a := max (-127) (min 127 x)
    let b := max (-127) (min 127 y)
    (a, b) :: chunksWhile (x - a) (y - b)
termination_by max x.natAbs y.natAbs
decreasing_by
  rw [natAbs_rest, natAbs_rest]
  omega

theorem chunksLoop_while (n : Nat) (x y : Int) (enough : max x.natAbs y.natAbs ≤ n) :
    chunksLoop n x y = chunksWhile x y := by
  induction n generalizing x y with
  | zero =>
    have done : x = 0 ∧ y = 0 := by omega
    simp [chunksLoop, chunksWhile, done]
  | succ n ih =>
    unfold chunksLoop chunksWhile
    split
    next => rfl
    next more =>
      apply congrArg (List.cons _) (ih _ _ _)
      rw [natAbs_rest, natAbs_rest]
      omega

theorem chunks_while (x y : Int) : chunks x y = chunksWhile x y := chunksLoop_while _ x y le_rfl

theorem chunksWhile_length (x y : Int) :
    (chunksWhile x y).length = (max x.natAbs y.natAbs + 126) / 127 := by
  fun_induction chunksWhile x y with
  | case1 x y done => simp [done]
  | case2 x y more a b ih =>
    have long : 0 < max x.natAbs y.natAbs := by
      rw [lt_max_iff, Int.natAbs_pos, Int.natAbs_pos, ← not_and_or]
      exact more
    rw [List.length_cons, ih, natAbs_rest, natAbs_rest, Nat.sub_max_sub_right]
    omega

theorem eq_zero_of_clamp {n : Int} (none : max (-127) (min 127 n) = 0) : n = 0 := by omega

def Along (n m : Int) : Prop := (0 ≤ n → 0 ≤ m) ∧ (n ≤ 0 → m ≤ 0)

theorem Along.trans {n m k : Int} (h : Along n m) (h' : Along m k) : Along n k :=
  ⟨h'.1 ∘ h.1, h'.2 ∘ h.2⟩

theorem along_clamp (n : Int) : Along n (max (-127) (min 127 n)) := by
  unfold Along
  omega

theorem along_rest (n : Int) : Along n (n - max (-127) (min 127 n)) := by
  unfold Along
  omega

theorem along_tdiv (n : Int) : Along n (n.tdiv 120) := by
  constructor
  · intro up
    exact Int.tdiv_nonneg up (by decide)
  · intro down
    have opposite : 0 ≤ (-n).tdiv 120 := Int.tdiv_nonneg (by omega) (by decide)
    rw [Int.neg_tdiv] at opposite
    omega

theorem chunksWhile_piece (x y : Int) :
    ∀ p ∈ chunksWhile x y, Along x p.1 ∧ Along y p.2 ∧ p ≠ (0, 0) := by
  fun_induction chunksWhile x y with
  | case1 x y done => simp
  | case2 x y more a b ih =>
    intro p member
    rcases List.mem_cons.mp member with here | there
    · cases here
      have moves : (a, b) ≠ (0, 0) := by
        intro none
        obtain ⟨noneX, noneY⟩ := Prod.mk.inj none
        exact more ⟨eq_zero_of_clamp noneX, eq_zero_of_clamp noneY⟩
      exact ⟨along_clamp x, along_clamp y, moves⟩
    · obtain ⟨alongX, alongY, moves⟩ := ih p there
      exact ⟨(along_rest x).trans alongX, (along_rest y).trans alongY, moves⟩

theorem chunks_sum (x y : Int) : (chunks x y).sum = (x, y) := by
  have axes := chunksLoop_sum (max x.natAbs y.natAbs) x y (by omega)
  apply Prod.ext
  · exact (map_list_sum (AddMonoidHom.fst Int Int) _).trans axes.1
  · exact (map_list_sum (AddMonoidHom.snd Int Int) _).trans axes.2

/-! What an event puts in, and what a report takes out. -/

def wheelInput : Event → Int × Int
  | .wheel x y => (x, y)
  | _ => 0

def moveInput : Event → Int × Int
  | .move x y => (x, y)
  | _ => 0

def wheelReport : Report → Int × Int
  | .wheel x y => (x, y)
  | _ => 0

def moveReport : Report → Int × Int
  | .move x y => (x, y)
  | .moveMany parts => parts.sum
  | _ => 0

def packed : Report → List Int
  | .move x y | .wheel x y => [x, y]
  | .moveMany parts => parts.flatMap fun p => [p.1, p.2]
  | _ => []

def remainder (l : Lease) : Int × Int := (l.wheelX, l.wheelY)

def reports (s : Served Lease Call PyError Unit) : List Report := s.ops.map Call.report

def scaled (n : Int) (p : Int × Int) : Int × Int := (n * p.1, n * p.2)

theorem scaled_add (n : Int) (p q : Int × Int) : scaled n (p + q) = scaled n p + scaled n q :=
  Prod.ext (mul_add ..) (mul_add ..)

/-- `int(n / 120)`, a quotient of floats. -/
def notches (n : Int) : Int := truncate (binary64 (n / 120))

/-! What the lease does with one event. -/

theorem serve_sendEach (report : Int × Int → Report) (ps : List (Int × Int)) (l : Lease) :
    (Lease.sendEach report ps l).served (fun _ => ()) = ⟨ps.map fun p => ⟨.events, report p⟩, .ok (), l⟩ := by
  induction ps with
  | nil => rfl
  | cons p ps ih =>
    have first := served_bind (fun _ => ()) (Lease.send (report p) l) fun _ => Lease.sendEach report ps
    exact first.trans (congrArg (Served.after ([⟨.events, report p⟩] : List Call)) ih)

theorem serve_wheel (l : Lease) (x y : Int) : l.serve (.wheel x y) = {
    ops := (chunks ((l.wheelX + x).tdiv 120) ((l.wheelY + y).tdiv 120)).map
      fun p => ⟨.events, .wheel p.1 p.2⟩
    result := .ok ()
    object := { l with
      wheelX := l.wheelX + x - (l.wheelX + x).tdiv 120 * 120
      wheelY := l.wheelY + y - (l.wheelY + y).tdiv 120 * 120 } } :=
  serve_sendEach _ _ _

/-- A lease of the other mode refuses a move; a relative one sends its chunks. -/
def Moved (mode : MouseMode) (s : Served Lease Call PyError Unit) (x y : Int) : Prop :=
  match mode with
  | .relative => s.result = .ok () ∧ ((reports s).map moveReport).sum = (x, y)
  | .absolute => s.result = .error (.inputError "motion differs from lease mode") ∧ s.ops = []

open Method in
theorem serve_move {l : Lease} (mode : l.mouseMode = .relative) (x y : Int) : l.serve (.move x y) = {
    ops := if l.stream then if chunks x y ≠ [] then [⟨.events, .moveMany (chunks x y)⟩] else []
      else (chunks x y).map fun p => ⟨.events, .move p.1 p.2⟩
    result := .ok ()
    object := l } := by
  unfold Lease.serve
  simp only [Lease.apply, Lease.applyMove, Lease.send, bind_apply, get_apply, throw_apply, call_apply,
    ite_method_apply, Prog.bind]
  rw [if_neg (not_not.mpr mode)]
  split
  · split <;> rfl
  · exact serve_sendEach _ _ _

open Method in
theorem serve_move_refused {l : Lease} (mode : l.mouseMode = .absolute) (x y : Int) :
    l.serve (.move x y) = ⟨[], .error (.inputError "motion differs from lease mode"), l⟩ := by
  unfold Lease.serve
  simp only [Lease.apply, Lease.applyMove, bind_apply, get_apply, throw_apply, ite_method_apply, Prog.bind]
  rw [if_pos (by rw [mode]; decide)]
  rfl

theorem chunks_range (x y : Int) : ∀ p ∈ chunks x y, ∀ n ∈ [p.1, p.2], -127 ≤ n ∧ n ≤ 127 := by
  intro p member
  have range := chunksLoop_range _ x y p member
  simp only [Item.inRange, decide_eq_true_eq] at range
  intro n axis
  rcases List.mem_pair.mp axis with rfl | rfl
  · exact ⟨range.1, range.2.1⟩
  · exact range.2.2

theorem chunks_along (x y : Int) : ∀ p ∈ chunks x y, Along x p.1 ∧ Along y p.2 := by
  intro p member
  rw [chunks_while] at member
  obtain ⟨alongX, alongY, _⟩ := chunksWhile_piece x y p member
  exact ⟨alongX, alongY⟩

def Small (rest : Int × Int) : Prop := -120 < rest.1 ∧ rest.1 < 120 ∧ -120 < rest.2 ∧ rest.2 < 120

theorem small_zero : Small 0 := ⟨by decide, by decide, by decide, by decide⟩

theorem rest_small (n : Int) : -120 < n - n.tdiv 120 * 120 ∧ n - n.tdiv 120 * 120 < 120 := by
  rw [Int.mul_comm, ← Int.tmod_def]
  exact ⟨Int.lt_tmod_of_pos n (by decide), Int.tmod_lt_of_pos n (by decide)⟩

structure Step (l : Lease) (e : Event) (s : Served Lease Call PyError Unit) : Prop where
  mode : s.object.mouseMode = l.mouseMode
  total : scaled 120 ((reports s).map wheelReport).sum + remainder s.object = remainder l + wheelInput e
  small : Small (remainder l) → Small (remainder s.object)
  packed : ∀ r ∈ reports s, ∀ n ∈ packed r, -127 ≤ n ∧ n ≤ 127
  along : ∀ r ∈ reports s, Along (l.wheelX + (wheelInput e).1) (wheelReport r).1 ∧
    Along (l.wheelY + (wheelInput e).2) (wheelReport r).2

section step
variable {l : Lease} {e : Event} {s : Served Lease Call PyError Unit}

theorem step_still (mode : s.object.mouseMode = l.mouseMode) (kept : remainder s.object = remainder l)
    (nothing : wheelInput e = 0) (still : ∀ r ∈ reports s, wheelReport r = 0)
    (short : ∀ r ∈ reports s, ∀ n ∈ packed r, -127 ≤ n ∧ n ≤ 127) : Step l e s where
  mode := mode
  total := by
    have zero : ((reports s).map wheelReport).sum = 0 := by
      apply List.sum_eq_zero
      intro p member
      obtain ⟨r, sent, rfl⟩ := List.mem_map.mp member
      exact still r sent
    rw [zero, kept, nothing, add_zero]
    exact zero_add _
  small := by
    rw [kept]
    exact id
  packed := short
  along r sent := by
    rw [still r sent]
    exact ⟨⟨fun _ => le_rfl, fun _ => le_rfl⟩, ⟨fun _ => le_rfl, fun _ => le_rfl⟩⟩

theorem step_bare (mode : s.object.mouseMode = l.mouseMode) (kept : remainder s.object = remainder l)
    (nothing : wheelInput e = 0) (bare : ∀ r ∈ reports s, wheelReport r = 0 ∧ packed r = []) : Step l e s := by
  apply step_still mode kept nothing
  · exact fun r sent => (bare r sent).1
  · intro r sent n member
    rw [(bare r sent).2] at member
    cases member

end step

theorem step_key (l : Lease) (vk : Nat) (down : Bool) : Step l (.key vk down) (l.serve (.key vk down)) := by
  cases known : keys vk with
  | none =>
    have refused : l.serve (.key vk down) = ⟨[], .error .keyError, l⟩ := by
      unfold Lease.serve
      rw [Lease.apply, known]
      rfl
    rw [refused]
    exact step_bare rfl rfl rfl (List.forall_mem_nil _)
  | some key =>
    have presses := Aliases.serve_presses l ⟨vk, down, by rw [known]; rfl⟩
    change Aliases.Presses l _ (reports (l.serve (.key vk down))) (l.serve (.key vk down)).object at presses
    generalize l.serve (.key vk down) = s at presses
    obtain ⟨ops, result, object⟩ := s
    generalize sent : reports ⟨ops, result, object⟩ = rs at presses
    cases presses with
    | repeated | joins | leaves => exact step_bare rfl rfl rfl (by rw [sent]; exact List.forall_mem_nil _)
    | presses | releases =>
      exact step_bare rfl rfl rfl (by rw [sent]; exact List.forall_mem_singleton.mpr ⟨rfl, rfl⟩)

open Method in
theorem step_button (l : Lease) (n : Nat) (down : Bool) :
    Step l (.button n down) (l.serve (.button n down)) := by
  unfold Lease.serve
  simp only [Lease.apply]
  cases buttons n with
  | none => exact step_bare rfl rfl rfl (List.forall_mem_nil _)
  | some b =>
    cases down with
    | true =>
      simp only [Lease.applyButton, Lease.send, bind_apply, get_apply, modify_apply, pure_apply, call_apply,
        ite_method_apply, Prog.bind]
      split
      · exact step_bare rfl rfl rfl (List.forall_mem_singleton.mpr ⟨rfl, rfl⟩)
      · exact step_bare rfl rfl rfl (List.forall_mem_nil _)
    | false =>
      simp only [Lease.applyButton, Lease.send, bind_apply, get_apply, pure_apply, call_apply,
        ite_method_apply, Prog.bind]
      split
      · exact step_bare rfl rfl rfl (List.forall_mem_singleton.mpr ⟨rfl, rfl⟩)
      · exact step_bare rfl rfl rfl (List.forall_mem_nil _)

theorem step_move (l : Lease) (x y : Int) : Step l (.move x y) (l.serve (.move x y)) := by
  cases mode : l.mouseMode with
  | absolute =>
    rw [serve_move_refused mode]
    exact step_bare rfl rfl rfl (List.forall_mem_nil _)
  | relative =>
    have range := chunks_range x y
    have moves : ∀ r ∈ reports (l.serve (.move x y)),
        r = .moveMany (chunks x y) ∨ ∃ p ∈ chunks x y, r = .move p.1 p.2 := by
      rw [serve_move mode]
      unfold reports
      split
      · split
        · exact List.forall_mem_singleton.mpr (.inl rfl)
        · exact nofun
      · rintro r sent
        obtain ⟨call, called, rfl⟩ := List.mem_map.mp sent
        obtain ⟨p, member, rfl⟩ := List.mem_map.mp called
        exact .inr ⟨p, member, rfl⟩
    apply step_still
    · rw [serve_move mode]
    · rw [serve_move mode]
    · rfl
    · intro r sent
      rcases moves r sent with rfl | ⟨p, _, rfl⟩ <;> rfl
    · intro r sent n member
      rcases moves r sent with rfl | ⟨p, isChunk, rfl⟩
      · obtain ⟨p, isChunk, axis⟩ := List.mem_flatMap.mp member
        exact range p isChunk n axis
      · exact range p isChunk n member

open Method in
theorem step_absolute (l : Lease) (x y : Int) : Step l (.absolute x y) (l.serve (.absolute x y)) := by
  unfold Lease.serve
  simp only [Lease.apply, Lease.applyAbsolute, Lease.send, bind_apply, get_apply, throw_apply, call_apply,
    ite_method_apply, Prog.bind]
  split
  · exact step_bare rfl rfl rfl (List.forall_mem_nil _)
  · exact step_bare rfl rfl rfl (List.forall_mem_singleton.mpr ⟨rfl, rfl⟩)

theorem step_wheel (l : Lease) (x y : Int) : Step l (.wheel x y) (l.serve (.wheel x y)) := by
  have sent : reports (l.serve (.wheel x y)) =
      (chunks ((l.wheelX + x).tdiv 120) ((l.wheelY + y).tdiv 120)).map fun p => .wheel p.1 p.2 := by
    rw [serve_wheel]
    exact List.map_map
  constructor
  case mode => rw [serve_wheel]
  case total =>
    have same : (reports (l.serve (.wheel x y))).map wheelReport =
        chunks ((l.wheelX + x).tdiv 120) ((l.wheelY + y).tdiv 120) := by
      rw [sent, List.map_map]
      exact List.map_id _
    rw [same, chunks_sum, serve_wheel]
    apply Prod.ext
    · simp only [scaled, remainder, wheelInput, Prod.fst_add]
      omega
    · simp only [scaled, remainder, wheelInput, Prod.snd_add]
      omega
  case small =>
    rw [serve_wheel]
    exact fun _ => ⟨(rest_small _).1, (rest_small _).2, rest_small _⟩
  case packed =>
    rw [sent]
    intro r sent n member
    obtain ⟨p, isChunk, rfl⟩ := List.mem_map.mp sent
    exact chunks_range _ _ p isChunk n member
  case along =>
    rw [sent]
    intro r sent
    obtain ⟨p, isChunk, rfl⟩ := List.mem_map.mp sent
    obtain ⟨alongX, alongY⟩ := chunks_along _ _ p isChunk
    exact ⟨(along_tdiv _).trans alongX, (along_tdiv _).trans alongY⟩

theorem step_serve (l : Lease) (e : Event) : Step l e (l.serve e) := by
  cases e with
  | ping => exact step_bare rfl rfl rfl (List.forall_mem_nil _)
  | bye => exact step_bare rfl rfl rfl (List.forall_mem_nil _)
  | key vk down => exact step_key l vk down
  | button n down => exact step_button l n down
  | move x y => exact step_move l x y
  | wheel x y => exact step_wheel l x y
  | absolute x y => exact step_absolute l x y

theorem moved_serve (l : Lease) (x y : Int) : Moved l.mouseMode (l.serve (.move x y)) x y := by
  cases mode : l.mouseMode with
  | absolute =>
    rw [serve_move_refused mode]
    exact ⟨rfl, rfl⟩
  | relative =>
    rw [serve_move mode]
    refine ⟨rfl, ?_⟩
    have whole := chunks_sum x y
    unfold reports
    split
    · split
      next => simpa [moveReport] using whole
      next none =>
        rw [not_not.mp none] at whole
        exact whole
    · simpa [Function.comp_def, moveReport] using whole

/-! Runs. -/

/-- What a lease has sent for its events, and keeps. -/
structure Conserves (mode : MouseMode) (inputs : List Event) (s : Calm.State) : Prop where
  mode : s.lease.mouseMode = mode
  total : scaled 120 (s.sent.map wheelReport).sum + remainder s.lease = (inputs.map wheelInput).sum
  small : Small (remainder s.lease)
  packed : ∀ r ∈ s.sent, ∀ n ∈ packed r, -127 ≤ n ∧ n ≤ 127

theorem conserves_step {mode : MouseMode} {inputs : List Event} {s : Calm.State}
    (h : Conserves mode inputs s) (e : Event) : Conserves mode (inputs ++ [e]) (Calm.step s e) := by
  have served := step_serve s.lease e
  constructor
  · exact served.mode.trans h.mode
  · have sent : (Calm.step s e).sent = s.sent ++ reports (s.lease.serve e) := rfl
    have kept : remainder (Calm.step s e).lease = remainder (s.lease.serve e).object := rfl
    rw [sent, kept, List.map_append, List.sum_append, List.map_append, List.sum_append, List.map_singleton,
      List.sum_singleton, scaled_add, add_assoc, served.total, ← add_assoc, h.total]
  · exact served.small h.small
  · exact List.forall_mem_append.mpr ⟨h.packed, served.packed⟩

theorem conserves_run (mode : MouseMode) (stream : Bool) (inputs : List Event) :
    Conserves mode inputs (run Calm.step (Calm.fresh mode stream) inputs) := by
  induction inputs using List.reverseRecOn with
  | nil => exact ⟨rfl, rfl, small_zero, nofun⟩
  | append_singleton inputs e ih =>
    rw [run_concat]
    exact conserves_step ih e

/-- Read from a line, or merged by a queue from such events. -/
inductive Accepted : Event → Prop
  | parsed {l : Line} {e : Event} (read : parseEvent l = .ok e) : Accepted e
  | merged {back e m : Event} (first : Accepted back) (second : Accepted e)
      (merge : back.merge e = some m) : Accepted m

def Within : Event → Prop
  | .move x y | .wheel x y => Ranged x y
  | _ => True

theorem integer_range {fields : List (String × Value)} {name : String} {low high v : Int}
    (h : integer fields name low high = .ok v) : low ≤ v ∧ v ≤ high := by
  unfold integer at h
  split at h
  next n known =>
    split at h
    next range =>
      cases h
      exact range
    next => cases h
  next => cases h

theorem parse_within {l : Line} {e : Event} (h : parseEvent l = .ok e) : Within e := by
  unfold parseEvent at h
  split at h
  next => cases h
  next fields =>
    split at h
    next op known =>
      split at h
      next => cases h
      next names isAllowed =>
        obtain ⟨_, h⟩ := check_ok.mp h
        split at h
        next =>
          split at h
          next =>
            split at h <;>
            · obtain ⟨_, _, h⟩ := bind_ok h
              obtain ⟨_, h⟩ := check_ok.mp h
              cases h
              exact trivial
          next => cases h
        next =>
          split at h
          next =>
            obtain ⟨x, readX, h⟩ := bind_ok h
            obtain ⟨y, readY, h⟩ := bind_ok h
            have range : Ranged x y :=
              ⟨(integer_range readX).1, (integer_range readX).2, integer_range readY⟩
            cases h
            split <;> exact range
          next =>
            split at h
            · obtain ⟨x, _, h⟩ := bind_ok h
              obtain ⟨y, _, h⟩ := bind_ok h
              cases h
              exact trivial
            · cases h
              split <;> exact trivial
    next => cases h

theorem merge_within {back e m : Event} (merge : back.merge e = some m) : Within m := by
  unfold Event.merge at merge
  split at merge
  next =>
    cases merge
    exact trivial
  next =>
    split at merge
    next range =>
      cases merge
      unfold Within Ranged
      omega
    next => cases merge
  next => cases merge

theorem accepted_within {e : Event} (accepted : Accepted e) : Within e := by
  cases accepted with
  | parsed read => exact parse_within read
  | merged first second merge => exact merge_within merge

structure Input where
  event : Event
  accepted : Accepted event

structure Serves (mode : MouseMode) (l : Lease) (e : Event) : Prop where
  /-- `applyWheel` has the quotients of the source. -/
  whole : notches (l.wheelX + (wheelInput e).1) = (l.wheelX + (wheelInput e).1).tdiv 120 ∧
    notches (l.wheelY + (wheelInput e).2) = (l.wheelY + (wheelInput e).2).tdiv 120
  along : ∀ r ∈ reports (l.serve e), Along (l.wheelX + (wheelInput e).1) (wheelReport r).1 ∧
    Along (l.wheelY + (wheelInput e).2) (wheelReport r).2
  move : ∀ x y, e = .move x y → Moved mode (l.serve e) x y

theorem notches_tdiv {rest n : Int} (small : -120 < rest ∧ rest < 120) (range : -32767 ≤ n ∧ n ≤ 32767) :
    notches (rest + n) = (rest + n).tdiv 120 := by
  have few : (rest + n).natAbs < 2 ^ 52 := by omega
  exact truncate_binary64 few (by decide)

theorem ranged_zero : Ranged 0 0 := ⟨by decide, by decide, by decide, by decide⟩

theorem input_range {e : Event} (accepted : Accepted e) : Ranged (wheelInput e).1 (wheelInput e).2 := by
  have within := accepted_within accepted
  cases e with
  | wheel x y => exact within
  | _ => exact ranged_zero

theorem serves_next {mode : MouseMode} {inputs : List Event} {s : Calm.State} (h : Conserves mode inputs s)
    (next : Input) : Serves mode s.lease next.event where
  whole := by
    obtain ⟨lowX, highX, smallY⟩ := h.small
    obtain ⟨minX, maxX, rangeY⟩ := input_range next.accepted
    exact ⟨notches_tdiv ⟨lowX, highX⟩ ⟨minX, maxX⟩, notches_tdiv smallY rangeY⟩
  along := (step_serve s.lease next.event).along
  move x y is := by
    rw [is, ← h.mode]
    exact moved_serve s.lease x y

/-! The queue in front of the lease. -/

inductive Op where
  | line (l : Line)
  | pop

def lineStep (s : Side InputQueue Event) : Op → Side InputQueue Event
  | .line l =>
    match parseEvent l with
    | .error _ => s
    | .ok e =>
      match s.queue.put e with
      | (.ok (), queue) => { s with queue, accepted := s.accepted ++ [e] }
      | (.error _, queue) => { s with queue }
  | .pop => s.take s.queue.pop

def Adds (f : Event → Int × Int) : Prop :=
  ∀ back e m : Event, back.merge e = some m → f m = f back + f e

theorem adds_of {f : Event → Int × Int} (positions : ∀ x y, f (.absolute x y) = 0)
    (moves : ∀ x y x' y', f (.move (x + x') (y + y')) = f (.move x y) + f (.move x' y')) : Adds f := by
  intro back e m merge
  unfold Event.merge at merge
  split at merge
  next =>
    cases merge
    simp only [positions, zero_add]
  next =>
    split at merge
    next =>
      cases merge
      exact moves ..
    next => cases merge
  next => cases merge

theorem wheel_adds : Adds wheelInput := adds_of (fun _ _ => rfl) fun _ _ _ _ => rfl

theorem move_adds : Adds moveInput := adds_of (fun _ _ => rfl) fun _ _ _ _ => rfl

structure Holds (s : Side InputQueue Event) : Prop where
  popped : ∀ e ∈ s.popped, Accepted e
  items : ∀ e ∈ s.queue.items, Accepted e
  total : ∀ f, Adds f → (s.popped.map f).sum + (s.queue.items.map f).sum = (s.accepted.map f).sum

theorem holds_line {s : Side InputQueue Event} (h : Holds s) (l : Line) : Holds (lineStep s (.line l)) := by
  unfold lineStep
  dsimp only
  cases read : parseEvent l with
  | error _ => exact h
  | ok e =>
    dsimp only
    rw [inputQueue_put]
    cases put : push Event.merge s.queue.capacity s.queue.items e with
    | none => exact h
    | some items =>
      have new : Accepted e := .parsed read
      constructor
      · exact h.popped
      · exact push_forall (fun back m first merge => .merged first new merge) put new h.items
      · intro f adds
        have sum := push_sum (adds · e ·) put
        rw [List.map_append, List.sum_append, List.map_singleton, List.sum_singleton, ← h.total f adds, sum,
          add_assoc]

theorem holds_pop {s : Side InputQueue Event} (h : Holds s) : Holds (lineStep s .pop) := by
  unfold lineStep Side.take InputQueue.pop
  dsimp only
  cases held : s.queue.items with
  | nil => exact h
  | cons e items =>
    have accepted := h.items
    rw [held] at accepted
    obtain ⟨first, rest⟩ := List.forall_mem_cons.mp accepted
    constructor
    · exact List.forall_mem_append.mpr ⟨h.popped, List.forall_mem_singleton.mpr first⟩
    · exact rest
    · intro f adds
      have total := h.total f adds
      rw [held, List.map_cons, List.sum_cons] at total
      rw [List.map_append, List.sum_append, List.map_singleton, List.sum_singleton, ← total, add_assoc]

theorem holds_run (capacity : Nat) (ops : List Op) : Holds (run lineStep { queue := { capacity } } ops) := by
  induction ops using List.reverseRecOn with
  | nil => exact ⟨nofun, nofun, fun _ _ => rfl⟩
  | append_singleton ops op ih =>
    rw [run_concat]
    cases op with
    | line l => exact holds_line ih l
    | pop => exact holds_pop ih

/-- Nothing that is put in on either axis is lost or invented, and every byte fits. -/
theorem motion_conserved (mode : MouseMode) (stream : Bool) :
    (∀ inputs : List Input,
      let s := run Calm.step (Calm.fresh mode stream) (inputs.map Input.event)
      Conserves mode (inputs.map Input.event) s ∧ ∀ next : Input, Serves mode s.lease next.event) ∧
    (∀ (capacity : Nat) (ops : List Op),
      let q := run lineStep { queue := { capacity } } ops
      let s := run Calm.step (Calm.fresh mode stream) q.popped
      (∃ inputs : List Input, inputs.map Input.event = q.popped) ∧
      scaled 120 (s.sent.map wheelReport).sum + remainder s.lease + (q.queue.items.map wheelInput).sum =
        (q.accepted.map wheelInput).sum ∧
      (q.popped.map moveInput).sum + (q.queue.items.map moveInput).sum = (q.accepted.map moveInput).sum) ∧
    (∀ x y : Int, chunks x y = chunksWhile x y ∧
      (chunks x y).length = (max x.natAbs y.natAbs + 126) / 127 ∧ ∀ p ∈ chunks x y, p ≠ (0, 0)) := by
  refine ⟨?_, ?_, ?_⟩
  · intro inputs s
    have conserves := conserves_run mode stream (inputs.map Input.event)
    exact ⟨conserves, serves_next conserves⟩
  · intro capacity ops q s
    have holds := holds_run capacity ops
    have conserves := conserves_run mode stream q.popped
    refine ⟨?_, ?_, holds.total moveInput move_adds⟩
    · exact ⟨q.popped.attach.map fun e => ⟨e.1, holds.popped e.1 e.2⟩, by simp⟩
    · rw [conserves.total]
      exact holds.total wheelInput wheel_adds
  · intro x y
    rw [chunks_while]
    refine ⟨rfl, chunksWhile_length x y, ?_⟩
    intro p member
    exact (chunksWhile_piece x y p member).2.2

/-- A fraction of a notch is kept, and adds up in either direction. -/
example : (run Calm.step (Calm.fresh .relative true) [.wheel (-100) 30, .wheel (-50) 95]).sent = [.wheel (-1) 1] := by
  decide

end Hid.Motion

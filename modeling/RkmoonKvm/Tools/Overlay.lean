import Mathlib.Logic.Function.Basic
import RkmoonKvm.Library.Fallible

/-! How `apply_sunshine` and `apply_moonlight` write an overlay into a checkout, and what they
leave of it when a step raises. -/
namespace Tools.Overlay
open Fallible

abbrev Text := List Char

abbrev Tree := String → Option Text

/-- What text mode reads: every line ends with a line feed. -/
def readText : Text → Text
  | [] => []
  | [c] => [if c = '\r' then '\n' else c]
  | c :: d :: t =>
    if c = '\r' then (if d = '\n' then '\n' :: readText t else '\n' :: readText (d :: t))
    else c :: readText (d :: t)

/-- What text mode writes, with the line ends of the system. -/
def written (linesep s : Text) : Text := s.flatMap fun c => if c = '\n' then linesep else [c]

inductive Raised where
  /-- By a check, before anything is written. -/
  | refused
  | failed
  deriving DecidableEq

/-- The system, the changes, and which steps raise. -/
structure World where
  linesep : Text
  makeChanges : (String → Text) → Option (String → Text)
  /-- Writing the temporary of a file raises, and this is left of it. -/
  writeFault : String → Option (Option Text)
  /-- `os.replace` raises; an interrupt may come behind it. -/
  replaceFault : String → Option Bool
  /-- The files of the payload. -/
  payload : List (String × Text)
  /-- Moving it raises, and this is in its place. -/
  moveFault : Option (List (String × Text))

def temporary (p : String) : String := p ++ ".rkmoon-new"

def moved (q : String) : Bool := "src/rkmoon/".toList.isPrefixOf q.toList

def place (t : Tree) (files : List (String × Text)) : Tree :=
  files.foldl (fun t p => Function.update t ("src/rkmoon/" ++ p.1) (some p.2)) t

namespace World
variable (w : World)

def writeNew (changes : String → Text) (p : String) : Fallible Tree Raised Unit where
  run t :=
    match w.writeFault p with
    | none => (.ok (), Function.update t (temporary p) (some (written w.linesep (changes p))))
    | some none => (.error .failed, t)
    | some (some left) => (.error .failed, Function.update t (temporary p) (some left))

def replace (p : String) : Fallible Tree Raised Unit where
  run t :=
    let t' : Tree := Function.update (Function.update t p (t (temporary p))) (temporary p) none
    match w.replaceFault p with
    | none => (.ok (), t')
    | some done => (.error .failed, if done then t' else t)

def movePayload : Fallible Tree Raised Unit where
  run t :=
    match w.moveFault with
    | none => (.ok (), place t w.payload)
    | some placed => (.error .failed, place t placed)

def change (changes : String → Text) (p : String) : Fallible Tree Raised Unit := do
  w.writeNew changes p
  w.replace p

def restore (original : String → Text) (p : String) : Fallible Tree Raised Unit :=
  update fun t => Function.update t p (some (written w.linesep (original p)))

def planned (original : String → Text) : Fallible Tree Raised (String → Text) :=
  match w.makeChanges original with
  | some changes => pure changes
  | none => fail .refused

end World

def rmtree : Fallible Tree Raised Unit := update fun t q => if moved q then none else t q

def sunshineFiles : List String :=
  ["src/video.h", "src/rtsp.h", "src/video.cpp", "src/input.cpp",
    "src/platform/virtualhid_input.cpp", "src/platform/linux/misc.cpp", "src/audio.cpp",
    "src/httpcommon.cpp", "src/nvhttp.cpp", "src/nvhttp.h", "src/rtsp.cpp", "src/stream.cpp",
    "src/thread_safe.h", "cmake/compile_definitions/linux.cmake", "cmake/targets/common.cmake",
    "CMakeLists.txt"]

def moonlightFiles : List String :=
  ["app/settings/streamingpreferences.h", "app/streaming/input/input.h",
    "app/settings/streamingpreferences.cpp", "app/streaming/input/input.cpp",
    "app/streaming/input/keyboard.cpp", "app/streaming/input/mouse.cpp",
    "app/streaming/input/abstouch.cpp", "app/streaming/audio/audio.cpp",
    "app/streaming/session.cpp", "app/backend/nvhttp.cpp",
    "moonlight-common-c/moonlight-common-c/src/Connection.c"]

def texts (t : Tree) (p : String) : Text := readText ((t p).getD [])

/-- `apply_sunshine --apply`, behind what it asks of git and whether there is an overlay. The
payload is staged beside the checkout. -/
def sunshine (w : World) : Fallible Tree Raised Unit := do
  let present ← reads fun t => sunshineFiles.all fun p => (t p).isSome
  demand (present = true) .refused
  let original ← reads texts
  let changes ← w.planned original
  rescue (do
    each (w.change changes) sunshineFiles
    w.movePayload) fun e => do
      each (w.restore original) sunshineFiles
      rmtree
      fail e

/-- `apply_moonlight --apply`; `head` has the files as git shows them. -/
def moonlight (head : String → Text) (w : World) : Fallible Tree Raised Unit := do
  let changes ← w.planned head
  let same ← reads fun t => moonlightFiles.all fun p => (t p).isSome && texts t p = head p
  demand (same = true) .refused
  rescue (each (w.change changes) moonlightFiles) fun e => do
    each (w.restore head) moonlightFiles
    fail e

/-! What the loop over the files leaves when a step raises. -/

/-- Neither a temporary file nor one that the rollback removes is among the files. -/
structure Separate (files : List String) (hidden : String → Bool) : Prop where
  apart : ∀ p ∈ files, ∀ q ∈ files, temporary p ≠ q
  shown : ∀ p ∈ files, hidden p = false ∧ hidden (temporary p) = false

/-- A clean checkout: the files are there, and neither a temporary nor an overlay is. -/
structure Clean (files : List String) (hidden : String → Bool) (t : Tree) : Prop where
  present : ∀ p ∈ files, (t p).isSome
  untracked : ∀ p ∈ files, t (temporary p) = none
  fresh : ∀ q, hidden q → t q = none

/-- The trees are the same, but for the files and for what the rollback removes. -/
def Outside (files : List String) (hidden : String → Bool) (t₀ t : Tree) : Prop :=
  ∀ q, q ∉ files → hidden q = false → t q = t₀ q

def World.Faultless (w : World) (p : String) : Prop :=
  w.writeFault p = none ∧ w.replaceFault p = none

/-- A step of the file that raises leaves no temporary: it was not created, or is replaced. -/
def World.TidyAt (w : World) (p : String) : Prop :=
  match w.writeFault p, w.replaceFault p with
  | some left, _ => left = none
  | none, some done => done = true
  | none, none => True

def World.Tidy (w : World) : List String → Prop
  | [] => True
  | p :: ps => w.TidyAt p ∧ (w.Faultless p → w.Tidy ps)

variable {w : World} {files : List String} {hidden : String → Bool} {t₀ t : Tree} {p : String}
  {original : String → Text}

theorem outside_temporary (separate : Separate files hidden) (member : p ∈ files)
    (out : Outside files hidden t₀ t) (v : Option Text) :
    Outside files hidden t₀ (Function.update t (temporary p) v) ↔ v = t₀ (temporary p) := by
  constructor
  · intro same
    have at' := same (temporary p) (fun inside => separate.apart p member _ inside rfl)
      (separate.shown p member).2
    rwa [Function.update_self] at at'
  · rintro rfl q outside shown
    by_cases same : q = temporary p
    · rw [same, Function.update_self]
    · rw [Function.update_of_ne same]
      exact out q outside shown

theorem outside_file (member : p ∈ files) (out : Outside files hidden t₀ t) (v : Option Text) :
    Outside files hidden t₀ (Function.update t p v) := by
  intro q outside shown
  have other : q ≠ p := fun same => outside (same ▸ member)
  rw [Function.update_of_ne other]
  exact out q outside shown

theorem update_replaced (apart : temporary p ≠ p) (t : Tree) (c : Option Text) :
    Function.update (Function.update (Function.update t (temporary p) c) p
      (Function.update t (temporary p) c (temporary p))) (temporary p) none =
    Function.update (Function.update t p c) (temporary p) none := by
  rw [Function.update_self, Function.update_comm apart, Function.update_idem]

theorem outside_replaced (separate : Separate files hidden) (clean : Clean files hidden t₀)
    (member : p ∈ files) (out : Outside files hidden t₀ t) (c : Option Text) :
    Outside files hidden t₀ (Function.update (Function.update t p c) (temporary p) none) :=
  (outside_temporary separate member (outside_file member out c) none).mpr
    (clean.untracked p member).symm

theorem change_run (changes : String → Text) (separate : Separate files hidden)
    (clean : Clean files hidden t₀) (member : p ∈ files)
    (out : Outside files hidden t₀ t) :
    (∃ t', (w.change changes p).run t = (.ok (), t') ∧ Outside files hidden t₀ t' ∧
      w.Faultless p ∧ w.TidyAt p) ∨
    ∃ t', (w.change changes p).run t = (.error .failed, t') ∧ ¬ w.Faultless p ∧
      (Outside files hidden t₀ t' ↔ w.TidyAt p) := by
  have untracked := outside_temporary separate member out
  cases writeFault : w.writeFault p with
  | some left =>
    have faulty : ¬ w.Faultless p := fun ⟨unraised, _⟩ => by simp [writeFault] at unraised
    have tidy : w.TidyAt p ↔ left = none := by simp [World.TidyAt, writeFault]
    cases left with
    | none =>
      have raised : (w.writeNew changes p).run t = (.error .failed, t) := by
        simp only [World.writeNew, writeFault]
      exact Or.inr ⟨t, bind_error raised, faulty, iff_of_true out (tidy.mpr rfl)⟩
    | some c =>
      have raised : (w.writeNew changes p).run t =
          (.error .failed, Function.update t (temporary p) (some c)) := by
        simp only [World.writeNew, writeFault]
      refine Or.inr ⟨_, bind_error raised, faulty, ?_⟩
      rw [untracked, clean.untracked p member, tidy]
  | none =>
    let c := some (written w.linesep (changes p))
    have wrote : (w.writeNew changes p).run t = (.ok (), Function.update t (temporary p) c) := by
      simp only [World.writeNew, writeFault, c]
    have replaced := update_replaced (separate.apart p member p member) t c
    have out' := outside_replaced separate clean member out c
    cases replaceFault : w.replaceFault p with
    | none =>
      have ran : (w.replace p).run (Function.update t (temporary p) c) =
          (.ok (), Function.update (Function.update t p c) (temporary p) none) := by
        simp only [World.replace, replaceFault, replaced]
      have tidy : w.TidyAt p := by simp [World.TidyAt, writeFault, replaceFault]
      exact Or.inl ⟨_, (bind_ok wrote).trans ran, out', ⟨writeFault, replaceFault⟩, tidy⟩
    | some done =>
      have faulty : ¬ w.Faultless p := fun ⟨_, unraised⟩ => by simp [replaceFault] at unraised
      have tidy : w.TidyAt p ↔ done = true := by simp [World.TidyAt, writeFault, replaceFault]
      cases done with
      | true =>
        have raised : (w.replace p).run (Function.update t (temporary p) c) =
            (.error .failed, Function.update (Function.update t p c) (temporary p) none) := by
          simp only [World.replace, replaceFault, replaced, if_true]
        exact Or.inr ⟨_, (bind_ok wrote).trans raised, faulty, iff_of_true out' (tidy.mpr rfl)⟩
      | false =>
        have raised : (w.replace p).run (Function.update t (temporary p) c) =
            (.error .failed, Function.update t (temporary p) c) := by
          simp [World.replace, replaceFault]
        refine Or.inr ⟨_, (bind_ok wrote).trans raised, faulty, ?_⟩
        rw [untracked, clean.untracked p member, tidy]
        simp [c]

theorem changes_run (changes : String → Text) (separate : Separate files hidden)
    (clean : Clean files hidden t₀) {ps : List String} (inside : ∀ p ∈ ps, p ∈ files)
    (out : Outside files hidden t₀ t) :
    (∃ t', (each (w.change changes) ps).run t = (.ok (), t') ∧ Outside files hidden t₀ t' ∧
      w.Tidy ps) ∨
    ∃ t', (each (w.change changes) ps).run t = (.error .failed, t') ∧
      (Outside files hidden t₀ t' ↔ w.Tidy ps) := by
  induction ps generalizing t with
  | nil => exact Or.inl ⟨t, rfl, out, trivial⟩
  | cons p ps ih =>
    obtain ⟨first, rest⟩ := List.forall_mem_cons.mp inside
    rcases change_run changes separate clean first out with
      ⟨t₁, ran, out₁, faultless, tidy⟩ | ⟨t₁, raised, faulty, iff⟩
    · have tail : w.Tidy (p :: ps) ↔ w.Tidy ps :=
        ⟨fun ⟨_, all⟩ => all faultless, fun all => ⟨tidy, fun _ => all⟩⟩
      rw [each, bind_ok ran, tail]
      exact ih rest out₁
    · have head : w.Tidy (p :: ps) ↔ w.TidyAt p :=
        ⟨And.left, fun tidy => ⟨tidy, fun faultless => absurd faultless faulty⟩⟩
      rw [each, bind_error raised, head]
      exact Or.inr ⟨t₁, rfl, iff⟩

/-! The rollback. -/

theorem restore_run (ps : List String) (t : Tree) : (each (w.restore original) ps).run t =
    (.ok (), fun q => if q ∈ ps then some (written w.linesep (original q)) else t q) := by
  induction ps generalizing t with
  | nil => simp [each]
  | cons p ps ih =>
    rw [each, World.restore, update_bind, ih]
    congr 1
    funext q
    by_cases inside : q ∈ ps
    · simp [inside]
    · by_cases same : q = p
      · subst same
        simp [inside]
      · simp [inside, same, Function.update_of_ne]

theorem written_posix (s : Text) : written ['\n'] s = s := by
  induction s with
  | nil => rfl
  | cons c s ih =>
    rw [written, List.flatMap_cons, ← written, ih]
    by_cases feed : c = '\n'
    · rw [if_pos feed, feed]
      rfl
    · rw [if_neg feed]
      rfl

theorem readText_unreturned (c : Text) : '\r' ∉ readText c := by
  induction c using readText.induct with
  | case1 => simp [readText]
  | case2 c =>
    by_cases returned : c = '\r'
    · simp [readText, returned]
    · simpa [readText, returned] using Ne.symm returned
  | case3 t ih => simpa [readText] using ih
  | case4 d t other ih => simpa [readText, other] using ih
  | case5 c d t other ih => simpa [readText, other] using ⟨Ne.symm other, ih⟩

theorem readText_same {c : Text} (unreturned : '\r' ∉ c) : readText c = c := by
  induction c using readText.induct with
  | case1 => rfl
  | case2 c =>
    have other : c ≠ '\r' := fun same => unreturned (by simp [same])
    simp [readText, other]
  | case3 t ih => exact absurd List.mem_cons_self unreturned
  | case4 d t _ ih => exact absurd List.mem_cons_self unreturned
  | case5 c d t other ih =>
    rw [readText, if_neg other, ih fun member => unreturned (List.mem_cons_of_mem c member)]

def Kept (linesep : Text) (files : List String) (t : Tree) : Prop :=
  ∀ p ∈ files, ∀ c, t p = some c → written linesep (readText c) = c

theorem kept_posix : Kept ['\n'] files t ↔ ∀ p ∈ files, ∀ c, t p = some c → '\r' ∉ c := by
  have same (c : Text) : written ['\n'] (readText c) = c ↔ '\r' ∉ c := by
    rw [written_posix]
    exact ⟨fun same => same ▸ readText_unreturned c, readText_same⟩
  simp only [Kept, same]

theorem restored_iff (separate : Separate files hidden) (clean : Clean files hidden t₀)
    (linesep : Text) (t : Tree) :
    (fun q => if hidden q then none
      else if q ∈ files then some (written linesep (texts t₀ q)) else t q) = t₀ ↔
    Outside files hidden t₀ t ∧ Kept linesep files t₀ := by
  constructor
  · intro same
    constructor
    · intro q outside shown
      have at' := congrFun same q
      simpa [outside, shown] using at'
    · intro p member c found
      have at' := congrFun same p
      simpa [member, (separate.shown p member).1, texts, found] using at'
  · rintro ⟨out, kept⟩
    funext q
    cases shown : hidden q with
    | true => simp [clean.fresh q shown]
    | false =>
      by_cases inside : q ∈ files
      · obtain ⟨c, found⟩ := Option.isSome_iff_exists.mp (clean.present q inside)
        simp [inside, texts, found, kept q inside c found]
      · simp [inside, out q inside shown]

theorem moved_overlay (name : String) : moved ("src/rkmoon/" ++ name) = true := by
  rw [moved, String.toList_append]
  exact List.isPrefixOf_iff_prefix.mpr (List.prefix_append _ _)

theorem outside_place (placed : List (String × Text)) (out : Outside files moved t₀ t) :
    Outside files moved t₀ (place t placed) := by
  induction placed generalizing t with
  | nil => exact out
  | cons f placed ih =>
    refine ih fun q outside shown => ?_
    have other : q ≠ "src/rkmoon/" ++ f.1 := by
      rintro rfl
      rw [moved_overlay] at shown
      cases shown
    exact (Function.update_of_ne other _ _).trans (out q outside shown)

theorem sunshine_separate : Separate sunshineFiles moved where
  apart := by decide +kernel
  shown := by decide +kernel

theorem moonlight_separate : Separate moonlightFiles fun _ => false where
  apart := by decide +kernel
  shown := by simp

theorem planned_bind {f : (String → Text) → Fallible Tree Raised Unit}
    (raised : (w.planned original >>= f).run t₀ = (.error .failed, t)) :
    ∃ changes, (f changes).run t₀ = (.error .failed, t) := by
  unfold World.planned at raised
  cases plan : w.makeChanges original with
  | none =>
    rw [plan] at raised
    cases raised
  | some changes =>
    rw [plan] at raised
    exact ⟨changes, raised⟩

theorem sunshine_raised {changes : String → Text} {e : Raised}
    (clean : Clean sunshineFiles moved t₀)
    (raised : (do each (w.change changes) sunshineFiles; w.movePayload).run t₀ = (.error e, t)) :
    Outside sunshineFiles moved t₀ t ↔ w.Tidy sunshineFiles := by
  have same : Outside sunshineFiles moved t₀ t₀ := fun _ _ _ => rfl
  rcases changes_run changes sunshine_separate clean (fun _ => id) same with
    ⟨t', ran, out, tidy⟩ | ⟨t', failed, iff⟩
  · rw [bind_ok ran, World.movePayload] at raised
    cases moveFault : w.moveFault with
    | none => simp [moveFault] at raised
    | some placed =>
      simp only [moveFault, Prod.mk.injEq] at raised
      obtain ⟨_, rfl⟩ := raised
      exact iff_of_true (outside_place placed out) tidy
  · rw [bind_error failed] at raised
    cases raised
    exact iff

theorem sunshine_failed (clean : Clean sunshineFiles moved t₀)
    (raised : (sunshine w).run t₀ = (.error .failed, t)) :
    t = t₀ ↔ w.Tidy sunshineFiles ∧ Kept w.linesep sunshineFiles t₀ := by
  have present : (sunshineFiles.all fun p => (t₀ p).isSome) = true :=
    List.all_eq_true.mpr clean.present
  rw [sunshine, reads_bind, demand_true present, pure_bind, reads_bind] at raised
  obtain ⟨changes, raised⟩ := planned_bind raised
  cases phase : (do each (w.change changes) sunshineFiles; w.movePayload).run t₀ with
  | mk r t' =>
    cases r with
    | ok u =>
      rw [rescue_ok phase] at raised
      cases raised
    | error e =>
      rw [rescue_error phase, bind_ok (restore_run sunshineFiles t'), rmtree, update_bind] at raised
      cases raised
      rw [← sunshine_raised clean phase]
      exact restored_iff sunshine_separate clean w.linesep t'

theorem moonlight_failed {head : String → Text} (clean : Clean moonlightFiles (fun _ => false) t₀)
    (raised : (moonlight head w).run t₀ = (.error .failed, t)) :
    t = t₀ ↔ w.Tidy moonlightFiles ∧ Kept w.linesep moonlightFiles t₀ := by
  obtain ⟨changes, raised⟩ := planned_bind raised
  rw [reads_bind] at raised
  by_cases same : (moonlightFiles.all fun p => (t₀ p).isSome && texts t₀ p = head p) = true
  · rw [demand_true same, pure_bind] at raised
    have start : Outside moonlightFiles (fun _ => false) t₀ t₀ := fun _ _ _ => rfl
    rcases changes_run changes moonlight_separate clean (fun _ => id) start with
      ⟨t', ran, _⟩ | ⟨t', failed, iff⟩
    · rw [rescue_ok ran] at raised
      cases raised
    · rw [rescue_error failed, bind_ok (restore_run moonlightFiles t')] at raised
      cases raised
      have read : ∀ p ∈ moonlightFiles, texts t₀ p = head p := fun p member =>
        of_decide_eq_true (Bool.and_eq_true_iff.mp (List.all_eq_true.mp same p member)).2
      have final :
          (fun q => if q ∈ moonlightFiles then some (written w.linesep (head q)) else t' q) =
          fun q => if (fun _ => false) q = true then none
            else if q ∈ moonlightFiles then some (written w.linesep (texts t₀ q)) else t' q := by
        funext q
        by_cases inside : q ∈ moonlightFiles
        · simp [inside, read q inside]
        · simp [inside]
      rw [final, ← iff]
      exact restored_iff moonlight_separate clean w.linesep t'
  · rw [demand_false same] at raised
    cases raised

/-- A failed write phase leaves the checkout as it was exactly if the step that raised left no
temporary and text mode gives every file back. -/
theorem overlay_rolledBack (w : World) :
    (∀ t₀ t, Clean sunshineFiles moved t₀ → (sunshine w).run t₀ = (.error .failed, t) →
      (t = t₀ ↔ w.Tidy sunshineFiles ∧ Kept w.linesep sunshineFiles t₀)) ∧
    ∀ head t₀ t, Clean moonlightFiles (fun _ => false) t₀ →
      (moonlight head w).run t₀ = (.error .failed, t) →
      (t = t₀ ↔ w.Tidy moonlightFiles ∧ Kept w.linesep moonlightFiles t₀) :=
  ⟨fun _ _ clean raised => sunshine_failed clean raised,
    fun _ _ _ clean raised => moonlight_failed clean raised⟩

def checkout (files : List String) : Tree := fun q => if q ∈ files then some ['x', '\n'] else none

theorem checkout_clean (separate : Separate files hidden) :
    Clean files hidden (checkout files) where
  present p member := by simp [checkout, member]
  untracked p member := if_neg fun inside => separate.apart p member _ inside rfl
  fresh q shown := if_neg fun inside => by simp [(separate.shown q inside).1] at shown

def replaceFails (q : String) : World where
  linesep := ['\n']
  makeChanges original := some fun p => 'y' :: original p
  writeFault _ := none
  replaceFault p := if p = q then some false else none
  payload := []
  moveFault := none

theorem temporaries_left :
    (Clean sunshineFiles moved (checkout sunshineFiles) ∧
      ∃ t, (sunshine (replaceFails "src/rtsp.h")).run (checkout sunshineFiles) =
          (.error .failed, t) ∧
        t "src/rtsp.h.rkmoon-new" = some ['y', 'x', '\n'] ∧ t ≠ checkout sunshineFiles) ∧
    Clean moonlightFiles (fun _ => false) (checkout moonlightFiles) ∧
      ∃ t, (moonlight (fun _ => ['x', '\n']) (replaceFails "app/streaming/session.cpp")).run
          (checkout moonlightFiles) = (.error .failed, t) ∧
        t "app/streaming/session.cpp.rkmoon-new" = some ['y', 'x', '\n'] ∧
        t ≠ checkout moonlightFiles := by
  have differ {t t' : Tree} {c : Text} (q : String) (there : t q = some c) (absent : t' q = none) :
      t ≠ t' := by
    rintro rfl
    rw [absent] at there
    cases there
  refine ⟨⟨checkout_clean sunshine_separate, _, rfl, ?_, ?_⟩,
    checkout_clean moonlight_separate, _, rfl, ?_, ?_⟩
  · decide +kernel
  · exact differ "src/rtsp.h.rkmoon-new" (c := ['y', 'x', '\n']) (by decide +kernel)
      (by decide +kernel)
  · decide +kernel
  · exact differ "app/streaming/session.cpp.rkmoon-new" (c := ['y', 'x', '\n'])
      (by decide +kernel) (by decide +kernel)

def moveFails : World := { replaceFails "" with moveFault := some [("core.cpp", ['z'])] }

theorem moved_rolledBack :
    (((sunshine moveFails).run (checkout sunshineFiles)).2 = checkout sunshineFiles ↔
      moveFails.Tidy sunshineFiles ∧ Kept ['\n'] sunshineFiles (checkout sunshineFiles)) ∧
    (((moonlight (fun _ => ['x', '\n']) (replaceFails "app/streaming/session.cpp")).run
        (checkout moonlightFiles)).2 = checkout moonlightFiles ↔
      (replaceFails "app/streaming/session.cpp").Tidy moonlightFiles ∧
        Kept ['\n'] moonlightFiles (checkout moonlightFiles)) :=
  ⟨(overlay_rolledBack moveFails).1 _ _ (checkout_clean sunshine_separate) rfl,
    (overlay_rolledBack (replaceFails "app/streaming/session.cpp")).2 (fun _ => ['x', '\n']) _ _
      (checkout_clean moonlight_separate) rfl⟩

end Tools.Overlay

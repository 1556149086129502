import Mathlib.Logic.Function.Basic
import RkmoonKvm.Library.JsonText
import RkmoonKvm.Library.Runs
import RkmoonKvm.Tools.Document
import RkmoonKvm.Tools.Overlay

/-! The installer of the server: releases side by side, the link to the active one, and what a run leaves that an
error or a signal cuts anywhere. The link only ever leads to a release that was verified, and every release that was
active can be activated again. -/
namespace Tools.Release
open Runs

abbrev Bytes := List UInt8

/-! Paths. -/

def Component (s : String) : Prop := s ∉ ["", ".", ".."] ∧ '/' ∉ s.toList ∧ '\x00' ∉ s.toList

instance (s : String) : Decidable (Component s) := inferInstanceAs (Decidable (_ ∧ _))

/-- The parts that `pathlib` keeps. -/
def parts (path : String) : List (List Char) := (path.toList.splitOn '/').filter fun part => part ∉ [[], ['.']]

/-- The path as it is joined to a directory, where it is `Relative`. -/
def joined (path : String) : String := String.ofList (['/'].intercalate (parts path))

/-- The path leads up nowhere and does not start at the root. -/
def Relative (path : String) : Prop :=
  path.toList.head? ≠ some '/' ∧ ['.', '.'] ∉ parts path ∧ '\x00' ∉ path.toList

instance (path : String) : Decidable (Relative path) := inferInstanceAs (Decidable (_ ∧ _))

abbrev Tree := String → Option Bytes

inductive Place where
  | release (version name : String)
  | config
  | identity
  | unit (name : String)
  deriving DecidableEq

structure Disk where
  /-- The directories in `releases`. -/
  directories : String → Bool := fun _ => false
  files : Place → Option Bytes := fun _ => none
  /-- Where the links `current.new` and `current` lead. -/
  fresh : Option String := none
  current : Option String := none

def Disk.tree (d : Disk) (version : String) : Tree := fun name => d.files (.release version name)

/-! Text files, in UTF-8. -/

def textBytes (t : List Char) : Bytes := t.flatMap String.utf8EncodeChar

def readText (b : Bytes) : Option (List Char) :=
  (String.fromUTF8? ⟨b.toArray⟩).map fun s => Overlay.readText s.toList

/-! `verify`. -/

def fields : Json.Value → Option (List (List Nat × Json.Value))
  | .object fields => some fields
  | _ => none

def nameOf (s : List Nat) : String := String.ofList (s.map Char.ofNat)

/-- Of a name that comes again the last value counts. -/
def item (fields : List (List Nat × Json.Value)) (key : List Nat) : Option Json.Value := fields.reverse.lookup key

def manifestOf (t : Tree) : Option (List (List Nat × Json.Value)) :=
  ((t "MANIFEST.json").bind readText).bind fun t => (Json.loads t).bind fields

section verify
variable (sha256 : Bytes → String)

def matching (t : Tree) (files : List (List Nat × Json.Value)) (name : List Nat) : Except String Unit :=
  match t (joined (nameOf name)) with
  | none => throw "FileNotFoundError"
  | some b =>
    match item files name with
    | some (.string digest) =>
      if digest = text (sha256 b) then pure () else throw ("checksum mismatch: " ++ nameOf name)
    | _ => throw ("checksum mismatch: " ++ nameOf name)

def verify (t : Tree) : Except String Json.Value :=
  match manifestOf t with
  | none => throw "invalid manifest"
  | some manifest =>
    match (item manifest (text "files")).bind fields with
    | none => throw "invalid manifest"
    | some files => do
      files.forM fun f => matching sha256 t files f.1
      match item manifest (text "version") with
      | some version => pure version
      | none => throw "invalid manifest"

/-! A run. -/

inductive Effect where
  | directory (version : String)
  | create (p : Place)
  | append (p : Place) (b : UInt8)
  | unlink
  | link (version : String)
  | replace

def perform (d : Disk) : Effect → Disk
  | .directory version => { d with directories := Function.update d.directories version true }
  | .create p => { d with files := Function.update d.files p (some []) }
  | .append p b => { d with files := Function.update d.files p ((d.files p).map (· ++ [b])) }
  | .unlink => { d with fresh := none }
  | .link version => { d with fresh := some version }
  | .replace => { d with fresh := none, current := d.fresh }

def write (p : Place) (b : Bytes) : List Effect := .create p :: b.map (.append p)

abbrev Listing := List (String × Bytes)

def Listing.tree (l : Listing) : Tree := l.foldl (fun t f => Function.update t f.1 (some f.2)) fun _ => none

/-- `copytree`. Where the copying of a file fails, some of its effects are missing, and the others are copied all
the same. -/
def copy (torn : String → Option Nat) (version : String) (l : Listing) : List Effect :=
  .directory version :: l.flatMap fun f =>
    (torn f.1).elim (write (.release version f.1) f.2) (write (.release version f.1) f.2).take

/-- The manifest names one version, and no file outside of the release. -/
def Portable (t : Tree) : Prop := ∀ manifest ∈ manifestOf t,
  (∀ version, item manifest (text "version") = some (.string version) → Component (nameOf version)) ∧
  ∀ files ∈ (item manifest (text "files")).bind fields, ∀ f ∈ files, Relative (nameOf f.1)

structure Bundle where
  files : Listing
  paths : ∀ f ∈ files, Relative f.1 ∧ joined f.1 = f.1
  portable : Portable files.tree

structure Args where
  release : Option Bundle := none
  activate : Option { version : String // Component version } := none
  user : List Char
  /-- With `--migrate-state`, the old state file if there is one. -/
  migrate : Option Bytes := none

/-- The version that is going to be active, with the files to be copied if it is not there. -/
def chosen (d : Disk) (a : Args) : Option (String × Option Listing) :=
  match a.release with
  | some b =>
    match verify sha256 b.files.tree with
    | .ok (.string version) =>
      some (nameOf version, if d.directories (nameOf version) then none else some b.files)
    | _ => none
  | none => a.activate.map fun version => (version.val, none)

def activate (version : String) : List Effect := [.unlink, .link version, .replace]

def order : List String := ["rkmoon-hdmirx-audio.service", "rkmoon-edid.service", "rkmoon.service"]

def forUser (user : List Char) : List Char → List Char
  | '@' :: 'U' :: 'S' :: 'E' :: 'R' :: '@' :: t => user ++ forUser user t
  | c :: t => c :: forUser user t
  | [] => []

def unitText (user : List Char) (t : Tree) (name : String) : Option Bytes :=
  ((t ("systemd/" ++ name)).bind readText).map fun t => textBytes (forUser user t)

/-- The units one after the other, up to one that cannot be read. -/
def installUnits (user : List Char) (t : Tree) : List String → List Effect
  | [] => []
  | name :: names =>
    match unitText user t name with
    | none => []
    | some b => write (.unit name) b ++ installUnits user t names

def once (d : Disk) (p : Place) (b : Bytes) : List Effect := if (d.files p).isNone then write p b else []

/-- `runtime_config`, of which the user is no part. -/
def runtimeConfig : Json.Value :=
  .object [(text "schema", .int 1),
    (text "sunshine_binary", .string (text "/opt/rkmoon/current/bin/rkmoon-kvm")),
    (text "worker_binary", .string (text "/opt/rkmoon/current/bin/rkmoon-worker")),
    (text "state_directory", .string (text "/var/lib/rkmoon")),
    (text "capture_device", .string (text "/dev/video0")),
    (text "capture_ownership_authorized", .bool true),
    (text "allow_cpu_pixel_copy", .bool true),
    (text "allow_high_resolution", .bool true),
    (text "audio", .object [(text "enabled", .bool true),
      (text "alsa_device", .string (text "hw:CARD=rockchiphdmiin,DEV=0"))]),
    (text "input", .object [(text "enabled", .bool true), (text "exclusive_hid_authorized", .bool true),
      (text "kvmd_socket", .string (text "/run/rkmoon-input/kvmd.sock")), (text "auth_headers_file", .null)]),
    (text "allow_1440p90_experiment", .bool true),
    (text "allow_absolute_mouse", .bool true)]

def configText : Bytes := textBytes (Json.dumps runtimeConfig ++ ['\n'])

/-- Behind the copying: what a run does with the version that it has now verified. -/
def switch (d : Disk) (a : Args) (version : String) : List Effect :=
  match verify sha256 (d.tree version) with
  | .error _ => []
  | .ok _ =>
    if d.directories version then
      activate version ++ once d .config configText ++ (a.migrate.elim [] (once d .identity)) ++
        installUnits a.user (d.tree version) order
    else []

def copying (torn : String → Option Nat) (version : String) (files : Option Listing) : List Effect :=
  files.elim [] (copy torn version)

/-- `main`, up to the commands of systemd. A copying with errors is its end. -/
def effects (d : Disk) (a : Args) (torn : String → Option Nat) : List Effect :=
  match chosen sha256 d a with
  | none => []
  | some (version, files) =>
    copying torn version files ++
      if files.all fun l => l.all fun f => (torn f.1).isNone then
        switch sha256 ((copying torn version files).foldl perform d) a version
      else []

/-- A run that an error or a signal cuts behind some of its effects; files of which the copying fails. -/
structure Label where
  args : Args
  torn : String → Option Nat := fun _ => none
  upTo : Nat

def step (d : Disk) (l : Label) : Disk := ((effects sha256 d l.args l.torn).take l.upTo).foldl perform d

def complete (d : Disk) (a : Args) : Disk := (effects sha256 d a fun _ => none).foldl perform d

end verify

/-! What is written is read. -/

theorem fromUTF8_textBytes (t : List Char) : String.fromUTF8? ⟨(textBytes t).toArray⟩ = some (String.ofList t) := by
  have same : (⟨(textBytes t).toArray⟩ : ByteArray) = (String.ofList t).toByteArray := by
    apply ByteArray.ext
    rw [String.toByteArray_ofList, List.utf8Encode, List.data_toByteArray, textBytes]
  rw [same]
  exact dif_pos (String.ofList t).isValidUTF8

theorem readText_textBytes {t : List Char} (unreturned : '\r' ∉ t) : readText (textBytes t) = some t := by
  rw [readText, fromUTF8_textBytes, Option.map_some, String.toList_ofList, Overlay.readText_same unreturned]

theorem loads_written {v : Json.Value} (plain : Json.Plain v) :
    (readText (textBytes (Json.dumps v ++ ['\n']))).bind Json.loads = some v := by
  have unreturned : '\r' ∉ Json.dumps v ++ ['\n'] := by
    intro member
    rcases List.mem_append.mp member with inside | last
    · rcases Json.sheet_written plain 0 '\r' inside with feed | printed
      · exact absurd feed (by decide)
      · exact absurd printed (by decide)
    · exact absurd last (by decide)
  rw [readText_textBytes unreturned, Option.bind_some]
  exact Json.loads_dumps plain rfl (List.cons_ne_nil _ _)

theorem nameOf_text (s : String) : nameOf (text s) = s := by
  simp [nameOf, text, Function.comp_def]

section manifest
variable {sha256 : Bytes → String} {t : Tree}

theorem forM_ok {A : Type} {check : A → Except String Unit} {as : List A} (each : ∀ a ∈ as, check a = .ok ()) :
    as.forM check = .ok () := by
  induction as with
  | nil => rfl
  | cons a as ih =>
    obtain ⟨first, rest⟩ := List.forall_mem_cons.mp each
    show (check a >>= fun _ => as.forM check) = .ok ()
    rw [first]
    exact ih rest

theorem manifestOf_written {manifest : List (List Nat × Json.Value)} (plain : Json.Plain (.object manifest))
    (file : t "MANIFEST.json" = some (textBytes (Json.dumps (.object manifest) ++ ['\n']))) :
    manifestOf t = some manifest := by
  rw [manifestOf, file, Option.bind_some, ← Option.bind_assoc, loads_written plain]
  rfl

section written
variable {manifest files : List (List Nat × Json.Value)} {codes : List Nat}
  (plain : Json.Plain (.object manifest))
  (file : t "MANIFEST.json" = some (textBytes (Json.dumps (.object manifest) ++ ['\n'])))
  (listed : item manifest (text "files") = some (.object files))
  (named : item manifest (text "version") = some (.string codes))
include plain file listed named

theorem verify_manifest (each : ∀ f ∈ files, matching sha256 t files f.1 = .ok ()) :
    verify sha256 t = .ok (.string codes) := by
  have inner : (item manifest (text "files")).bind fields = some files := by
    rw [listed]
    rfl
  unfold verify
  rw [manifestOf_written plain file]
  simp only [inner, named]
  rw [forM_ok each]
  rfl

theorem portable_manifest (component : Component (nameOf codes)) (inside : ∀ f ∈ files, Relative (nameOf f.1)) :
    Portable t := by
  intro manifest' read
  rw [manifestOf_written plain file] at read
  cases read
  constructor
  · intro codes' is
    cases named.symm.trans is
    exact component
  · intro files' is
    rw [listed] at is
    cases is
    exact inside

end written

end manifest

/-! What an effect leaves alone. -/

def Effect.place? : Effect → Option Place
  | .create p => some p
  | .append p _ => some p
  | _ => none

def Effect.links : Effect → Bool
  | .unlink | .link _ | .replace => true
  | _ => false

theorem perform_links {e : Effect} (other : e.links = false) (d : Disk) :
    (perform d e).fresh = d.fresh ∧ (perform d e).current = d.current := by
  cases e with
  | unlink | link version | replace => cases other
  | directory version | create p | append p b => exact ⟨rfl, rfl⟩

theorem fold_links {es : List Effect} (others : ∀ e ∈ es, e.links = false) (d : Disk) :
    (es.foldl perform d).fresh = d.fresh ∧ (es.foldl perform d).current = d.current := by
  induction es generalizing d with
  | nil => exact ⟨rfl, rfl⟩
  | cons e es ih =>
    obtain ⟨first, rest⟩ := List.forall_mem_cons.mp others
    obtain ⟨fresh, current⟩ := ih rest (perform d e)
    obtain ⟨fresh', current'⟩ := perform_links first d
    exact ⟨fresh.trans fresh', current.trans current'⟩

theorem perform_place {e : Effect} {p : Place} (other : e.place? ≠ some p) (d : Disk) :
    (perform d e).files p = d.files p := by
  cases e with
  | directory | unlink | link | replace => rfl
  | create q | append q b =>
    have apart : p ≠ q := fun same => other (same ▸ rfl)
    exact Function.update_of_ne apart _ _

theorem fold_place {es : List Effect} {p : Place} (others : ∀ e ∈ es, e.place? ≠ some p) (d : Disk) :
    (es.foldl perform d).files p = d.files p := by
  induction es generalizing d with
  | nil => rfl
  | cons e es ih =>
    obtain ⟨first, rest⟩ := List.forall_mem_cons.mp others
    exact (ih rest (perform d e)).trans (perform_place first d)

theorem fold_directories (es : List Effect) {d : Disk} {version : String} (there : d.directories version = true) :
    (es.foldl perform d).directories version = true := by
  induction es generalizing d with
  | nil => exact there
  | cons e es ih =>
    apply ih
    cases e with
    | directory other =>
      show Function.update d.directories other true version = true
      by_cases same : version = other
      · rw [same, Function.update_self]
      · rw [Function.update_of_ne same, there]
    | create | append | unlink | link | replace => exact there

/-! Writing a file. -/

theorem fold_append (p : Place) (b : Bytes) {d : Disk} {front : Bytes} (begun : d.files p = some front) :
    (b.map (Effect.append p)).foldl perform d =
      { d with files := Function.update d.files p (some (front ++ b)) } := by
  induction b generalizing d front with
  | nil =>
    rw [List.append_nil, ← begun, Function.update_eq_self]
    rfl
  | cons x b ih =>
    have next : (perform d (.append p x)).files p = some (front ++ [x]) := by
      simp [perform, begun]
    rw [List.map_cons, List.foldl_cons, ih next]
    simp [perform]

theorem fold_write (p : Place) (b : Bytes) (d : Disk) :
    (write p b).foldl perform d = { d with files := Function.update d.files p (some b) } := by
  have begun : (perform d (.create p)).files p = some [] := Function.update_self ..
  rw [write, List.foldl_cons, fold_append p b begun]
  simp [perform]

theorem mem_write {p : Place} {b : Bytes} {e : Effect} (member : e ∈ write p b) :
    e.links = false ∧ e.place? = some p := by
  rcases List.mem_cons.mp member with rfl | rest
  · exact ⟨rfl, rfl⟩
  · obtain ⟨x, -, rfl⟩ := List.mem_map.mp rest
    exact ⟨rfl, rfl⟩

/-! The parts of a run. -/

variable {sha256 : Bytes → String} {d : Disk} {a : Args} {version : String} {files : Option Listing}
  {torn : String → Option Nat}

theorem chosen_cases (picked : chosen sha256 d a = some (version, files)) :
    files = none ∨ d.directories version = false ∧ ∃ b, a.release = some b ∧ files = some b.files := by
  unfold chosen at picked
  cases source : a.release with
  | none =>
    rw [source] at picked
    obtain ⟨v, -, same⟩ := Option.map_eq_some_iff.mp picked
    cases same
    exact .inl rfl
  | some b =>
    simp only [source] at picked
    split at picked
    · cases picked
      split
      · exact .inl rfl
      · rename_i new
        exact .inr ⟨Bool.eq_false_iff.mpr new, b, rfl, rfl⟩
    · cases picked

theorem mem_copy {l : Listing} {e : Effect} (member : e ∈ copy torn version l) :
    e = .directory version ∨ e.links = false ∧ ∃ name, e.place? = some (.release version name) := by
  rcases List.mem_cons.mp member with first | rest
  · exact .inl first
  · obtain ⟨f, -, written⟩ := List.mem_flatMap.mp rest
    have whole : e ∈ write (.release version f.1) f.2 := by
      cases part : torn f.1 with
      | none =>
        rw [part] at written
        exact written
      | some k =>
        rw [part] at written
        exact List.mem_of_mem_take written
    obtain ⟨still, place⟩ := mem_write whole
    exact .inr ⟨still, f.1, place⟩

theorem chosen_copies (picked : chosen sha256 d a = some (version, files)) :
    ∀ e ∈ copying torn version files, e.links = false ∧ d.directories version = false ∧
      ∀ p, e.place? = some p → ∃ name, p = .release version name := by
  intro e member
  rcases chosen_cases picked with rfl | ⟨absent, b, -, rfl⟩
  · cases member
  · rcases mem_copy member with rfl | ⟨still, name, place⟩
    · exact ⟨rfl, absent, nofun⟩
    · exact ⟨still, absent, fun p is => ⟨name, (Option.some.inj (place.symm.trans is)).symm⟩⟩

theorem installUnits_places (user : List Char) (t : Tree) (names : List String) :
    ∀ e ∈ installUnits user t names, e.links = false ∧ ∃ name ∈ names, e.place? = some (.unit name) := by
  induction names with
  | nil => exact List.forall_mem_nil _
  | cons name names ih =>
    intro e member
    unfold installUnits at member
    split at member
    · cases member
    · rcases List.mem_append.mp member with first | rest
      · obtain ⟨still, place⟩ := mem_write first
        exact ⟨still, name, List.mem_cons_self, place⟩
      · obtain ⟨still, other, member, place⟩ := ih e rest
        exact ⟨still, other, List.mem_cons_of_mem name member, place⟩

theorem once_places {p : Place} {b : Bytes} :
    ∀ e ∈ once d p b, e.links = false ∧ e.place? = some p ∧ d.files p = none := by
  intro e member
  unfold once at member
  split at member
  · rename_i absent
    obtain ⟨still, place⟩ := mem_write member
    exact ⟨still, place, Option.isNone_iff_eq_none.mp absent⟩
  · cases member

def behind (d : Disk) (a : Args) (version : String) : List Effect :=
  once d .config configText ++ a.migrate.elim [] (once d .identity) ++ installUnits a.user (d.tree version) order

theorem behind_places : ∀ e ∈ behind d a version, e.links = false ∧
    ∃ p, e.place? = some p ∧ (∀ v name, p ≠ .release v name) ∧
      (p = .config ∨ p = .identity → d.files p = none) := by
  intro e member
  rcases List.mem_append.mp member with member | units
  · rcases List.mem_append.mp member with config | identity
    · obtain ⟨still, place, absent⟩ := once_places e config
      exact ⟨still, _, place, nofun, fun _ => absent⟩
    · cases given : a.migrate with
      | none =>
        rw [given] at identity
        cases identity
      | some b =>
        rw [given] at identity
        obtain ⟨still, place, absent⟩ := once_places e identity
        exact ⟨still, _, place, nofun, fun _ => absent⟩
  · obtain ⟨still, name, -, place⟩ := installUnits_places _ _ _ e units
    exact ⟨still, _, place, nofun, fun either => by rcases either with is | is <;> cases is⟩

/-- What a run does behind the copying: nothing, or the switch to a release that was verified. -/
theorem switch_cases (d : Disk) (a : Args) (version : String) :
    switch sha256 d a version = [] ∨
    (switch sha256 d a version = activate version ++ behind d a version ∧
      d.directories version = true ∧ ∃ u, verify sha256 (d.tree version) = .ok u) := by
  unfold switch
  split
  · exact .inl rfl
  · rename_i u verified
    split
    · rename_i there
      refine .inr ⟨?_, there, u, verified⟩
      simp [behind, List.append_assoc]
    · exact .inl rfl

def Verified (sha256 : Bytes → String) (d : Disk) (version : String) : Prop :=
  d.directories version = true ∧ ∃ u, verify sha256 (d.tree version) = .ok u

theorem fold_verified {es : List Effect} (others : ∀ e ∈ es, ∀ name, e.place? ≠ some (.release version name))
    (verified : Verified sha256 d version) : Verified sha256 (es.foldl perform d) version := by
  obtain ⟨there, u, accepted⟩ := verified
  have same : (es.foldl perform d).tree version = d.tree version :=
    funext fun name => fold_place (fun e member => others e member name) d
  exact ⟨fold_directories es there, u, same ▸ accepted⟩

/-! A run that is cut. -/

theorem effects_cases (d : Disk) (a : Args) (torn : String → Option Nat) : effects sha256 d a torn = [] ∨
    ∃ version files, chosen sha256 d a = some (version, files) ∧
      (effects sha256 d a torn = copying torn version files ∨
      effects sha256 d a torn = copying torn version files ++
        (activate version ++ behind ((copying torn version files).foldl perform d) a version) ∧
      Verified sha256 ((copying torn version files).foldl perform d) version) := by
  unfold effects
  split
  · exact .inl rfl
  · rename_i version files picked
    refine .inr ⟨version, files, picked, ?_⟩
    split
    · rcases switch_cases ((copying torn version files).foldl perform d) a version with none | ⟨all, verified⟩
      · exact .inl (none ▸ List.append_nil _)
      · exact .inr ⟨all ▸ rfl, verified⟩
    · exact .inl (List.append_nil _)

theorem effects_places : ∀ e ∈ effects sha256 d a torn, ∀ p, e.place? = some p →
    (∀ v name, p = .release v name → d.directories v = false) ∧
    (p = .config ∨ p = .identity → d.files p = none) := by
  intro e member p is
  rcases effects_cases d a torn with none | ⟨version, files, picked, shape⟩
  · rw [none] at member
    cases member
  have copies := @chosen_copies _ _ _ _ _ torn picked
  have ofCopied : e ∈ copying torn version files → (∀ v name, p = .release v name → d.directories v = false) ∧
      (p = .config ∨ p = .identity → d.files p = none) := by
    intro first
    obtain ⟨-, absent, only⟩ := copies e first
    obtain ⟨name, rfl⟩ := only p is
    exact ⟨fun v other same => (Place.release.inj same).1 ▸ absent,
      fun either => by rcases either with is | is <;> cases is⟩
  rcases shape with all | ⟨all, -⟩
  · exact ofCopied (all ▸ member)
  · rcases List.mem_append.mp (all ▸ member) with first | rest
    · exact ofCopied first
    · rcases List.mem_append.mp rest with links | last
      · simp only [activate, List.mem_cons, List.not_mem_nil, or_false] at links
        rcases links with rfl | rfl | rfl <;> cases is
      · obtain ⟨-, q, place, outside, absent⟩ := behind_places e last
        cases Option.some.inj (place.symm.trans is)
        refine ⟨fun v name same => absurd same (outside v name), fun either => ?_⟩
        have untouched : ((copying torn version files).foldl perform d).files p = d.files p := by
          apply fold_place
          intro e' first written
          obtain ⟨name, same⟩ := (copies e' first).2.2 p written
          exact outside version name same
        exact untouched ▸ absent either

/-- Behind any cut `current` leads where it led, or to a release that was verified. -/
theorem cut_current (d : Disk) (l : Label) :
    (step sha256 d l).current = d.current ∨ ∃ version,
      (step sha256 d l).current = some version ∧
      Verified sha256 (step sha256 d l) version := by
  unfold step
  rcases effects_cases d l.args l.torn with none | ⟨version, files, picked, shape⟩
  · rw [none, List.take_nil]
    exact .inl rfl
  have copies := @chosen_copies _ _ _ _ _ l.torn picked
  generalize copying l.torn version files = copied at copies shape
  have still : ∀ k, ((copied.take k).foldl perform d).current = d.current := fun k =>
    (fold_links (fun e member => (copies e (List.mem_of_mem_take member)).1) d).2
  rcases shape with all | ⟨all, verified⟩
  · rw [all]
    exact .inl (still _)
  rw [all, List.take_append, List.foldl_append]
  by_cases within : l.upTo ≤ copied.length
  · rw [Nat.sub_eq_zero_of_le within, List.take_zero, List.foldl_nil]
    exact .inl (still _)
  have whole : copied.take l.upTo = copied := List.take_of_length_le (by omega)
  rw [whole]
  have before : (copied.foldl perform d).current = d.current := whole ▸ still l.upTo
  generalize copied.foldl perform d = d' at before verified
  match l.upTo - copied.length with
  | 0 | 1 | 2 => exact .inl before
  | k + 3 =>
    -- the link has been replaced: what is written from here on is no release
    have places := fun e member => @behind_places d' l.args version e (List.mem_of_mem_take (i := k) member)
    show ((((behind d' l.args version).take k).foldl perform
      ((activate version).foldl perform d')).current = _) ∨ _
    refine .inr ⟨version, (fold_links (fun e member => (places e member).1) _).2, ?_⟩
    apply fold_verified _ (d := (activate version).foldl perform d') verified
    intro e member name written
    obtain ⟨-, p, place, outside, -⟩ := places e member
    exact outside version name (Option.some.inj (place.symm.trans written))

/-- What no later run takes away. -/
structure Extends (d d' : Disk) : Prop where
  releases : ∀ version, d.directories version = true →
    d'.directories version = true ∧ d'.tree version = d.tree version
  kept : ∀ p, p = .config ∨ p = .identity → ∀ b, d.files p = some b → d'.files p = some b
  current : d.current.isSome = true → d'.current.isSome = true

theorem step_extends (d : Disk) (l : Label) : Extends d (step sha256 d l) := by
  have places : ∀ e ∈ (effects sha256 d l.args l.torn).take l.upTo, ∀ p, e.place? = some p → _ :=
    fun e member => effects_places e (List.mem_of_mem_take member)
  constructor
  case releases =>
    intro version there
    refine ⟨fold_directories _ there, funext fun name => fold_place (fun e member written => ?_) d⟩
    have absent := (places e member _ written).1 version name rfl
    rw [there] at absent
    cases absent
  case kept =>
    intro p either b is
    refine (fold_place (fun e member written => ?_) d).trans is
    have absent := (places e member p written).2 either
    rw [is] at absent
    cases absent
  case current =>
    intro leads
    rcases cut_current d l with same | ⟨version, now, -⟩
    · exact same ▸ leads
    · exact now ▸ rfl

theorem Extends.refl (d : Disk) : Extends d d := ⟨fun _ there => ⟨there, rfl⟩, fun _ _ _ => id, id⟩

theorem Extends.trans {d d' d'' : Disk} (first : Extends d d') (second : Extends d' d'') : Extends d d'' := by
  constructor
  case releases =>
    intro version there
    obtain ⟨still, same⟩ := first.releases version there
    obtain ⟨still', same'⟩ := second.releases version still
    exact ⟨still', same'.trans same⟩
  case kept => exact fun p either b is => second.kept p either b (first.kept p either b is)
  case current => exact fun leads => second.current (first.current leads)

theorem run_extends (d : Disk) (ls : List Label) : Extends d (run (step sha256) d ls) :=
  run_invariant (step sha256) (Extends d) (fun d' l so => so.trans (step_extends d' l)) (.refl d) ls

theorem Extends.verified {d d' : Disk} (later : Extends d d') (verified : Verified sha256 d version) :
    Verified sha256 d' version := by
  obtain ⟨there, u, accepted⟩ := verified
  obtain ⟨still, same⟩ := later.releases version there
  exact ⟨still, u, same ▸ accepted⟩

/-- A release has no files before its directory is there. -/
structure Sound (sha256 : Bytes → String) (d : Disk) : Prop where
  current : ∀ version, d.current = some version → Verified sha256 d version
  empty : ∀ version name, d.directories version = false → d.files (.release version name) = none

theorem mem_directories {es : List Effect} (member : .directory version ∈ es) (d : Disk) :
    (es.foldl perform d).directories version = true := by
  induction es generalizing d with
  | nil => cases member
  | cons e es ih =>
    rcases List.mem_cons.mp member with rfl | rest
    · exact fold_directories es (Function.update_self ..)
    · exact ih rest (perform d e)

theorem effects_release {e : Effect} {name : String} (member : e ∈ effects sha256 d a torn)
    (written : e.place? = some (.release version name)) :
    ∃ es, effects sha256 d a torn = .directory version :: es := by
  rcases effects_cases d a torn with none | ⟨v, files, picked, shape⟩
  · rw [none] at member
    cases member
  have first : e ∈ copying torn v files := by
    rcases shape with all | ⟨all, -⟩
    · exact all ▸ member
    · rcases List.mem_append.mp (all ▸ member) with first | rest
      · exact first
      · rcases List.mem_append.mp rest with links | last
        · simp only [activate, List.mem_cons, List.not_mem_nil, or_false] at links
          rcases links with rfl | rfl | rfl <;> cases written
        · obtain ⟨-, p, place, outside, -⟩ := behind_places e last
          exact absurd (Option.some.inj (place.symm.trans written)) (outside version name)
  obtain ⟨-, -, only⟩ := chosen_copies picked e first
  obtain ⟨other, same⟩ := only _ written
  cases same
  rcases chosen_cases picked with rfl | ⟨-, b, -, rfl⟩
  · cases first
  · rcases shape with all | ⟨all, -⟩
    · exact ⟨_, all⟩
    · exact ⟨_, all⟩

theorem step_sound (d : Disk) (l : Label) (sound : Sound sha256 d) :
    Sound sha256 (step sha256 d l) := by
  have later : Extends d (step sha256 d l) := step_extends d l
  constructor
  case current =>
    intro version leads
    rcases cut_current d l with same | ⟨now, leads', verified⟩
    · exact later.verified (sound.current version (same ▸ leads))
    · exact Option.some.inj (leads'.symm.trans leads) ▸ verified
  case empty =>
    intro version name absent
    have before : d.directories version = false :=
      Bool.eq_false_iff.mpr fun there => Bool.eq_false_iff.mp absent (later.releases version there).1
    refine (fold_place (fun e member written => ?_) d).trans (sound.empty version name before)
    obtain ⟨es, all⟩ := effects_release (List.mem_of_mem_take member) written
    have made : Effect.directory version ∈ (effects sha256 d l.args l.torn).take l.upTo := by
      rw [all] at member ⊢
      cases upTo : l.upTo with
      | zero =>
        rw [upTo] at member
        cases member
      | succ k => exact List.mem_cons_self
    exact Bool.eq_false_iff.mp absent (mem_directories made d)

theorem run_sound (ls : List Label) : Sound sha256 (run (step sha256) {} ls) :=
  run_invariant (step sha256) (Sound sha256) step_sound
    ⟨fun _ leads => absurd leads.symm (Option.some_ne_none _), fun _ _ _ => rfl⟩ ls

/-- Wherever the runs so far were cut, the release that `current` leads to is there and was verified; and no later
run, cut anywhere, unsets the link, changes a release or replaces the configuration or the identity. -/
theorem current_verified (ls ls' : List Label) :
    let d := run (step sha256) {} ls
    (∀ version, d.current = some version → Verified sha256 d version) ∧
    Extends d (run (step sha256) d ls') :=
  ⟨(run_sound ls).current, run_extends _ ls'⟩

/-! A run that is not cut. -/

theorem fold_copying (version : String) (l : Listing) (d : Disk) :
    ((l.flatMap fun f => write (.release version f.1) f.2).foldl perform d).tree version =
      l.foldl (fun (t : Tree) f => Function.update t f.1 (some f.2)) (d.tree version) := by
  induction l generalizing d with
  | nil => rfl
  | cons f l ih =>
    have first : ((write (.release version f.1) f.2).foldl perform d).tree version =
        Function.update (d.tree version) f.1 (some f.2) := by
      rw [fold_write]
      funext name
      by_cases same : name = f.1
      · simp [Disk.tree, same]
      · simp [Disk.tree, same]
    rw [List.flatMap_cons, List.foldl_append, ih, first, List.foldl_cons]

theorem fold_copy (sound : Sound sha256 d) (absent : d.directories version = false) (l : Listing) :
    ((copy (fun _ => none) version l).foldl perform d).tree version = l.tree := by
  have none : (perform d (.directory version)).tree version = fun _ => none :=
    funext fun name => sound.empty version name absent
  rw [copy, List.foldl_cons]
  simp only [Option.elim_none]
  rw [fold_copying, none, Listing.tree]

theorem fold_units {user : List Char} {t : Tree} (names : List String)
    (readable : ∀ name ∈ names, (unitText user t name).isSome = true) (d : Disk) :
    ∀ name ∈ names, ((installUnits user t names).foldl perform d).files (.unit name) = unitText user t name := by
  induction names generalizing d with
  | nil => exact List.forall_mem_nil _
  | cons n names ih =>
    obtain ⟨first, rest⟩ := List.forall_mem_cons.mp readable
    obtain ⟨b, text⟩ := Option.isSome_iff_exists.mp first
    intro name member
    simp only [installUnits, text, List.foldl_append]
    by_cases again : name ∈ names
    · exact ih rest _ name again
    · obtain rfl : name = n := (List.mem_cons.mp member).resolve_right again
      have others : ∀ e ∈ installUnits user t names, e.place? ≠ some (.unit name) := by
        intro e written is
        obtain ⟨-, other, unit, place⟩ := installUnits_places user t names e written
        cases Option.some.inj (place.symm.trans is)
        exact again unit
      rw [fold_place others, fold_write]
      exact (Function.update_self ..).trans text.symm

/-- The release is the active one with these files, and the units are its own for the user. -/
structure Active (d : Disk) (version : String) (t : Tree) (user : List Char) : Prop where
  current : d.current = some version
  tree : d.tree version = t
  units : (∀ name ∈ order, (unitText user t name).isSome = true) →
    ∀ name ∈ order, d.files (.unit name) = unitText user t name

theorem switch_verified (verified : Verified sha256 d version) :
    switch sha256 d a version = activate version ++ behind d a version := by
  obtain ⟨there, u, accepted⟩ := verified
  simp [switch, accepted, there, behind, List.append_assoc]

def copied (d : Disk) (version : String) (files : Option Listing) : Disk :=
  (copying (fun _ => none) version files).foldl perform d

theorem complete_eq (picked : chosen sha256 d a = some (version, files))
    (verified : Verified sha256 (copied d version files) version) :
    complete sha256 d a = (behind (copied d version files) a version).foldl perform
      ((activate version).foldl perform (copied d version files)) := by
  have intact : (files.all fun l => l.all fun _ => true) = true := by
    cases files with
    | none => rfl
    | some l => simp
  have switched := switch_verified (a := a) verified
  unfold copied at switched
  simp only [complete, effects, picked, Option.isNone_none, intact, if_true, switched, List.foldl_append]
  rfl

theorem complete_active (picked : chosen sha256 d a = some (version, files))
    (verified : Verified sha256 (copied d version files) version) :
    Active (complete sha256 d a) version ((copied d version files).tree version) a.user := by
  rw [complete_eq picked verified]
  generalize copied d version files = d' at verified
  have places := @behind_places d' a version
  constructor
  case current => exact (fold_links (fun e member => (places e member).1) _).2
  case tree =>
    refine funext fun name => fold_place (fun e member written => ?_) ((activate version).foldl perform d')
    obtain ⟨-, p, place, outside, -⟩ := places e member
    exact outside version name (Option.some.inj (place.symm.trans written))
  case units =>
    intro readable name member
    rw [behind, List.foldl_append]
    exact fold_units order readable _ name member

theorem complete_config (picked : chosen sha256 d a = some (version, files))
    (verified : Verified sha256 (copied d version files) version) (absent : d.files .config = none) :
    (complete sha256 d a).files .config = some configText := by
  have untouched : (copied d version files).files .config = none := by
    refine (fold_place (fun e member written => ?_) d).trans absent
    obtain ⟨-, -, only⟩ := chosen_copies picked e member
    obtain ⟨name, same⟩ := only _ written
    cases same
  rw [complete_eq picked verified]
  generalize copied d version files = d' at untouched
  have first : once d' .config configText = write .config configText := by
    rw [once, untouched]
    rfl
  rw [behind, first, List.append_assoc, List.foldl_append, fold_write]
  have others : ∀ e ∈ a.migrate.elim [] (once d' .identity) ++ installUnits a.user (d'.tree version) order,
      e.place? ≠ some .config := by
    intro e member written
    rcases List.mem_append.mp member with identity | unit
    · cases given : a.migrate with
      | none =>
        rw [given] at identity
        cases identity
      | some b =>
        rw [given] at identity
        obtain ⟨-, place, -⟩ := once_places e identity
        cases place.symm.trans written
    · obtain ⟨-, name, -, place⟩ := installUnits_places _ _ _ e unit
      cases place.symm.trans written
  rw [fold_place others]
  simp

section install
variable {b : Bundle} {codes : List Nat} (sound : Sound sha256 d) (given : a.release = some b)
  (good : verify sha256 b.files.tree = .ok (.string codes)) (absent : d.directories (nameOf codes) = false)
include good absent

include given in
theorem chosen_new : chosen sha256 d a = some (nameOf codes, some b.files) := by
  simp only [chosen, given, good, absent, Bool.false_eq_true, if_false]

include sound

theorem copy_verified : Verified sha256 (copied d (nameOf codes) (some b.files)) (nameOf codes) :=
  ⟨mem_directories List.mem_cons_self d, _, fold_copy sound absent b.files ▸ good⟩

include given

theorem install_active : Active (complete sha256 d a) (nameOf codes) b.files.tree a.user :=
  fold_copy sound absent b.files ▸ complete_active (chosen_new given good absent) (copy_verified sound good absent)

theorem install_config (first : d.files .config = none) : (complete sha256 d a).files .config = some configText :=
  complete_config (chosen_new given good absent) (copy_verified sound good absent) first

end install

/-- What a run asks to be active: the version of a release that passes the check, or one to go back to. -/
def Asks (sha256 : Bytes → String) (a : Args) (version : String) : Prop :=
  (∃ b codes, a.release = some b ∧ verify sha256 b.files.tree = .ok (.string codes) ∧ version = nameOf codes) ∨
  a.release = none ∧ ∃ v, a.activate = some v ∧ version = v.val

theorem asks_none (nothing : ∀ version, ¬ Asks sha256 a version) : chosen sha256 d a = none := by
  cases picked : chosen sha256 d a with
  | none => rfl
  | some choice =>
    unfold chosen at picked
    cases source : a.release with
    | none =>
      rw [source] at picked
      obtain ⟨v, given, -⟩ := Option.map_eq_some_iff.mp picked
      exact absurd (.inr ⟨source, v, given, rfl⟩) (nothing v.val)
    | some b =>
      simp only [source] at picked
      split at picked
      · rename_i codes good
        exact absurd (.inl ⟨b, codes, source, good, rfl⟩) (nothing (nameOf codes))
      · cases picked

theorem asks_chosen (asks : Asks sha256 a version) (there : d.directories version = true ∨ a.release = none) :
    chosen sha256 d a = some (version, none) := by
  rcases asks with ⟨b, codes, given, good, rfl⟩ | ⟨none, v, given, rfl⟩
  · have there := there.resolve_right fun none => Option.some_ne_none b (given.symm.trans none)
    simp only [chosen, given, good, there, if_true]
  · simp only [chosen, none, given, Option.map_some]

theorem refused_unchanged (asks : Asks sha256 a version) (there : d.directories version = true ∨ a.release = none)
    (refused : ¬ Verified sha256 d version) (upTo : Nat) : step sha256 d ⟨a, torn, upTo⟩ = d := by
  have nothing : effects sha256 d a torn = [] := by
    rcases @switch_cases sha256 d a version with none | ⟨-, verified⟩
    · simp only [effects, asks_chosen asks there, copying, Option.elim_none, List.foldl_nil, none, ite_self,
        List.nil_append]
    · exact absurd verified refused
  simp only [step, nothing, List.take_nil, List.foldl_nil]

/-- A run behind any earlier ones, by what it asks for: a release that was not there becomes active with exactly
its files, one that is there and passes the check with the files it has. A copy that does not pass the check, a
version to go back to that is not there, and a release that names none are refused, and then nothing is changed. -/
theorem update_exact (ls : List Label) (a : Args) :
    let d := run (step sha256) {} ls
    (∀ b codes, a.release = some b → verify sha256 b.files.tree = .ok (.string codes) →
      d.directories (nameOf codes) = false → Active (complete sha256 d a) (nameOf codes) b.files.tree a.user) ∧
    (∀ version, Asks sha256 a version → Verified sha256 d version →
      Active (complete sha256 d a) version (d.tree version) a.user) ∧
    (∀ version, Asks sha256 a version → (d.directories version = true ∨ a.release = none) →
      ¬ Verified sha256 d version → ∀ torn upTo, step sha256 d ⟨a, torn, upTo⟩ = d) ∧
    ((∀ version, ¬ Asks sha256 a version) → ∀ torn upTo, step sha256 d ⟨a, torn, upTo⟩ = d) := by
  intro d
  refine ⟨fun b codes given good => install_active (run_sound ls) given good, fun version asks verified => ?_,
    fun version asks there refused torn upTo => refused_unchanged asks there refused upTo,
    fun nothing torn upTo => ?_⟩
  · exact complete_active (asks_chosen asks (.inl verified.1)) verified
  · simp only [step, effects, asks_none nothing, List.take_nil, List.foldl_nil]

/-! One file, which is empty. -/

def emptyDigest : String := "e3b0c44298fc1c149afbf4c8996fb92427ae41e4649b934ca495991b7852b855"

def smallFiles : List (List Nat × Json.Value) := [(text "bin/rkmoon-kvm", .string (text emptyDigest))]

def smallManifest : List (List Nat × Json.Value) :=
  [(text "version", .string (text "0.2")), (text "files", .object smallFiles)]

def smallListing : Listing :=
  [("bin/rkmoon-kvm", []), ("MANIFEST.json", textBytes (Json.dumps (.object smallManifest) ++ ['\n']))]

theorem plain_text (s : String) : Json.Plain (.string (text s)) := .string (Json.text_chars s.toList)

theorem small_plain : Json.Plain (.object smallManifest) := by
  have name (s : String) : Json.Text (text s) := Json.text_chars s.toList
  have files : Json.Plain (.object smallFiles) :=
    .object (List.forall_mem_singleton.mpr (name _)) (List.forall_mem_singleton.mpr (plain_text _))
  exact .object (List.forall_mem_cons.mpr ⟨name _, List.forall_mem_singleton.mpr (name _)⟩)
    (List.forall_mem_cons.mpr ⟨plain_text _, List.forall_mem_singleton.mpr files⟩)

def small : Bundle where
  files := smallListing
  paths := by decide
  portable := portable_manifest small_plain rfl rfl rfl (by decide) (List.forall_mem_singleton.mpr (by decide))

def installSmall : Args := { release := some small, user := "at".toList }

theorem small_verified : verify (fun _ => emptyDigest) small.files.tree = .ok (.string (text "0.2")) :=
  verify_manifest small_plain rfl rfl rfl (List.forall_mem_singleton.mpr rfl)

theorem update_exact_small :
    Active (complete (fun _ => emptyDigest) {} installSmall) "0.2" small.files.tree "at".toList :=
  (update_exact [] installSmall).1 small (text "0.2") rfl small_verified rfl

/-- What was active once can be made active again, with the files it had. -/
theorem rolls_back (ls ls' : List Label) (a : Args) (version : { version : String // Component version })
    (given : a.release = none) (asked : a.activate = some version)
    (was : (run (step sha256) {} ls).current = some version.val) :
    let d := run (step sha256) {} ls
    Active (complete sha256 (run (step sha256) d ls') a) version.val (d.tree version.val) a.user := by
  intro d
  have verified : Verified sha256 d version.val := (run_sound ls).current version.val was
  have later : Extends d (run (step sha256) d ls') := run_extends d ls'
  have asks : Asks sha256 a version.val := .inr ⟨given, version, asked, rfl⟩
  obtain ⟨-, same⟩ := later.releases version.val verified.1
  exact same ▸ complete_active (asks_chosen asks (.inr given)) (later.verified verified)

theorem step_complete (sha256 : Bytes → String) (d : Disk) (a : Args) :
    step sha256 d { args := a, upTo := (effects sha256 d a fun _ => none).length } = complete sha256 d a := by
  rw [step, List.take_length, complete]

theorem rolls_back_small :
    let sha256 : Bytes → String := fun _ => emptyDigest
    let installed : List Label :=
      [{ args := installSmall, upTo := (effects sha256 {} installSmall fun _ => none).length }]
    let d := run (step sha256) (run (step sha256) {} installed) [{ args := installSmall, upTo := 2 }]
    Active (complete sha256 d { activate := some ⟨"0.2", by decide⟩, user := "at".toList }) "0.2"
      ((run (step sha256) {} installed).tree "0.2") "at".toList := by
  intro sha256 installed d
  have was : (run (step sha256) {} installed).current = some "0.2" := by
    rw [run_cons, run_nil, step_complete]
    have sound : Sound sha256 {} := run_sound []
    exact (install_active sound (b := small) rfl small_verified rfl).current
  exact rolls_back installed _ _ ⟨"0.2", by decide⟩ rfl rfl was

end Tools.Release

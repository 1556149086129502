import Mathlib.Data.List.Infix
import Mathlib.Data.List.Nodup
import RkmoonKvm.Tools.Config
import RkmoonKvm.Tools.Release

/-! The packaging of the server, from the built artifacts to an installed release: the installer accepts what was
packaged, makes exactly that active, and the configuration that it writes first is one that the supervisor takes. -/
namespace Tools.Package
open Release Runs

/-! What is read of a configuration. -/

mutual

/-- A text's document, where it holds no float. -/
def document : Json.Value → Option Value
  | .null => some .null
  | .bool b => some (.bool b)
  | .int n => some (.int n)
  | .float => none
  | .string s => some (.str s)
  | .array vs => (documents vs).map .list
  | .object fields => (entries fields).map .dict

def documents : List Json.Value → Option (List Value)
  | [] => some []
  | v :: vs => (document v).bind fun d => (documents vs).map (d :: ·)

def entries : List (List Nat × Json.Value) → Option Dict
  | [] => some []
  | (key, v) :: fields => (document v).bind fun d => (entries fields).map ((key, d) :: ·)

end

def load (file : Bytes) : Except PyError Dict :=
  match ((readText file).bind Json.loads).bind document with
  | some d => Config.load d
  | none => .error .valueError

/-! The files of a release. -/

def tools : List String :=
  ["run.py", "child_exec.py", "systemd_release.py", "hdmirx_audio_bind.py", "edid_apply.py", "install_server.py"]

def units : List String := ["rkmoon.service", "rkmoon-edid.service", "rkmoon-hdmirx-audio.service"]

def config : List String := ["rkmoon-edid-eight-modes.bin", "edid-requested-modes.json"]

structure Inputs where
  server : Bytes
  worker : Bytes
  assets : String → Bytes
  /-- The files of the directory, by their names. -/
  runtimeLibs : Listing
  mppLib : Bytes
  codec : Bytes
  /-- The files of `python/rkmoon_hid`, by their paths in it. -/
  hid : Listing
  tools : String → Bytes
  units : String → Bytes
  config : String → Bytes
  license : Option Bytes := none
  licenses : Listing := []

def under (directory : String) (l : Listing) : Listing := l.map fun f => (directory ++ f.1, f.2)

def taken (directory : String) (names : List String) (content : String → Bytes) : Listing :=
  names.map fun name => (directory ++ name, content name)

def shared (name : String) : Bool := decide (".so".toList <:+: name.toList)

/-- `ignore_patterns('__pycache__', '*.pyc')`, of every part of a path. -/
def ignored (path : String) : Bool :=
  (path.toList.splitOn '/').any fun part => part = "__pycache__".toList || decide (".pyc".toList <:+ part)

/-- What is copied, in this order; where two have one name, the later one stands. -/
def copies (i : Inputs) : Listing :=
  [("bin/rkmoon-kvm", i.server), ("bin/rkmoon-worker", i.worker)] ++
  taken "bin/assets/" ["apps.json", "box.png"] i.assets ++
  under "lib/" (i.runtimeLibs.filter fun f => shared f.1) ++
  [("lib/librockchip_mpp.so.1", i.mppLib), ("kernel/rkmoon_hdmirx_codec.ko", i.codec)] ++
  under "python/rkmoon_hid/" (i.hid.filter fun f => !ignored f.1) ++
  taken "tools/" tools i.tools ++
  taken "systemd/" units i.units ++
  taken "config/" config i.config ++
  i.license.elim [] (fun b => [("licenses/RKMoon-LICENSE", b)]) ++
  under "licenses/" i.licenses

section manifest
variable (sha256 : Bytes → String)

def fileDigests (files : Listing) : List (List Nat × Json.Value) :=
  files.map fun f => (text f.1, .string (text (sha256 f.2)))

def manifest (files : Listing) (version commit : String) : List (List Nat × Json.Value) :=
  [(text "version", .string (text version)), (text "source_commit", .string (text commit)),
    (text "files", .object (fileDigests sha256 files))]

def packaged (files : Listing) (version commit : String) : Listing :=
  files ++ [("MANIFEST.json", textBytes (Json.dumps (.object (manifest sha256 files version commit)) ++ ['\n']))]

end manifest

/-! Listings. -/

theorem fold_tree (l : Listing) (t : Tree) (name : String) :
    l.foldl (fun (t : Tree) f => Function.update t f.1 (some f.2)) t name = (l.tree name).or (t name) := by
  unfold Listing.tree
  induction l using List.reverseRecOn with
  | nil => rfl
  | append_singleton l f ih =>
    rw [List.foldl_append, List.foldl_append]
    by_cases same : name = f.1
    · simp [same]
    · simpa [same] using ih

theorem tree_append (l l' : Listing) (name : String) :
    Listing.tree (l ++ l') name = (l'.tree name).or (l.tree name) := by
  rw [Listing.tree, List.foldl_append, fold_tree, ← Listing.tree]

theorem tree_single (f : String × Bytes) : Listing.tree [f] f.1 = some f.2 := by
  simp [Listing.tree]

theorem tree_none {l : Listing} {name : String} (other : ∀ f ∈ l, f.1 ≠ name) : l.tree name = none := by
  induction l with
  | nil => rfl
  | cons f l ih =>
    obtain ⟨first, rest⟩ := List.forall_mem_cons.mp other
    rw [← List.singleton_append, tree_append, ih rest, Option.none_or]
    simp [Listing.tree, first.symm]

theorem tree_mem {l : Listing} (distinct : (l.map Prod.fst).Nodup) {f : String × Bytes} (member : f ∈ l) :
    l.tree f.1 = some f.2 := by
  induction l with
  | nil => cases member
  | cons g l ih =>
    obtain ⟨apart, rest⟩ := List.nodup_cons.mp distinct
    rw [← List.singleton_append, tree_append]
    rcases List.mem_cons.mp member with rfl | inside
    · have others : ∀ g ∈ l, g.1 ≠ f.1 := fun g member same => apart (same ▸ List.mem_map_of_mem member)
      rw [tree_none others, tree_single]
      rfl
    · rw [ih rest inside]
      rfl

theorem tree_taken {directory : String} {names : List String} {content : String → Bytes} {name : String}
    (member : name ∈ names) : (taken directory names content).tree (directory ++ name) = some (content name) := by
  induction names with
  | nil => cases member
  | cons first names ih =>
    rw [taken, List.map_cons, ← List.singleton_append, tree_append, ← taken]
    by_cases again : name ∈ names
    · rw [ih again]
      rfl
    · obtain rfl : name = first := (List.mem_cons.mp member).resolve_right again
      have others : ∀ f ∈ taken directory names content, f.1 ≠ directory ++ name := by
        intro f inside same
        obtain ⟨n, listed, rfl⟩ := List.mem_map.mp inside
        have equal : n = name := String.append_right_inj directory |>.mp same
        exact again (equal ▸ listed)
      rw [tree_none others]
      exact tree_single (directory ++ name, content name)

/-! The manifest. -/

theorem lookup_mem {A B : Type} [BEq A] [LawfulBEq A] {l : List (A × B)}
    (distinct : (l.map Prod.fst).Nodup) {p : A × B} (member : p ∈ l) : l.lookup p.1 = some p.2 := by
  induction l with
  | nil => cases member
  | cons q l ih =>
    obtain ⟨apart, rest⟩ := List.nodup_cons.mp distinct
    rcases List.mem_cons.mp member with rfl | inside
    · exact List.lookup_cons_self
    · have other : (p.1 == q.1) = false := by
        rw [beq_eq_false_iff_ne]
        exact fun same => apart (same ▸ List.mem_map_of_mem inside)
      rw [List.lookup_cons, other]
      exact ih rest inside

theorem item_mem {fields : List (List Nat × Json.Value)} (distinct : (fields.map Prod.fst).Nodup)
    {f : List Nat × Json.Value} (member : f ∈ fields) : item fields f.1 = some f.2 := by
  have reversed : (fields.reverse.map Prod.fst).Nodup := by
    rw [List.map_reverse, List.nodup_reverse]
    exact distinct
  exact lookup_mem reversed (List.mem_reverse.mpr member)

theorem fileDigests_distinct (sha256 : Bytes → String) {files : Listing} (distinct : (files.map Prod.fst).Nodup) :
    ((fileDigests sha256 files).map Prod.fst).Nodup := by
  have names : (fileDigests sha256 files).map Prod.fst = (files.map Prod.fst).map text := by
    simp [fileDigests]
  rw [names]
  exact distinct.map fun s t same => text_inj.mp same

theorem manifest_plain (sha256 : Bytes → String) (files : Listing) (version commit : String) :
    Json.Plain (.object (manifest sha256 files version commit)) := by
  have name (s : String) : Json.Text (text s) := Json.text_chars s.toList
  have inner : Json.Plain (.object (fileDigests sha256 files)) := by
    constructor
    · intro f member
      obtain ⟨g, -, rfl⟩ := List.mem_map.mp member
      exact name g.1
    · intro f member
      obtain ⟨g, -, rfl⟩ := List.mem_map.mp member
      exact plain_text (sha256 g.2)
  constructor
  · simp only [manifest, List.forall_mem_cons]
    exact ⟨name _, name _, name _, List.forall_mem_nil _⟩
  · simp only [manifest, List.forall_mem_cons]
    exact ⟨plain_text version, plain_text commit, inner, List.forall_mem_nil _⟩

theorem packaged_other (sha256 : Bytes → String) (files : Listing) (version commit : String) {name : String}
    (other : name ≠ "MANIFEST.json") : (packaged sha256 files version commit).tree name = files.tree name := by
  rw [packaged, tree_append, tree_none (List.forall_mem_singleton.mpr other.symm)]
  rfl

section bundle
variable (sha256 : Bytes → String) {files : Listing} (paths : ∀ f ∈ files, Relative f.1 ∧ joined f.1 = f.1)
  (version commit : String)

theorem manifest_path : Relative "MANIFEST.json" ∧ joined "MANIFEST.json" = "MANIFEST.json" := by decide

theorem packaged_file : (packaged sha256 files version commit).tree "MANIFEST.json" =
    some (textBytes (Json.dumps (.object (manifest sha256 files version commit)) ++ ['\n'])) := by
  rw [packaged, tree_append, tree_single ("MANIFEST.json", _), Option.some_or]

def bundle (component : Component version) : Bundle where
  files := packaged sha256 files version commit
  paths := List.forall_mem_append.mpr ⟨paths, List.forall_mem_singleton.mpr manifest_path⟩
  portable := by
    refine portable_manifest (manifest_plain sha256 files version commit)
      (packaged_file sha256 version commit) rfl rfl ((nameOf_text version).symm ▸ component) ?_
    intro f member
    obtain ⟨g, inside, rfl⟩ := List.mem_map.mp member
    exact (nameOf_text g.1).symm ▸ (paths g inside).1

include paths

theorem packaged_verified (distinct : (files.map Prod.fst).Nodup) (plain : ∀ f ∈ files, f.1 ≠ "MANIFEST.json") :
    verify sha256 (packaged sha256 files version commit).tree = .ok (.string (text version)) := by
  refine verify_manifest (manifest_plain sha256 files version commit) (packaged_file sha256 version commit) rfl rfl ?_
  intro f member
  obtain ⟨g, inside, rfl⟩ := List.mem_map.mp member
  have there : (packaged sha256 files version commit).tree g.1 = some g.2 := by
    rw [packaged_other sha256 files version commit (plain g inside), tree_mem distinct inside]
  have digest := item_mem (fileDigests_distinct sha256 distinct) member
  simp only [matching, nameOf_text, (paths g inside).2, there, digest, if_true]
  rfl

end bundle

/-! The files that are copied. -/

theorem below_under {directory : String} (inside : '/' ∈ directory.toList) (l : Listing) :
    ∀ f ∈ under directory l, '/' ∈ f.1.toList := by
  intro f member
  obtain ⟨g, -, rfl⟩ := List.mem_map.mp member
  exact String.toList_append ▸ List.mem_append_left _ inside

theorem below_taken {directory : String} (inside : '/' ∈ directory.toList) (names : List String)
    (content : String → Bytes) : ∀ f ∈ taken directory names content, '/' ∈ f.1.toList := by
  intro f member
  obtain ⟨g, -, rfl⟩ := List.mem_map.mp member
  exact String.toList_append ▸ List.mem_append_left _ inside

theorem copies_below (i : Inputs) : ∀ f ∈ copies i, '/' ∈ f.1.toList := by
  simp only [copies, List.forall_mem_append]
  have license : ∀ f ∈ i.license.elim [] (fun b => [("licenses/RKMoon-LICENSE", b)]), '/' ∈ f.1.toList := by
    cases i.license with
    | none => exact List.forall_mem_nil _
    | some b =>
      have below : '/' ∈ "licenses/RKMoon-LICENSE".toList := by decide
      exact List.forall_mem_singleton.mpr below
  exact ⟨⟨⟨⟨⟨⟨⟨⟨⟨by simp, below_taken (by decide) _ _⟩, below_under (by decide) _⟩, by simp⟩,
    below_under (by decide) _⟩, below_taken (by decide) _ _⟩, below_taken (by decide) _ _⟩,
    below_taken (by decide) _ _⟩, license⟩, below_under (by decide) _⟩

theorem apart_systemd {directory : String}
    (other : directory.toList.head? = some 'c' ∨ directory.toList.head? = some 'l') (rest name : String) : directory ++ rest ≠ "systemd/" ++ name := by
  intro same
  have full : directory.toList ≠ [] := by
    intro none
    rw [none] at other
    rcases other with is | is <;> cases is
  have first : (directory ++ rest).toList.head? = ("systemd/" ++ name).toList.head? := by rw [same]
  rw [String.toList_append, String.toList_append, List.head?_append_of_ne_nil _ full] at first
  rw [first] at other
  rcases other with is | is <;> cases is

theorem copies_unit (i : Inputs) {name : String} (member : name ∈ units) :
    (copies i).tree ("systemd/" ++ name) = some (i.units name) := by
  have config : (taken "config/" config i.config).tree ("systemd/" ++ name) = none := by
    apply tree_none
    intro f inside
    obtain ⟨n, -, rfl⟩ := List.mem_map.mp inside
    exact apart_systemd (.inl rfl) n name
  have license :
      Listing.tree (i.license.elim [] fun b => [("licenses/RKMoon-LICENSE", b)]) ("systemd/" ++ name) = none := by
    cases i.license with
    | none => rfl
    | some b =>
      have other : "licenses/" ++ "RKMoon-LICENSE" ≠ "systemd/" ++ name := apart_systemd (.inr rfl) _ name
      exact tree_none (List.forall_mem_singleton.mpr other)
  have licenses : (under "licenses/" i.licenses).tree ("systemd/" ++ name) = none := by
    apply tree_none
    intro f inside
    obtain ⟨g, -, rfl⟩ := List.mem_map.mp inside
    exact apart_systemd (.inr rfl) g.1 name
  rw [copies, tree_append, licenses, tree_append, license, tree_append, config, tree_append, tree_taken member]
  rfl

/-! The first configuration. -/

theorem config_plain : Json.Plain runtimeConfig := by
  have name (s : String) : Json.Text (text s) := Json.text_chars s.toList
  have audio : Json.Plain (.object [(text "enabled", .bool true),
      (text "alsa_device", .string (text "hw:CARD=rockchiphdmiin,DEV=0"))]) := by
    constructor <;> simp only [List.forall_mem_cons]
    · exact ⟨name _, name _, List.forall_mem_nil _⟩
    · exact ⟨.bool true, plain_text _, List.forall_mem_nil _⟩
  have input : Json.Plain (.object [(text "enabled", .bool true), (text "exclusive_hid_authorized", .bool true),
      (text "kvmd_socket", .string (text "/run/rkmoon-input/kvmd.sock")), (text "auth_headers_file", .null)]) := by
    constructor <;> simp only [List.forall_mem_cons]
    · exact ⟨name _, name _, name _, name _, List.forall_mem_nil _⟩
    · exact ⟨.bool true, .bool true, plain_text _, .null, List.forall_mem_nil _⟩
  constructor <;> simp only [List.forall_mem_cons]
  · exact ⟨name _, name _, name _, name _, name _, name _, name _, name _, name _, name _, name _, name _,
      List.forall_mem_nil _⟩
  · exact ⟨.int 1, plain_text _, plain_text _, plain_text _, plain_text _, .bool true, .bool true, .bool true,
      audio, input, .bool true, .bool true, List.forall_mem_nil _⟩

/-- The supervisor takes the configuration, and may start the input bridge with it. -/
def Starts (file : Bytes) : Prop := ∃ c, load file = .ok c ∧
  ∀ (executable state : Str) (release : Bool), ∃ args, Config.hidCommand executable state release c = .ok args

theorem config_starts : Starts configText := by
  have read : (readText configText).bind Json.loads = some runtimeConfig := loads_written config_plain
  have loaded : load configText = (match document runtimeConfig with
    | some d => Config.load d
    | none => .error .valueError) := by
    rw [load, read]
    rfl
  exact ⟨_, loaded, fun executable state release => ⟨_, rfl⟩⟩

/-- From the built artifacts to the installed server, for any earlier runs of the installer, cut anywhere: a
release that is packaged and then installed under a new version is the active one with exactly the files that
were copied, its units are the installed ones, and the first configuration starts. -/
theorem packaged_installed (sha256 : Bytes → String) (i : Inputs) (files : Listing) (version commit : String)
    (distinct : (files.map Prod.fst).Nodup) (listed : files.tree = (copies i).tree)
    (paths : ∀ f ∈ files, Relative f.1 ∧ joined f.1 = f.1) (component : Component version) (ls : List Label) (a : Args)
    (given : a.release = some (bundle sha256 paths version commit component))
    (new : (run (step sha256) {} ls).directories version = false) :
    let d := run (step sha256) {} ls
    let d' := complete sha256 d a
    verify sha256 (packaged sha256 files version commit).tree = .ok (.string (text version)) ∧
    d'.current = some version ∧
    (∀ name, name ≠ "MANIFEST.json" → d'.tree version name = (copies i).tree name) ∧
    ((∀ name ∈ units, (readText (i.units name)).isSome = true) → ∀ name ∈ units,
      d'.files (.unit name) = (readText (i.units name)).map fun t => textBytes (forUser a.user t)) ∧
    (d.files .config = none → ∃ file, d'.files .config = some file ∧ Starts file) := by
  intro d d'
  have plain : ∀ f ∈ files, f.1 ≠ "MANIFEST.json" := by
    intro f member same
    have there : (copies i).tree f.1 = some f.2 := listed ▸ tree_mem distinct member
    have none : (copies i).tree f.1 = none := tree_none fun g inside equal =>
      absurd (equal.trans same ▸ copies_below i g inside) (by decide)
    cases there.symm.trans none
  have good := packaged_verified sha256 paths version commit distinct plain
  have absent : d.directories (nameOf (text version)) = false := (nameOf_text version).symm ▸ new
  have active : Active d' (nameOf (text version)) (packaged sha256 files version commit).tree a.user :=
    install_active (run_sound ls) given good absent
  rw [nameOf_text] at active
  have same : ∀ name, name ≠ "MANIFEST.json" →
      (packaged sha256 files version commit).tree name = (copies i).tree name := by
    intro name other
    rw [packaged_other sha256 files version commit other, listed]
  refine ⟨good, active.current, fun name other => ?_, fun readable name member => ?_, fun first => ?_⟩
  · exact active.tree ▸ same name other
  · have unit : ∀ n ∈ units, unitText a.user (packaged sha256 files version commit).tree n =
        (readText (i.units n)).map fun t => textBytes (forUser a.user t) := by
      intro n inside
      have other : "systemd/" ++ n ≠ "MANIFEST.json" := by
        intro equal
        have slash : '/' ∈ ("systemd/" ++ n).toList := String.toList_append ▸ List.mem_append_left _ (by decide)
        exact absurd (equal ▸ slash) (by decide)
      rw [unitText, same _ other, copies_unit i inside]
      rfl
    have permuted : ∀ n, n ∈ order ↔ n ∈ units := by
      intro n
      simp only [order, units, List.mem_cons, List.not_mem_nil, or_false]
      tauto
    rw [active.units _ name ((permuted name).mpr member), unit name member]
    intro n inside
    rw [unit n ((permuted n).mp inside), Option.isSome_map]
    exact readable n ((permuted n).mp inside)
  · exact ⟨configText, install_config (run_sound ls) given good absent first, config_starts⟩

def emptyInputs : Inputs where
  server := []
  worker := []
  assets := fun _ => []
  runtimeLibs := []
  mppLib := []
  codec := []
  hid := [("server.py", [])]
  tools := fun _ => []
  units := fun _ => []
  config := fun _ => []

theorem empty_paths : ∀ f ∈ copies emptyInputs, Relative f.1 ∧ joined f.1 = f.1 := by decide +kernel

def installEmpty : Args where
  release := some (bundle (fun _ => emptyDigest) empty_paths "0.2" "unknown" (by decide))
  user := "at".toList

theorem packaged_installed_empty :
    (complete (fun _ => emptyDigest) {} installEmpty).current = some "0.2" ∧
    (complete (fun _ => emptyDigest) {} installEmpty).tree "0.2" "tools/run.py" = some [] ∧
    (complete (fun _ => emptyDigest) {} installEmpty).files (.unit "rkmoon.service") = some [] ∧
    ∃ file, (complete (fun _ => emptyDigest) {} installEmpty).files .config = some file ∧ Starts file := by
  have distinct : ((copies emptyInputs).map Prod.fst).Nodup := by decide +kernel
  obtain ⟨-, current, files, unit, first⟩ := packaged_installed (fun _ => emptyDigest) emptyInputs (copies emptyInputs)
    "0.2" "unknown" distinct rfl empty_paths (by decide) [] installEmpty rfl rfl
  rw [run_nil] at current files unit first
  have there : ("tools/run.py", []) ∈ copies emptyInputs := by decide +kernel
  have other : "tools/run.py" ≠ "MANIFEST.json" := by simp
  have empty : readText [] = some [] := readText_textBytes (t := []) List.not_mem_nil
  have readable : ∀ name ∈ units, (readText (emptyInputs.units name)).isSome = true := by
    intro name member
    rw [emptyInputs, empty]
    rfl
  refine ⟨current, (files "tools/run.py" other).trans (tree_mem distinct there), ?_, first rfl⟩
  rw [unit readable "rkmoon.service" (by simp [units]), emptyInputs, empty]
  rfl

end Tools.Package

import Mathlib.Data.List.Induction
import Mathlib.Data.List.Perm.Lattice
import RkmoonKvm.Library.Blocks
import RkmoonKvm.Library.LittleEndian
import RkmoonKvm.Library.Runs

/-! The EDID of the receiver: what the generator makes of a list of modes, with every one of its own
checks, and the tool that installs a file and keeps the EDID that was there before. -/
namespace Tools.Edid
open Blocks Runs

abbrev Mode := Int × Int × Int

def vics : List (Mode × UInt8) :=
  [((1920, 1080, 30), 34), ((1920, 1080, 60), 16), ((1920, 1080, 120), 63), ((3840, 2160, 30), 95),
    ((3840, 2160, 60), 97)]

def reverse (v : UInt8) : Option Mode := List.lookup v (vics.map Prod.swap)

def vic (m : Mode) : Option UInt8 := List.lookup m vics

def standard (modes : List Mode) : List UInt8 := modes.filterMap vic

def custom (modes : List Mode) : List Mode := modes.filter fun m => (vic m).isNone

def magic : List UInt8 := [0, 0xff, 0xff, 0xff, 0xff, 0xff, 0xff, 0]

def patch (b : List UInt8) (start : Nat) (bytes : List UInt8) : List UInt8 :=
  b.take start ++ bytes ++ b.drop (start + bytes.length)

def blank : List UInt8 := [0, 0, 0, 0x10, 0] ++ List.replicate 13 0

def named : List UInt8 :=
  [0, 0, 0, 0xfc, 0, 0x52, 0x4b, 0x4d, 0x6f, 0x6f, 0x6e, 0x20, 0x54, 0x72, 0x69, 0x61, 0x6c, 0x0a]

/-- The modes and descriptors of the old block are cleared, and one extension is announced. -/
def edits : List (Nat × List UInt8) :=
  [(35, List.replicate 3 0), (38, List.replicate 16 1), (72, blank ++ blank ++ blank), (72, named), (126, [1])]

def stripped (b : List UInt8) : List UInt8 :=
  let b := edits.foldl (fun b e => patch b e.1 e.2) b
  patch b 127 [checksum (b.take 127)]

def declared : List UInt8 :=
  [0x23, 0x09, 0x07, 0x01, 0x83, 0x01, 0x00, 0x00, 0x67, 0x03, 0x0c, 0x00, 0x10, 0x00, 0x00, 0x78,
    0x67, 0xd8, 0x5d, 0xc4, 0x01, 0x78, 0x80, 0x00]

def Timed (m : Mode) : Prop :=
  1 ≤ m.1 ∧ m.1 ≤ 65536 ∧ 1 ≤ m.2.1 ∧ m.2.1 ≤ 65536 ∧ 1 ≤ m.2.2 ∧ m.2.2 ≤ 256

instance (m : Mode) : Decidable (Timed m) := inferInstanceAs (Decidable (_ ∧ _))

/-- `struct.pack('<BHHB', 1, w-1, h-1, f-1)`, which fails out of range. -/
def typeX (m : Mode) : Option (List UInt8) :=
  if Timed m then
    some (1 :: (LittleEndian.bytes 2 (m.1 - 1).toNat ++ LittleEndian.bytes 2 (m.2.1 - 1).toNat ++
      LittleEndian.bytes 1 (m.2.2 - 1).toNat))
  else none

/-- The rounds of `range(0, len(custom), 4)`. -/
def fours : List Mode → List (List Mode)
  | [] => []
  | a :: b :: c :: d :: rest => [a, b, c, d] :: fours rest
  | few => [few]

def typeXBlock (modes : List Mode) : Option (List UInt8) := do
  let rows ← modes.mapM typeX
  let payload := [0x2a, 0] ++ rows.flatten
  return UInt8.ofNat (0xe0 ||| payload.length) :: payload

def untypeX : List UInt8 → Option (List Mode)
  | [] => some []
  | flags :: w₀ :: w₁ :: h₀ :: h₁ :: f :: rest =>
    if flags = 1 then
      (untypeX rest).map fun modes =>
        (LittleEndian.value [w₀, w₁] + 1, LittleEndian.value [h₀, h₁] + 1, f.toNat + 1) :: modes
    else none
  | _ => none

/-- What the walk of the generator makes of one data block. -/
def readBlock (tag : Nat) (p : List UInt8) : Option (List Mode) :=
  if tag = 2 then p.mapM reverse
  else if tag = 7 then
    match p with
    | [] => none
    | 0x2a :: _ => untypeX (p.drop 2)
    | _ => some []
  else some []

def decoded (ext : List UInt8) : Option (List Mode) := do
  let stop ← ext[2]?
  walk readBlock ext stop.toNat stop.toNat 4

structure Report where
  requestedModes : Nat
  vicModes : Nat
  typeXModes : Nat
  ctaDataBytes : Nat
  ctaUnusedBytes : Nat
  deriving DecidableEq

/-- The data blocks; `none` where a byte or a timing does not fit. -/
def dataBlocks (modes : List Mode) : Option (List UInt8) := do
  let count := 0x40 ||| (standard modes).length
  guard (count < 256)
  let blocks ← (fours (custom modes)).mapM typeXBlock
  return UInt8.ofNat count :: standard modes ++ declared ++ blocks.flatten

def extension (data : List UInt8) : List UInt8 :=
  let ext := [2, 3, UInt8.ofNat (4 + data.length), 0x40] ++ data
  let ext := ext ++ List.replicate (127 - ext.length) 0
  ext ++ [checksum ext]

def reportOf (modes : List Mode) (data : List UInt8) : Report where
  requestedModes := modes.length
  vicModes := (standard modes).length
  typeXModes := (custom modes).length
  ctaDataBytes := data.length
  ctaUnusedBytes := 123 - data.length

/-- `none` where an assertion or a conversion fails. -/
def generate (base : List UInt8) (modes : List Mode) : Option (List UInt8 × Report) := do
  let b := base.take 128
  guard (b.length = 128 ∧ b.take 8 = magic)
  let b := stripped b
  let data ← dataBlocks modes
  guard (data.length ≤ 123)
  let ext := extension data
  let out := b ++ ext
  guard (out.length = 256 ∧ total (out.take 128) % 256 = 0 ∧ total ((out.drop 128).take 128) % 256 = 0)
  let found ← decoded ext
  guard (List.Perm found modes)
  return (out, reportOf modes data)

/-! The base block. -/

theorem length_patch {b bytes : List UInt8} {start : Nat} (room : start + bytes.length ≤ b.length) :
    (patch b start bytes).length = b.length := by
  simp only [patch, List.length_append, List.length_take, List.length_drop]
  omega

theorem patch_outside {b bytes : List UInt8} {start place : Nat} (room : start + bytes.length ≤ b.length)
    (outside : place < start ∨ start + bytes.length ≤ place) : (patch b start bytes)[place]? = b[place]? := by
  have front : (b.take start).length = start := List.length_take_of_le (by omega)
  unfold patch
  rcases outside with before | behind
  · rw [List.append_assoc, List.getElem?_append_left (by omega), List.getElem?_take_of_lt before]
  · rw [List.getElem?_append_right (by simp only [List.length_append, front]; exact behind),
      List.getElem?_drop, List.length_append, front]
    congr 1
    omega

theorem patch_window {b bytes : List UInt8} {start : Nat} (place n : Nat) (room : start + bytes.length ≤ b.length)
    (apart : place + n ≤ start ∨ start + bytes.length ≤ place) :
    ((patch b start bytes).drop place).take n = (b.drop place).take n := by
  apply List.ext_getElem?
  intro i
  by_cases inside : i < n
  · rw [List.getElem?_take_of_lt inside, List.getElem?_take_of_lt inside, List.getElem?_drop, List.getElem?_drop]
    exact patch_outside room (by omega)
  · rw [List.getElem?_eq_none (by rw [List.length_take]; omega),
      List.getElem?_eq_none (by rw [List.length_take]; omega)]

theorem patches_window {es : List (Nat × List UInt8)} {b : List UInt8} (place n : Nat)
    (room : ∀ e ∈ es, e.1 + e.2.length ≤ b.length)
    (apart : ∀ e ∈ es, place + n ≤ e.1 ∨ e.1 + e.2.length ≤ place) :
    let s := es.foldl (fun b e => patch b e.1 e.2) b
    s.length = b.length ∧ (s.drop place).take n = (b.drop place).take n := by
  induction es generalizing b with
  | nil => exact ⟨rfl, rfl⟩
  | cons e es ih =>
    obtain ⟨fits, others⟩ := List.forall_mem_cons.mp room
    obtain ⟨away, others'⟩ := List.forall_mem_cons.mp apart
    have length := length_patch fits
    obtain ⟨same, window⟩ := ih (b := patch b e.1 e.2) (by rwa [length]) others'
    exact ⟨same.trans length, window.trans (patch_window place n fits away)⟩

/-- A sealed block that keeps who the display is and its preferred timing. -/
structure Keeps (b s : List UInt8) : Prop where
  length : s.length = 128
  sum : total s % 256 = 0
  identity : s.take 35 = b.take 35
  preferred : (s.drop 54).take 18 = (b.drop 54).take 18

theorem stripped_keeps {b : List UInt8} (length : b.length = 128) : Keeps b (stripped b) := by
  have room : ∀ e ∈ edits, e.1 + e.2.length ≤ b.length := by
    rw [length]
    decide
  obtain ⟨_, identity⟩ := patches_window 0 35 room (by decide)
  obtain ⟨same, preferred⟩ := patches_window 54 18 room (by decide)
  unfold stripped
  generalize edits.foldl (fun b e => patch b e.1 e.2) b = s at same identity preferred
  rw [length] at same
  have fits : 127 + [checksum (s.take 127)].length ≤ s.length := by
    rw [same]
    exact Nat.le_refl 128
  constructor
  · exact (length_patch fits).trans same
  · have ended : s.drop (127 + [checksum (s.take 127)].length) = [] := List.drop_eq_nil_of_le same.le
    rw [patch, ended, List.append_nil]
    exact total_checksum _
  · exact (patch_window 0 35 fits (.inl (by decide))).trans identity
  · exact (patch_window 54 18 fits (.inl (by decide))).trans preferred

/-! The data blocks. -/

theorem value_bytes_pred (width : Nat) {n : Int} (low : 1 ≤ n) (high : n ≤ (256 ^ width : Nat)) :
    (LittleEndian.value (LittleEndian.bytes width (n - 1).toNat) : Int) + 1 = n := by
  rw [LittleEndian.value_bytes, Nat.mod_eq_of_lt (by omega)]
  omega

theorem untypeX_typeX {m : Mode} (timed : Timed m) : ∃ row, typeX m = some row ∧ row.length = 6 ∧
    ∀ rest, untypeX (row ++ rest) = (untypeX rest).map fun modes => m :: modes := by
  obtain ⟨w, h, f⟩ := m
  refine ⟨_, if_pos timed, by simp, ?_⟩
  obtain ⟨lowW, highW, lowH, highH, lowF, highF⟩ := timed
  intro rest
  have width := value_bytes_pred 2 lowW highW
  have height := value_bytes_pred 2 lowH highH
  have refresh := value_bytes_pred 1 lowF highF
  simp only [LittleEndian.bytes] at width height refresh ⊢
  simp only [LittleEndian.value, Nat.mul_zero, Nat.add_zero] at refresh
  simp only [List.cons_append, List.nil_append, untypeX, if_pos, width, height, refresh]

structure Entry where
  block : Block
  modes : List Mode
  reads : readBlock block.tag block.payload = some modes

theorem rows_read {modes : List Mode} (timed : ∀ m ∈ modes, Timed m) :
    ∃ rows, modes.mapM typeX = some rows ∧ rows.flatten.length = 6 * modes.length ∧
      untypeX rows.flatten = some modes := by
  induction modes with
  | nil => exact ⟨[], rfl, rfl, rfl⟩
  | cons m modes ih =>
    obtain ⟨first, others⟩ := List.forall_mem_cons.mp timed
    obtain ⟨row, packed, six, back⟩ := untypeX_typeX first
    obtain ⟨rows, packs, length, reads⟩ := ih others
    refine ⟨row :: rows, by simp [packed, packs], ?_, ?_⟩
    · simp only [List.flatten_cons, List.length_append, List.length_cons, six, length]
      omega
    · rw [List.flatten_cons, back, reads]
      rfl

theorem typeXBlock_reads {modes : List Mode} (few : modes.length ≤ 4) (timed : ∀ m ∈ modes, Timed m) :
    ∃ e : Entry, typeXBlock modes = some (e.block.header :: e.block.payload) ∧ e.modes = modes ∧
      e.block.payload.length = 2 + 6 * modes.length := by
  obtain ⟨rows, packs, length, reads⟩ := rows_read timed
  have size : ([0x2a, 0] ++ rows.flatten : List UInt8).length = 2 + 6 * modes.length := by simp [length]; omega
  have back : readBlock 7 ([0x2a, 0] ++ rows.flatten) = some modes := by simp [readBlock, reads]
  refine ⟨⟨⟨7, [0x2a, 0] ++ rows.flatten, by omega⟩, modes, back⟩, ?_, rfl, size⟩
  have header : ∀ n, n < 32 → 0xe0 ||| n = 7 * 32 + n := by decide
  simp only [typeXBlock, packs, Option.bind_eq_bind, Option.bind_some, Option.pure_def, Block.header]
  rw [header _ (by omega)]
  rfl

theorem fours_flatten (modes : List Mode) : (fours modes).flatten = modes := by
  fun_induction fours modes with
  | case1 => rfl
  | case2 a b c d rest ih => simp [ih]
  | case3 few => simp

theorem fours_groups (modes : List Mode) :
    (∀ g ∈ fours modes, g.length ≤ 4) ∧ (fours modes).length = (modes.length + 3) / 4 := by
  fun_induction fours modes with
  | case1 => exact ⟨nofun, rfl⟩
  | case2 a b c d rest ih =>
    obtain ⟨small, count⟩ := ih
    refine ⟨List.forall_mem_cons.mpr ⟨le_rfl, small⟩, ?_⟩
    simp only [List.length_cons, count]
    omega
  | case3 few notNil notFour =>
    have short : few.length < 4 := by
      match few, notFour with
      | [], _ | [_], _ | [_, _], _ | [_, _, _], _ => simp
      | a :: b :: c :: d :: rest, no => exact (no a b c d rest rfl).elim
    have some_ : 0 < few.length := List.length_pos_iff.mpr notNil
    refine ⟨List.forall_mem_singleton.mpr short.le, ?_⟩
    simp only [List.length_singleton]
    omega

def Entry.pair (e : Entry) : Block × List Mode := (e.block, e.modes)

def bytes (es : List Entry) : List UInt8 := encode (es.map Entry.block)

theorem groups_read {groups : List (List Mode)} (small : ∀ g ∈ groups, g.length ≤ 4)
    (timed : ∀ g ∈ groups, ∀ m ∈ g, Timed m) :
    ∃ es : List Entry, (groups.mapM typeXBlock).map List.flatten = some (bytes es) ∧
      es.flatMap Entry.modes = groups.flatten ∧ es.length = groups.length ∧
      (bytes es).length = 3 * groups.length + 6 * groups.flatten.length := by
  induction groups with
  | nil => exact ⟨[], rfl, rfl, rfl, rfl⟩
  | cons g groups ih =>
    obtain ⟨few, smaller⟩ := List.forall_mem_cons.mp small
    obtain ⟨first, others⟩ := List.forall_mem_cons.mp timed
    obtain ⟨e, made, modes, length⟩ := typeXBlock_reads few first
    obtain ⟨es, rest, found, count, size⟩ := ih smaller others
    obtain ⟨row, packs, flat⟩ := Option.map_eq_some_iff.mp rest
    have joined : bytes (e :: es) = e.block.header :: e.block.payload ++ bytes es := rfl
    refine ⟨e :: es, ?_, ?_, ?_, ?_⟩
    · simp [made, packs, flat, joined]
    · simp [modes, found]
    · simp [count]
    · simp only [joined, List.length_append, List.length_cons, length, size, List.flatten_cons]
      omega

theorem reverse_vic {m : Mode} {v : UInt8} (known : vic m = some v) : reverse v = some m := by
  have all : ∀ e ∈ vics, reverse e.2 = some e.1 := by decide
  obtain ⟨front, rest, split, _⟩ := List.lookup_eq_some_iff.mp known
  exact all (m, v) (by rw [split]; exact List.mem_append_right _ List.mem_cons_self)

theorem standard_read (modes : List Mode) :
    (standard modes).mapM reverse = some (modes.filter fun m => (vic m).isSome) := by
  induction modes with
  | nil => rfl
  | cons m modes ih =>
    unfold standard at ih ⊢
    cases known : vic m with
    | none => simp [known, ih]
    | some v => simp [known, ih, reverse_vic known]

def declaredEntries : List Entry :=
  [⟨⟨1, [0x09, 0x07, 0x01], by decide⟩, [], rfl⟩, ⟨⟨4, [0x01, 0x00, 0x00], by decide⟩, [], rfl⟩,
    ⟨⟨3, [0x03, 0x0c, 0x00, 0x10, 0x00, 0x00, 0x78], by decide⟩, [], rfl⟩,
    ⟨⟨3, [0xd8, 0x5d, 0xc4, 0x01, 0x78, 0x80, 0x00], by decide⟩, [], rfl⟩]

theorem bytes_declared : bytes declaredEntries = declared := by decide

def videoEntry (modes : List Mode) (few : (standard modes).length < 32) : Entry where
  block := ⟨2, standard modes, few⟩
  modes := modes.filter fun m => (vic m).isSome
  reads := standard_read modes

/-- The bytes that the data blocks need. -/
def needed (modes : List Mode) : Nat :=
  25 + (standard modes).length + 3 * (((custom modes).length + 3) / 4) + 6 * (custom modes).length

theorem dataBlocks_read {modes : List Mode} (few : (standard modes).length < 32)
    (timed : ∀ m ∈ custom modes, Timed m) :
    ∃ es : List Entry, dataBlocks modes = some (bytes es) ∧ List.Perm (es.flatMap Entry.modes) modes ∧
      (bytes es).length = needed modes := by
  obtain ⟨small, count⟩ := fours_groups (custom modes)
  have grouped : ∀ g ∈ fours (custom modes), ∀ m ∈ g, Timed m := by
    intro g group m member
    apply timed
    rw [← fours_flatten (custom modes)]
    exact List.mem_flatten_of_mem group member
  obtain ⟨es, made, found, _, size⟩ := groups_read small grouped
  rw [fours_flatten] at found size
  have header : ∀ n, n < 32 → 0x40 ||| n = 2 * 32 + n := by decide
  have video := header _ few
  have all : bytes (videoEntry modes few :: (declaredEntries ++ es)) =
      UInt8.ofNat (2 * 32 + (standard modes).length) :: standard modes ++ declared ++ bytes es := by
    rw [← bytes_declared, bytes, List.map_cons, List.map_append, encode, List.flatMap_cons, ← encode, encode_append]
    simp [bytes, videoEntry, Block.header]
  refine ⟨videoEntry modes few :: (declaredEntries ++ es), ?_, ?_, ?_⟩
  · obtain ⟨row, packs, flat⟩ := Option.map_eq_some_iff.mp made
    have fits : 2 * 32 + (standard modes).length < 256 := by omega
    rw [all, ← flat]
    simp [dataBlocks, packs, video, fits, guard]
  · have others : custom modes = modes.filter fun m => !(vic m).isSome := by simp [custom]
    rw [List.flatMap_cons, List.flatMap_append, found, others]
    exact List.filter_append_perm _ modes
  · have constant : declared.length = 24 := by decide
    rw [all, needed]
    simp only [List.length_append, List.length_cons, constant, size, count]
    omega

theorem each_of_mapM {A B : Type} {f : A → Option B} {as : List A} {bs : List B}
    (made : as.mapM f = some bs) : ∀ a ∈ as, ∃ b, f a = some b := by
  induction as generalizing bs with
  | nil => exact List.forall_mem_nil _
  | cons a as ih =>
    simp only [List.mapM_cons, Option.bind_eq_bind, Option.bind_eq_some_iff] at made
    obtain ⟨b, first, bs, others, _⟩ := made
    exact List.forall_mem_cons.mpr ⟨⟨b, first⟩, ih others⟩

theorem timed_of_dataBlocks {modes : List Mode} {data : List UInt8} (made : dataBlocks modes = some data) :
    ∀ m ∈ custom modes, Timed m := by
  simp only [dataBlocks, Option.bind_eq_bind, Option.bind_eq_some_iff] at made
  obtain ⟨_, _, blocks, packed, _⟩ := made
  intro m member
  rw [← fours_flatten (custom modes)] at member
  obtain ⟨g, group, inside⟩ := List.mem_flatten.mp member
  obtain ⟨block, made⟩ := each_of_mapM packed g group
  simp only [typeXBlock, Option.bind_eq_bind, Option.bind_eq_some_iff] at made
  obtain ⟨rows, packs, _⟩ := made
  obtain ⟨row, packed⟩ := each_of_mapM packs m inside
  by_contra wide
  rw [typeX, if_neg wide] at packed
  cases packed

/-! The file. -/

theorem length_extension {data : List UInt8} (room : data.length ≤ 123) : (extension data).length = 128 := by
  simp only [extension, List.length_append, List.length_cons, List.length_nil, List.length_replicate]
  omega

theorem decoded_extension {es : List Entry} (room : (bytes es).length ≤ 123) :
    decoded (extension (bytes es)) = some (es.flatMap Entry.modes) := by
  have stop : (UInt8.ofNat (4 + (bytes es).length)).toNat = 4 + (bytes es).length := by
    rw [UInt8.toNat_ofNat']
    exact Nat.mod_eq_of_lt (by omega)
  have reads : ∀ e ∈ es.map Entry.pair, readBlock e.1.tag e.1.payload = some e.2 := by
    intro e member
    obtain ⟨entry, _, rfl⟩ := List.mem_map.mp member
    exact entry.reads
  have blocks : (es.map Entry.pair).map Prod.fst = es.map Entry.block := List.map_map
  have found : (es.map Entry.pair).flatMap Prod.snd = es.flatMap Entry.modes := List.flatMap_map ..
  have count := length_le_encode (es.map Entry.block)
  rw [List.length_map] at count
  obtain ⟨rest, around⟩ : ∃ rest, extension (bytes es) =
      [2, 3, UInt8.ofNat (4 + (bytes es).length), 0x40] ++ bytes es ++ rest := by
    unfold extension
    dsimp only
    exact ⟨_, by rw [List.append_assoc]⟩
  have walked : walk readBlock (extension (bytes es)) (4 + (bytes es).length) (4 + (bytes es).length) 4 =
      some (es.flatMap Entry.modes) := by
    rw [← found]
    apply walk_encode readBlock [2, 3, UInt8.ofNat (4 + (bytes es).length), 0x40] reads
    · rw [blocks]
      exact around
    · rw [blocks]
      rfl
    · rw [List.length_map]
      exact count.trans (Nat.le_add_left _ 4)
  have third : (extension (bytes es))[2]? = some (UInt8.ofNat (4 + (bytes es).length)) := by
    rw [around]
    rfl
  rw [decoded, third, Option.bind_eq_bind, Option.bind_some, stop]
  exact walked

def valid (raw : List UInt8) : Bool :=
  raw.length = 256 ∧ raw.take 8 = magic ∧ total (raw.take 128) % 256 = 0 ∧
    total ((raw.drop 128).take 128) % 256 = 0

def advertised (raw : List UInt8) : Option (List Mode) := decoded (raw.drop 128)

structure Made (base : List UInt8) (modes : List Mode) (out : List UInt8) (r : Report) : Prop where
  accepted : valid out = true
  identity : out.take 35 = base.take 35
  preferred : (out.drop 54).take 18 = (base.drop 54).take 18
  announced : ∃ found, advertised out = some found ∧ List.Perm found modes
  counted : r.vicModes + r.typeXModes = r.requestedModes
  room : r.ctaDataBytes + r.ctaUnusedBytes = 123

def Based (base : List UInt8) : Prop := 128 ≤ base.length ∧ base.take 8 = magic

theorem standard_custom (modes : List Mode) :
    (standard modes).length + (custom modes).length = modes.length := by
  induction modes with
  | nil => rfl
  | cons m modes ih =>
    unfold standard custom at ih ⊢
    cases known : vic m <;> simp [known] <;> omega

theorem halves {b s data : List UInt8} (keeps : Keeps b s) (room : data.length ≤ 123) :
    (s ++ extension data).length = 256 ∧ (s ++ extension data).take 128 = s ∧
      (s ++ extension data).drop 128 = extension data ∧
      total ((s ++ extension data).take 128) % 256 = 0 ∧
      total (((s ++ extension data).drop 128).take 128) % 256 = 0 := by
  have whole := length_extension room
  have sum : total (extension data) % 256 = 0 := total_checksum _
  have front : (s ++ extension data).take 128 = s := List.take_left' keeps.length
  have rest : (s ++ extension data).drop 128 = extension data := List.drop_left' keeps.length
  refine ⟨by rw [List.length_append, keeps.length, whole], front, rest, ?_, ?_⟩
  · rw [front]
    exact keeps.sum
  · rw [rest, List.take_of_length_le whole.le]
    exact sum

theorem generate_of {base : List UInt8} {modes : List Mode} (few : (standard modes).length < 32)
    (based : Based base) (timed : ∀ m ∈ custom modes, Timed m) (room : needed modes ≤ 123) :
    ∃ out r, generate base modes = some (out, r) ∧ Made base modes out r := by
  obtain ⟨long, mark⟩ := based
  have length : (base.take 128).length = 128 := List.length_take_of_le long
  have marked : (base.take 128).take 8 = magic := by rw [List.take_take]; exact mark
  have keeps := stripped_keeps length
  obtain ⟨es, data, announced, size⟩ := dataBlocks_read few timed
  have short : (bytes es).length ≤ 123 := by omega
  have found := decoded_extension short
  obtain ⟨whole, front, rest, sums⟩ := halves keeps short
  have begins : ∀ n, n ≤ 128 → (stripped (base.take 128) ++ extension (bytes es)).take n =
      (stripped (base.take 128)).take n := by
    intro n small
    exact List.take_append_of_le_length (by rw [keeps.length]; exact small)
  have same : ∀ n, n ≤ 128 → (base.take 128).take n = base.take n := by
    intro n small
    rw [List.take_take, Nat.min_eq_left small]
  refine ⟨stripped (base.take 128) ++ extension (bytes es), reportOf modes (bytes es), ?_, ?_⟩
  · simp only [generate, length, marked, data, short, whole, sums, found, announced, guard, and_self, if_true,
      Option.bind_eq_bind, Option.pure_def, Option.bind_some]
  · constructor
    · have magic_kept : (stripped (base.take 128)).take 8 = magic := by
        have eight := congrArg (List.take 8) keeps.identity
        rw [List.take_take, List.take_take] at eight
        exact eight.trans marked
      have begin_ := (begins 8 (by decide)).trans magic_kept
      simp only [valid, whole, begin_, sums, and_self, decide_true]
    · exact (begins 35 (by decide)).trans (keeps.identity.trans (same 35 (by decide)))
    · have window : ∀ l : List UInt8, (l.drop 54).take 18 = (l.take 72).drop 54 := by
        intro l
        rw [List.drop_take]
      have timing := keeps.preferred
      rw [window, window] at timing
      rw [window, window, begins 72 (by decide), timing, same 72 (by decide)]
    · exact ⟨_, by rw [advertised, rest]; exact found, announced⟩
    · exact standard_custom modes
    · exact Nat.add_sub_of_le short

theorem generate_some {base : List UInt8} {modes : List Mode} {made : List UInt8 × Report}
    (few : (standard modes).length < 32) (generated : generate base modes = some made) :
    Based base ∧ (∀ m ∈ custom modes, Timed m) ∧ needed modes ≤ 123 := by
  simp only [generate, guard, Option.bind_eq_bind, Option.bind_eq_some_iff] at generated
  obtain ⟨_, based, data, blocks, _, room, _⟩ := generated
  have timed := timed_of_dataBlocks blocks
  obtain ⟨es, read, _, size⟩ := dataBlocks_read few timed
  rw [blocks] at read
  cases read
  split at based
  next full =>
    obtain ⟨length, mark⟩ := full
    split at room
    next fits =>
      refine ⟨⟨?_, ?_⟩, timed, size ▸ fits⟩
      · rw [List.length_take] at length
        omega
      · rwa [List.take_take] at mark
    next => cases room
  next => cases based

/-- A list of modes becomes a file exactly when the base block is one, every other timing fits its row and
the data blocks fit the extension; no check of the generator fails then, and the file is what was asked for. -/
theorem generate_iff (base : List UInt8) (modes : List Mode) (few : (standard modes).length < 32) :
    ((generate base modes).isSome ↔
      Based base ∧ (∀ m ∈ custom modes, Timed m) ∧ needed modes ≤ 123) ∧
    ∀ out r, generate base modes = some (out, r) → Made base modes out r := by
  constructor
  · constructor
    · intro some_
      obtain ⟨made, generated⟩ := Option.isSome_iff_exists.mp some_
      exact generate_some few generated
    · rintro ⟨based, timed, room⟩
      obtain ⟨out, r, generated, _⟩ := generate_of few based timed room
      rw [generated]
      rfl
  · intro out r generated
    obtain ⟨based, timed, room⟩ := generate_some few generated
    obtain ⟨out', r', again, made⟩ := generate_of few based timed room
    rw [generated] at again
    cases again
    exact made

def requested : List Mode :=
  [(1920, 1080, 30), (1920, 1080, 60), (1920, 1080, 120), (1920, 1280, 90), (2560, 1440, 120), (2560, 1600, 120),
    (3840, 2160, 30), (3840, 2160, 60)]

theorem generate_requested :
    let base := magic ++ List.replicate 120 0
    (generate base requested).isSome ∧
      ∀ out r, generate base requested = some (out, r) → Made base requested out r := by
  intro base
  obtain ⟨succeeds, made⟩ := generate_iff base requested (by decide)
  exact ⟨succeeds.mpr ⟨⟨by simp [base, magic], rfl⟩, by decide, by decide⟩, made⟩

/-! The installer. -/

structure State where
  device : List UInt8
  /-- The backup file; a write that was cut leaves what it had written. -/
  backup : Option (List UInt8) := none
  deriving DecidableEq

structure Install where
  wanted : List UInt8
  /-- `--backup` is given. -/
  keep : Bool

inductive Effect where
  | create
  | write (b : UInt8)
  | set (edid : List UInt8)

/-- What `apply` does, once it has read the device. -/
def effects (s : State) (a : Install) : List Effect :=
  if !valid a.wanted then []
  else if s.device = a.wanted then []
  else
    (if a.keep ∧ s.backup = none ∧ valid s.device then .create :: s.device.map .write else []) ++ [.set a.wanted]

/-- The driver may store something else than what it was given. -/
def perform (stored : List UInt8 → List UInt8) (s : State) : Effect → State
  | .create => { s with backup := some [] }
  | .write b => { s with backup := s.backup.map (· ++ [b]) }
  | .set edid => { s with device := stored edid }

inductive Label where
  /-- An apply that is cut after a number of effects, or not at all. -/
  | apply (a : Install) (upTo : Nat) (stored : List UInt8 → List UInt8)
  /-- The receiver forgets its EDID, or another program writes one. -/
  | boot (device : List UInt8)

def step (s : State) : Label → State
  | .apply a upTo stored => ((effects s a).take upTo).foldl (perform stored) s
  | .boot device => { s with device }

/-- The label makes the backup: of this EDID, and of this many of its bytes. -/
structure Backs (s : State) (l : Label) (b : List UInt8) : Prop where
  first : s.backup = none
  whole : valid s.device = true
  cut : ∃ a n stored, l = .apply a (n + 1) stored ∧ a.keep ∧ s.device ≠ a.wanted ∧ b = s.device.take n

theorem writes_backup (stored : List UInt8 → List UInt8) (bs : List UInt8) {s : State} {b : List UInt8}
    (held : s.backup = some b) :
    (bs.map Effect.write).foldl (perform stored) s = { s with backup := some (b ++ bs) } := by
  induction bs generalizing s b with
  | nil =>
    rw [List.append_nil, ← held]
    rfl
  | cons x bs ih =>
    have next : (perform stored s (.write x)).backup = some (b ++ [x]) := by simp [perform, held]
    rw [List.map_cons, List.foldl_cons, ih next]
    simp [perform]

theorem set_backup (stored : List UInt8 → List UInt8) (edid : List UInt8) (n : Nat) (s : State) :
    (([Effect.set edid].take n).foldl (perform stored) s).backup = s.backup := by
  cases n with
  | zero => rfl
  | succ n =>
    rw [List.take_succ_cons, List.take_nil]
    rfl

theorem step_backup (s : State) (l : Label) :
    (step s l).backup = s.backup ∨ ∃ b, Backs s l b ∧ (step s l).backup = some b := by
  cases l with
  | boot device => exact .inl rfl
  | apply a upTo stored =>
    simp only [step, effects]
    split
    · exact .inl (by rw [List.take_nil]; rfl)
    · split
      · exact .inl (by rw [List.take_nil]; rfl)
      · rename_i differs
        split
        next making =>
          obtain ⟨keep, none_, whole⟩ := making
          cases upTo with
          | zero => exact .inl rfl
          | succ n =>
            right
            refine ⟨s.device.take n, ⟨none_, whole, a, n, stored, rfl, keep, differs, rfl⟩, ?_⟩
            have created : (perform stored s .create).backup = some [] := rfl
            rw [List.cons_append, List.take_succ_cons, List.foldl_cons, List.take_append, List.foldl_append,
              ← List.map_take, writes_backup stored _ created, set_backup]
            rfl
        next => exact .inl (set_backup stored _ _ s)

theorem backup_kept {s : State} {b : List UInt8} (held : s.backup = some b) (ls : List Label) :
    (run step s ls).backup = some b := by
  induction ls generalizing s with
  | nil => exact held
  | cons l ls ih =>
    apply ih
    rcases step_backup s l with same | ⟨_, backs, _⟩
    · rw [same]
      exact held
    · rw [backs.first] at held
      cases held

/-- Where a backup comes from. -/
theorem backup_origin (d b : List UInt8) (ls : List Label) (held : (run step ⟨d, none⟩ ls).backup = some b) :
    ∃ before l after, ls = before ++ l :: after ∧ Backs (run step ⟨d, none⟩ before) l b := by
  induction ls using List.reverseRecOn with
  | nil => cases held
  | append_singleton ls l ih =>
    rw [run_concat] at held
    rcases step_backup (run step ⟨d, none⟩ ls) l with same | ⟨b', backs, made⟩
    · rw [same] at held
      obtain ⟨before, l', after, rfl, backs⟩ := ih held
      exact ⟨before, l', after ++ [l], by simp, backs⟩
    · rw [made] at held
      cases held
      exact ⟨ls, l, [], rfl, backs⟩

/-- A file that the installer takes is not a shorter piece of one. -/
theorem whole_of_valid {edid : List UInt8} {n : Nat} (whole : valid edid = true)
    (accepted : valid (edid.take n) = true) : edid.take n = edid := by
  simp only [valid, decide_eq_true_eq] at whole accepted
  have length := accepted.1
  rw [List.length_take, whole.1] at length
  exact List.take_of_length_le (by omega)

/-- Applying the backup: refused without a trace if it was cut, else it is what the device has then. -/
def Restores (s : State) (b old : List UInt8) : Prop :=
  if valid b then b = old ∧ ∀ keep upTo stored, stored b = b → 0 < upTo →
    (step s (.apply ⟨b, keep⟩ upTo stored)).device = old
  else ∀ keep upTo stored, step s (.apply ⟨b, keep⟩ upTo stored) = s

theorem restores_held {s : State} {b old : List UInt8} (held : s.backup = some b)
    (whole : valid b = true → b = old) : Restores s b old := by
  unfold Restores
  split
  · rename_i accepted
    refine ⟨whole accepted, ?_⟩
    intro keep upTo stored faithful some_
    rw [← whole accepted]
    obtain ⟨n, rfl⟩ : ∃ n, upTo = n + 1 := ⟨upTo - 1, by omega⟩
    simp only [step, effects, accepted, held]
    by_cases there : s.device = b
    · simp [there]
    · simp [there, perform, faithful]
  · rename_i refused
    intro keep upTo stored
    simp [step, effects, refused]

/-- However often EDIDs are applied, cut at any point, stored otherwise or forgotten: the backup is the EDID
before the first apply that would change it, as far as that apply came, and it stays so for good. When it is whole,
applying it brings that EDID back; when it was cut, the installer refuses it. -/
theorem first_edid_restored (d b : List UInt8) (ls : List Label)
    (held : (run step ⟨d, none⟩ ls).backup = some b) :
    ∃ before l after, ls = before ++ l :: after ∧ Backs (run step ⟨d, none⟩ before) l b ∧
      ∀ later, let s := run step (run step ⟨d, none⟩ ls) later
        s.backup = some b ∧ Restores s b (run step ⟨d, none⟩ before).device := by
  obtain ⟨before, l, after, split, backs⟩ := backup_origin d b ls held
  refine ⟨before, l, after, split, backs, ?_⟩
  intro later s
  have kept : s.backup = some b := backup_kept held later
  refine ⟨kept, restores_held kept ?_⟩
  intro accepted
  obtain ⟨_, n, _, _, _, _, rfl⟩ := backs.cut
  exact whole_of_valid backs.whole accepted

def firstEdid : List UInt8 := magic ++ List.replicate 119 0 ++ [6] ++ List.replicate 128 0

def secondEdid : List UInt8 := magic ++ List.replicate 119 0 ++ [6] ++ List.replicate 128 2

theorem first_edid_restored_whole :
    let s := run step ⟨firstEdid, none⟩ [.apply ⟨secondEdid, true⟩ 300 id]
    s.device = secondEdid ∧ ∀ later, (run step s later).backup = some firstEdid := by
  intro s
  have held : s.backup = some firstEdid := by decide +kernel
  obtain ⟨_, _, _, _, _, kept⟩ :=
    first_edid_restored firstEdid firstEdid [.apply ⟨secondEdid, true⟩ 300 id] held
  exact ⟨by decide +kernel, fun later => (kept later).1⟩

end Tools.Edid

import Mathlib.Algebra.BigOperators.Group.List.Basic
import Mathlib.Data.List.Infix
import RkmoonKvm.Video.Annexb

/-! The NAL units of a byte stream: the scan finds the units that were put in,
and the report on them is what the header bits of the units say. -/
namespace Video

def nalsLoop : Nat → List UInt8 → List (List UInt8)
  | _, [] => []
  | 0, _ :: _ => []
  | fuel + 1, b@(_ :: _) =>
    (splitNal (b.drop (prefixSize b))).1 :: nalsLoop fuel (splitNal (b.drop (prefixSize b))).2

def nals (b : List UInt8) : List (List UInt8) := nalsLoop b.length b

theorem splitNal_rest (b : List UInt8) :
    (splitNal b).2 = [] ∨ prefixSize (splitNal b).2 ≠ 0 := by
  induction b with
  | nil => exact .inl rfl
  | cons x xs ih =>
    unfold splitNal
    split
    · rename_i found
      exact .inr found
    · exact ih

theorem drop_prefixSize_length {b : List UInt8} {fuel : Nat} (found : prefixSize b ≠ 0)
    (enough : b.length ≤ fuel + 1) : (splitNal (b.drop (prefixSize b))).2.length ≤ fuel := by
  have h := splitNal_length (b.drop (prefixSize b))
  simp only [List.length_drop] at h
  omega

theorem inspectLoop_round (c : Codec) {b : List UInt8} (n : Nals) (fuel : Nat)
    (found : prefixSize b ≠ 0) : inspectLoop c (fuel + 1) b n =
      inspectNal c n (splitNal (b.drop (prefixSize b))).1 >>=
        inspectLoop c fuel (splitNal (b.drop (prefixSize b))).2 := by
  cases b with
  | nil => exact absurd rfl found
  | cons x xs => exact if_neg found

theorem inspectLoop_eq (c : Codec) (b : List UInt8) (n : Nals) (fuel : Nat)
    (enough : b.length ≤ fuel) (start : b = [] ∨ prefixSize b ≠ 0) :
    inspectLoop c fuel b n = (nalsLoop fuel b).foldlM (inspectNal c) n := by
  induction fuel generalizing b n with
  | zero =>
    cases b with
    | nil => rfl
    | cons x xs => simp at enough
  | succ fuel ih =>
    cases b with
    | nil => rfl
    | cons x xs =>
      have found : prefixSize (x :: xs) ≠ 0 := start.resolve_left (by simp)
      have shorter := drop_prefixSize_length found enough
      rw [inspectLoop_round c n fuel found, nalsLoop, List.foldlM_cons]
      refine congrArg (inspectNal c n _ >>= ·) (funext fun n' => ?_)
      exact ih _ n' shorter (splitNal_rest _)

theorem inspectAnnexb_eq {c : Codec} {b : List UInt8} (known : c = .h264 ∨ c = .hevc)
    (small : b.length ≤ maxAu) (start : prefixSize b ≠ 0) :
    inspectAnnexb c b = (nals b).foldlM (inspectNal c) {} := by
  have codec : ¬ (c ≠ .h264 ∧ c ≠ .hevc) := by tauto
  have bounded : ¬ (b = [] ∨ maxAu < b.length ∨ prefixSize b = 0) := by
    rintro (rfl | long | none)
    · exact start rfl
    · omega
    · exact start none
  unfold inspectAnnexb
  rw [if_neg codec, if_neg bounded]
  exact inspectLoop_eq c b {} b.length (Nat.le_refl _) (.inr start)

/-! Streams made of units. -/

def startCode (long : Bool) : List UInt8 := if long then [0, 0, 0, 1] else [0, 0, 1]

/-- A unit that a stream can carry: no start code inside, no zero at the end. -/
structure Carried (nal : List UInt8) : Prop where
  nonempty : nal ≠ []
  clean : ¬ [0, 0, 1] <:+: nal
  ended : nal.getLast? ≠ some 0

def annexb (units : List (Bool × List UInt8)) : List UInt8 :=
  units.flatMap fun u => startCode u.1 ++ u.2

theorem prefixSize_startCode (long : Bool) (nal rest : List UInt8) :
    prefixSize (startCode long ++ (nal ++ rest)) = (startCode long).length := by
  cases long <;> rfl

theorem startCode_prefix (b : List UInt8) (found : prefixSize b ≠ 0) :
    [0, 0, 1] <+: b ∨ [0, 0, 0, 1] <+: b := by
  unfold prefixSize at found
  split at found
  · exact .inl ⟨_, rfl⟩
  · exact .inr ⟨_, rfl⟩
  · exact absurd rfl found

theorem annexb_start (units : List (Bool × List UInt8)) :
    annexb units = [] ∨ prefixSize (annexb units) ≠ 0 := by
  cases units with
  | nil => exact .inl rfl
  | cons u us =>
    right
    simp only [annexb, List.flatMap_cons, List.append_assoc, prefixSize_startCode]
    cases u.1 <;> simp [startCode]

/-- No start code begins inside a unit, not even one that runs over its end. -/
theorem prefixSize_inside {nal rest : List UInt8} (nonempty : nal ≠ [])
    (clean : ¬ [0, 0, 1] <:+: nal) (ended : nal.getLast? ≠ some 0) :
    prefixSize (nal ++ rest) = 0 := by
  by_contra found
  have inside : ¬ [0, 0, 1] <+: nal := fun front => clean front.isInfix
  rcases startCode_prefix _ found with ⟨t, front⟩ | ⟨t, front⟩
  · match nal, front with
    | [], _ => exact nonempty rfl
    | [x], front => exact ended (by simp [(List.cons.inj front).1])
    | [x, y], front =>
      obtain ⟨-, zero⟩ := List.cons.inj front
      exact ended (by simp [(List.cons.inj zero).1])
    | x :: y :: z :: tail, front =>
      simp only [List.cons_append, List.nil_append, List.cons.injEq] at front
      obtain ⟨rfl, rfl, rfl, -⟩ := front
      exact inside ⟨tail, rfl⟩
  · match nal, front with
    | [], _ => exact nonempty rfl
    | [x], front => exact ended (by simp [(List.cons.inj front).1])
    | [x, y], front =>
      obtain ⟨-, zero⟩ := List.cons.inj front
      exact ended (by simp [(List.cons.inj zero).1])
    | [x, y, z], front =>
      simp only [List.cons_append, List.nil_append, List.cons.injEq] at front
      exact ended (by simp [front.2.2.1])
    | x :: y :: z :: w :: tail, front =>
      simp only [List.cons_append, List.nil_append, List.cons.injEq] at front
      obtain ⟨rfl, rfl, rfl, rfl, -⟩ := front
      exact clean ⟨[0], tail, rfl⟩

theorem splitNal_unit {nal rest : List UInt8} (clean : ¬ [0, 0, 1] <:+: nal)
    (ended : nal.getLast? ≠ some 0) (start : rest = [] ∨ prefixSize rest ≠ 0) :
    splitNal (nal ++ rest) = (nal, rest) := by
  induction nal with
  | nil =>
    rcases start with rfl | found
    · rfl
    · cases rest with
      | nil => rfl
      | cons x xs => simp [splitNal, found]
  | cons x xs ih =>
    have here : prefixSize (x :: xs ++ rest) = 0 :=
      prefixSize_inside (List.cons_ne_nil x xs) clean ended
    have later := ih (fun inside => clean (inside.trans (List.suffix_cons x xs).isInfix))
      (fun zero => ended (by rw [List.getLast?_cons, zero]; rfl))
    simp only [List.cons_append] at here ⊢
    simp only [splitNal, here, later, ne_eq, not_true_eq_false, if_false]

theorem nalsLoop_annexb (units : List (Bool × List UInt8)) (fuel : Nat)
    (carried : ∀ u ∈ units, Carried u.2) (enough : (annexb units).length ≤ fuel) :
    nalsLoop fuel (annexb units) = units.map Prod.snd := by
  induction units generalizing fuel with
  | nil => cases fuel <;> rfl
  | cons u us ih =>
    have unit := carried u List.mem_cons_self
    have later : ∀ u ∈ us, Carried u.2 := fun u' member =>
      carried u' (List.mem_cons_of_mem u member)
    have bytes : annexb (u :: us) = startCode u.1 ++ (u.2 ++ annexb us) := by
      simp [annexb]
    have size : 0 < (startCode u.1).length := by cases u.1 <;> simp [startCode]
    cases fuel with
    | zero =>
      rw [bytes, List.length_append] at enough
      omega
    | succ fuel =>
      have rest : (annexb us).length ≤ fuel := by
        rw [bytes, List.length_append, List.length_append] at enough
        omega
      have front : ∃ x xs, annexb (u :: us) = x :: xs := by
        rw [bytes]
        cases u.1 <;> exact ⟨_, _, rfl⟩
      obtain ⟨x, xs, spelled⟩ := front
      have round : splitNal ((annexb (u :: us)).drop (prefixSize (annexb (u :: us)))) =
          (u.2, annexb us) := by
        rw [bytes, prefixSize_startCode, List.drop_left]
        exact splitNal_unit unit.clean unit.ended (annexb_start us)
      rw [spelled] at round ⊢
      simp only [nalsLoop, round, ih fuel later rest, List.map_cons]

theorem nals_annexb {units : List (Bool × List UInt8)} (carried : ∀ u ∈ units, Carried u.2) :
    nals (annexb units) = units.map Prod.snd :=
  nalsLoop_annexb units _ carried (Nat.le_refl _)

/-! What the first bytes of a unit say. -/

/-- The header of an HEVC unit: a forbidden bit, then a type of six bits, a layer
of six, and a temporal id of three. -/
def hevcHeader (nal : List UInt8) : Nat := 256 * (nal.getD 0 0).toNat + (nal.getD 1 0).toNat

def forbidden (nal : List UInt8) : Bool := 128 ≤ (nal.getD 0 0).toNat

def nalType (c : Codec) (nal : List UInt8) : Nat :=
  if c = .hevc then hevcHeader nal / 512 % 64 else (nal.getD 0 0).toNat % 32

def isSlice (c : Codec) (nal : List UInt8) : Bool :=
  if c = .hevc then nalType c nal ≤ 31 else nalType c nal = 1 || nalType c nal = 5

def isIdrSlice (c : Codec) (nal : List UInt8) : Bool :=
  if c = .hevc then nalType c nal = 19 || nalType c nal = 20 else nalType c nal = 5

def isFirstSlice (c : Codec) (nal : List UInt8) : Bool :=
  isSlice c nal && (128 ≤ (nal.getD (if c = .hevc then 2 else 1) 0).toNat)

def isVps (c : Codec) (nal : List UInt8) : Bool := c = .hevc && nalType c nal = 32

def isSps (c : Codec) (nal : List UInt8) : Bool := nalType c nal = if c = .hevc then 33 else 7

def isPps (c : Codec) (nal : List UInt8) : Bool := nalType c nal = if c = .hevc then 34 else 8

/-- The types that a stream may hold: in HEVC no random access point but the IDR,
in H.264 no data partition and nothing above the types of the base standard. -/
def allowedType (c : Codec) (t : Nat) : Bool :=
  if c = .hevc then t < 16 || 23 < t || t = 19 || t = 20 else t = 1 || (5 ≤ t && t < 24)

structure Valid (c : Codec) (nal : List UInt8) : Prop where
  header : (if c = .hevc then 2 else 1) ≤ nal.length
  permitted : forbidden nal = false
  layer : c = .hevc → hevcHeader nal / 8 % 64 = 0
  temporal : c = .hevc → hevcHeader nal % 8 ≠ 0
  type : allowedType c (nalType c nal)
  slice : isSlice c nal → (if c = .hevc then 3 else 2) ≤ nal.length

def report (c : Codec) (units : List (List UInt8)) : Nals where
  vcl := units.any (isSlice c)
  idr := units.any (isIdrSlice c)
  vps := units.any (isVps c)
  sps := units.any (isSps c)
  pps := units.any (isPps c)
  count := units.length
  pictures := units.countP (isFirstSlice c)

theorem top_bit (x : UInt8) : x &&& 0x80 = 0 ↔ ¬ 128 ≤ x.toNat := by
  have every : ∀ i : Fin 256, UInt8.ofFin i &&& 0x80 = 0 ↔ ¬ 128 ≤ (UInt8.ofFin i).toNat := by decide +kernel
  exact every x.toFin

theorem low_bits (x mask : UInt8) (k : Nat) (is : mask.toNat = 2 ^ k - 1) :
    (x &&& mask).toNat = x.toNat % 2 ^ k := by
  rw [UInt8.toNat_and, is, Nat.and_two_pow_sub_one_eq_mod]

theorem low_bit (x : UInt8) : x &&& 1 = 0 ↔ x.toNat % 2 = 0 := by
  rw [← UInt8.toNat_inj, low_bits x 1 1 rfl]
  rfl

theorem layer_bits (x : UInt8) : x >>> 3 = 0 ↔ x.toNat / 8 = 0 := by
  rw [← UInt8.toNat_inj, UInt8.toNat_shiftRight, Nat.shiftRight_eq_div_pow]
  rfl

theorem temporal_bits (x : UInt8) : x &&& 7 = 0 ↔ x.toNat % 8 = 0 := by
  rw [← UInt8.toNat_inj, low_bits x 7 3 rfl]
  rfl

theorem hevc_type_bits (x : UInt8) : ((x >>> 1) &&& 63).toNat = x.toNat / 2 % 64 := by
  rw [low_bits _ 63 6 rfl, UInt8.toNat_shiftRight, Nat.shiftRight_eq_div_pow]
  rfl

theorem h264_type_bits (x : UInt8) : (x &&& 31).toNat = x.toNat % 32 := low_bits x 31 5 rfl

def Nals.add (c : Codec) (n : Nals) (nal : List UInt8) : Nals where
  vcl := n.vcl || isSlice c nal
  idr := n.idr || isIdrSlice c nal
  vps := n.vps || isVps c nal
  sps := n.sps || isSps c nal
  pps := n.pps || isPps c nal
  count := n.count + 1
  pictures := n.pictures + if isFirstSlice c nal then 1 else 0

theorem hevc_type (nal : List UInt8) :
    ((nal.getD 0 0 >>> 1) &&& 63).toNat = nalType .hevc nal := by
  have low := (nal.getD 1 0).toNat_lt
  rw [hevc_type_bits]
  simp only [nalType, hevcHeader, if_true]
  omega

theorem h264_type (nal : List UInt8) : (nal.getD 0 0 &&& 31).toNat = nalType .h264 nal :=
  h264_type_bits _

theorem hevc_fields (nal : List UInt8) :
    nal.getD 0 0 &&& 1 ≠ 0 ∨ nal.getD 1 0 >>> 3 ≠ 0 ∨ nal.getD 1 0 &&& 7 = 0 ↔
      hevcHeader nal / 8 % 64 ≠ 0 ∨ hevcHeader nal % 8 = 0 := by
  have low := (nal.getD 1 0).toNat_lt
  rw [Ne, Ne, low_bit, layer_bits, temporal_bits]
  simp only [hevcHeader]
  omega

theorem inspectHevc_eq (n : Nals) (nal : List UInt8) : inspectHevc n nal =
    if hevcHeader nal / 8 % 64 ≠ 0 ∨ hevcHeader nal % 8 = 0 then
      throw "nonzero HEVC layer or zero temporal_id_plus1"
    else if isSlice .hevc nal ∧ nal.length < 3 then throw "truncated HEVC slice"
    else if allowedType .hevc (nalType .hevc nal) = false then
      throw "v1 requires closed IDR, not CRA/BLA recovery"
    else pure (n.add .hevc nal) := by
  have type := hevc_type nal
  unfold inspectHevc Nals.add
  generalize nal.getD 0 0 >>> 1 &&& 63 = t at type
  have same : ∀ k : UInt8, t = k ↔ nalType .hevc nal = k.toNat := by
    intro k
    rw [← type, UInt8.toNat_inj]
  have slice : t ≤ 31 ↔ isSlice .hevc nal = true := by
    simp [isSlice, ← type, UInt8.le_iff_toNat_le]
  have refused : 16 ≤ t ∧ t ≤ 23 ∧ t ≠ 19 ∧ t ≠ 20 ↔
      allowedType .hevc (nalType .hevc nal) = false := by
    simp only [allowedType, Ne, same, UInt8.le_iff_toNat_le, type, if_true]
    simp
    omega
  have first : t ≤ 31 ∧ nal.getD 2 0 &&& 0x80 ≠ 0 ↔ isFirstSlice .hevc nal = true := by
    rw [Ne, top_bit, slice]
    simp [isFirstSlice]
  refine if_congr (hevc_fields nal) rfl (if_congr ?_ rfl (if_congr refused rfl ?_))
  · rw [slice]
  · simp only [first]
    simp only [slice, same]
    simp [isIdrSlice, isVps, isSps, isPps, Bool.or_assoc]

theorem inspectH264_eq (n : Nals) (nal : List UInt8) : inspectH264 n nal =
    if nalType .h264 nal = 0 ∨ 24 ≤ nalType .h264 nal then throw "unsupported H264 NAL type"
    else if isSlice .h264 nal ∧ nal.length < 2 then throw "truncated H264 slice"
    else if 2 ≤ nalType .h264 nal ∧ nalType .h264 nal ≤ 4 then
      throw "H264 data partitioning unsupported"
    else pure (n.add .h264 nal) := by
  have type := h264_type nal
  have other : Codec.h264 ≠ .hevc := by decide
  unfold inspectH264 Nals.add
  generalize nal.getD 0 0 &&& 31 = t at type
  have same : ∀ k : UInt8, t = k ↔ nalType .h264 nal = k.toNat := by
    intro k
    rw [← type, UInt8.toNat_inj]
  have slice : t = 1 ∨ t = 5 ↔ isSlice .h264 nal = true := by
    simp [isSlice, other, same]
  have first : (t = 1 ∨ t = 5) ∧ nal.getD 1 0 &&& 0x80 ≠ 0 ↔ isFirstSlice .h264 nal = true := by
    rw [Ne, top_bit, slice]
    simp [isFirstSlice, other]
  refine if_congr ?_ rfl (if_congr ?_ rfl (if_congr ?_ rfl ?_))
  · rw [same, UInt8.le_iff_toNat_le, type]
    rfl
  · rw [slice]
  · rw [UInt8.le_iff_toNat_le, UInt8.le_iff_toNat_le, type]
    rfl
  · simp only [first]
    simp only [same]
    simp [isSlice, isIdrSlice, isVps, isSps, isPps, other, Bool.or_assoc]

theorem inspectHevc_iff {n n' : Nals} {nal : List UInt8} (header : 2 ≤ nal.length)
    (permitted : forbidden nal = false) :
    inspectHevc n nal = .ok n' ↔ Valid .hevc nal ∧ n' = n.add .hevc nal := by
  rw [inspectHevc_eq]
  constructor
  · intro ok
    split at ok
    · cases ok
    rename_i fields
    split at ok
    · cases ok
    rename_i slice
    split at ok
    · cases ok
    rename_i type
    obtain ⟨layer, temporal⟩ := not_or.mp fields
    cases ok
    exact ⟨⟨header, permitted, fun _ => not_not.mp layer, fun _ => temporal,
      (Bool.not_eq_false _).mp type, fun holds => Nat.le_of_not_lt fun short =>
        slice ⟨holds, short⟩⟩, rfl⟩
  · rintro ⟨valid, rfl⟩
    rw [if_neg, if_neg, if_neg]
    · rfl
    · exact (Bool.not_eq_false _).mpr valid.type
    · exact fun short => absurd (valid.slice short.1) (Nat.not_le.mpr short.2)
    · exact not_or.mpr ⟨not_not.mpr (valid.layer rfl), valid.temporal rfl⟩

theorem inspectH264_iff {n n' : Nals} {nal : List UInt8} (header : 1 ≤ nal.length)
    (permitted : forbidden nal = false) :
    inspectH264 n nal = .ok n' ↔ Valid .h264 nal ∧ n' = n.add .h264 nal := by
  have other : Codec.h264 ≠ .hevc := by decide
  have allowed : allowedType .h264 (nalType .h264 nal) = true ↔
      ¬ (nalType .h264 nal = 0 ∨ 24 ≤ nalType .h264 nal) ∧
        ¬ (2 ≤ nalType .h264 nal ∧ nalType .h264 nal ≤ 4) := by
    simp [allowedType, other]
    omega
  rw [inspectH264_eq]
  constructor
  · intro ok
    split at ok
    · cases ok
    rename_i supported
    split at ok
    · cases ok
    rename_i slice
    split at ok
    · cases ok
    rename_i partition
    cases ok
    exact ⟨⟨header, permitted, fun hevc => absurd hevc other, fun hevc => absurd hevc other,
      allowed.mpr ⟨supported, partition⟩, fun holds => Nat.le_of_not_lt fun short =>
        slice ⟨holds, short⟩⟩, rfl⟩
  · rintro ⟨valid, rfl⟩
    obtain ⟨supported, partition⟩ := allowed.mp valid.type
    rw [if_neg supported, if_neg, if_neg partition]
    · rfl
    · exact fun short => absurd (valid.slice short.1) (Nat.not_le.mpr short.2)

theorem inspectNal_iff {c : Codec} (known : c = .h264 ∨ c = .hevc) {n n' : Nals}
    {nal : List UInt8} : inspectNal c n nal = .ok n' ↔ Valid c nal ∧ n' = n.add c nal := by
  by_cases bad : nal.length < (if c = .hevc then 2 else 1) ∨ nal.getD 0 0 &&& 0x80 ≠ 0
  · have invalid : ¬ Valid c nal := by
      intro valid
      rcases bad with short | set
      · exact absurd valid.header (Nat.not_le.mpr short)
      · rw [Ne, top_bit, not_not] at set
        exact of_decide_eq_false valid.permitted set
    unfold inspectNal
    rw [if_pos bad]
    simp [invalid, throw, throwThe, MonadExceptOf.throw]
  · obtain ⟨header, permitted⟩ := not_or.mp bad
    rw [not_not, top_bit] at permitted
    have permitted : forbidden nal = false := decide_eq_false permitted
    unfold inspectNal
    rw [if_neg bad]
    rcases known with rfl | rfl
    · exact inspectH264_iff (Nat.le_of_not_lt header) permitted
    · exact inspectHevc_iff (Nat.le_of_not_lt header) permitted

theorem inspect_units {c : Codec} (known : c = .h264 ∨ c = .hevc) {n n' : Nals}
    (units : List (List UInt8)) : units.foldlM (inspectNal c) n = .ok n' ↔
      (∀ nal ∈ units, Valid c nal) ∧ n' = units.foldl (Nals.add c) n := by
  induction units generalizing n with
  | nil => simp [pure, Except.pure, eq_comm]
  | cons nal units ih =>
    rw [List.foldlM_cons, List.forall_mem_cons, List.foldl_cons]
    cases here : inspectNal c n nal with
    | error e =>
      have invalid : ¬ Valid c nal := fun valid => by
        cases here.symm.trans ((inspectNal_iff known).mpr ⟨valid, rfl⟩)
      simp [invalid, bind, Except.bind]
    | ok n₁ =>
      obtain ⟨valid, rfl⟩ := (inspectNal_iff known).mp here
      simp only [bind, Except.bind, ih, valid, true_and]

theorem report_eq (c : Codec) (units : List (List UInt8)) :
    units.foldl (Nals.add c) {} = report c units := by
  have sums : ∀ n : Nals, units.foldl (Nals.add c) n =
      { vcl := n.vcl || units.any (isSlice c), idr := n.idr || units.any (isIdrSlice c),
        vps := n.vps || units.any (isVps c), sps := n.sps || units.any (isSps c),
        pps := n.pps || units.any (isPps c), count := n.count + units.length,
        pictures := n.pictures + units.countP (isFirstSlice c) } := by
    induction units with
    | nil => simp
    | cons nal units ih =>
      intro n
      rw [List.foldl_cons, ih]
      simp only [Nals.add, List.any_cons, List.length_cons, List.countP_cons, Bool.or_assoc]
      congr 1 <;> omega
  simpa [report] using sums {}

theorem inspect_nals {c : Codec} (known : c = .h264 ∨ c = .hevc) {b : List UInt8} {n : Nals}
    (small : b.length ≤ maxAu) (start : prefixSize b ≠ 0) : inspectAnnexb c b = .ok n ↔
      (∀ nal ∈ nals b, Valid c nal) ∧ n = report c (nals b) := by
  rw [inspectAnnexb_eq known small start, inspect_units known, report_eq]

/-- The rounds of the loop as the source has them, with no bound on their number. -/
inductive Ends (c : Codec) : List UInt8 → Nals → Except String Nals → Prop
  | done (n : Nals) : Ends c [] n (.ok n)
  | lost {b : List UInt8} (n : Nals) (more : b ≠ []) (none : prefixSize b = 0) :
      Ends c b n (.error "invalid NAL prefix")
  | refused {b : List UInt8} {n : Nals} {e : String} (found : prefixSize b ≠ 0)
      (here : inspectNal c n (splitNal (b.drop (prefixSize b))).1 = .error e) :
      Ends c b n (.error e)
  | next {b : List UInt8} {n n' : Nals} {r : Except String Nals} (found : prefixSize b ≠ 0)
      (here : inspectNal c n (splitNal (b.drop (prefixSize b))).1 = .ok n')
      (later : Ends c (splitNal (b.drop (prefixSize b))).2 n' r) : Ends c b n r

theorem inspectLoop_ends (c : Codec) (b : List UInt8) (n : Nals) (fuel : Nat)
    (enough : b.length ≤ fuel) : Ends c b n (inspectLoop c fuel b n) := by
  induction fuel generalizing b n with
  | zero =>
    cases b with
    | nil => exact .done n
    | cons x xs => simp at enough
  | succ fuel ih =>
    cases b with
    | nil => exact .done n
    | cons x xs =>
      by_cases found : prefixSize (x :: xs) = 0
      · rw [inspectLoop, if_pos found]
        exact .lost n (List.cons_ne_nil x xs) found
      · have shorter := drop_prefixSize_length found enough
        rw [inspectLoop_round c n fuel found]
        cases here : inspectNal c n (splitNal ((x :: xs).drop (prefixSize (x :: xs)))).1 with
        | error e => exact .refused found here
        | ok n' => exact .next found here (ih _ n' shorter)

/-- Inspection is exact, and the loop behind it ends on every byte string. -/
theorem inspectAnnexb_exact {c : Codec} (known : c = .h264 ∨ c = .hevc) :
    (∀ units : List (Bool × List UInt8), units ≠ [] → (∀ u ∈ units, Carried u.2) →
      (annexb units).length ≤ maxAu →
      ((∃ e, inspectAnnexb c (annexb units) = .error e) ↔ ∃ u ∈ units, ¬ Valid c u.2) ∧
      ∀ n, inspectAnnexb c (annexb units) = .ok n →
        n.count = units.length ∧ n.pictures = units.countP (isFirstSlice c ·.2) ∧
        n.vcl = units.any (isSlice c ·.2) ∧ n.idr = units.any (isIdrSlice c ·.2) ∧
        n.vps = units.any (isVps c ·.2) ∧ n.sps = units.any (isSps c ·.2) ∧
        n.pps = units.any (isPps c ·.2)) ∧
    ∀ b n, Ends c b n (inspectLoop c b.length b n) := by
  refine ⟨fun units some carried small => ?_, fun b n =>
    inspectLoop_ends c b n b.length (Nat.le_refl _)⟩
  have start : prefixSize (annexb units) ≠ 0 := by
    rcases annexb_start units with empty | found
    · cases units with
      | nil => exact absurd rfl some
      | cons u us => cases h : u.1 <;> simp [annexb, startCode, h] at empty
    · exact found
  have spec : ∀ n, inspectAnnexb c (annexb units) = .ok n ↔
      (∀ u ∈ units, Valid c u.2) ∧ n = report c (units.map Prod.snd) := by
    intro n
    rw [inspect_nals known small start, nals_annexb carried, List.forall_mem_map]
  constructor
  · cases result : inspectAnnexb c (annexb units) with
    | error e =>
      have invalid : ∃ u ∈ units, ¬ Valid c u.2 := by
        by_contra none
        have valid : ∀ u ∈ units, Valid c u.2 := fun u member => by
          by_contra invalid
          exact none ⟨u, member, invalid⟩
        cases result.symm.trans ((spec _).mpr ⟨valid, rfl⟩)
      simp [invalid]
    | ok n =>
      have none : ¬ ∃ u ∈ units, ¬ Valid c u.2 := fun ⟨u, member, invalid⟩ =>
        invalid (((spec n).mp result).1 u member)
      simp [none]
  · intro n ok
    obtain ⟨-, rfl⟩ := (spec n).mp ok
    simp [report, List.any_map, List.countP_map, Function.comp_def]

theorem inspectAnnexb_exact_keyframe :
    ∃ n, inspectAnnexb .h264 (annexb [(true, [0x67]), (false, [0x68]), (false, [0x65, 0x80])]) =
      .ok n ∧ n.count = 3 ∧ n.pictures = 1 ∧ n.idr = true := by
  have ok : inspectAnnexb .h264
      (annexb [(true, [0x67]), (false, [0x68]), (false, [0x65, 0x80])]) =
        .ok { vcl := true, idr := true, sps := true, pps := true, count := 3, pictures := 1 } := by
    decide +kernel
  have carried : ∀ u ∈ [(true, ([0x67] : List UInt8)), (false, [0x68]), (false, [0x65, 0x80])],
      Carried u.2 := by
    intro u member
    simp only [List.mem_cons, List.not_mem_nil, or_false] at member
    rcases member with rfl | rfl | rfl <;> exact ⟨by decide, by decide, by decide⟩
  obtain ⟨count, pictures, -, idr, -⟩ :=
    ((inspectAnnexb_exact (.inl rfl)).1 _ (by decide) carried (by decide)).2 _ ok
  exact ⟨_, ok, count, pictures, idr⟩

/-! Access units that a session may start from. -/

/-- What the receivers ask of the access unit that starts a stream: a keyframe of
one picture, with parameter sets of every kind somewhere among its units. -/
structure Recovery (m : Message) : Prop where
  codec : m.h.codec = .h264 ∨ m.h.codec = .hevc
  bounded : m.bytes.length ≤ maxAu
  start : prefixSize m.bytes ≠ 0
  valid : ∀ nal ∈ nals m.bytes, Valid m.h.codec nal
  picture : (nals m.bytes).countP (isFirstSlice m.h.codec) = 1
  idr : ∃ nal ∈ nals m.bytes, isIdrSlice m.h.codec nal
  sps : ∃ nal ∈ nals m.bytes, isSps m.h.codec nal
  pps : ∃ nal ∈ nals m.bytes, isPps m.h.codec nal
  vps : m.h.codec = .hevc → ∃ nal ∈ nals m.bytes, isVps m.h.codec nal

theorem inspect_known {c : Codec} {b : List UInt8} {n : Nals} (ok : inspectAnnexb c b = .ok n) :
    (c = .h264 ∨ c = .hevc) ∧ b.length ≤ maxAu ∧ prefixSize b ≠ 0 := by
  unfold inspectAnnexb at ok
  split at ok
  · cases ok
  · rename_i known
    split at ok
    · cases ok
    · rename_i bounded
      push Not at known bounded
      exact ⟨or_iff_not_imp_left.mpr known, bounded.2⟩

theorem sound_iff {m : Message} {n : Nals} (recovers : m.isIdr = true) :
    Sound m n ↔ Recovery m ∧ n = report m.h.codec (nals m.bytes) := by
  constructor
  · intro sound
    obtain ⟨known, bounded, start⟩ := inspect_known sound.inspected
    obtain ⟨valid, rfl⟩ := (inspect_nals known bounded start).mp sound.inspected
    have idr := sound.flagged.trans recovers
    obtain ⟨sps, pps, vps⟩ := sound.parameters idr
    exact ⟨⟨known, bounded, start, valid, sound.picture.2, List.any_eq_true.mp idr,
      List.any_eq_true.mp sps, List.any_eq_true.mp pps, fun hevc =>
        List.any_eq_true.mp (vps hevc)⟩, rfl⟩
  · rintro ⟨r, rfl⟩
    have vcl : ∃ nal ∈ nals m.bytes, isSlice m.h.codec nal := by
      obtain ⟨nal, member, first⟩ := List.countP_pos_iff.mp (r.picture ▸ Nat.one_pos)
      exact ⟨nal, member, (Bool.and_eq_true_iff.mp first).1⟩
    have idr : (report m.h.codec (nals m.bytes)).idr = true := List.any_eq_true.mpr r.idr
    exact ⟨(inspect_nals r.codec r.bounded r.start).mpr ⟨r.valid, rfl⟩,
      ⟨List.any_eq_true.mpr vcl, r.picture⟩, idr.trans recovers.symm, fun _ =>
        ⟨List.any_eq_true.mpr r.sps, List.any_eq_true.mpr r.pps, fun hevc =>
          List.any_eq_true.mpr (r.vps hevc)⟩⟩

/-- What a recovery access unit is, exactly. -/
theorem validateAu_recovery (m : Message) : validateAu m true = .ok () ↔
    invalidMetadata m = false ∧ nonmonotonic m = false ∧ m.isIdr = true ∧ Recovery m := by
  rw [validateAu_iff]
  refine and_congr_right fun _ => and_congr_right fun _ => ?_
  constructor
  · rintro ⟨recovers, n, sound⟩
    exact ⟨recovers rfl, ((sound_iff (recovers rfl)).mp sound).1⟩
  · rintro ⟨recovers, r⟩
    exact ⟨fun _ => recovers, _, (sound_iff recovers).mpr ⟨r, rfl⟩⟩

def Independent (m : Message) : Prop :=
  ∀ nal ∈ nals m.bytes, isSlice m.h.codec nal → isIdrSlice m.h.codec nal

def front (m : Message) : List (List UInt8) := (nals m.bytes).takeWhile (!isSlice m.h.codec ·)

def ParametersFirst (m : Message) : Prop :=
  (∃ nal ∈ front m, isSps m.h.codec nal) ∧ (∃ nal ∈ front m, isPps m.h.codec nal) ∧
    (m.h.codec = .hevc → ∃ nal ∈ front m, isVps m.h.codec nal)

instance (m : Message) : Decidable (Independent m) :=
  inferInstanceAs (Decidable (∀ nal ∈ nals m.bytes, _))

instance (m : Message) : Decidable (ParametersFirst m) :=
  inferInstanceAs (Decidable (_ ∧ _))

def keyframe (units : List (List UInt8)) : Message where
  h := { size := (annexb (units.map (true, ·))).length.toUInt32, flags := flagIdr, seq := 1,
         width := 1920, height := 1080 }
  bytes := annexb (units.map (true, ·))

def mixed : Message := keyframe [[0x67], [0x68], [0x65, 0x80], [0x41, 1]]

def late : Message := keyframe [[0x65, 0x80], [0x67], [0x68]]

/-- The checks see each unit by itself, neither their order nor their mixture. -/
theorem recovery_undecodable :
    (validateAu mixed true = .ok () ∧ ParametersFirst mixed ∧ ¬ Independent mixed) ∧
      validateAu late true = .ok () ∧ Independent late ∧ ¬ ParametersFirst late := by
  decide +kernel

end Video

import Mathlib.Data.List.Induction
import RkmoonKvm.Video.Wire

/-! The access units of the worker: Annex-B inspection, and the gate that keeps
a session to consecutive frames behind an IDR. -/
namespace Video

def prefixSize : List UInt8 → Nat
  | 0 :: 0 :: 1 :: _ => 3
  | 0 :: 0 :: 0 :: 1 :: _ => 4
  | _ => 0

/-- The bytes up to the next start code, and the rest. -/
def splitNal : List UInt8 → List UInt8 × List UInt8
  | [] => ([], [])
  | x :: xs =>
    if prefixSize (x :: xs) ≠ 0 then ([], x :: xs)
    else (x :: (splitNal xs).1, (splitNal xs).2)

structure Nals where
  vcl : Bool := false
  idr : Bool := false
  vps : Bool := false
  sps : Bool := false
  pps : Bool := false
  count : Nat := 0
  pictures : Nat := 0
  deriving DecidableEq

/-- The body of a NAL unit, with the checks and counts of its codec. -/
def inspectHevc (n : Nals) (nal : List UInt8) : Except String Nals :=
  let t := (nal.getD 0 0 >>> 1) &&& 63
  if nal.getD 0 0 &&& 1 ≠ 0 ∨ nal.getD 1 0 >>> 3 ≠ 0 ∨ nal.getD 1 0 &&& 7 = 0 then
    throw "nonzero HEVC layer or zero temporal_id_plus1"
  else if t ≤ 31 ∧ nal.length < 3 then
    throw "truncated HEVC slice"
  else if 16 ≤ t ∧ t ≤ 23 ∧ t ≠ 19 ∧ t ≠ 20 then
    throw "v1 requires closed IDR, not CRA/BLA recovery"
  else
    pure { vcl := n.vcl || t ≤ 31, idr := n.idr || t = 19 || t = 20, vps := n.vps || t = 32,
           sps := n.sps || t = 33, pps := n.pps || t = 34, count := n.count + 1,
           pictures := n.pictures + if t ≤ 31 ∧ nal.getD 2 0 &&& 0x80 ≠ 0 then 1 else 0 }

def inspectH264 (n : Nals) (nal : List UInt8) : Except String Nals :=
  let t := nal.getD 0 0 &&& 31
  if t = 0 ∨ 24 ≤ t then
    throw "unsupported H264 NAL type"
  else if (t = 1 ∨ t = 5) ∧ nal.length < 2 then
    throw "truncated H264 slice"
  else if 2 ≤ t ∧ t ≤ 4 then
    throw "H264 data partitioning unsupported"
  else
    pure { vcl := n.vcl || t = 1 || t = 5, idr := n.idr || t = 5, vps := n.vps,
           sps := n.sps || t = 7, pps := n.pps || t = 8, count := n.count + 1,
           pictures := n.pictures + if (t = 1 ∨ t = 5) ∧ nal.getD 1 0 &&& 0x80 ≠ 0 then 1 else 0 }

def inspectNal (c : Codec) (n : Nals) (nal : List UInt8) : Except String Nals :=
  if nal.length < (if c = .hevc then 2 else 1) ∨ nal.getD 0 0 &&& 0x80 ≠ 0 then
    throw "invalid/truncated NAL header"
  else if c = .hevc then inspectHevc n nal
  else inspectH264 n nal

/-- The loop over the start codes; every round takes one off the bytes, so their
number is fuel enough. -/
def inspectLoop (c : Codec) : Nat → List UInt8 → Nals → Except String Nals
  | _, [], n => pure n
  | 0, _ :: _, _ => throw "invalid NAL prefix"
  | fuel + 1, b@(_ :: _), n =>
    if prefixSize b = 0 then throw "invalid NAL prefix"
    else do
      let (nal, rest) := splitNal (b.drop (prefixSize b))
      inspectLoop c fuel rest (← inspectNal c n nal)

def inspectAnnexb (c : Codec) (b : List UInt8) : Except String Nals :=
  if c ≠ .h264 ∧ c ≠ .hevc then
    throw "unknown AU codec"
  else if b = [] ∨ maxAu < b.length ∨ prefixSize b = 0 then
    throw "not bounded Annex-B"
  else
    inspectLoop c b.length b {}

theorem splitNal_length (b : List UInt8) : (splitNal b).2.length ≤ b.length := by
  induction b with
  | nil => exact Nat.le_refl _
  | cons x xs ih =>
    unfold splitNal
    split
    · exact Nat.le_refl _
    · exact Nat.le_succ_of_le ih

/-- More fuel than bytes changes nothing: the loop has ended by itself. -/
theorem inspectLoop_fuel (c : Codec) (b : List UInt8) (n : Nals) (fuel extra : Nat)
    (enough : b.length ≤ fuel) : inspectLoop c (fuel + extra) b n = inspectLoop c fuel b n := by
  induction fuel generalizing b n with
  | zero =>
    cases b with
    | nil => simp [inspectLoop]
    | cons x xs => simp at enough
  | succ fuel ih =>
    cases b with
    | nil => simp [inspectLoop]
    | cons x xs =>
      rw [Nat.add_right_comm]
      unfold inspectLoop
      split
      · rfl
      · rename_i found
        have shorter : (splitNal ((x :: xs).drop (prefixSize (x :: xs)))).2.length ≤ fuel := by
          have h := splitNal_length ((x :: xs).drop (prefixSize (x :: xs)))
          simp only [List.length_drop, List.length_cons] at h enough
          omega
        simp only [ih _ _ shorter]

def invalidMetadata (m : Message) : Bool :=
  m.h.kind ≠ .frame || m.h.size.toNat ≠ m.bytes.length || m.h.seq = 0 || m.h.width < 64 ||
    3840 < m.h.width || m.h.height < 64 || 2160 < m.h.height || m.h.width &&& 1 ≠ 0 ||
    m.h.height &&& 1 ≠ 0

def nonmonotonic (m : Message) : Bool :=
  m.h.submitUs < m.h.dequeueUs || m.h.doneUs < m.h.submitUs

def validateAu (m : Message) (requireIdr : Bool) : Except String Unit :=
  if invalidMetadata m then
    throw "invalid AU metadata"
  else if nonmonotonic m then
    throw "nonmonotonic processing timestamps"
  else do
    let n ← inspectAnnexb m.h.codec m.bytes
    if !n.vcl || n.pictures ≠ 1 || n.idr ≠ m.isIdr then
      throw "AU picture/IDR mismatch"
    else if requireIdr && !n.idr then
      throw "expected IDR recovery"
    else if n.idr && (!n.sps || !n.pps || m.h.codec = .hevc && !n.vps) then
      throw "IDR missing inline parameter sets"
    else
      pure ()

/-- What the bytes of a validated access unit hold. -/
structure Sound (m : Message) (n : Nals) : Prop where
  inspected : inspectAnnexb m.h.codec m.bytes = .ok n
  picture : n.vcl ∧ n.pictures = 1
  flagged : n.idr = m.isIdr
  parameters : n.idr → n.sps ∧ n.pps ∧ (m.h.codec = .hevc → n.vps)

theorem validateAu_iff (m : Message) (b : Bool) : validateAu m b = .ok () ↔
    invalidMetadata m = false ∧ nonmonotonic m = false ∧ (b → m.isIdr) ∧ ∃ n, Sound m n := by
  unfold validateAu
  cases metadata : invalidMetadata m with
  | true => simp [throw, throwThe, MonadExceptOf.throw]
  | false =>
    cases times : nonmonotonic m with
    | true => simp [throw, throwThe, MonadExceptOf.throw]
    | false =>
      cases inspected : inspectAnnexb m.h.codec m.bytes with
      | error e =>
        have none : ¬ ∃ n, Sound m n := by
          rintro ⟨n, sound⟩
          cases inspected.symm.trans sound.inspected
        simp [none, bind, Except.bind]
      | ok n =>
        have unique : (∃ n', Sound m n') ↔ Sound m n := by
          refine ⟨fun ⟨n', sound⟩ => ?_, fun sound => ⟨n, sound⟩⟩
          cases inspected.symm.trans sound.inspected
          exact sound
        rw [unique]
        have spec : Sound m n ↔ (n.vcl ∧ n.pictures = 1) ∧ n.idr = m.isIdr ∧
            (n.idr → n.sps ∧ n.pps ∧ (m.h.codec = .hevc → n.vps)) :=
          ⟨fun s => ⟨s.picture, s.flagged, s.parameters⟩, fun s => ⟨inspected, s.1, s.2.1, s.2.2⟩⟩
        rw [spec]
        simp only [bind, Except.bind, throw, throwThe, MonadExceptOf.throw, pure, Except.pure,
          Bool.false_eq_true, if_false]
        grind

theorem validateAu_weaken {m : Message} {b b' : Bool} (accepted : validateAu m b = .ok ())
    (less : b' → m.isIdr) : validateAu m b' = .ok () := by
  obtain ⟨metadata, times, -, sound⟩ := (validateAu_iff m b).mp accepted
  exact (validateAu_iff m b').mpr ⟨metadata, times, less, sound⟩

structure SequenceGate where
  last : UInt64 := 0
  needIdr : Bool := true
  deriving DecidableEq

namespace SequenceGate

def discontinuity : String :=
  "AU sequence discontinuity; close session, do not send dependent P frames"

def accept (g : SequenceGate) (m : Message) : Except String SequenceGate := do
  validateAu m g.needIdr
  if m.h.seq ≠ g.last + 1 then
    throw discontinuity
  else
    pure { last := m.h.seq, needIdr := false }

def recover (g : SequenceGate) : SequenceGate := { g with needIdr := true }

theorem accept_ok {g g' : SequenceGate} {m : Message} (accepted : g.accept m = .ok g') :
    validateAu m g.needIdr = .ok () ∧ m.h.seq = g.last + 1 ∧
      g' = { last := m.h.seq, needIdr := false } := by
  unfold accept at accepted
  cases valid : validateAu m g.needIdr with
  | error e =>
    rw [valid] at accepted
    cases accepted
  | ok u =>
    simp only [valid, bind, Except.bind] at accepted
    split at accepted
    · cases accepted
    · rename_i next
      cases accepted
      exact ⟨rfl, not_not.mp next, rfl⟩

theorem accept_eq {g : SequenceGate} {m : Message} (valid : validateAu m g.needIdr = .ok ())
    (next : m.h.seq = g.last + 1) : g.accept m = .ok { last := m.h.seq, needIdr := false } := by
  simp only [accept, valid, bind, Except.bind]
  rw [if_neg (not_not.mpr next)]
  rfl

end SequenceGate
def Consecutive (ms : List Message) : Prop :=
  ms.map (fun m => m.h.seq.toNat) = List.range' 1 ms.length

instance (ms : List Message) : Decidable (Consecutive ms) := inferInstanceAs (Decidable (_ = _))

theorem consecutive_concat (ms : List Message) (m : Message) :
    Consecutive (ms ++ [m]) ↔ Consecutive ms ∧ m.h.seq.toNat = ms.length + 1 := by
  simp only [Consecutive, List.map_append, List.length_append, List.map_cons, List.map_nil,
    List.length_cons, List.length_nil, List.range'_1_concat]
  constructor
  · intro same
    obtain ⟨front, last⟩ := List.append_inj' same rfl
    exact ⟨front, by simpa [Nat.add_comm] using last⟩
  · rintro ⟨front, last⟩
    rw [front, last, Nat.add_comm]

theorem seq_ne_zero {m : Message} {b : Bool} (valid : validateAu m b = .ok ()) : m.h.seq ≠ 0 := by
  have metadata := ((validateAu_iff m b).mp valid).1
  intro zero
  simp [invalidMetadata, zero] at metadata

theorem seq_succ {m : Message} {b : Bool} {n : UInt64} (valid : validateAu m b = .ok ())
    (next : m.h.seq = n + 1) : m.h.seq.toNat = n.toNat + 1 := by
  have positive : m.h.seq.toNat ≠ 0 := fun zero => seq_ne_zero valid (UInt64.toNat_inj.mp zero)
  have bound := n.toNat_lt
  rw [next, UInt64.toNat_add, UInt64.toNat_one] at positive ⊢
  omega

theorem SequenceGate.accept_numbers {g g' : SequenceGate} {m : Message}
    (accepted : g.accept m = .ok g') :
    m.h.seq.toNat = g.last.toNat + 1 ∧ g'.last = m.h.seq ∧ g'.needIdr = false ∧
      (g.needIdr → m.isIdr) := by
  obtain ⟨valid, next, rfl⟩ := accept_ok accepted
  exact ⟨seq_succ valid next, rfl, rfl, ((validateAu_iff m _).mp valid).2.2.1⟩

/-- The gate accepts consecutive frames behind an IDR. -/
theorem gate_accepts (ms : List Message) (consecutive : Consecutive ms)
    (valid : ∀ m ∈ ms, validateAu m false = .ok ()) (idr : ∀ m ∈ ms.head?, m.isIdr) :
    ∃ g, ms.foldlM SequenceGate.accept {} = .ok g ∧ g.last.toNat = ms.length ∧
      (g.needIdr → ms = []) := by
  induction ms using List.reverseRecOn with
  | nil => exact ⟨{}, rfl, rfl, fun _ => rfl⟩
  | append_singleton ms m ih =>
    obtain ⟨earlier, next⟩ := (consecutive_concat ms m).mp consecutive
    have front : ∀ m' ∈ ms.head?, m'.isIdr := by
      intro m' head
      exact idr m' (by rw [List.head?_append, Option.mem_def.mp head]; rfl)
    obtain ⟨g, accepted, last, need⟩ :=
      ih earlier (fun m' member => valid m' (List.mem_append_left _ member)) front
    have here : validateAu m g.needIdr = .ok () := by
      refine validateAu_weaken (valid m (by simp)) fun needed => idr m ?_
      simp [need needed]
    have seq : m.h.seq = g.last + 1 := by
      have bound := m.h.seq.toNat_lt
      apply UInt64.toNat_inj.mp
      rw [UInt64.toNat_add, last, next]
      simp only [UInt64.toNat_one]
      omega
    refine ⟨{ last := m.h.seq, needIdr := false }, ?_, by simp [next], by simp⟩
    rw [List.foldlM_append, accepted]
    simp only [bind, Except.bind, List.foldlM_cons, List.foldlM_nil,
      SequenceGate.accept_eq here seq, pure, Except.pure]

end Video

import RkmoonKvm.Library.LittleEndian
import RkmoonKvm.Library.StreamReader

/-! The websocket frames of `KvmdStream`: what `_frame` writes, and what `_read_loop`
makes of the bytes of the connection. -/
namespace Hid.WebSocket
open StreamReader

def maxFrame : Nat := 1 <<< 20

abbrev Mask := { bytes : List UInt8 // bytes.length = 4 }

def masked (mask : Mask) (payload : List UInt8) : List UInt8 :=
  payload.mapIdx fun i b => b ^^^ mask.val.getD (i &&& 3) 0

def packBig (width n : Nat) : List UInt8 := (LittleEndian.bytes width n).reverse

def unpackBig (bytes : List UInt8) : Nat := LittleEndian.value bytes.reverse

/-- The length of a payload in the shortest form, with the mask bit in its first byte. -/
def lengthBytes (maskBit : UInt8) (n : Nat) : List UInt8 :=
  if n < 126 then [maskBit ||| UInt8.ofNat n]
  else if n < 65536 then (maskBit ||| 126) :: packBig 2 n
  else (maskBit ||| 127) :: packBig 8 n

def frame (opcode : UInt8) (payload : List UInt8) (mask : Mask) : List UInt8 :=
  (0x80 ||| opcode) :: (lengthBytes 0x80 payload.length ++ (mask.val ++ masked mask payload))

def plainFrame (opcode : UInt8) (payload : List UInt8) : List UInt8 :=
  (0x80 ||| opcode) :: (lengthBytes 0 payload.length ++ payload)

inductive Stop where
  | incomplete
  | tooLarge
  deriving DecidableEq

def readExactly (n : Nat) (s : Source UInt8) : Except Stop (List UInt8 × Source UInt8) :=
  match s.readExactly n with
  | some read => .ok read
  | none => .error .incomplete

def readLength (b : UInt8) (s : Source UInt8) : Except Stop (Nat × Source UInt8) :=
  let n := (b &&& 0x7F).toNat
  if n = 126 then do
    let (bytes, s) ← readExactly 2 s
    pure (unpackBig bytes, s)
  else if n = 127 then do
    let (bytes, s) ← readExactly 8 s
    pure (unpackBig bytes, s)
  else pure (n, s)

/-- The payload behind the mask, if the second byte of the header announces one. -/
def readPayload (b : UInt8) (n : Nat) (s : Source UInt8) :
    Except Stop (List UInt8 × Source UInt8) :=
  if b &&& 0x80 ≠ 0 then do
    let (mask, s) ← readExactly 4 s
    let (payload, s) ← readExactly n s
    pure (payload.mapIdx fun i b => b ^^^ mask.getD (i &&& 3) 0, s)
  else readExactly n s

def readFrame (s : Source UInt8) : Except Stop ((UInt8 × List UInt8) × Source UInt8) := do
  let (header, s) ← readExactly 2 s
  let (n, s) ← readLength (header.getD 1 0) s
  if maxFrame < n then throw .tooLarge
  else
    let (payload, s) ← readPayload (header.getD 1 0) n s
    pure ((header.getD 0 0 &&& 0x0F, payload), s)

def readFrames : Nat → Source UInt8 →
    Except Stop (List (UInt8 × List UInt8) × Source UInt8)
  | 0, s => pure ([], s)
  | k + 1, s => do
    let (f, s) ← readFrame s
    let (fs, s) ← readFrames k s
    pure (f :: fs, s)

/-! The loop around it. -/

inductive Pong where
  | pong
  | failed
  deriving DecidableEq

structure Stream where
  alive : Bool := true
  pongs : List Pong := []
  /-- The control pongs sent, oldest first. -/
  written : List (List UInt8) := []

/-- `None` where the loop breaks. -/
def handle (mask : Mask) (s : Stream) : UInt8 × List UInt8 → Option Stream
  | (opcode, payload) =>
    if opcode = 0x9 then some { s with written := s.written ++ [frame 0xA payload mask] }
    else if opcode = 0x8 then none
    else if opcode = 0x2 ∧ payload.take 1 = [0xff] then
      some { s with pongs := s.pongs ++ [.pong] }
    else some s

def finish (s : Stream) : Stream := { s with alive := false, pongs := s.pongs ++ [.failed] }

/-- The loop on a connection that ends with its source; every round reads two bytes at
least, so their number is fuel enough. The masks are those of the control pongs. -/
def readLoop (masks : Nat → Mask) : Nat → Source UInt8 → Stream → Stream
  | 0, _, s => finish s
  | fuel + 1, source, s =>
    match readFrame source with
    | .error _ => finish s
    | .ok (f, source) =>
      match handle (masks s.written.length) s f with
      | none => finish s
      | some s => readLoop masks fuel source s

/-! The round trip of one frame. -/

theorem masked_masked (mask : Mask) (payload : List UInt8) :
    masked mask (masked mask payload) = payload := by
  apply List.ext_getElem
  · simp [masked]
  · intro i _ _
    simp only [masked, List.getElem_mapIdx]
    rw [UInt8.xor_assoc, UInt8.xor_self, UInt8.xor_zero]

theorem unpackBig_packBig {width n : Nat} (fits : n < 256 ^ width) :
    unpackBig (packBig width n) = n := by
  rw [unpackBig, packBig, List.reverse_reverse, LittleEndian.value_bytes, Nat.mod_eq_of_lt fits]

theorem length_packBig (width n : Nat) : (packBig width n).length = width := by
  rw [packBig, List.length_reverse, LittleEndian.length_bytes]

theorem readExactly_append {s : Source UInt8} {n : Nat} {front rest : List UInt8}
    (length : front.length = n) (stream : s.bytes = front ++ rest) :
    ∃ s', readExactly n s = .ok (front, s') ∧ s'.bytes = rest := by
  obtain ⟨s', read, bytes⟩ := s.readExactly_append stream
  rw [length] at read
  exact ⟨s', by rw [readExactly, read], bytes⟩

theorem opcode_byte {opcode : UInt8} (small : opcode < 16) :
    (0x80 ||| opcode) &&& 0x0F = opcode := by
  have all : ∀ i : Fin 16, (0x80 ||| UInt8.ofNat i) &&& 0x0F = UInt8.ofNat i := by decide
  have value := all ⟨opcode.toNat, small⟩
  rwa [UInt8.ofNat_toNat] at value

theorem short_byte {n : Nat} (short : n < 126) {maskBit : UInt8}
    (bit : maskBit = 0x80 ∨ maskBit = 0) :
    ((maskBit ||| UInt8.ofNat n) &&& 0x7F).toNat = n ∧
      (maskBit ||| UInt8.ofNat n) &&& 0x80 = maskBit := by
  have all : ∀ i : Fin 126, ((0x80 ||| UInt8.ofNat i) &&& 0x7F).toNat = i.val ∧
      (0x80 ||| UInt8.ofNat i) &&& 0x80 = 0x80 ∧
      ((0 ||| UInt8.ofNat i) &&& 0x7F).toNat = i.val ∧ (0 ||| UInt8.ofNat i) &&& 0x80 = 0 := by
    decide
  obtain ⟨set, mask, clear, plain⟩ := all ⟨n, short⟩
  rcases bit with rfl | rfl
  · exact ⟨set, mask⟩
  · exact ⟨clear, plain⟩

theorem readLength_wide {b : UInt8} {w : Nat}
    (form : (b &&& 0x7F).toNat = 126 ∧ w = 2 ∨ (b &&& 0x7F).toNat = 127 ∧ w = 8)
    {length rest : List UInt8} (width : length.length = w) {s : Source UInt8}
    (stream : s.bytes = length ++ rest) :
    ∃ s', readLength b s = .ok (unpackBig length, s') ∧ s'.bytes = rest := by
  obtain ⟨s', read, bytes⟩ := readExactly_append width stream
  refine ⟨s', ?_, bytes⟩
  unfold readLength
  dsimp only
  rcases form with ⟨two, rfl⟩ | ⟨eight, rfl⟩
  · rw [two, if_pos rfl, read]
    rfl
  · rw [eight, if_neg (by decide), if_pos rfl, read]
    rfl

theorem readLength_bytes {n : Nat} (small : n < 256 ^ 8) {maskBit : UInt8}
    (bit : maskBit = 0x80 ∨ maskBit = 0) :
    ∃ b tail, lengthBytes maskBit n = b :: tail ∧ b &&& 0x80 = maskBit ∧
      ∀ (s : Source UInt8) (rest : List UInt8), s.bytes = tail ++ rest →
        ∃ s', readLength b s = .ok (n, s') ∧ s'.bytes = rest := by
  unfold lengthBytes
  split
  · rename_i short
    obtain ⟨length, mask⟩ := short_byte short bit
    refine ⟨_, [], rfl, mask, fun s rest stream => ⟨s, ?_, stream⟩⟩
    unfold readLength
    dsimp only
    rw [length, if_neg (by omega), if_neg (by omega)]
    rfl
  split
  · rename_i _ medium
    have length : ((maskBit ||| 126) &&& 0x7F).toNat = 126 := by rcases bit with rfl | rfl <;> rfl
    have mask : (maskBit ||| 126) &&& 0x80 = maskBit := by rcases bit with rfl | rfl <;> rfl
    refine ⟨_, packBig 2 n, rfl, mask, fun s rest stream => ?_⟩
    rw [← unpackBig_packBig (show n < 256 ^ 2 by omega)]
    exact readLength_wide (.inl ⟨length, rfl⟩) (length_packBig 2 n) stream
  · have length : ((maskBit ||| 127) &&& 0x7F).toNat = 127 := by rcases bit with rfl | rfl <;> rfl
    have mask : (maskBit ||| 127) &&& 0x80 = maskBit := by rcases bit with rfl | rfl <;> rfl
    refine ⟨_, packBig 8 n, rfl, mask, fun s rest stream => ?_⟩
    rw [← unpackBig_packBig small]
    exact readLength_wide (.inr ⟨length, rfl⟩) (length_packBig 8 n) stream

theorem readPayload_masked {b : UInt8} (bit : b &&& 0x80 = 0x80) (mask : Mask)
    (payload : List UInt8) {s : Source UInt8} {rest : List UInt8}
    (stream : s.bytes = mask.val ++ masked mask payload ++ rest) :
    ∃ s', readPayload b payload.length s = .ok (payload, s') ∧ s'.bytes = rest := by
  have size : (masked mask payload).length = payload.length := by simp [masked]
  rw [List.append_assoc] at stream
  obtain ⟨s₁, maskRead, behind⟩ := readExactly_append mask.property stream
  obtain ⟨s₂, payloadRead, done⟩ := readExactly_append size behind
  have back : (masked mask payload).mapIdx (fun i b => b ^^^ mask.val.getD (i &&& 3) 0) = payload :=
    masked_masked mask payload
  refine ⟨s₂, ?_, done⟩
  rw [readPayload, bit, if_pos (by decide), maskRead]
  simp only [bind, Except.bind, payloadRead, back]
  rfl

theorem readPayload_plain {b : UInt8} (bit : b &&& 0x80 = 0) (payload : List UInt8)
    {s : Source UInt8} {rest : List UInt8} (stream : s.bytes = payload ++ rest) :
    ∃ s', readPayload b payload.length s = .ok (payload, s') ∧ s'.bytes = rest := by
  rw [readPayload, bit, if_neg (by decide)]
  exact readExactly_append rfl stream

/-- What a side of the connection may send: the opcode has four bits, and the payload is
one that the other side takes. -/
structure Message where
  opcode : UInt8
  payload : List UInt8
  four_bits : opcode < 16
  taken : payload.length ≤ maxFrame

def Message.encoded (m : Message) : Option Mask → List UInt8
  | some mask => frame m.opcode m.payload mask
  | none => plainFrame m.opcode m.payload

def Message.body (m : Message) : Option Mask → List UInt8
  | some mask => mask.val ++ masked mask m.payload
  | none => m.payload

theorem Message.encoded_eq (m : Message) (mask : Option Mask) :
    ∃ maskBit, (maskBit = 0x80 ∨ maskBit = 0) ∧
      m.encoded mask =
        (0x80 ||| m.opcode) :: (lengthBytes maskBit m.payload.length ++ m.body mask) ∧
      ∀ (b : UInt8) (s : Source UInt8) (rest : List UInt8), b &&& 0x80 = maskBit →
        s.bytes = m.body mask ++ rest →
        ∃ s', readPayload b m.payload.length s = .ok (m.payload, s') ∧ s'.bytes = rest := by
  cases mask with
  | none => exact ⟨0, Or.inr rfl, rfl, fun _ _ _ bit => readPayload_plain bit m.payload⟩
  | some mask =>
    exact ⟨0x80, Or.inl rfl, rfl, fun _ _ _ bit => readPayload_masked bit mask m.payload⟩

theorem readFrame_encoded (m : Message) (mask : Option Mask) {s : Source UInt8}
    {rest : List UInt8} (stream : s.bytes = m.encoded mask ++ rest) :
    ∃ s', readFrame s = .ok ((m.opcode, m.payload), s') ∧ s'.bytes = rest := by
  obtain ⟨maskBit, bit, encoded, payloadBack⟩ := m.encoded_eq mask
  have small : m.payload.length < 256 ^ 8 :=
    Nat.lt_of_le_of_lt m.taken (show maxFrame < 256 ^ 8 by decide)
  obtain ⟨b, tail, header, mark, lengthBack⟩ := readLength_bytes small bit
  have split : s.bytes = [0x80 ||| m.opcode, b] ++ (tail ++ (m.body mask ++ rest)) := by
    rw [stream, encoded, header]
    simp
  obtain ⟨s₁, headerRead, behindHeader⟩ := readExactly_append (n := 2) rfl split
  obtain ⟨s₂, lengthRead, behindLength⟩ := lengthBack s₁ _ behindHeader
  obtain ⟨s₃, payloadRead, done⟩ := payloadBack b s₂ rest mark behindLength
  refine ⟨s₃, ?_, done⟩
  have taken := m.taken
  simp only [readFrame, headerRead, bind, Except.bind, List.getD_cons_zero, List.getD_cons_succ,
    lengthRead, if_neg (Nat.not_lt.mpr taken), payloadRead, opcode_byte m.four_bits]
  rfl

/-- Frames of which the bytes are the same carry the same, whatever the masks, and end at the same place. -/
theorem encoded_cancel {m m' : Message} {mask mask' : Option Mask} {rest rest' : List UInt8}
    (same : m.encoded mask ++ rest = m'.encoded mask' ++ rest') :
    (m.opcode, m.payload) = (m'.opcode, m'.payload) ∧ rest = rest' := by
  let source : Source UInt8 := ⟨m.encoded mask ++ rest, []⟩
  have stream : source.bytes = m.encoded mask ++ rest := List.append_nil _
  obtain ⟨s₁, read, behind⟩ := readFrame_encoded m mask stream
  obtain ⟨s₂, read', behind'⟩ := readFrame_encoded m' mask' (stream.trans same)
  obtain ⟨frames, rfl⟩ := Prod.mk.inj (Except.ok.inj (read.symm.trans read'))
  exact ⟨frames, behind.symm.trans behind'⟩

theorem readFrames_encoded (sent : List (Message × Option Mask)) {s : Source UInt8}
    {rest : List UInt8} (stream : s.bytes = sent.flatMap (fun f => f.1.encoded f.2) ++ rest) :
    ∃ s', readFrames sent.length s = .ok (sent.map fun f => (f.1.opcode, f.1.payload), s') ∧
      s'.bytes = rest := by
  induction sent generalizing s with
  | nil => exact ⟨s, rfl, stream⟩
  | cons f sent ih =>
    rw [List.flatMap_cons, List.append_assoc] at stream
    obtain ⟨s₁, first, behind⟩ := readFrame_encoded f.1 f.2 stream
    obtain ⟨s₂, others, done⟩ := ih behind
    refine ⟨s₂, ?_, done⟩
    simp only [List.length_cons, readFrames, first, others, bind, Except.bind]
    rfl

/-! A header that declares too much. -/

theorem readFrame_tooLarge {b₀ b₁ : UInt8} (eight : (b₁ &&& 0x7F).toNat = 127)
    {length rest : List UInt8} (width : length.length = 8) (large : maxFrame < unpackBig length)
    {s : Source UInt8} (stream : s.bytes = b₀ :: b₁ :: length ++ rest) :
    readFrame s = .error .tooLarge := by
  have split : s.bytes = [b₀, b₁] ++ (length ++ rest) := by rw [stream]; simp
  obtain ⟨s₁, headerRead, behind⟩ := readExactly_append (n := 2) rfl split
  obtain ⟨s₂, declared, _⟩ := readLength_wide (.inr ⟨eight, rfl⟩) width behind
  simp only [readFrame, headerRead, bind, Except.bind, List.getD_cons_zero, List.getD_cons_succ,
    declared, if_pos large]
  rfl

def handleAll (masks : Nat → Mask) : Stream → List (UInt8 × List UInt8) → Stream
  | s, [] => s
  | s, f :: fs =>
    match handle (masks s.written.length) s f with
    | none => s
    | some s => handleAll masks s fs

theorem readLoop_encoded (masks : Nat → Mask) (sent : List (Message × Option Mask))
    {fuel : Nat} {source : Source UInt8} {rest : List UInt8}
    (stream : source.bytes = sent.flatMap (fun f => f.1.encoded f.2) ++ rest)
    (stops : ∀ s : Source UInt8, s.bytes = rest → ∃ e, readFrame s = .error e)
    (enough : sent.length ≤ fuel) (s : Stream) :
    readLoop masks fuel source s =
      finish (handleAll masks s (sent.map fun f => (f.1.opcode, f.1.payload))) := by
  induction sent generalizing fuel source s with
  | nil =>
    obtain ⟨e, unreadable⟩ := stops source stream
    cases fuel with
    | zero => rfl
    | succ fuel => rw [readLoop, unreadable]; rfl
  | cons f sent ih =>
    rw [List.flatMap_cons, List.append_assoc] at stream
    obtain ⟨behind, first, after⟩ := readFrame_encoded f.1 f.2 stream
    cases fuel with
    | zero => cases enough
    | succ fuel =>
      rw [readLoop, first, List.map_cons, handleAll]
      dsimp only
      cases handle (masks s.written.length) s (f.1.opcode, f.1.payload) with
      | none => rfl
      | some s' => exact ih after (Nat.le_of_succ_le_succ enough) s'

/-- The decoder recovers what `_frame` and a server that does not mask encode, however the
bytes arrive, and stays aligned behind it. A header that declares more than `MAX_FRAME`,
which only the eight byte form can, ends the loop with what it had made of the frames before. -/
theorem decoder_recovers (masks : Nat → Mask) (sent : List (Message × Option Mask))
    (source : Source UInt8) (rest : List UInt8)
    (stream : source.bytes = sent.flatMap (fun f => f.1.encoded f.2) ++ rest) :
    let frames := sent.map fun f => (f.1.opcode, f.1.payload)
    (∃ source', readFrames sent.length source = .ok (frames, source') ∧
      source'.bytes = rest) ∧
    ∀ (b₀ b₁ : UInt8) (length behind : List UInt8), (b₁ &&& 0x7F).toNat = 127 →
      length.length = 8 → maxFrame < unpackBig length → rest = b₀ :: b₁ :: length ++ behind →
      (∃ source', readFrames sent.length source = .ok (frames, source') ∧
        readFrame source' = .error .tooLarge) ∧
      ∀ (fuel : Nat) (s : Stream), sent.length < fuel →
        (readLoop masks fuel source s).alive = false ∧
        (readLoop masks fuel source s).pongs = (handleAll masks s frames).pongs ++ [.failed] ∧
        (readLoop masks fuel source s).written = (handleAll masks s frames).written := by
  intro frames
  obtain ⟨source', read, behindFrames⟩ := readFrames_encoded sent stream
  refine ⟨⟨source', read, behindFrames⟩, ?_⟩
  intro b₀ b₁ length behind eight width large header
  have tooLarge : ∀ s' : Source UInt8, s'.bytes = rest → readFrame s' = .error .tooLarge :=
    fun s' bytes => readFrame_tooLarge eight width large (bytes.trans header)
  refine ⟨⟨source', read, tooLarge source' behindFrames⟩, ?_⟩
  intro fuel s enough
  have stops : ∀ s' : Source UInt8, s'.bytes = rest → ∃ e, readFrame s' = .error e :=
    fun s' bytes => ⟨.tooLarge, tooLarge s' bytes⟩
  rw [readLoop_encoded masks sent stream stops (Nat.le_of_lt enough) s]
  exact ⟨rfl, rfl, rfl⟩

theorem decoder_recovers_ping :
    let mask : Mask := ⟨[1, 2, 3, 4], rfl⟩
    let source : Source UInt8 :=
      ⟨[0x89], [[0x82, 1, 2, 3], [4, 0x69], [0x6b, 0x82, 1, 0xff, 0x82, 127, 0, 0],
        [0, 0, 0, 0x10, 0, 1]]⟩
    (∃ source', readFrames 2 source = .ok ([(0x9, [0x68, 0x69]), (0x2, [0xff])], source') ∧
      source'.bytes = [0x82, 127, 0, 0, 0, 0, 0, 0x10, 0, 1]) ∧
    (readLoop (fun _ => mask) 3 source {}).pongs = [.pong, .failed] := by
  intro mask source
  have recovered := decoder_recovers (fun _ => mask)
    [(⟨0x9, [0x68, 0x69], by decide, by decide⟩, some mask),
      (⟨0x2, [0xff], by decide, by decide⟩, none)]
    source [0x82, 127, 0, 0, 0, 0, 0, 0x10, 0, 1] (by decide)
  refine ⟨recovered.1, ?_⟩
  obtain ⟨_, ended⟩ :=
    recovered.2 0x82 127 [0, 0, 0, 0, 0, 0x10, 0, 1] [] (by decide) rfl (by decide) rfl
  exact (ended 3 {} (by decide)).2.1

end Hid.WebSocket

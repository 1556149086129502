import RkmoonKvm.Library.Signed
import RkmoonKvm.Hid.Motion
import RkmoonKvm.Hid.Neutral
import RkmoonKvm.Hid.WebSocket

/-! The payloads of the stream: what a report becomes, and what the bytes of the connection stand for. Every
event that the bridge accepts can be packed, and no other reports have its bytes. -/
namespace Hid

def Key.name : Key → String
  | .key i => "Key" ++ (Char.ofNat (0x41 + i)).toString
  | .digit i => "Digit" ++ (Char.ofNat (0x30 + i)).toString
  | .f i => "F" ++ toString (i.val + 1)
  | .numpad i => "Numpad" ++ toString i.val
  | .backspace => "Backspace" | .tab => "Tab" | .enter => "Enter" | .shiftLeft => "ShiftLeft"
  | .controlLeft => "ControlLeft" | .altLeft => "AltLeft" | .pause => "Pause" | .capsLock => "CapsLock"
  | .escape => "Escape" | .space => "Space" | .pageUp => "PageUp" | .pageDown => "PageDown"
  | .end_ => "End" | .home => "Home" | .arrowLeft => "ArrowLeft" | .arrowUp => "ArrowUp"
  | .arrowRight => "ArrowRight" | .arrowDown => "ArrowDown" | .printScreen => "PrintScreen"
  | .insert => "Insert" | .delete => "Delete" | .metaLeft => "MetaLeft" | .metaRight => "MetaRight"
  | .contextMenu => "ContextMenu" | .numpadMultiply => "NumpadMultiply" | .numpadAdd => "NumpadAdd"
  | .numpadSubtract => "NumpadSubtract" | .numpadDecimal => "NumpadDecimal"
  | .numpadDivide => "NumpadDivide" | .numLock => "NumLock" | .scrollLock => "ScrollLock"
  | .shiftRight => "ShiftRight" | .controlRight => "ControlRight" | .altRight => "AltRight"
  | .semicolon => "Semicolon" | .equal => "Equal" | .comma => "Comma" | .minus => "Minus"
  | .period => "Period" | .slash => "Slash" | .backquote => "Backquote"
  | .bracketLeft => "BracketLeft" | .backslash => "Backslash" | .bracketRight => "BracketRight"
  | .quote => "Quote" | .intlBackslash => "IntlBackslash"

def Button.name : Button → String
  | .left => "left" | .middle => "middle" | .right => "right" | .up => "up" | .down => "down"

namespace Payload
open Await Runs Reader WebSocket StreamReader Motion Neutral
open Bounded (Ranged)

/-- `s.encode("ascii")`, which fails on other characters. -/
def encodeAscii (s : String) : Option (List UInt8) :=
  if s.toList.all fun c => c.toNat < 128 then some (s.toList.map fun c => UInt8.ofNat c.toNat) else none

def flag (down : Bool) : UInt8 := if down then 1 else 0

/-- What the stream sends of a report; `none` where the encoding or `struct.pack` fails. -/
def payload : Report → Option (List UInt8)
  | .key key down => (encodeAscii key.name).map ([1, flag down] ++ ·)
  | .button button down => (encodeAscii button.name).map ([2, flag down] ++ ·)
  | .absolute x y => (Signed.packAll 2 [x, y]).map ([3] ++ ·)
  | .moveMany deltas => (Signed.packAll 1 (deltas.flatMap fun p => [p.1, p.2])).map ([4, 1] ++ ·)
  | .move x y => (Signed.packAll 1 [x, y]).map ([4, 1] ++ ·)
  | .wheel x y => (Signed.packAll 1 [x, y]).map ([5, 0] ++ ·)

/-- A stream has a move only as a batch of one. -/
def streamed : Report → Report
  | .move x y => .moveMany [(x, y)]
  | r => r

/-! Names. -/

theorem names_sorted : (sortedKeys.map Key.name).IsChain (· < ·) := by decide +kernel

def Spelled (name : String) : Prop := ∃ bytes, encodeAscii name = some bytes ∧ bytes.length ≤ 20

theorem spelled_of_any {name : String}
    (short : (encodeAscii name).any (fun bytes => bytes.length ≤ 20) = true) : Spelled name := by
  cases encoded : encodeAscii name with
  | none =>
    rw [encoded] at short
    cases short
  | some bytes =>
    rw [encoded] at short
    exact ⟨bytes, encoded, of_decide_eq_true short⟩

theorem key_spelled (k : Key) : Spelled k.name := by
  have all : ∀ k ∈ sortedKeys, (encodeAscii k.name).any (fun bytes => bytes.length ≤ 20) = true := by
    decide +kernel
  exact spelled_of_any (all k (keys_listed k))

theorem button_spelled (b : Button) : Spelled b.name := by
  apply spelled_of_any
  cases b <;> decide +kernel

theorem button_injective {b b' : Button} (same : b.name = b'.name) : b = b' := by
  cases b <;> cases b' <;> first | rfl | exact absurd same (by decide)

theorem name_injective {k k' : Key} (same : k.name = k'.name) : k = k' := by
  have sorted : (sortedKeys.map Key.name).Pairwise (· < ·) := names_sorted.pairwise
  have distinct : (sortedKeys.map Key.name).Nodup := by
    apply sorted.imp
    rintro name _ below rfl
    exact String.lt_irrefl name below
  exact List.inj_on_of_nodup_map distinct (keys_listed k) (keys_listed k') same

theorem encodeAscii_chars {s : String} {bytes : List UInt8} (encoded : encodeAscii s = some bytes) :
    s.toList = bytes.map fun b => Char.ofNat b.toNat := by
  unfold encodeAscii at encoded
  split at encoded
  · rename_i small
    cases encoded
    rw [List.map_map]
    symm
    apply (List.map_congr_left (g := id) _).trans (List.map_id _)
    intro c member
    have few : c.toNat < 128 := of_decide_eq_true (List.all_eq_true.mp small c member)
    rw [Function.comp_apply, UInt8.toNat_ofNat', Nat.mod_eq_of_lt (by omega), Char.ofNat_toNat]
    rfl
  · cases encoded

theorem encodeAscii_injective {s s' : String} {bytes : List UInt8} (encoded : encodeAscii s = some bytes)
    (encoded' : encodeAscii s' = some bytes) : s = s' :=
  String.toList_injective ((encodeAscii_chars encoded).trans (encodeAscii_chars encoded').symm)

theorem flag_injective {down down' : Bool} (same : flag down = flag down') : down = down' := by
  revert down down'
  decide

theorem packAll_injective {width : Nat} (wide : 0 < width) {ns ns' : List Int} {bytes : List UInt8}
    (packed : Signed.packAll width ns = some bytes) (packed' : Signed.packAll width ns' = some bytes) : ns = ns' :=
  (Signed.unpackAll_packAll wide packed).symm.trans (Signed.unpackAll_packAll wide packed')

/-! One report. -/

theorem deltas_injective {ps ps' : List (Int × Int)}
    (same : (ps.flatMap fun p => [p.1, p.2]) = ps'.flatMap fun p => [p.1, p.2]) : ps = ps' := by
  induction ps generalizing ps' with
  | nil =>
    cases ps' with
    | nil => rfl
    | cons p' ps' => cases same
  | cons p ps ih =>
    cases ps' with
    | nil => cases same
    | cons p' ps' =>
      obtain ⟨x, behind⟩ := List.cons.inj same
      obtain ⟨y, others⟩ := List.cons.inj behind
      rw [Prod.ext x y, ih others]

def tag : Report → UInt8
  | .key .. => 1
  | .button .. => 2
  | .absolute .. => 3
  | .moveMany .. | .move .. => 4
  | .wheel .. => 5

theorem payload_tag {r : Report} {bytes : List UInt8} (packed : payload r = some bytes) :
    bytes.head? = some (tag r) := by
  cases r <;>
  · obtain ⟨body, -, rfl⟩ := Option.map_eq_some_iff.mp packed
    rfl

theorem payload_streamed (r : Report) : payload (streamed r) = payload r := by
  cases r <;> rfl

theorem named_injective {head down down' : UInt8} {name name' : String} {bytes : List UInt8}
    (packed : (encodeAscii name).map ([head, down] ++ ·) = some bytes)
    (packed' : (encodeAscii name').map ([head, down'] ++ ·) = some bytes) : name = name' ∧ down = down' := by
  obtain ⟨body, encoded, rfl⟩ := Option.map_eq_some_iff.mp packed
  obtain ⟨body', encoded', same⟩ := Option.map_eq_some_iff.mp packed'
  obtain ⟨flags, bodies⟩ := List.cons.inj (List.cons.inj same).2
  have bodies : body' = body := bodies
  exact ⟨encodeAscii_injective encoded (bodies ▸ encoded'), flags.symm⟩

theorem row_injective {head : List UInt8} {width : Nat} (wide : 0 < width) {ns ns' : List Int} {bytes : List UInt8}
    (packed : (Signed.packAll width ns).map (head ++ ·) = some bytes)
    (packed' : (Signed.packAll width ns').map (head ++ ·) = some bytes) : ns = ns' := by
  obtain ⟨row, fits, rfl⟩ := Option.map_eq_some_iff.mp packed
  obtain ⟨row', fits', same⟩ := Option.map_eq_some_iff.mp packed'
  exact packAll_injective wide fits (List.append_cancel_left same ▸ fits')

theorem moves_injective {ps ps' : List (Int × Int)} {bytes : List UInt8}
    (packed : payload (.moveMany ps) = some bytes) (packed' : payload (.moveMany ps') = some bytes) : ps = ps' :=
  deltas_injective (row_injective (by decide) packed packed')

/-- Two reports of one payload are one report, but for a move and a batch of it alone. -/
theorem payload_injective {r r' : Report} {bytes : List UInt8} (packed : payload r = some bytes)
    (packed' : payload r' = some bytes) : streamed r = streamed r' := by
  have tags : tag r = tag r' := Option.some.inj ((payload_tag packed).symm.trans (payload_tag packed'))
  have packs := (payload_streamed r).trans packed
  have packs' := (payload_streamed r').trans packed'
  cases r with
  | key key down =>
    cases r' with
    | key key' down' =>
      obtain ⟨names, flags⟩ := named_injective packed packed'
      rw [name_injective names, flag_injective flags]
    | button | absolute | moveMany | move | wheel => cases tags
  | button button down =>
    cases r' with
    | button button' down' =>
      obtain ⟨names, flags⟩ := named_injective packed packed'
      rw [button_injective names, flag_injective flags]
    | key | absolute | moveMany | move | wheel => cases tags
  | absolute x y =>
    cases r' with
    | absolute x' y' =>
      cases row_injective (by decide) packed packed'
      rfl
    | key | button | moveMany | move | wheel => cases tags
  | moveMany | move =>
    cases r' with
    | moveMany | move => exact congrArg Report.moveMany (moves_injective packs packs')
    | key | button | absolute | wheel => cases tags
  | wheel x y =>
    cases r' with
    | wheel x' y' =>
      cases row_injective (by decide) packed packed'
      rfl
    | key | button | absolute | moveMany | move => cases tags

/-! What can be packed. -/

/-- What the arguments of `struct.pack` and the length of a batch stay within. -/
structure Fits (r : Report) : Prop where
  bytes : ∀ n ∈ packed r, -127 ≤ n ∧ n ≤ 127
  place : ∀ x y, r = .absolute x y → (-32768 ≤ x ∧ x ≤ 32767) ∧ -32768 ≤ y ∧ y ≤ 32767
  batch : ∀ deltas, r = .moveMany deltas → deltas.length ≤ 259

theorem row_packs {ns : List Int} (range : ∀ n ∈ ns, -127 ≤ n ∧ n ≤ 127) :
    ∃ row, Signed.packAll 1 ns = some row ∧ row.length = ns.length := by
  have fits : ∀ n ∈ ns, Signed.InRange 1 n := by
    intro n member
    obtain ⟨low, high⟩ := range n member
    constructor <;> omega
  obtain ⟨row, packs⟩ := Signed.packAll_range fits
  exact ⟨row, packs, by rw [Signed.length_packAll packs, Nat.one_mul]⟩

theorem headed {head : List UInt8} {n : Nat} {body : Option (List UInt8)}
    (made : ∃ bytes, body = some bytes ∧ bytes.length ≤ n) (short : head.length + n ≤ 520) :
    ∃ bytes, body.map (head ++ ·) = some bytes ∧ bytes.length ≤ 520 := by
  obtain ⟨bytes, rfl, few⟩ := made
  exact ⟨head ++ bytes, rfl, by rw [List.length_append]; omega⟩

theorem fits_packs {r : Report} (fits : Fits r) :
    ∃ bytes, payload r = some bytes ∧ bytes.length ≤ 520 := by
  cases r with
  | key k down => exact headed (key_spelled k) (by simp)
  | button b down => exact headed (button_spelled b) (by simp)
  | absolute x y =>
    obtain ⟨⟨lowX, highX⟩, lowY, highY⟩ := fits.place x y rfl
    have range : ∀ n ∈ [x, y], Signed.InRange 2 n := by
      intro n member
      rcases List.mem_pair.mp member with rfl | rfl <;> constructor <;> omega
    obtain ⟨place, packs⟩ := Signed.packAll_range range
    have four : place.length = 4 := Signed.length_packAll packs
    exact headed ⟨place, packs, four.le⟩ (by simp)
  | moveMany deltas =>
    obtain ⟨row, packs, length⟩ := row_packs fits.bytes
    have few := fits.batch deltas rfl
    have two : row.length = deltas.length * 2 := by simpa [packed] using length
    exact headed ⟨row, packs, show row.length ≤ 518 by omega⟩ (by simp)
  | move x y | wheel x y =>
    obtain ⟨row, packs, length⟩ := row_packs fits.bytes
    exact headed ⟨row, packs, length.le⟩ (by simp [packed])

/-! What a lease sends. -/

def Sends (e : Event) (r : Report) : Prop :=
  match e with
  | .absolute x y => r = .absolute x y
  | .move x y => r = .moveMany (chunks x y) ∨ ∃ p ∈ chunks x y, r = .move p.1 p.2
  | .wheel _ _ => ∃ a b, r = .wheel a b
  | .key _ _ | .button _ _ => r.edge.isSome
  | .ping | .bye => False

section sends
open Method

theorem key_sends (l : Lease) (vk : Nat) (down : Bool) :
    ∀ r ∈ reports (l.serve (.key vk down)), r.edge.isSome := by
  cases known : keys vk with
  | none =>
    unfold Lease.serve
    rw [Lease.apply, known]
    exact List.forall_mem_nil _
  | some key =>
    have presses := Aliases.serve_presses l ⟨vk, down, by rw [known]; rfl⟩
    change Aliases.Presses l _ (reports (l.serve (.key vk down))) (l.serve (.key vk down)).object at presses
    generalize reports (l.serve (.key vk down)) = rs at presses
    generalize (l.serve (.key vk down)).object = object at presses
    cases presses with
    | repeated | joins | leaves => exact List.forall_mem_nil _
    | presses | releases => exact List.forall_mem_singleton.mpr rfl

theorem button_sends (l : Lease) (n : Nat) (down : Bool) :
    ∀ r ∈ reports (l.serve (.button n down)), r.edge.isSome := by
  unfold Lease.serve
  simp only [Lease.apply]
  cases buttons n with
  | none => exact List.forall_mem_nil _
  | some b =>
    cases down with
    | true =>
      simp only [Lease.applyButton, Lease.send, bind_apply, get_apply, modify_apply, pure_apply, call_apply,
        ite_method_apply, Prog.bind]
      split
      · exact List.forall_mem_singleton.mpr rfl
      · exact List.forall_mem_nil _
    | false =>
      simp only [Lease.applyButton, Lease.send, bind_apply, get_apply, pure_apply, call_apply,
        ite_method_apply, Prog.bind]
      split
      · exact List.forall_mem_singleton.mpr rfl
      · exact List.forall_mem_nil _

theorem move_sends (l : Lease) (x y : Int) : ∀ r ∈ reports (l.serve (.move x y)), Sends (.move x y) r := by
  cases mode : l.mouseMode with
  | absolute =>
    rw [serve_move_refused mode]
    exact List.forall_mem_nil _
  | relative =>
    rw [serve_move mode]
    unfold reports
    split
    · split
      · exact List.forall_mem_singleton.mpr (.inl rfl)
      · exact List.forall_mem_nil _
    · intro r sent
      obtain ⟨call, called, rfl⟩ := List.mem_map.mp sent
      obtain ⟨p, member, rfl⟩ := List.mem_map.mp called
      exact .inr ⟨p, member, rfl⟩

theorem serve_sends (l : Lease) (e : Event) : ∀ r ∈ reports (l.serve e), Sends e r := by
  cases e with
  | ping | bye => exact List.forall_mem_nil _
  | key vk down => exact key_sends l vk down
  | button n down => exact button_sends l n down
  | move x y => exact move_sends l x y
  | absolute x y =>
    unfold Lease.serve
    simp only [Lease.apply, Lease.applyAbsolute, Lease.send, bind_apply, get_apply, throw_apply, call_apply,
      ite_method_apply, Prog.bind]
    split
    · exact List.forall_mem_nil _
    · exact List.forall_mem_singleton.mpr rfl
  | wheel x y =>
    rw [serve_wheel]
    intro r sent
    obtain ⟨call, called, rfl⟩ := List.mem_map.mp sent
    obtain ⟨p, _, rfl⟩ := List.mem_map.mp called
    exact ⟨p.1, p.2, rfl⟩

end sends

def Placed : Event → Prop
  | .absolute x y => (-32768 ≤ x ∧ x ≤ 32767) ∧ -32768 ≤ y ∧ y ≤ 32767
  | _ => True

theorem parse_placed {l : Line} {e : Event} (read : parseEvent l = .ok e) : Placed e := by
  unfold parseEvent at read
  split at read
  next => cases read
  next fields =>
    split at read
    next op known =>
      split at read
      next => cases read
      next names isAllowed =>
        obtain ⟨_, read⟩ := check_ok.mp read
        split at read
        next =>
          split at read
          next =>
            split at read <;>
            · obtain ⟨_, _, read⟩ := bind_ok read
              obtain ⟨_, read⟩ := check_ok.mp read
              cases read
              exact trivial
          next => cases read
        next =>
          split at read
          next =>
            obtain ⟨x, _, read⟩ := bind_ok read
            obtain ⟨y, _, read⟩ := bind_ok read
            cases read
            split <;> exact trivial
          next =>
            split at read
            · obtain ⟨x, readX, read⟩ := bind_ok read
              obtain ⟨y, readY, read⟩ := bind_ok read
              cases read
              exact ⟨integer_range readX, integer_range readY⟩
            · cases read
              split <;> exact trivial
    next => cases read

theorem accepted_placed {e : Event} (accepted : Accepted e) : Placed e := by
  induction accepted with
  | parsed read => exact parse_placed read
  | @merged back e m first second merge placed newer =>
    unfold Event.merge at merge
    split at merge
    next =>
      cases merge
      exact newer
    next =>
      split at merge
      next =>
        cases merge
        exact trivial
      next => cases merge
    next => cases merge

theorem serve_fits (l : Lease) {e : Event} (accepted : Accepted e) :
    ∀ r ∈ reports (l.serve e), Fits r := by
  intro r sent
  have sends := serve_sends l e r sent
  constructor
  · exact (step_serve l e).packed r sent
  · rintro x y rfl
    cases e with
    | absolute a b =>
      cases sends
      exact accepted_placed accepted
    | move a b => rcases sends with isBatch | ⟨_, _, isMove⟩ <;> contradiction
    | wheel a b => obtain ⟨_, _, isWheel⟩ := sends; contradiction
    | key vk down | button n down => cases sends
    | ping | bye => exact sends.elim
  · rintro deltas rfl
    cases e with
    | move a b =>
      obtain ⟨lowX, highX, lowY, highY⟩ := accepted_within accepted
      rcases sends with isBatch | ⟨_, _, isMove⟩
      · cases isBatch
        rw [chunks_while, chunksWhile_length]
        omega
      · cases isMove
    | absolute a b => cases sends
    | wheel a b => obtain ⟨_, _, isWheel⟩ := sends; contradiction
    | key vk down | button n down => cases sends
    | ping | bye => exact sends.elim

theorem fits_run (mode : MouseMode) (stream : Bool) (inputs : List Input) :
    ∀ r ∈ (run Calm.step (Calm.fresh mode stream) (inputs.map Input.event)).sent, Fits r := by
  induction inputs using List.reverseRecOn with
  | nil => exact List.forall_mem_nil _
  | append_singleton inputs e ih =>
    rw [List.map_append, List.map_singleton, run_concat]
    exact List.forall_mem_append.mpr ⟨ih, serve_fits _ e.accepted⟩

/-! The bytes of the connection. -/

/-- What the stream writes: the reports, the pings of its flushes, and the answers to pings. -/
inductive Outgoing where
  | report (r : Report)
  | ping
  | pong (payload : { p : List UInt8 // p.length ≤ maxFrame })

namespace Outgoing

def report? : Outgoing → Option Report
  | .report r => some r
  | _ => none

def framed : Outgoing → Option (UInt8 × List UInt8)
  | .report r => (payload r).map (0x2, ·)
  | .ping => some (0x2, [0])
  | .pong payload => some (0xA, payload.val)

def meant : Outgoing → Outgoing
  | .report r => .report (streamed r)
  | o => o

end Outgoing

/-- All that goes out, each frame under its own mask; `none` where one cannot be made. -/
def written : List (Outgoing × Mask) → Option (List UInt8)
  | [] => some []
  | (o, mask) :: out => do
    let (opcode, payload) ← o.framed
    let bytes ← written out
    return frame opcode payload mask ++ bytes

def sentReports (out : List (Outgoing × Mask)) : List Report := out.filterMap fun o => o.1.report?

/-- The stream writes what the lease sends for a run of accepted events, as far as the run has come. -/
def Streams (mode : MouseMode) (inputs : List Input) (out : List (Outgoing × Mask)) : Prop :=
  sentReports out <+: (run Calm.step (Calm.fresh mode true) (inputs.map Input.event)).sent

instance (mode : MouseMode) (inputs : List Input) (out : List (Outgoing × Mask)) :
    Decidable (Streams mode inputs out) := inferInstanceAs (Decidable (sentReports out <+: _))

theorem streams_fit {mode : MouseMode} {inputs : List Input} {out : List (Outgoing × Mask)}
    (streams : Streams mode inputs out) : ∀ r ∈ sentReports out, Fits r :=
  fun r member => fits_run mode true inputs r (streams.subset member)

theorem framed_injective {o o' : Outgoing} {f : UInt8 × List UInt8} (framed : o.framed = some f)
    (framed' : o'.framed = some f) : o.meant = o'.meant := by
  have pings {r : Report} {p : List UInt8} (packed : payload r = some p) : p ≠ [0] := by
    rintro rfl
    have first := payload_tag packed
    cases r <;> cases first
  cases o with
  | report r =>
    obtain ⟨bytes, packed, rfl⟩ := Option.map_eq_some_iff.mp framed
    cases o' with
    | report r' =>
      obtain ⟨bytes', packed', same⟩ := Option.map_eq_some_iff.mp framed'
      cases same
      exact congrArg Outgoing.report (payload_injective packed packed')
    | ping =>
      cases framed'
      exact absurd rfl (pings packed)
    | pong p => cases framed'
  | ping =>
    cases framed
    cases o' with
    | report r' =>
      obtain ⟨bytes', packed', same⟩ := Option.map_eq_some_iff.mp framed'
      cases same
      exact absurd rfl (pings packed')
    | ping => rfl
    | pong p => cases framed'
  | pong p =>
    cases framed
    cases o' with
    | report r' =>
      obtain ⟨bytes', packed', same⟩ := Option.map_eq_some_iff.mp framed'
      cases same
    | ping => cases framed'
    | pong p' =>
      have same : p'.val = p.val := congrArg Prod.snd (Option.some.inj framed')
      rw [Subtype.ext same]

theorem framed_message {o : Outgoing} (fits : ∀ r ∈ o.report?, Fits r) :
    ∃ m : Message, o.framed = some (m.opcode, m.payload) := by
  cases o with
  | report r =>
    obtain ⟨bytes, packs, short⟩ := fits_packs (fits r rfl)
    have taken : bytes.length ≤ maxFrame := short.trans (by decide)
    refine ⟨⟨0x2, bytes, by decide, taken⟩, ?_⟩
    rw [Outgoing.framed, packs]
    rfl
  | ping => exact ⟨⟨0x2, [0], by decide, by decide⟩, rfl⟩
  | pong payload => exact ⟨⟨0xA, payload.val, by decide, payload.property⟩, rfl⟩

theorem fit_cons {entry : Outgoing × Mask} {out : List (Outgoing × Mask)}
    (fits : ∀ r ∈ sentReports (entry :: out), Fits r) :
    (∀ r ∈ entry.1.report?, Fits r) ∧ ∀ r ∈ sentReports out, Fits r := by
  have reports : sentReports (entry :: out) = entry.1.report?.toList ++ sentReports out := by
    unfold sentReports
    rw [List.filterMap_cons]
    cases entry.1.report? <;> rfl
  rw [reports] at fits
  obtain ⟨first, others⟩ := List.forall_mem_append.mp fits
  exact ⟨fun r sent => first r (Option.mem_toList.mpr sent), others⟩

theorem written_messages {out : List (Outgoing × Mask)} (fits : ∀ r ∈ sentReports out, Fits r) :
    ∃ sent : List (Message × Option Mask), sent.length = out.length ∧
      written out = some (sent.flatMap fun f => f.1.encoded f.2) ∧
      (sent.map fun f => (f.1.opcode, f.1.payload)) = out.filterMap fun entry => entry.1.framed := by
  induction out with
  | nil => exact ⟨[], rfl, rfl, rfl⟩
  | cons entry out ih =>
    obtain ⟨o, mask⟩ := entry
    obtain ⟨first, others⟩ := fit_cons fits
    obtain ⟨m, framed⟩ := framed_message first
    obtain ⟨sent, length, bytes, frames⟩ := ih others
    refine ⟨(m, some mask) :: sent, by simp [length], ?_, ?_⟩
    · simp [written, framed, bytes, Message.encoded]
    · simp only [List.map_cons, List.filterMap_cons, framed, frames]

theorem written_cons {o : Outgoing} {mask : Mask} {out : List (Outgoing × Mask)} {m : Message} {bytes : List UInt8}
    (framed : o.framed = some (m.opcode, m.payload)) (writes : written ((o, mask) :: out) = some bytes) :
    ∃ rest, written out = some rest ∧ bytes = m.encoded (some mask) ++ rest := by
  simp only [written, framed, Option.bind_eq_bind, Option.bind_some, Option.bind_eq_some_iff] at writes
  obtain ⟨rest, others, same⟩ := writes
  exact ⟨rest, others, (Option.some.inj same).symm⟩

/-- What was written is told by its bytes, whatever follows: by induction, frame by frame. -/
theorem written_prefix {out out' : List (Outgoing × Mask)} {bytes bytes' : List UInt8}
    (fits : ∀ r ∈ sentReports out, Fits r) (fits' : ∀ r ∈ sentReports out', Fits r)
    (writes : written out = some bytes) (writes' : written out' = some bytes') (begins : bytes <+: bytes') :
    (out.map fun entry => entry.1.meant) <+: out'.map fun entry => entry.1.meant := by
  induction out generalizing out' bytes bytes' with
  | nil => exact List.nil_prefix
  | cons entry out ih =>
    obtain ⟨o, mask⟩ := entry
    obtain ⟨first, others⟩ := fit_cons fits
    obtain ⟨m, framed⟩ := framed_message first
    obtain ⟨rest, behind, rfl⟩ := written_cons framed writes
    obtain ⟨tail, whole⟩ := begins
    cases out' with
    | nil =>
      cases writes'
      cases whole
    | cons entry' out' =>
      obtain ⟨o', mask'⟩ := entry'
      obtain ⟨first', others'⟩ := fit_cons fits'
      obtain ⟨m', framed'⟩ := framed_message first'
      obtain ⟨rest', behind', rfl⟩ := written_cons framed' writes'
      rw [List.append_assoc] at whole
      obtain ⟨same, onward⟩ := encoded_cancel whole
      rw [← same] at framed'
      rw [List.map_cons, List.map_cons, framed_injective framed framed']
      exact (List.prefix_cons_inj _).mpr (ih others others' behind behind' ⟨tail, onward⟩)

/-- Whatever the stream has sent of the accepted events, under any masks, between any pings and pongs and however
the bytes arrive: each payload is short, and the frames are read in their order with what follows left. No other
reports could have been sent with the same bytes, or with these and more behind them. -/
theorem stream_unambiguous (mode : MouseMode) (inputs : List Input) (out : List (Outgoing × Mask))
    (streams : Streams mode inputs out) :
    (∀ r ∈ sentReports out, ∃ p, payload r = some p ∧ p.length ≤ 520) ∧
    ∃ bytes, written out = some bytes ∧
      (∀ (source : Source UInt8) (rest : List UInt8), source.bytes = bytes ++ rest →
        ∃ source', readFrames out.length source = .ok (out.filterMap fun entry => entry.1.framed, source') ∧
          source'.bytes = rest) ∧
      ∀ mode' inputs' out' bytes', Streams mode' inputs' out' → written out' = some bytes' → bytes <+: bytes' →
        (out.map fun entry => entry.1.meant) <+: out'.map fun entry => entry.1.meant := by
  have fits := streams_fit streams
  obtain ⟨messages, length, bytes, frames⟩ := written_messages fits
  refine ⟨fun r sent => fits_packs (fits r sent), _, bytes, ?_, ?_⟩
  · intro source rest stream
    obtain ⟨source', read, behind⟩ := readFrames_encoded messages stream
    rw [length, frames] at read
    exact ⟨source', read, behind⟩
  · intro mode' inputs' out' bytes' streams' writes' begins
    exact written_prefix fits (streams_fit streams') bytes writes' begins

def dragInputs : List Input := [
  ⟨.key 0x41 true, .parsed (l := .object [("op", .str "key"), ("vk", .int 65), ("down", .bool true)]) rfl⟩,
  ⟨.move 200 (-3), .parsed (l := .object [("op", .str "move"), ("x", .int 200), ("y", .int (-3))]) rfl⟩]

def drag : List (Outgoing × Mask) :=
  let mask : Mask := ⟨[1, 2, 3, 4], rfl⟩
  [(.ping, mask), (.report (.key (.key ⟨0, by decide⟩) true), mask), (.pong ⟨[7], by decide⟩, mask),
    (.report (.moveMany [(127, -3), (73, 0)]), mask)]

theorem stream_unambiguous_drag : ∃ bytes, written drag = some bytes ∧
    ∀ (source : Source UInt8) (rest : List UInt8), source.bytes = bytes ++ rest →
      ∃ source', readFrames 4 source = .ok ([(2, [0]), (2, [1, 1, 0x4B, 0x65, 0x79, 0x41]), (0xA, [7]),
        (2, [4, 1, 127, 253, 73, 0])], source') ∧ source'.bytes = rest := by
  obtain ⟨-, bytes, writes, reads, -⟩ := stream_unambiguous .relative dragInputs drag (by decide)
  exact ⟨bytes, writes, reads⟩

end Payload
end Hid

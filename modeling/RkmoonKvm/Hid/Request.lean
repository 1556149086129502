import Mathlib.Data.List.Basic
import RkmoonKvm.Library.Query
import RkmoonKvm.Library.RequestHead
import RkmoonKvm.Library.Json
import RkmoonKvm.Hid.Payload

/-! The requests of the HTTP backend: what `Kvmd.request` writes for a report or another order, and what a reader
of requests finds in it. Whatever the authentication headers hold, a connection carries the one request that was
asked. -/
namespace Hid.Request
open Await Runs Motion Neutral Payload

inductive Setting where
  | text (s : String)
  | other

def names : List String := ["X-KVMD-User", "X-KVMD-Passwd", "Authorization"]

structure Header where
  name : String
  value : String
  named : name ∈ names
  clean : '\r' ∉ value.toList ∧ '\n' ∉ value.toList

structure Kvmd where
  headers : List Header

def header : String × Setting → Except String Header
  | (name, .text value) =>
    if fine : name ∈ names ∧ '\r' ∉ value.toList ∧ '\n' ∉ value.toList then pure ⟨name, value, fine.1, fine.2⟩
    else throw "invalid authentication header configuration"
  | (_, .other) => throw "invalid authentication header configuration"

def Kvmd.new (headers : List (String × Setting)) : Except String Kvmd := do pure ⟨← headers.mapM header⟩

def utf8 (s : String) : List UInt8 := s.toList.flatMap String.utf8EncodeChar

abbrev Params := List (String × String)

def urlencode (params : Params) : List Char := Query.encode (params.map fun p => (utf8 p.1, utf8 p.2))

def target (path : String) (params : Params) : List Char :=
  path.toList ++ if params ≠ [] then '?' :: urlencode params else []

def Kvmd.fields (kvmd : Kvmd) : List (String × String) :=
  [("Host", "localhost"), ("Connection", "close"), ("Content-Length", "0")] ++
    kvmd.headers.map fun h => (h.name, h.value)

def Kvmd.raw (kvmd : Kvmd) (method path : String) (params : Params) : List Char :=
  method.toList ++ [' '] ++ target path params ++ " HTTP/1.1\r\n".toList ++
    (kvmd.fields.flatMap fun f => f.1.toList ++ ": ".toList ++ f.2.toList ++ "\r\n".toList) ++ "\r\n".toList

/-- The bytes that are written; `none` where the encoding fails and nothing is. -/
def Kvmd.request (kvmd : Kvmd) (method path : String) (params : Params) : Option (List UInt8) :=
  encodeAscii (String.ofList (kvmd.raw method path params))

inductive Order where
  | state
  | select (absolute : Bool)
  | report (r : Report)
  deriving DecidableEq

def boolean (down : Bool) : String := if down then "true" else "false"

structure Asked where
  method : String := "POST"
  path : String
  params : Params
  deriving DecidableEq

/-- `check`, `select_mouse` and the events; there is no `move_many` over HTTP. -/
def asked : Order → Option Asked
  | .state => some { method := "GET", path := "/hid", params := [] }
  | .select absolute =>
    some { path := "/hid/set_params", params := [("mouse_output", if absolute then "usb" else "usb_rel")] }
  | .report (.key key down) =>
    some { path := "/hid/events/send_key",
           params := [("key", key.name), ("state", boolean down), ("finish", "false")] }
  | .report (.button button down) =>
    some { path := "/hid/events/send_mouse_button", params := [("button", button.name), ("state", boolean down)] }
  | .report (.move x y) =>
    some { path := "/hid/events/send_mouse_relative", params := [("delta_x", toString x), ("delta_y", toString y)] }
  | .report (.absolute x y) =>
    some { path := "/hid/events/send_mouse_move", params := [("to_x", toString x), ("to_y", toString y)] }
  | .report (.wheel x y) =>
    some { path := "/hid/events/send_mouse_wheel", params := [("delta_x", toString x), ("delta_y", toString y)] }
  | .report (.moveMany _) => none

def Kvmd.send (kvmd : Kvmd) (o : Order) : Option (List UInt8) :=
  (asked o).bind fun a => kvmd.request a.method a.path a.params

/-! A reader of requests and of the forms in their targets. -/

def decodeAscii (bytes : List UInt8) : String := String.ofList (bytes.map fun b => Char.ofNat b.toNat)

def line (h : RequestHead.Head) : Option Asked := do
  let params ← Query.decode (h.target.dropWhile (· ≠ '?')).tail
  pure { method := String.ofList h.method, path := String.ofList (h.target.takeWhile (· ≠ '?')),
         params := params.map fun p => (decodeAscii p.1, decodeAscii p.2) }

/-- What the bytes of a connection ask, the fields that it comes with, and the rest. -/
def heard (bytes : List UInt8) : Option (Asked × List (List Char × List Char) × List Char) := do
  let (h, rest) ← RequestHead.read (bytes.map fun b => Char.ofNat b.toNat)
  let a ← line h
  pure (a, h.fields, rest)

/-! Text of ASCII. -/

def Ascii (s : String) : Prop := ∀ c ∈ s.toList, c.toNat < 128

instance (s : String) : Decidable (Ascii s) := List.decidableBAll _ _

theorem encodeAscii_ascii {s : String} (ascii : Ascii s) :
    encodeAscii s = some (s.toList.map fun c => UInt8.ofNat c.toNat) :=
  if_pos (List.all_eq_true.mpr fun c member => decide_eq_true (ascii c member))

theorem ascii_of_encodeAscii {s : String} {bytes : List UInt8} (encoded : encodeAscii s = some bytes) :
    Ascii s := by
  unfold encodeAscii at encoded
  split at encoded
  · rename_i small
    exact fun c member => of_decide_eq_true (List.all_eq_true.mp small c member)
  · cases encoded

theorem decode_encode {s : String} {bytes : List UInt8} (encoded : encodeAscii s = some bytes) :
    decodeAscii bytes = s := by
  rw [decodeAscii, ← encodeAscii_chars encoded, String.ofList_toList]

theorem utf8EncodeChar_ascii {c : Char} (ascii : c.toNat < 128) :
    String.utf8EncodeChar c = [UInt8.ofNat c.toNat] := by
  have one : c.utf8Size = 1 := Char.utf8Size_eq_one_iff.mpr (Nat.le_of_lt_succ ascii)
  rw [String.utf8EncodeChar_eq_singleton one]
  rfl

theorem decode_utf8 {s : String} (ascii : Ascii s) : decodeAscii (utf8 s) = s := by
  have single : ∀ cs : List Char, (∀ c ∈ cs, c.toNat < 128) →
      cs.flatMap String.utf8EncodeChar = cs.map fun c => UInt8.ofNat c.toNat := by
    intro cs small
    induction cs with
    | nil => rfl
    | cons c cs ih =>
      obtain ⟨first, rest⟩ := List.forall_mem_cons.mp small
      rw [List.flatMap_cons, utf8EncodeChar_ascii first, ih rest]
      rfl
  rw [utf8, single s.toList ascii]
  exact decode_encode (encodeAscii_ascii ascii)

theorem ascii_spelled {s : String} (spelled : Spelled s) : Ascii s := by
  obtain ⟨bytes, encoded, -⟩ := spelled
  exact ascii_of_encodeAscii encoded

theorem ascii_int (i : Int) : Ascii (toString i) := by
  intro c member
  rcases Json.chars_int member with rfl | digit
  · decide
  · exact Nat.lt_of_le_of_lt (Char.isDigit_iff_toNat.mp digit).2 (by decide)

/-! One order. -/

def paths : List String :=
  ["/hid", "/hid/set_params", "/hid/events/send_key", "/hid/events/send_mouse_button",
   "/hid/events/send_mouse_relative", "/hid/events/send_mouse_move", "/hid/events/send_mouse_wheel"]

structure Spells (a : Asked) : Prop where
  method : a.method ∈ ["GET", "POST"]
  path : a.path ∈ paths
  params : ∀ p ∈ a.params, Ascii p.1 ∧ Ascii p.2

theorem asked_spells {o : Order} {a : Asked} (asks : asked o = some a) : Spells a := by
  have truths (down : Bool) : Ascii (boolean down) := by cases down <;> decide
  cases o with
  | state =>
    cases asks
    exact ⟨by simp, by simp [paths], List.forall_mem_nil _⟩
  | select absolute =>
    cases asks
    exact ⟨by simp, by simp [paths], List.forall_mem_singleton.mpr (by cases absolute <;> decide)⟩
  | report r =>
    cases r with
    | moveMany parts => cases asks
    | key key down =>
      cases asks
      have name := ascii_spelled (key_spelled key)
      refine ⟨by simp, by simp [paths], ?_⟩
      simpa using ⟨⟨by decide, name⟩, ⟨by decide, truths down⟩, by decide⟩
    | button button down =>
      cases asks
      have name := ascii_spelled (button_spelled button)
      refine ⟨by simp, by simp [paths], ?_⟩
      simpa using ⟨⟨by decide, name⟩, by decide, truths down⟩
    | move x y | absolute x y | wheel x y =>
      cases asks
      refine ⟨by simp, by simp [paths], ?_⟩
      simpa using ⟨⟨by decide, ascii_int x⟩, by decide, ascii_int y⟩

theorem boolean_injective {down down' : Bool} (same : boolean down = boolean down') : down = down' := by
  cases down <;> cases down' <;> first | rfl | exact absurd same (by decide)

theorem two_params {a a' : Asked} {x x' y y' u u' v v' : String} {rest rest' : Params}
    (params : a.params = (x, u) :: (y, v) :: rest) (params' : a'.params = (x', u') :: (y', v') :: rest')
    (same : some a = some a') : u = u' ∧ v = v' := by
  cases same
  obtain ⟨first, behind⟩ := List.cons.inj (params.symm.trans params')
  exact ⟨congrArg Prod.snd first, congrArg Prod.snd (List.cons.inj behind).1⟩

theorem report_injective {r r' : Report} (single : (asked (.report r)).isSome)
    (same : asked (.report r) = asked (.report r')) : r = r' := by
  cases r with
  | moveMany parts => cases single
  | key key down =>
    cases r' with
    | key key' down' =>
      obtain ⟨names, flags⟩ := two_params rfl rfl same
      rw [name_injective names, boolean_injective flags]
    | button | move | moveMany | absolute | wheel => simp [asked] at same
  | button button down =>
    cases r' with
    | button button' down' =>
      obtain ⟨names, flags⟩ := two_params rfl rfl same
      rw [button_injective names, boolean_injective flags]
    | key | move | moveMany | absolute | wheel => simp [asked] at same
  | move x y =>
    cases r' with
    | move x' y' =>
      obtain ⟨right, down⟩ := two_params rfl rfl same
      rw [Json.int_injective right, Json.int_injective down]
    | key | button | moveMany | absolute | wheel => simp [asked] at same
  | absolute x y =>
    cases r' with
    | absolute x' y' =>
      obtain ⟨right, down⟩ := two_params rfl rfl same
      rw [Json.int_injective right, Json.int_injective down]
    | key | button | move | moveMany | wheel => simp [asked] at same
  | wheel x y =>
    cases r' with
    | wheel x' y' =>
      obtain ⟨right, down⟩ := two_params rfl rfl same
      rw [Json.int_injective right, Json.int_injective down]
    | key | button | move | moveMany | absolute => simp [asked] at same

theorem asked_injective {o o' : Order} {a : Asked} (asks : asked o = some a) (asks' : asked o' = some a) :
    o = o' := by
  have same : asked o = asked o' := asks.trans asks'.symm
  cases o with
  | state =>
    cases o' with
    | state => rfl
    | select => simp [asked] at same
    | report r => cases r <;> simp [asked] at same
  | select absolute =>
    cases o' with
    | state => simp [asked] at same
    | select absolute' =>
      cases absolute <;> cases absolute' <;> first | rfl | simp [asked] at same
    | report r => cases r <;> simp [asked] at same
  | report r =>
    cases o' with
    | state => cases r <;> simp [asked] at same
    | select => cases r <;> simp [asked] at same
    | report r' => rw [report_injective (Option.isSome_of_eq_some asks) same]

/-! One request. -/

theorem path_chars : ∀ path ∈ paths, Ascii path ∧
    ∀ c ∈ path.toList, c ≠ '?' ∧ c ≠ ' ' ∧ RequestHead.half c = false := by
  simp only [← List.forall_iff_forall_mem]
  decide

theorem line_target {a : Asked} (spells : Spells a) (fields : List (List Char × List Char)) :
    line ⟨a.method.toList, target a.path a.params, fields⟩ = some a := by
  have plain : ∀ c ∈ a.path.toList, decide (c ≠ '?') = true :=
    fun c member => decide_eq_true ((path_chars a.path spells.path).2 c member).1
  have back : (a.params.map fun p => (utf8 p.1, utf8 p.2)).map (fun p => (decodeAscii p.1, decodeAscii p.2)) =
      a.params := by
    rw [List.map_map]
    apply (List.map_congr_left (g := id) _).trans (List.map_id _)
    intro p member
    obtain ⟨name, value⟩ := spells.params p member
    simp [decode_utf8 name, decode_utf8 value]
  have before : (target a.path a.params).takeWhile (· ≠ '?') = a.path.toList := by
    unfold target
    rw [List.takeWhile_append_of_pos plain]
    split <;> simp
  have behind : ((target a.path a.params).dropWhile (· ≠ '?')).tail = urlencode a.params := by
    unfold target
    rw [List.dropWhile_append_of_pos plain]
    split
    · simp
    · rename_i none
      rw [not_not.mp none]
      rfl
  simp only [line, before, behind, urlencode, Query.decode_encode, Option.bind_eq_bind, Option.bind_some, back,
    String.ofList_toList]
  rfl

theorem names_chars : ∀ name ∈ names ++ ["Host", "Connection", "Content-Length"], Ascii name ∧
    ∀ c ∈ name.toList, c ≠ ':' ∧ RequestHead.half c = false := by
  simp only [← List.forall_iff_forall_mem]
  decide

def Kvmd.head (kvmd : Kvmd) (a : Asked) : RequestHead.Head where
  method := a.method.toList
  target := target a.path a.params
  fields := kvmd.fields.map fun f => (f.1.toList, f.2.toList)

theorem raw_text (kvmd : Kvmd) (a : Asked) :
    kvmd.raw a.method a.path a.params = RequestHead.text (kvmd.head a) := by
  have version : " HTTP/1.1\r\n".toList = ' ' :: (RequestHead.version ++ RequestHead.crlf) := by decide
  have newline : "\r\n".toList = RequestHead.crlf := by decide
  simp [Kvmd.raw, RequestHead.text, RequestHead.lines, RequestHead.requestLine, RequestHead.fieldLine, Kvmd.head,
    version, newline, List.flatMap_map]

theorem target_chars {a : Asked} (spells : Spells a) :
    ∀ c ∈ target a.path a.params, c ≠ ' ' ∧ RequestHead.half c = false := by
  intro c member
  rcases List.mem_append.mp member with path | query
  · exact ((path_chars a.path spells.path).2 c path).2
  · split at query
    · have kinds : Query.plain c ∨ c = '=' ∨ c = '&' ∨ c = '?' := by
        rcases List.mem_cons.mp query with mark | query
        · exact .inr (.inr (.inr mark))
        · rcases Query.encode_chars query with plain | equals | joined
          · exact .inl plain
          · exact .inr (.inl equals)
          · exact .inr (.inr (.inl joined))
      constructor
      · rintro rfl
        exact absurd kinds (by decide)
      · by_contra ends
        rcases Bool.or_eq_true_iff.mp (Bool.not_eq_false _ ▸ ends) with ends | ends <;>
        · cases of_decide_eq_true ends
          exact absurd kinds (by decide)
    · cases query

theorem fields_fit (kvmd : Kvmd) : ∀ f ∈ kvmd.fields,
    f.1 ∈ names ++ ["Host", "Connection", "Content-Length"] ∧ ∀ c ∈ f.2.toList, RequestHead.half c = false := by
  intro f listed
  rcases List.mem_append.mp listed with fixed | given
  · have all : ∀ f ∈ [("Host", "localhost"), ("Connection", "close"), ("Content-Length", "0")],
        f.1 ∈ names ++ ["Host", "Connection", "Content-Length"] ∧
          ∀ c ∈ f.2.toList, RequestHead.half c = false := by
      simp only [← List.forall_iff_forall_mem]
      decide
    exact all f fixed
  · obtain ⟨h, -, rfl⟩ := List.mem_map.mp given
    refine ⟨List.mem_append_left _ h.named, fun c listed => ?_⟩
    have other : c ≠ '\r' ∧ c ≠ '\n' :=
      ⟨fun same => h.clean.1 (same ▸ listed), fun same => h.clean.2 (same ▸ listed)⟩
    simp [RequestHead.half, other]

theorem head_sound (kvmd : Kvmd) {a : Asked} (spells : Spells a) : RequestHead.Sound (kvmd.head a) where
  method := by
    have methods : ∀ m ∈ ["GET", "POST"], ∀ c ∈ m.toList, c ≠ ' ' ∧ RequestHead.half c = false := by
      simp only [← List.forall_iff_forall_mem]
      decide
    exact methods a.method spells.method
  target := target_chars spells
  names := by
    intro f member
    obtain ⟨g, listed, rfl⟩ := List.mem_map.mp member
    exact (names_chars g.1 (fields_fit kvmd g listed).1).2
  values := by
    intro f member
    obtain ⟨g, listed, rfl⟩ := List.mem_map.mp member
    exact (fields_fit kvmd g listed).2

/-- The fields of a head as a reader sees them. -/
def Kvmd.seen (kvmd : Kvmd) : List (List Char × List Char) :=
  kvmd.fields.map fun f => (f.1.toList, RequestHead.trim f.2.toList)

theorem heard_send {kvmd : Kvmd} {o : Order} {a : Asked} {bytes : List UInt8} (asks : asked o = some a)
    (sent : kvmd.send o = some bytes) (rest : List UInt8) :
    heard (bytes ++ rest) = some (a, kvmd.seen, rest.map fun b => Char.ofNat b.toNat) := by
  have written : kvmd.request a.method a.path a.params = some bytes := by
    rw [Kvmd.send, asks, Option.bind_some] at sent
    exact sent
  have spells := asked_spells asks
  have chars : bytes.map (fun b => Char.ofNat b.toNat) = RequestHead.text (kvmd.head a) := by
    rw [← encodeAscii_chars written, String.toList_ofList, raw_text]
  have read : line (kvmd.head a).trimmed = some a := line_target spells _
  have fields : (kvmd.head a).trimmed.fields = kvmd.seen := List.map_map
  unfold heard
  rw [List.map_append, chars, RequestHead.read_text (head_sound kvmd spells)]
  simp only [Option.bind_eq_bind, Option.bind_some, read, fields]
  rfl

/-- The bytes of an order begin those of no other, whatever the headers of the two. -/
theorem send_injective {kvmd kvmd' : Kvmd} {o o' : Order} {bytes bytes' : List UInt8}
    (sent : kvmd.send o = some bytes) (sent' : kvmd'.send o' = some bytes') (begins : bytes <+: bytes') :
    o = o' ∧ kvmd.seen = kvmd'.seen ∧ bytes = bytes' := by
  obtain ⟨rest, rfl⟩ := begins
  obtain ⟨a, asks, -⟩ := Option.bind_eq_some_iff.mp sent
  obtain ⟨a', asks', -⟩ := Option.bind_eq_some_iff.mp sent'
  have read := heard_send asks sent rest
  have read' := heard_send asks' sent' []
  rw [List.append_nil, read] at read'
  obtain ⟨same, behind⟩ := Prod.mk.inj (Option.some.inj read')
  obtain ⟨fields, none⟩ := Prod.mk.inj behind
  have none : rest = [] := List.map_eq_nil_iff.mp none
  refine ⟨asked_injective asks (same ▸ asks'), fields, ?_⟩
  rw [none, List.append_nil]

/-! When it is written. -/

theorem encodeAscii_isSome {s : String} : (encodeAscii s).isSome ↔ Ascii s := by
  constructor
  · intro encoded
    obtain ⟨bytes, encoded⟩ := Option.isSome_iff_exists.mp encoded
    exact ascii_of_encodeAscii encoded
  · intro ascii
    rw [encodeAscii_ascii ascii]
    rfl

theorem ascii_target {a : Asked} (spells : Spells a) : ∀ c ∈ target a.path a.params, c.toNat < 128 := by
  intro c member
  rcases List.mem_append.mp member with path | query
  · exact (path_chars a.path spells.path).1 c path
  · split at query
    · rcases List.mem_cons.mp query with rfl | query
      · decide
      · rcases Query.encode_chars query with plain | rfl | rfl
        · exact Query.plain_ascii plain
        · decide
        · decide
    · cases query

theorem ascii_fields (kvmd : Kvmd) : (∀ f ∈ kvmd.fields, Ascii f.2) ↔ ∀ h ∈ kvmd.headers, Ascii h.value := by
  have fixed : ∀ f ∈ [("Host", "localhost"), ("Connection", "close"), ("Content-Length", "0")], Ascii f.2 := by
    decide
  rw [Kvmd.fields, List.forall_mem_append, List.forall_mem_map]
  exact and_iff_right fixed

theorem send_isSome (kvmd : Kvmd) (o : Order) :
    (kvmd.send o).isSome ↔ (asked o).isSome ∧ ∀ h ∈ kvmd.headers, Ascii h.value := by
  cases asks : asked o with
  | none => simp [Kvmd.send, asks]
  | some a =>
    have spells := asked_spells asks
    have method : ∀ c ∈ a.method.toList, c.toNat < 128 := by
      have methods : ∀ m ∈ ["GET", "POST"], ∀ c ∈ m.toList, c.toNat < 128 := by
        simp only [← List.forall_iff_forall_mem]
        decide
      exact methods a.method spells.method
    have written : (kvmd.send o).isSome ↔ ∀ c ∈ RequestHead.text (kvmd.head a), c.toNat < 128 := by
      rw [Kvmd.send, asks, Option.bind_some, Kvmd.request, encodeAscii_isSome, Ascii, String.toList_ofList,
        raw_text]
    rw [written, RequestHead.forall_text (List.forall_iff_forall_mem.mp (by decide)), ← ascii_fields]
    constructor
    · rintro ⟨-, -, fields⟩
      exact ⟨rfl, fun f listed => (fields _ (List.mem_map_of_mem listed)).2⟩
    · rintro ⟨-, values⟩
      refine ⟨method, ascii_target spells, ?_⟩
      intro f member
      obtain ⟨g, listed, rfl⟩ := List.mem_map.mp member
      exact ⟨(names_chars g.1 (fields_fit kvmd g listed).1).1, values g listed⟩

theorem header_ok {s : String × Setting} {h : Header} : header s = .ok h ↔ s = (h.name, .text h.value) := by
  obtain ⟨name, value⟩ := s
  constructor
  · intro checked
    cases value with
    | other => cases checked
    | text value =>
      by_cases fine : name ∈ names ∧ '\r' ∉ value.toList ∧ '\n' ∉ value.toList
      · rw [header, dif_pos fine] at checked
        cases checked
        rfl
      · rw [header, dif_neg fine] at checked
        cases checked
  · rintro ⟨⟩
    exact dif_pos ⟨h.named, h.clean⟩

theorem new_ok {settings : List (String × Setting)} {kvmd : Kvmd} :
    Kvmd.new settings = .ok kvmd ↔ settings = kvmd.headers.map fun h => (h.name, .text h.value) := by
  have listed (hs : List Header) :
      settings.mapM header = .ok hs ↔ settings = hs.map fun h => (h.name, .text h.value) := by
    induction settings generalizing hs with
    | nil =>
      cases hs with
      | nil => exact ⟨fun _ => rfl, fun _ => rfl⟩
      | cons h hs =>
        constructor <;> rintro ⟨⟩
    | cons s settings ih =>
      rw [List.mapM_cons]
      constructor
      · intro read
        cases first : header s with
        | error e =>
          rw [first] at read
          cases read
        | ok h =>
          cases others : settings.mapM header with
          | error e =>
            rw [first, others] at read
            cases read
          | ok hs' =>
            rw [first, others] at read
            cases read
            rw [header_ok.mp first, (ih hs').mp others]
            rfl
      · cases hs with
        | nil => exact fun read => nomatch read
        | cons h hs =>
          intro same
          obtain ⟨first, rest⟩ := List.cons.inj same
          rw [header_ok.mpr first, (ih hs).mpr rest]
          rfl
  obtain ⟨headers⟩ := kvmd
  rw [← listed headers]
  unfold Kvmd.new
  cases settings.mapM header with
  | error e => constructor <;> rintro ⟨⟩
  | ok hs =>
    constructor <;>
    · rintro ⟨⟩
      rfl

/-! The requests of a lease without a stream. -/

def Batch (r : Report) : Prop := ∃ parts, r = .moveMany parts

theorem asked_report {r : Report} (single : ¬ Batch r) : (asked (.report r)).isSome := by
  cases r with
  | moveMany parts => exact absurd ⟨parts, rfl⟩ single
  | key | button | move | absolute | wheel => rfl

open Method in
theorem serve_stream (l : Lease) (e : Event) : (l.serve e).object.stream = l.stream := by
  cases e with
  | ping | bye => rfl
  | wheel x y => rw [serve_wheel]
  | move x y =>
    cases mode : l.mouseMode with
    | absolute => rw [serve_move_refused mode]
    | relative => rw [serve_move mode]
  | absolute x y =>
    unfold Lease.serve
    simp only [Lease.apply, Lease.applyAbsolute, Lease.send, bind_apply, get_apply, throw_apply, call_apply,
      ite_method_apply, Prog.bind]
    split <;> rfl
  | key vk down =>
    cases known : keys vk with
    | none =>
      unfold Lease.serve
      rw [Lease.apply, known]
      rfl
    | some key =>
      have presses := Aliases.serve_presses l ⟨vk, down, by rw [known]; rfl⟩
      change Aliases.Presses l _ (reports (l.serve (.key vk down))) (l.serve (.key vk down)).object at presses
      generalize reports (l.serve (.key vk down)) = rs at presses
      generalize (l.serve (.key vk down)).object = object at presses
      cases presses <;> rfl
  | button n down =>
    unfold Lease.serve
    simp only [Lease.apply]
    cases buttons n with
    | none => rfl
    | some b =>
      cases down with
      | true =>
        simp only [Lease.applyButton, Lease.send, bind_apply, get_apply, modify_apply, pure_apply, call_apply,
          ite_method_apply, Prog.bind]
        split <;> rfl
      | false =>
        simp only [Lease.applyButton, Lease.send, bind_apply, get_apply, pure_apply, call_apply,
          ite_method_apply, Prog.bind]
        split <;> rfl

theorem serve_single (l : Lease) (e : Event) (http : l.stream = false) :
    (l.serve e).object.stream = false ∧ ∀ r ∈ reports (l.serve e), ¬ Batch r := by
  constructor
  · rw [serve_stream, http]
  · intro r sent
    have sends := serve_sends l e r sent
    rintro ⟨parts, rfl⟩
    cases e with
    | absolute a b => cases sends
    | wheel a b => obtain ⟨_, _, isWheel⟩ := sends; cases isWheel
    | key vk down | button n down => cases sends
    | ping | bye => exact sends.elim
    | move a b =>
      cases mode : l.mouseMode with
      | absolute =>
        rw [serve_move_refused mode] at sent
        cases sent
      | relative =>
        rw [serve_move mode, http] at sent
        obtain ⟨call, called, batch⟩ := List.mem_map.mp sent
        obtain ⟨p, -, rfl⟩ := List.mem_map.mp called
        cases batch

theorem single_run (mode : MouseMode) (inputs : List Input) :
    let s := run Calm.step (Calm.fresh mode false) (inputs.map Input.event)
    s.lease.stream = false ∧ ∀ r ∈ s.sent, ¬ Batch r := by
  apply run_invariant Calm.step fun s => s.lease.stream = false ∧ ∀ r ∈ s.sent, ¬ Batch r
  · rintro s e ⟨http, single⟩
    obtain ⟨still, new⟩ := serve_single s.lease e http
    exact ⟨still, List.forall_mem_append.mpr ⟨single, new⟩⟩
  · exact ⟨rfl, List.forall_mem_nil _⟩

theorem written_heard {kvmd : Kvmd} (ascii : ∀ h ∈ kvmd.headers, Ascii h.value) {sent : List Report}
    (single : ∀ r ∈ sent, ¬ Batch r) : ∃ written, sent.mapM (fun r => kvmd.send (.report r)) = some written ∧
      ∀ rest, written.map (fun bytes => heard (bytes ++ rest)) =
        sent.map fun r => (asked (.report r)).map fun a => (a, kvmd.seen, rest.map fun b => Char.ofNat b.toNat) := by
  induction sent with
  | nil => exact ⟨[], rfl, fun rest => rfl⟩
  | cons r sent ih =>
    obtain ⟨first, others⟩ := List.forall_mem_cons.mp single
    obtain ⟨written, writes, told⟩ := ih others
    obtain ⟨a, asks⟩ := Option.isSome_iff_exists.mp (asked_report first)
    obtain ⟨bytes, sends⟩ := Option.isSome_iff_exists.mp ((send_isSome kvmd _).mpr ⟨asked_report first, ascii⟩)
    refine ⟨bytes :: written, ?_, fun rest => ?_⟩
    · simp only [List.mapM_cons, sends, writes, Option.bind_eq_bind, Option.bind_some]
      rfl
    · rw [List.map_cons, List.map_cons, told rest, heard_send asks sends rest, asks, Option.map_some]

/-- Whatever an accepted file of headers holds: an order is written unless it is a batch or a header is not in
ASCII; a connection that begins with its bytes carries what it asks, with the headers but for the blanks around
their values, and its bytes are no others and begin no others. A lease without a stream is written report by
report. -/
theorem requests_exact {settings : List (String × Setting)} {kvmd : Kvmd}
    (made : Kvmd.new settings = .ok kvmd) :
    (∀ o, (kvmd.send o).isSome ↔ (asked o).isSome ∧ ∀ name value, (name, .text value) ∈ settings → Ascii value) ∧
    (∀ o a bytes, asked o = some a → kvmd.send o = some bytes → ∀ rest,
      heard (bytes ++ rest) = some (a, kvmd.seen, rest.map fun b => Char.ofNat b.toNat)) ∧
    (∀ o o' bytes bytes', kvmd.send o = some bytes → kvmd.send o' = some bytes' → bytes <+: bytes' →
      o = o' ∧ bytes = bytes') ∧
    ((∀ name value, (name, .text value) ∈ settings → Ascii value) → ∀ mode (inputs : List Input),
      let sent := (run Calm.step (Calm.fresh mode false) (inputs.map Input.event)).sent
      ∃ written, sent.mapM (fun r => kvmd.send (.report r)) = some written ∧
        ∀ rest, written.map (fun bytes => heard (bytes ++ rest)) = sent.map fun r =>
          (asked (.report r)).map fun a => (a, kvmd.seen, rest.map fun b => Char.ofNat b.toNat)) := by
  have values : (∀ name value, (name, .text value) ∈ settings → Ascii value) ↔
      ∀ h ∈ kvmd.headers, Ascii h.value := by
    rw [new_ok.mp made]
    constructor
    · intro all h member
      exact all h.name h.value (List.mem_map_of_mem member)
    · intro all name value member
      obtain ⟨h, listed, same⟩ := List.mem_map.mp member
      cases same
      exact all h listed
  refine ⟨fun o => ?_, fun o a bytes asks sent rest => heard_send asks sent rest, ?_, fun ascii mode inputs => ?_⟩
  · rw [values, send_isSome]
  · intro o o' bytes bytes' sent sent' begins
    obtain ⟨same, -, whole⟩ := send_injective sent sent' begins
    exact ⟨same, whole⟩
  · exact written_heard (values.mp ascii) (single_run mode inputs).2

def userSettings : List (String × Setting) := [("X-KVMD-User", .text "at"), ("X-KVMD-Passwd", .text " x: y ")]

def userKvmd : Kvmd where
  headers := [⟨"X-KVMD-User", "at", by decide, by decide⟩, ⟨"X-KVMD-Passwd", " x: y ", by decide, by decide⟩]

theorem requests_exact_user : ∃ bytes, userKvmd.send (.report (.move (-127) 3)) = some bytes ∧
    heard (bytes ++ [0x47]) = some (⟨"POST", "/hid/events/send_mouse_relative",
      [("delta_x", "-127"), ("delta_y", "3")]⟩, userKvmd.seen, ['G']) := by
  have made : Kvmd.new userSettings = .ok userKvmd := rfl
  obtain ⟨written, read, -⟩ := requests_exact made
  have ascii : ∀ name value, (name, .text value) ∈ userSettings → Ascii value := by
    intro name value member
    rcases List.mem_pair.mp member with same | same <;> (cases same; decide)
  obtain ⟨bytes, sent⟩ := Option.isSome_iff_exists.mp ((written (.report (.move (-127) 3))).mpr ⟨rfl, ascii⟩)
  exact ⟨bytes, sent, read _ _ bytes rfl sent [0x47]⟩

end Hid.Request

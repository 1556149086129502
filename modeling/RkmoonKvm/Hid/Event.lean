import Mathlib.Data.Finset.Basic

/-! The vocabulary of the input bridge: key and button tables, the events of a
lease and their parser, and the error classes that its handlers tell apart. -/
namespace Hid

/-- The kvmd Web key names, one constructor a name; `key i` is "KeyA" and on. -/
inductive Key where
  | key (i : Fin 26)
  | digit (i : Fin 10)
  | f (i : Fin 12)
  | numpad (i : Fin 10)
  | backspace | tab | enter | shiftLeft | controlLeft | altLeft | pause | capsLock | escape
  | space | pageUp | pageDown | end_ | home | arrowLeft | arrowUp | arrowRight | arrowDown
  | printScreen | insert | delete | metaLeft | metaRight | contextMenu
  | numpadMultiply | numpadAdd | numpadSubtract | numpadDecimal | numpadDivide
  | numLock | scrollLock | shiftRight | controlRight | altRight
  | semicolon | equal | comma | minus | period | slash
  | backquote | bracketLeft | backslash | bracketRight | quote | intlBackslash
  deriving DecidableEq, Repr

inductive Button where
  | left | middle | right | up | down
  deriving DecidableEq, Repr

/-- Normalized Windows VK to key. Generic and left VKs alias the same physical key. -/
def keys (vk : Nat) : Option Key :=
  if h : 0x41 ≤ vk ∧ vk < 0x5B then some (.key ⟨vk - 0x41, by omega⟩)
  else if h : 0x30 ≤ vk ∧ vk < 0x3A then some (.digit ⟨vk - 0x30, by omega⟩)
  else if h : 0x70 ≤ vk ∧ vk < 0x7C then some (.f ⟨vk - 0x70, by omega⟩)
  else if h : 0x60 ≤ vk ∧ vk < 0x6A then some (.numpad ⟨vk - 0x60, by omega⟩)
  else match vk with
    | 0x08 => some .backspace | 0x09 => some .tab | 0x0C => some (.numpad 5)
    | 0x0D => some .enter | 0x10 => some .shiftLeft | 0x11 => some .controlLeft
    | 0x12 => some .altLeft | 0x13 => some .pause | 0x14 => some .capsLock
    | 0x1B => some .escape | 0x20 => some .space | 0x21 => some .pageUp
    | 0x22 => some .pageDown | 0x23 => some .end_ | 0x24 => some .home
    | 0x25 => some .arrowLeft | 0x26 => some .arrowUp | 0x27 => some .arrowRight
    | 0x28 => some .arrowDown | 0x2C => some .printScreen | 0x2D => some .insert
    | 0x2E => some .delete | 0x5B => some .metaLeft | 0x5C => some .metaRight
    | 0x5D => some .contextMenu | 0x6A => some .numpadMultiply | 0x6B => some .numpadAdd
    | 0x6D => some .numpadSubtract | 0x6E => some .numpadDecimal | 0x6F => some .numpadDivide
    | 0x90 => some .numLock | 0x91 => some .scrollLock | 0xA0 => some .shiftLeft
    | 0xA1 => some .shiftRight | 0xA2 => some .controlLeft | 0xA3 => some .controlRight
    | 0xA4 => some .altLeft | 0xA5 => some .altRight | 0xBA => some .semicolon
    | 0xBB => some .equal | 0xBC => some .comma | 0xBD => some .minus | 0xBE => some .period
    | 0xBF => some .slash | 0xC0 => some .backquote | 0xDB => some .bracketLeft
    | 0xDC => some .backslash | 0xDD => some .bracketRight | 0xDE => some .quote
    | 0xE2 => some .intlBackslash
    | _ => none

def buttons : Nat → Option Button
  | 1 => some .left | 2 => some .middle | 3 => some .right | 4 => some .up | 5 => some .down
  | _ => none

/-- Exceptions by class. `CancelledError` is no `Exception` in Python. -/
inductive PyError where
  | inputError (text : String)
  | backendError (text : String)
  | keyError
  | otherException
  | cancelledError
  deriving DecidableEq, Repr

def PyError.isException : PyError → Bool
  | .cancelledError => false
  | _ => true

/-- A value of a decoded line; floats, lists and nested objects are `other`. -/
inductive Value where
  | null
  | bool (b : Bool)
  | int (n : Int)
  | str (s : String)
  | other
  deriving DecidableEq, Repr

inductive Line where
  | object (fields : List (String × Value))
  | other
  deriving DecidableEq, Repr

inductive Event where
  | ping
  | bye
  | key (vk : Nat) (down : Bool)
  | button (button : Nat) (down : Bool)
  | move (x y : Int)
  | wheel (x y : Int)
  | absolute (x y : Int)
  deriving DecidableEq, Repr

def field (e : List (String × Value)) (name : String) : Value :=
  (e.lookup name).getD .null

def integer (e : List (String × Value)) (name : String) (low high : Int) : Except PyError Int :=
  match field e name with
  | .int n => if low ≤ n ∧ n ≤ high then .ok n else .error (.inputError "invalid input integer")
  | _ => .error (.inputError "invalid input integer")

def allowed : String → Option (List String)
  | "ping" => some ["op"]
  | "bye" => some ["op"]
  | "key" => some ["op", "vk", "down"]
  | "button" => some ["op", "button", "down"]
  | "move" => some ["op", "x", "y"]
  | "wheel" => some ["op", "x", "y"]
  | "absolute" => some ["op", "x", "y"]
  | _ => none

def sameFields (e : List (String × Value)) (fields : List String) : Bool :=
  e.all (fun p => fields.contains p.1) && fields.all (fun f => e.any (fun p => p.1 == f))

def parseEvent : Line → Except PyError Event
  | .other => .error (.inputError "invalid input event")
  | .object e =>
    match field e "op" with
    | .str op =>
      match allowed op with
      | none => .error (.inputError "unsupported input event/fields")
      | some fields => do
        if !sameFields e fields then throw (.inputError "unsupported input event/fields")
        if op = "key" ∨ op = "button" then
          match field e "down" with
          | .bool down =>
            if op = "key" then
              let vk ← integer e "vk" 0 255
              if (keys vk.toNat).isNone then throw (.inputError "unsupported normalized virtual key")
              return .key vk.toNat down
            else
              let button ← integer e "button" 1 5
              if (buttons button.toNat).isNone then throw (.inputError "unsupported mouse button")
              return .button button.toNat down
          | _ => throw (.inputError "invalid input state")
        else if op = "move" ∨ op = "wheel" then
          let x ← integer e "x" (-32767) 32767
          let y ← integer e "y" (-32767) 32767
          return if op = "move" then .move x y else .wheel x y
        else if op = "absolute" then
          let x ← integer e "x" (-32768) 32767
          let y ← integer e "y" (-32768) 32767
          return .absolute x y
        else return if op = "ping" then .ping else .bye
    | _ => .error (.inputError "invalid input event")

end Hid

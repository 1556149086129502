import Mathlib.Data.Finset.Image
import RkmoonKvm.Library.Await
import RkmoonKvm.Hid.Event

/-! The lease: the sets that say what may be down, and the two methods that send
reports. Every report is a wait, since it can fail or be cancelled there. Releases
go to the acknowledged backend; events go to the stream when there is one. -/
namespace Hid
open Await

def chunksLoop : Nat → Int → Int → List (Int × Int)
  | 0, _, _ => []
  | n + 1, x, y =>
    if x = 0 ∧ y = 0 then []
    else
      let a := max (-127) (min 127 x)
      let b := max (-127) (min 127 y)
      (a, b) :: chunksLoop n (x - a) (y - b)

/-- Each round shortens the longer side, so its length bounds the number of rounds. -/
def chunks (x y : Int) : List (Int × Int) := chunksLoop (max x.natAbs y.natAbs) x y

inductive Via where
  | events
  | backend
  deriving DecidableEq, Repr

inductive Report where
  | key (key : Key) (down : Bool)
  | button (button : Button) (down : Bool)
  | move (x y : Int)
  | moveMany (parts : List (Int × Int))
  | absolute (x y : Int)
  | wheel (x y : Int)
  deriving DecidableEq, Repr

structure Call where
  via : Via
  report : Report
  deriving DecidableEq, Repr

inductive MouseMode where
  | relative
  | absolute
  deriving DecidableEq, Repr

structure Lease where
  mouseMode : MouseMode
  /-- Whether `events` is a stream, which has `move_many`. -/
  stream : Bool
  virtual : Finset Nat := ∅
  possiblyDown : Finset Key := ∅
  buttons : Finset Button := ∅
  wheelX : Int := 0
  wheelY : Int := 0
  deriving DecidableEq

def Lease.neutral (l : Lease) : Bool := l.possiblyDown = ∅ ∧ l.buttons = ∅

namespace Lease

abbrev Code := Method Lease Call Unit PyError

def send (report : Report) : Code Unit := .call ⟨.events, report⟩

/-- `any(KEYS[v]==key for v in self.virtual)` -/
def held (l : Lease) (key : Key) : Bool := ∃ v ∈ l.virtual, keys v = some key

def applyKey (vk : Nat) (key : Key) : Bool → Code Unit
  | true => do
    let l ← get
    if vk ∈ l.virtual then return -- USB host handles autorepeat.
    modify fun l => { l with virtual := insert vk l.virtual }
    if !l.held key then
      -- BEFORE request; timeout may still have applied it.
      modify fun l => { l with possiblyDown := insert key l.possiblyDown }
      send (.key key true)
  | false => do
    modify fun l => { l with virtual := l.virtual.erase vk }
    let l ← get
    if !l.held key && key ∈ l.possiblyDown then
      send (.key key false)
      modify fun l => { l with possiblyDown := l.possiblyDown.erase key }

def applyButton (b : Button) : Bool → Code Unit
  | true => do
    let l ← get
    if b ∉ l.buttons then
      modify fun l => { l with buttons := insert b l.buttons }
      send (.button b true)
  | false => do
    let l ← get
    if b ∈ l.buttons then
      send (.button b false)
      modify fun l => { l with buttons := l.buttons.erase b }

def sendEach (report : Int × Int → Report) : List (Int × Int) → Code Unit
  | [] => pure ()
  | p :: ps => do
    send (report p)
    sendEach report ps

def applyMove (x y : Int) : Code Unit := do
  let l ← get
  if l.mouseMode ≠ .relative then throw (.inputError "motion differs from lease mode")
  if l.stream then
    let parts := chunks x y
    if parts ≠ [] then send (.moveMany parts)
  else sendEach (fun p => .move p.1 p.2) (chunks x y)

def applyAbsolute (x y : Int) : Code Unit := do
  let l ← get
  if l.mouseMode ≠ .absolute then throw (.inputError "motion differs from lease mode")
  send (.absolute x y)

def applyWheel (x y : Int) : Code Unit := do
  modify fun l => { l with wheelX := l.wheelX + x, wheelY := l.wheelY + y }
  let l ← get
  -- Truncate toward zero so fractional negative scrolling is not rounded to a full notch.
  let x := l.wheelX.tdiv 120
  let y := l.wheelY.tdiv 120
  modify fun l => { l with wheelX := l.wheelX - x * 120, wheelY := l.wheelY - y * 120 }
  sendEach (fun p => .wheel p.1 p.2) (chunks x y)

def apply : Event → Code Unit
  | .key vk down =>
    match keys vk with
    | none => throw .keyError
    | some key => applyKey vk key down
  | .button n down =>
    match Hid.buttons n with
    | none => throw .keyError
    | some b => applyButton b down
  | .move x y => applyMove x y
  | .absolute x y => applyAbsolute x y
  | .wheel x y => applyWheel x y
  | .ping => pure ()
  | .bye => pure ()

def releaseKeys : List Key → Code Unit
  | [] => pure ()
  | key :: rest => do
    Method.attempt PyError.isException
      (do
        let _ ← Method.call ⟨.backend, .key key false⟩
        modify fun l => { l with possiblyDown := l.possiblyDown.erase key })
      (pure ())
    releaseKeys rest

def releaseButtons : List Button → Code Unit
  | [] => pure ()
  | b :: rest => do
    Method.attempt PyError.isException
      (do
        let _ ← Method.call ⟨.backend, .button b false⟩
        modify fun l => { l with buttons := l.buttons.erase b })
      (pure ())
    releaseButtons rest

/-- `ks` and `bs` are the two sets in the order in which `tuple` lists them. -/
def release (ks : List Key) (bs : List Button) : Code Bool := do
  modify fun l => { l with virtual := ∅, wheelX := 0, wheelY := 0 }
  -- Failed releases remain tracked and block the next lease until the retry succeeds.
  releaseKeys ks
  releaseButtons bs
  let l ← get
  return l.neutral

def listed (l : Lease) (ks : List Key) (bs : List Button) : Bool :=
  ks.toFinset = l.possiblyDown ∧ bs.toFinset = l.buttons

end Lease
end Hid

import Mathlib.Algebra.Order.Ring.Int
import RkmoonKvm.Library.Coalesce
import RkmoonKvm.Library.Reader
import RkmoonKvm.Hid.Lease

/-! The two queues between Sunshine and a lease, and the line that carries an event
from one to the other. Both merge adjacent motion; neither may merge across an edge,
lose displacement, or leave an old position last. -/
namespace Hid
open Coalesce Reader

inductive HidKind where
  | key | button | move | wheel | absolute
  deriving DecidableEq

structure HidEvent where
  type : HidKind
  a : Int := 0
  b : Int := 0
  down : Bool := false
  deriving DecidableEq

def HidEvent.valid (e : HidEvent) : Bool :=
  match e.type with
  | .key => 0 ≤ e.a ∧ e.a ≤ 255
  | .button => 1 ≤ e.a ∧ e.a ≤ 5
  | .move | .wheel => -32767 ≤ e.a ∧ e.a ≤ 32767 ∧ -32767 ≤ e.b ∧ e.b ≤ 32767
  | .absolute => -32768 ≤ e.a ∧ e.a ≤ 32767 ∧ -32768 ≤ e.b ∧ e.b ≤ 32767

/-- Latest position only; the sum of two moves while it is in range. -/
def HidEvent.merge (last e : HidEvent) : Option HidEvent :=
  match last.type, e.type with
  | .absolute, .absolute => some e
  | .move, .move =>
    let x := last.a + e.a
    let y := last.b + e.b
    if -32767 ≤ x ∧ x ≤ 32767 ∧ -32767 ≤ y ∧ y ≤ 32767 then some { last with a := x, b := y }
    else none
  | _, _ => none

structure HidClient where
  absoluteMouse : Bool
  healthy : Bool := true
  stop : Bool := false
  events : List HidEvent := []

namespace HidClient

def misrouted (c : HidClient) (e : HidEvent) : Bool :=
  (e.type = .absolute && !c.absoluteMouse) || (e.type = .move && c.absoluteMouse)

def submit (c : HidClient) (e : HidEvent) : Bool × HidClient :=
  if !c.healthy || c.stop then (false, c)
  else if c.misrouted e then (false, { c with healthy := false })
  else if !e.valid then (false, { c with healthy := false })
  else match push HidEvent.merge 64 c.events e with
    | some events => (true, { c with events })
    | none => (false, { c with healthy := false })

end HidClient

def encode (e : HidEvent) : Line :=
  match e.type with
  | .key => .object [("op", .str "key"), ("vk", .int e.a), ("down", .bool e.down)]
  | .button => .object [("op", .str "button"), ("button", .int e.a), ("down", .bool e.down)]
  | .move => .object [("op", .str "move"), ("x", .int e.a), ("y", .int e.b)]
  | .wheel => .object [("op", .str "wheel"), ("x", .int e.a), ("y", .int e.b)]
  | .absolute => .object [("op", .str "absolute"), ("x", .int e.a), ("y", .int e.b)]

/-- Merge only ADJACENT motion. -/
def Event.merge : Event → Event → Option Event
  | .absolute _ _, .absolute x y => some (.absolute x y)
  | .move x y, .move x' y' =>
    if (x + x').natAbs ≤ 32767 ∧ (y + y').natAbs ≤ 32767 then some (.move (x + x') (y + y')) else none
  | _, _ => none

def Queue.put (capacity : Nat) (items : List Event) (e : Event) : Except PyError (List Event) :=
  match push Event.merge capacity items e with
  | some items => .ok items
  | none => .error (.inputError "input queue saturated; revoke lease")

def HidEvent.event (e : HidEvent) : Event :=
  match e.type with
  | .key => .key e.a.toNat e.down
  | .button => .button e.a.toNat e.down
  | .move => .move e.a e.b
  | .wheel => .wheel e.a e.b
  | .absolute => .absolute e.a e.b

theorem integer_ok {fields : List (String × Value)} {name : String} {low high n v : Int}
    (is : field fields name = .int n) (h : integer fields name low high = .ok v) : v = n := by
  simp only [integer, is] at h
  split at h
  · exact (Except.ok.inj h).symm
  · cases h

theorem read_flagged {fields : List (String × Value)} {name text : String} {low high n : Int}
    (unknown : Int → Bool) (make : Int → Event) {ev : Event} (is : field fields name = .int n)
    (h : (do
      let v ← integer fields name low high
      if unknown v then throw (PyError.inputError text)
      return make v) = .ok ev) : ev = make n := by
  obtain ⟨v, read, rest⟩ := bind_ok h
  rw [integer_ok is read] at rest
  cases refused : unknown n with
  | true =>
    rw [refused] at rest
    cases rest
  | false =>
    rw [refused] at rest
    exact (Except.ok.inj rest).symm

theorem read_pair {fields : List (String × Value)} {low high a b : Int}
    (make : Int → Int → Event) {ev : Event} (isX : field fields "x" = .int a) (isY : field fields "y" = .int b)
    (h : (do
      let x ← integer fields "x" low high
      let y ← integer fields "y" low high
      return make x y) = .ok ev) : ev = make a b := by
  obtain ⟨x, readX, h₁⟩ := bind_ok h
  obtain ⟨y, readY, h₂⟩ := bind_ok h₁
  rw [integer_ok isX readX, integer_ok isY readY] at h₂
  exact (Except.ok.inj h₂).symm

theorem parse_encode {e : HidEvent} {ev : Event} (h : parseEvent (encode e) = .ok ev) :
    ev = e.event := by
  obtain ⟨type, a, b, down⟩ := e
  cases type with
  | key => exact read_flagged (fun v => (keys v.toNat).isNone) (fun v => .key v.toNat down) rfl h
  | button =>
    exact read_flagged (fun v => (buttons v.toNat).isNone) (fun v => .button v.toNat down) rfl h
  | move => exact read_pair .move rfl rfl h
  | wheel => exact read_pair .wheel rfl rfl h
  | absolute => exact read_pair .absolute rfl rfl h

/-! What a list of events conveys: its edges, and between them motion. -/

inductive Item where
  /-- A key, button or wheel event. -/
  | edge (e : Event)
  | move (x y : Int)
  | position (x y : Int)
  deriving DecidableEq

namespace Item

def isEdge : Item → Bool
  | .edge _ => true
  | _ => false

def dx : Item → Int
  | .move x _ => x
  | _ => 0

def dy : Item → Int
  | .move _ y => y
  | _ => 0

def position? : Item → Option (Int × Int)
  | .position x y => some (x, y)
  | _ => none

/-- A relative report has both components in the range of its bytes. -/
def inRange : Item → Bool
  | .move x y => -127 ≤ x ∧ x ≤ 127 ∧ -127 ≤ y ∧ y ≤ 127
  | _ => true

end Item

def Event.item : Event → Item
  | .move x y => .move x y
  | .absolute x y => .position x y
  | e => .edge e

def Report.items : Report → List Item
  | .move x y => [.move x y]
  | .moveMany parts => parts.map fun p => .move p.1 p.2
  | .absolute x y => [.position x y]
  | _ => []

def Event.edges (e : Event) : List Item := if e.item.isEdge then [e.item] else []

def positions (g : List Item) : List (Int × Int) := g.filterMap Item.position?

/-- A gap conveys the motion of another: the same displacement, and positions of it
in their order with the same one last. -/
structure Conveys (g g' : List Item) : Prop where
  dx : (g.map Item.dx).sum = (g'.map Item.dx).sum
  dy : (g.map Item.dy).sum = (g'.map Item.dy).sum
  ordered : (positions g).Sublist (positions g')
  last : (positions g).getLast? = (positions g').getLast?

abbrev Conserved (xs ys : List Item) : Prop := Matches Item.isEdge Conveys xs ys

theorem conveys : Congruence Conveys where
  refl g := ⟨rfl, rfl, .refl _, rfl⟩
  trans h h' := ⟨h.dx.trans h'.dx, h.dy.trans h'.dy, h.ordered.trans h'.ordered, h.last.trans h'.last⟩
  append {g g' h h'} first second := by
    constructor
    · rw [List.map_append, List.sum_append, List.map_append, List.sum_append, first.dx, second.dx]
    · rw [List.map_append, List.sum_append, List.map_append, List.sum_append, first.dy, second.dy]
    · rw [positions, List.filterMap_append, positions, List.filterMap_append]
      exact first.ordered.append second.ordered
    · rw [positions, List.filterMap_append, positions, List.filterMap_append,
        List.getLast?_append, List.getLast?_append]
      exact congr (congrArg Option.or second.last) first.last

theorem moves_added (x y x' y' : Int) :
    Conserved [.move (x + x') (y + y')] [.move x y, .move x' y'] := by
  apply matches_gap
  · constructor
    · simp [Item.dx]
    · simp [Item.dy]
    · exact .slnil
    · rfl
  · simp [Item.isEdge]
  · simp [Item.isEdge]

theorem position_replaced (x y x' y' : Int) :
    Conserved [.position x y] [.position x' y', .position x y] := by
  apply matches_gap
  · constructor
    · simp [Item.dx]
    · simp [Item.dy]
    · exact .cons _ (.refl _)
    · rfl
  · simp [Item.isEdge]
  · simp [Item.isEdge]

theorem event_merge {last e m : Event} (h : last.merge e = some m) :
    Conserved [m.item] [last.item, e.item] := by
  unfold Event.merge at h
  split at h
  · cases h
    exact position_replaced ..
  · split at h
    · cases h
      exact moves_added ..
    · cases h
  · cases h

theorem hidEvent_merge {last e m : HidEvent} (h : last.merge e = some m) :
    Conserved [m.event.item] [last.event.item, e.event.item] := by
  obtain ⟨type, a, b, down⟩ := last
  obtain ⟨type', a', b', down'⟩ := e
  unfold HidEvent.merge at h
  split at h
  · rename_i old new
    cases h
    cases old
    cases new
    exact position_replaced ..
  · rename_i old new
    dsimp only at h
    split at h
    · cases h
      cases old
      cases new
      exact moves_added ..
    · cases h
  · cases h

theorem put_conserved {capacity : Nat} {items items' : List Event} {e : Event}
    (h : Queue.put capacity items e = .ok items') :
    Conserved (items'.map Event.item) (items.map Event.item ++ [e.item]) := by
  unfold Queue.put at h
  split at h
  · rename_i pushed
    cases h
    exact push_matches conveys Event.item (fun _ _ _ => event_merge) pushed
  · cases h

theorem submit_accepted {c : HidClient} {e : HidEvent} (h : (c.submit e).1 = true) :
    e.valid = true ∧ ∃ events, push HidEvent.merge 64 c.events e = some events ∧
      (c.submit e).2 = { c with events } := by
  unfold HidClient.submit at h ⊢
  split at h
  · cases h
  split at h
  · cases h
  split at h
  · cases h
  rename_i live fits valid
  rw [if_neg live, if_neg fits, if_neg valid]
  split at h
  · rename_i events pushed
    exact ⟨by simpa using valid, events, pushed, rfl⟩
  · cases h

/-! The chunks of a move. -/

theorem chunksLoop_range (n : Nat) (x y : Int) :
    ∀ p ∈ chunksLoop n x y, (Item.move p.1 p.2).inRange = true := by
  induction n generalizing x y with
  | zero => simp [chunksLoop]
  | succ n ih =>
    intro p member
    rw [chunksLoop] at member
    split at member
    · cases member
    · rcases List.mem_cons.mp member with here | there
      · subst here
        simp only [Item.inRange, decide_eq_true_eq]
        omega
      · exact ih _ _ p there

theorem chunksLoop_sum (n : Nat) (x y : Int) (enough : x.natAbs ≤ n ∧ y.natAbs ≤ n) :
    ((chunksLoop n x y).map Prod.fst).sum = x ∧ ((chunksLoop n x y).map Prod.snd).sum = y := by
  induction n generalizing x y with
  | zero =>
    have noX : x = 0 := by omega
    have noY : y = 0 := by omega
    simp [chunksLoop, noX, noY]
  | succ n ih =>
    rw [chunksLoop]
    split
    · rename_i none
      simp [none.1, none.2]
    · have rest := ih (x - max (-127) (min 127 x)) (y - max (-127) (min 127 y)) (by omega)
      simp only [List.map_cons, List.sum_cons, rest.1, rest.2]
      omega

theorem chunks_conserved (x y : Int) :
    Conserved ((chunks x y).map fun p => Item.move p.1 p.2) [.move x y] := by
  have sum : ((chunks x y).map Prod.fst).sum = x ∧ ((chunks x y).map Prod.snd).sum = y :=
    chunksLoop_sum _ x y (by omega)
  have still : positions ((chunks x y).map fun p => Item.move p.1 p.2) = [] := by
    simp [positions, List.filterMap_map, Function.comp_def, Item.position?]
  apply matches_gap
  · constructor
    · simpa [Function.comp_def, Item.dx, Prod.fst] using sum.1
    · simpa [Function.comp_def, Item.dy, Prod.snd] using sum.2
    · rw [still]
      exact List.nil_sublist _
    · rw [still]
      rfl
  · rintro item member
    obtain ⟨p, -, rfl⟩ := List.mem_map.mp member
    rfl
  · simp [Item.isEdge]

end Hid

import Mathlib.Data.List.Basic
import Mathlib.Data.Rat.Defs
import RkmoonKvm.Library.Numeral

/-! What `json.loads` returns, with Python's operations on it and what they raise. -/
namespace Tools

/-- Code points; half a surrogate pair may stand alone. -/
abbrev Str := List Nat

def text (s : String) : Str := s.toList.map Char.toNat

/-- A finite float is the rational that it stands for. The members of a `dict` are in the
document's order, and the last one of a name counts. -/
inductive Value where
  | null
  | bool (b : Bool)
  | int (n : Int)
  | float (q : ℚ)
  | infinity
  | nan
  | str (s : Str)
  | list (vs : List Value)
  | dict (members : List (Str × Value))

abbrev Dict := List (Str × Value)

inductive PyError where
  | refused (message : String)
  | osError
  | valueError
  | keyError
  | typeError
  | overflowError
  deriving DecidableEq

/-- `except (Refused,OSError,ValueError,KeyError)`. -/
def PyError.handled : PyError → Bool
  | .refused _ | .osError | .valueError | .keyError => true
  | .typeError | .overflowError => false

namespace Value

def dict? : Value → Option Dict
  | .dict d => some d
  | _ => none

def bool? : Value → Option Bool
  | .bool b => some b
  | _ => none

def str? : Value → Option Str
  | .str s => some s
  | _ => none

def isStr (v : Value) : Bool := v.str?.isSome

def truthy : Value → Bool
  | .null => false
  | .bool b => b
  | .int n => n ≠ 0
  | .float q => q ≠ 0
  | .infinity | .nan => true
  | .str s => s ≠ []
  | .list vs => !vs.isEmpty
  | .dict d => !d.isEmpty

/-- `v == 1`, which `True` and `1.0` are too. -/
def isOne : Value → Bool
  | .bool b => b
  | .int n => n = 1
  | .float q => q = 1
  | _ => false

def hashable : Value → Bool
  | .list _ | .dict _ => false
  | _ => true

/-- The elements of `set(v)`, those that are no strings left unsaid. -/
def set : Value → Except PyError (List (Option Str))
  | .dict d => .ok (d.map fun p => some p.1)
  | .list vs => if vs.all hashable then .ok (vs.map str?) else .error .typeError
  | .str s => .ok (s.map fun c => some [c])
  | _ => .error .typeError

/-- `int(v)`; of a string's digits only the ASCII ones are known here. -/
def toInt : Value → Except PyError Int
  | .bool b => .ok b.toInt
  | .int n => .ok n
  | .float q => .ok (q.num.tdiv q.den)
  | .infinity => .error .overflowError
  | .nan => .error .valueError
  | .str s => match Numeral.int 10 (s.map Char.ofNat) with
    | some n => .ok n
    | none => .error .valueError
  | .null | .list _ | .dict _ => .error .typeError

/-- What a subscript with a name needs: of any other value it is a `TypeError`. -/
def mapping (v : Value) : Except PyError Dict :=
  match v.dict? with
  | some d => .ok d
  | none => .error .typeError

variable {v : Value}

theorem mapping_dict (d : Dict) : mapping (.dict d) = .ok d := rfl

theorem dict?_eq {d : Dict} : v.dict? = some d ↔ v = .dict d := by
  cases v with
  | dict members => simp [dict?]
  | _ => simp [dict?]

theorem bool?_eq {b : Bool} : v.bool? = some b ↔ v = .bool b := by
  cases v with
  | bool b' => simp [bool?]
  | _ => simp [bool?]

theorem str?_eq {s : Str} : v.str? = some s ↔ v = .str s := by
  cases v with
  | str s' => simp [str?]
  | _ => simp [str?]

end Value

namespace Dict

def get (d : Dict) (k : String) : Option Value :=
  (d.reverse.find? fun p => p.1 = text k).map Prod.snd

def item (d : Dict) (k : String) : Except PyError Value :=
  match d.get k with
  | some v => .ok v
  | none => .error .keyError

def setItem (d : Dict) (k : String) (v : Value) : Dict := d ++ [(text k, v)]

def setDefault (d : Dict) (k : String) (v : Value) : Dict :=
  if (d.get k).isSome then d else d.setItem k v

def update (d : Dict) (items : List (String × Value)) : Dict :=
  items.foldl (fun d p => d.setItem p.1 p.2) d

def pop (d : Dict) (k : String) : Dict := d.filter fun p => p.1 ≠ text k

def named (d : Dict) (ks : List String) : Bool :=
  ks.all (fun k => d.any fun p => p.1 = text k) && d.all fun p => ks.any fun k => p.1 = text k

end Dict

theorem text_inj {s t : String} : text s = text t ↔ s = t := by
  constructor
  · intro same
    have chars : s.toList = t.toList :=
      List.map_injective_iff.mpr (fun _ _ => Char.toNat_inj.mp) same
    exact String.toList_inj.mp chars
  · rintro rfl
    rfl

namespace Dict
variable {d : Dict} {k k' : String} {v : Value}

theorem get_setItem (d : Dict) (k k' : String) (v : Value) :
    (d.setItem k v).get k' = if k' = k then some v else d.get k' := by
  rw [get, setItem, List.reverse_append, List.reverse_singleton, List.singleton_append,
    List.find?_cons]
  by_cases same : k' = k
  · subst same
    simp
  · have other : decide (text k = text k') = false :=
      decide_eq_false fun h => same (text_inj.mp h).symm
    rw [other, if_neg same]
    rfl

theorem get_setDefault (d : Dict) (k k' : String) (v : Value) :
    (d.setDefault k v).get k' = if k' = k then some ((d.get k).getD v) else d.get k' := by
  unfold setDefault
  cases present : d.get k with
  | none => exact get_setItem d k k' v
  | some old =>
    by_cases same : k' = k
    · rw [if_pos same, same]
      exact present
    · rw [if_neg same]
      rfl

theorem item_ok : d.item k = .ok v ↔ d.get k = some v := by
  unfold item
  cases d.get k with
  | none => simp
  | some w => simp

theorem get_of_any (there : d.any (fun p => p.1 = text k)) : ∃ v, d.get k = some v := by
  obtain ⟨p, member, named⟩ := List.any_eq_true.mp there
  cases found : d.reverse.find? fun p => p.1 = text k with
  | some q => exact ⟨q.2, by rw [get, found, Option.map_some]⟩
  | none => exact absurd named (List.find?_eq_none.mp found p (List.mem_reverse.mpr member))

theorem get_of_named {ks : List String} (all : d.named ks) (member : k ∈ ks) :
    ∃ v, d.get k = some v :=
  get_of_any (List.all_eq_true.mp (Bool.and_eq_true_iff.mp all).1 k member)

end Dict

end Tools

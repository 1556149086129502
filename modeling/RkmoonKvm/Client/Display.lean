import Mathlib.Data.List.DropRight
import Mathlib.Algebra.Order.Ring.Int
import RkmoonKvm.Library.Reader

/-! The display that the server advertises, as the client reads and keeps it. The
reader of the reply's elements is a parameter: it gives the text under a tag, or no
text where there is no such tag. -/
namespace Client
open Reader

inductive Status where
  | empty | ready | noSignal | unsupported | unavailable
  deriving DecidableEq, Repr

def Status.text : Status → String
  | .empty => ""
  | .ready => "ready"
  | .noSignal => "no_signal"
  | .unsupported => "unsupported"
  | .unavailable => "unavailable"

def Status.ofText (text : String) : Option Status :=
  if text = "ready" then some .ready
  else if text = "no_signal" then some .noSignal
  else if text = "unsupported" then some .unsupported
  else if text = "unavailable" then some .unavailable
  else none

def isSpace (c : Char) : Bool :=
  c.toNat = 32 || 9 ≤ c.toNat && c.toNat ≤ 13 || c.toNat ∈ [0x85, 0xa0, 0x1680] ||
    0x2000 ≤ c.toNat && c.toNat ≤ 0x200a || c.toNat ∈ [0x2028, 0x2029, 0x202f, 0x205f, 0x3000]

def trimmed (cs : List Char) : List Char := (cs.dropWhile isSpace).rdropWhile isSpace

def signed : List Char → Option Int
  | '-' :: cs => (digits? cs).map fun n : Nat => -(n : Int)
  | '+' :: cs => (digits? cs).map fun n : Nat => (n : Int)
  | cs => (digits? cs).map fun n : Nat => (n : Int)

/-- `QString::toInt`, in base 10 and 32 bits. -/
def toInt (s : String) : Option Int :=
  match signed (trimmed s.toList) with
  | some n => if -2 ^ 31 ≤ n ∧ n < 2 ^ 31 then some n else none
  | none => none

theorem isSpace_digit {c : Char} (digit : c.isDigit) : isSpace c = false := by
  have bounds : 48 ≤ c.toNat ∧ c.toNat ≤ 57 := by
    simpa [Char.isDigit, UInt32.le_iff_toNat_le] using digit
  simp [isSpace]
  omega

theorem trimmed_digits {cs : List Char} (digits : ∀ c ∈ cs, c.isDigit) : trimmed cs = cs := by
  have front : cs.dropWhile isSpace = cs := by
    cases cs with
    | nil => rfl
    | cons c cs => simp [isSpace_digit (digits c (by simp))]
  rw [trimmed, front, List.rdropWhile_eq_self_iff]
  intro nonempty
  simp [isSpace_digit (digits _ (List.getLast_mem nonempty))]

theorem signed_digits {cs : List Char} (digits : ∀ c ∈ cs, c.isDigit) :
    signed cs = (digits? cs).map fun n : Nat => (n : Int) := by
  unfold signed
  split
  · have := digits '-' (by simp)
    contradiction
  · have := digits '+' (by simp)
    contradiction
  · rfl

theorem toInt_toString {n : Nat} (small : n < 2 ^ 31) : toInt (toString n) = some (n : Int) := by
  have digits : ∀ c ∈ (toString n).toList, c.isDigit := fun c member => digit_of_toString member
  have range : -2 ^ 31 ≤ (n : Int) ∧ (n : Int) < 2 ^ 31 := by omega
  simp only [toInt, trimmed_digits digits, signed_digits digits, digits_toString, Option.map_some,
    if_pos range]

structure Display where
  status : Status := .empty
  width : Int := 0
  height : Int := 0
  fpsX100 : Int := 0
  deriving DecidableEq, Repr

namespace Display

def ready (d : Display) : Bool := d.status = .ready

/-- `operator==`, which is not transitive. -/
def same (d other : Display) : Bool :=
  d.status = other.status ∧ d.width = other.width ∧ d.height = other.height ∧
    (d.fpsX100 - other.fpsX100).natAbs ≤ 15

def canStart (d : Display) : Bool := d.ready || d.status = .noSignal

def positive (get : String → String) (tag : String) : Except String Int :=
  match toInt (get tag) with
  | some number =>
    if number ≤ 0 then throw "Invalid server display dimensions or frame rate" else pure number
  | none => throw "Invalid server display dimensions or frame rate"

def parse (get : String → String) : Except String Display :=
  if get "RKMoonDisplayVersion" ≠ "1" then
    throw "Upgrade the server: RKMoon display information version 1 is required"
  else match Status.ofText (get "RKMoonDisplayStatus") with
    | none => throw "Invalid server display status"
    | some .ready => do
      let width ← positive get "RKMoonDisplayWidth"
      let height ← positive get "RKMoonDisplayHeight"
      let fpsX100 ← positive get "RKMoonDisplayFpsX100"
      if 3840 < width ∨ 2160 < height ∨ width.tmod 2 ≠ 0 ∨ height.tmod 2 ≠ 0 ∨
          fpsX100 < 100 ∨ 12010 < fpsX100 then
        throw "Server display mode exceeds client limits"
      else pure { status := .ready, width, height, fpsX100 }
    | some status => pure { status }

structure Limits (d : Display) : Prop where
  width : 0 < d.width ∧ d.width ≤ 3840 ∧ d.width % 2 = 0
  height : 0 < d.height ∧ d.height ≤ 2160 ∧ d.height % 2 = 0
  rate : 100 ≤ d.fpsX100 ∧ d.fpsX100 ≤ 12010

theorem positive_ok {get : String → String} {tag : String} {n : Int}
    (accepted : positive get tag = .ok n) : toInt (get tag) = some n ∧ 0 < n := by
  unfold positive at accepted
  split at accepted
  · next number read =>
    split at accepted
    · cases accepted
    · cases accepted
      exact ⟨read, by omega⟩
  · cases accepted

theorem positive_toString {get : String → String} {tag : String} {n : Nat}
    (text : get tag = toString n) (nonzero : 0 < n) (small : n < 2 ^ 31) :
    positive get tag = .ok (n : Int) := by
  have sign : ¬ (n : Int) ≤ 0 := by omega
  simp only [positive, text, toInt_toString small, if_neg sign]
  rfl

theorem parse_limits {get : String → String} {d : Display} (accepted : parse get = .ok d)
    (ready : d.ready = true) : d.Limits := by
  have accepted := (check_ok.mp accepted).2
  split at accepted
  · cases accepted
  · obtain ⟨width, width_read, accepted⟩ := bind_ok accepted
    obtain ⟨height, height_read, accepted⟩ := bind_ok accepted
    obtain ⟨fpsX100, rate_read, accepted⟩ := bind_ok accepted
    obtain ⟨inside, result⟩ := check_ok.mp accepted
    cases result
    have width_pos := (positive_ok width_read).2
    have height_pos := (positive_ok height_read).2
    rw [Int.tmod_eq_emod_of_nonneg (by omega), Int.tmod_eq_emod_of_nonneg (by omega)] at inside
    exact { width := by dsimp only; omega, height := by dsimp only; omega, rate := by dsimp only; omega }
  · next other _ =>
    cases accepted
    exact absurd (of_decide_eq_true ready) other

theorem parse_ready {get : String → String} {width height fpsX100 : Nat}
    (version : get "RKMoonDisplayVersion" = "1") (status : get "RKMoonDisplayStatus" = "ready")
    (width_text : get "RKMoonDisplayWidth" = toString width)
    (height_text : get "RKMoonDisplayHeight" = toString height)
    (rate_text : get "RKMoonDisplayFpsX100" = toString fpsX100)
    (limits : Limits { status := .ready, width, height, fpsX100 }) :
    parse get = .ok { status := .ready, width, height, fpsX100 } := by
  have ⟨width_pos, width_le, width_even⟩ := limits.width
  have ⟨height_pos, height_le, height_even⟩ := limits.height
  have ⟨rate_ge, rate_le⟩ := limits.rate
  dsimp only at width_pos width_le width_even height_pos height_le height_even rate_ge rate_le
  have inside : ¬ (3840 < (width : Int) ∨ 2160 < (height : Int) ∨ (width : Int).tmod 2 ≠ 0 ∨
      (height : Int).tmod 2 ≠ 0 ∨ (fpsX100 : Int) < 100 ∨ 12010 < (fpsX100 : Int)) := by
    rw [Int.tmod_eq_emod_of_nonneg (by omega), Int.tmod_eq_emod_of_nonneg (by omega)]
    omega
  have text : Status.ofText "ready" = some .ready := by decide
  refine check_ok.mpr ⟨not_not_intro version, ?_⟩
  rw [status, text]
  dsimp only
  rw [positive_toString width_text (by omega) (by omega),
    positive_toString height_text (by omega) (by omega),
    positive_toString rate_text (by omega) (by omega)]
  exact check_ok.mpr ⟨inside, rfl⟩

end Display

end Client

import Mathlib.Algebra.Order.Ring.Int
import Mathlib.Order.MinMax

/-! Integer expressions of a machine type: the value, whether every number met on the
way fits the type, and an interval analysis that shows it does for all inputs at once. -/
namespace IntExpr

structure Range where
  lo : Int
  hi : Int
  deriving DecidableEq

def Range.Has (r : Range) (n : Int) : Prop := r.lo ≤ n ∧ n ≤ r.hi

def Range.inside (r outer : Range) : Bool := outer.lo ≤ r.lo && r.hi ≤ outer.hi

theorem Range.has_of_inside {r outer : Range} {n : Int} (inside : r.inside outer = true)
    (h : r.Has n) : outer.Has n := by
  simp only [Range.inside, Bool.and_eq_true, decide_eq_true_eq] at inside
  exact ⟨inside.1.trans h.1, h.2.trans inside.2⟩

/-- Expressions over variables `V`. A product has one literal factor; `shr` shifts
arithmetically, and `quot` rounds towards zero. -/
inductive Expr (V : Type) where
  | lit (n : Int)
  | var (v : V)
  | add (a b : Expr V)
  | sub (a b : Expr V)
  | scale (n : Int) (a : Expr V)
  | neg (a : Expr V)
  | shr (a : Expr V) (k : Nat)
  | quot (a : Expr V) (n : Nat)
  | clamp (a : Expr V) (lo hi : Int)
  | ifNonneg (c a b : Expr V)

namespace Expr

variable {V : Type}

instance : Add (Expr V) := ⟨add⟩
instance : Sub (Expr V) := ⟨sub⟩
instance : Neg (Expr V) := ⟨neg⟩
instance : HMul Int (Expr V) (Expr V) := ⟨scale⟩
instance : HShiftRight (Expr V) Nat (Expr V) := ⟨shr⟩
instance : HDiv (Expr V) Nat (Expr V) := ⟨quot⟩

def clampInt (n lo hi : Int) : Int := max lo (min hi n)

def eval (env : V → Int) : Expr V → Int
  | lit n => n
  | var v => env v
  | add a b => a.eval env + b.eval env
  | sub a b => a.eval env - b.eval env
  | scale n a => n * a.eval env
  | neg a => -a.eval env
  | shr a k => a.eval env / 2 ^ k
  | quot a n => (a.eval env).tdiv n
  | clamp a lo hi => clampInt (a.eval env) lo hi
  | ifNonneg c a b => if 0 ≤ c.eval env then a.eval env else b.eval env

@[simp] theorem eval_lit (env : V → Int) (n : Int) : (lit n).eval env = n := rfl

@[simp] theorem eval_var (env : V → Int) (v : V) : (var v).eval env = env v := rfl

@[simp] theorem eval_add (env : V → Int) (a b : Expr V) :
    (a + b).eval env = a.eval env + b.eval env := rfl

@[simp] theorem eval_sub (env : V → Int) (a b : Expr V) :
    (a - b).eval env = a.eval env - b.eval env := rfl

@[simp] theorem eval_scale (env : V → Int) (n : Int) (a : Expr V) :
    (n * a).eval env = n * a.eval env := rfl

@[simp] theorem eval_neg (env : V → Int) (a : Expr V) : (-a).eval env = -a.eval env := rfl

@[simp] theorem eval_shr (env : V → Int) (a : Expr V) (k : Nat) :
    (a >>> k).eval env = a.eval env / 2 ^ k := rfl

@[simp] theorem eval_quot (env : V → Int) (a : Expr V) (n : Nat) :
    (a / n).eval env = (a.eval env).tdiv n := rfl

@[simp] theorem eval_clamp (env : V → Int) (a : Expr V) (lo hi : Int) :
    (a.clamp lo hi).eval env = clampInt (a.eval env) lo hi := rfl

@[simp] theorem eval_ifNonneg (env : V → Int) (c a b : Expr V) :
    (c.ifNonneg a b).eval env = if 0 ≤ c.eval env then a.eval env else b.eval env := rfl

/-- Every number that the evaluation meets lies in the range of the machine type. -/
def Fits (type : Range) (env : V → Int) : Expr V → Prop
  | lit n => type.Has n
  | var v => type.Has (env v)
  | add a b => a.Fits type env ∧ b.Fits type env ∧ type.Has (a.eval env + b.eval env)
  | sub a b => a.Fits type env ∧ b.Fits type env ∧ type.Has (a.eval env - b.eval env)
  | scale n a => type.Has n ∧ a.Fits type env ∧ type.Has (n * a.eval env)
  | neg a => a.Fits type env ∧ type.Has (-a.eval env)
  | shr a k => a.Fits type env ∧ type.Has (a.eval env / 2 ^ k)
  | quot a n => type.Has n ∧ a.Fits type env ∧ type.Has ((a.eval env).tdiv n)
  | clamp a lo hi =>
    type.Has lo ∧ type.Has hi ∧ a.Fits type env ∧ type.Has (clampInt (a.eval env) lo hi)
  | ifNonneg c a b =>
    c.Fits type env ∧ (0 ≤ c.eval env → a.Fits type env) ∧ (c.eval env < 0 → b.Fits type env)

def range (box : V → Range) : Expr V → Range
  | lit n => ⟨n, n⟩
  | var v => box v
  | add a b => ⟨(a.range box).lo + (b.range box).lo, (a.range box).hi + (b.range box).hi⟩
  | sub a b => ⟨(a.range box).lo - (b.range box).hi, (a.range box).hi - (b.range box).lo⟩
  | scale n a =>
    if 0 ≤ n then ⟨n * (a.range box).lo, n * (a.range box).hi⟩
    else ⟨n * (a.range box).hi, n * (a.range box).lo⟩
  | neg a => ⟨-(a.range box).hi, -(a.range box).lo⟩
  | shr a k => ⟨(a.range box).lo / 2 ^ k, (a.range box).hi / 2 ^ k⟩
  | quot a n => ⟨(a.range box).lo.tdiv n, (a.range box).hi.tdiv n⟩
  | clamp a lo hi => ⟨clampInt (a.range box).lo lo hi, clampInt (a.range box).hi lo hi⟩
  | ifNonneg _ a b =>
    ⟨min (a.range box).lo (b.range box).lo, max (a.range box).hi (b.range box).hi⟩

theorem clampInt_mono {m n : Int} (le : m ≤ n) (lo hi : Int) :
    clampInt m lo hi ≤ clampInt n lo hi :=
  max_le_max_left lo (min_le_min_left hi le)

theorem tdiv_mono {m n : Int} (le : m ≤ n) (k : Nat) : m.tdiv k ≤ n.tdiv k := by
  have upward : ∀ {m n : Int}, 0 ≤ m → m ≤ n → m.tdiv k ≤ n.tdiv k := by
    intro m n pos le
    rw [Int.tdiv_eq_ediv_of_nonneg pos, Int.tdiv_eq_ediv_of_nonneg (pos.trans le)]
    rcases Nat.eq_zero_or_pos k with rfl | k_pos
    · simp
    · exact Int.ediv_le_ediv (by omega) le
  rcases Int.le_total 0 m with pos | neg
  · exact upward pos le
  rcases Int.le_total 0 n with pos' | neg'
  · have below := Int.tdiv_nonneg (a := -m) (b := k) (by omega) (by omega)
    have above := Int.tdiv_nonneg (a := n) (b := k) pos' (by omega)
    rw [Int.neg_tdiv] at below
    omega
  · have reflected := upward (m := -n) (n := -m) (by omega) (by omega)
    rw [Int.neg_tdiv, Int.neg_tdiv] at reflected
    omega

/-- The analysis is sound: the value lies in the range computed for it. -/
theorem eval_range {box : V → Range} {env : V → Int} (inputs : ∀ v, (box v).Has (env v))
    (e : Expr V) : (e.range box).Has (e.eval env) := by
  induction e with
  | lit n => exact ⟨le_refl n, le_refl n⟩
  | var v => exact inputs v
  | add a b iha ihb => exact ⟨add_le_add iha.1 ihb.1, add_le_add iha.2 ihb.2⟩
  | sub a b iha ihb => exact ⟨sub_le_sub iha.1 ihb.2, sub_le_sub iha.2 ihb.1⟩
  | scale n a ih =>
    unfold range
    split
    · rename_i pos
      exact ⟨mul_le_mul_of_nonneg_left ih.1 pos, mul_le_mul_of_nonneg_left ih.2 pos⟩
    · rename_i neg
      have neg : n ≤ 0 := (not_le.mp neg).le
      exact ⟨mul_le_mul_of_nonpos_left ih.2 neg, mul_le_mul_of_nonpos_left ih.1 neg⟩
  | neg a ih => exact ⟨neg_le_neg ih.2, neg_le_neg ih.1⟩
  | shr a k ih =>
    have pos : (0 : Int) < 2 ^ k := Int.pow_pos (by decide)
    exact ⟨Int.ediv_le_ediv pos ih.1, Int.ediv_le_ediv pos ih.2⟩
  | quot a n ih => exact ⟨tdiv_mono ih.1 n, tdiv_mono ih.2 n⟩
  | clamp a lo hi ih => exact ⟨clampInt_mono ih.1 lo hi, clampInt_mono ih.2 lo hi⟩
  | ifNonneg c a b _ iha ihb =>
    unfold eval
    split
    · exact ⟨(min_le_left _ _).trans iha.1, iha.2.trans (le_max_left _ _)⟩
    · exact ⟨(min_le_right _ _).trans ihb.1, ihb.2.trans (le_max_right _ _)⟩

/-- The ranges of all parts of the expression lie inside the machine type. -/
def bounded (type : Range) (box : V → Range) : Expr V → Bool
  | lit n => (Range.mk n n).inside type
  | var v => (box v).inside type
  | add a b => a.bounded type box && b.bounded type box && ((add a b).range box).inside type
  | sub a b => a.bounded type box && b.bounded type box && ((sub a b).range box).inside type
  | scale n a =>
    (Range.mk n n).inside type && a.bounded type box && ((scale n a).range box).inside type
  | neg a => a.bounded type box && ((neg a).range box).inside type
  | shr a k => a.bounded type box && ((shr a k).range box).inside type
  | quot a n =>
    (Range.mk n n).inside type && a.bounded type box && ((quot a n).range box).inside type
  | clamp a lo hi => (Range.mk lo lo).inside type && (Range.mk hi hi).inside type &&
    a.bounded type box && ((clamp a lo hi).range box).inside type
  | ifNonneg c a b => c.bounded type box && a.bounded type box && b.bounded type box

theorem fits_of_bounded {type : Range} {box : V → Range} {env : V → Int}
    (inputs : ∀ v, (box v).Has (env v)) (e : Expr V) (checked : e.bounded type box = true) :
    e.Fits type env := by
  have value : ∀ e : Expr V, (e.range box).inside type = true → type.Has (e.eval env) :=
    fun e inside => Range.has_of_inside inside (eval_range inputs e)
  have literal : ∀ n : Int, (Range.mk n n).inside type = true → type.Has n :=
    fun n inside => Range.has_of_inside inside ⟨le_refl n, le_refl n⟩
  induction e with
  | lit n => exact literal n checked
  | var v => exact value (var v) checked
  | add a b iha ihb =>
    simp only [bounded, Bool.and_eq_true] at checked
    exact ⟨iha checked.1.1, ihb checked.1.2, value _ checked.2⟩
  | sub a b iha ihb =>
    simp only [bounded, Bool.and_eq_true] at checked
    exact ⟨iha checked.1.1, ihb checked.1.2, value _ checked.2⟩
  | scale n a ih =>
    simp only [bounded, Bool.and_eq_true] at checked
    exact ⟨literal n checked.1.1, ih checked.1.2, value _ checked.2⟩
  | neg a ih =>
    simp only [bounded, Bool.and_eq_true] at checked
    exact ⟨ih checked.1, value _ checked.2⟩
  | shr a k ih =>
    simp only [bounded, Bool.and_eq_true] at checked
    exact ⟨ih checked.1, value _ checked.2⟩
  | quot a n ih =>
    simp only [bounded, Bool.and_eq_true] at checked
    exact ⟨literal n checked.1.1, ih checked.1.2, value _ checked.2⟩
  | clamp a lo hi ih =>
    simp only [bounded, Bool.and_eq_true] at checked
    exact ⟨literal lo checked.1.1.1, literal hi checked.1.1.2, ih checked.1.2,
      value _ checked.2⟩
  | ifNonneg c a b ihc iha ihb =>
    simp only [bounded, Bool.and_eq_true] at checked
    exact ⟨ihc checked.1.1, fun _ => iha checked.1.2, fun _ => ihb checked.2⟩

end Expr

def int32 : Range := ⟨-2 ^ 31, 2 ^ 31 - 1⟩

end IntExpr

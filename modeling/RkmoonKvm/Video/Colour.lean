import Mathlib.Data.Fin.Basic
import Mathlib.Tactic.Linarith
import Mathlib.Tactic.NormNum
import RkmoonKvm.Library.Interval
import RkmoonKvm.Library.Rounding

/-! The BT.709 matrices of the pixel conversion: fixed point expressions for luma and
chroma, next to the rational values that they stand for. -/
namespace Video.Colour
open IntExpr Expr Rounding

inductive Channel where
  | r | g | b
  deriving DecidableEq

structure Pixel where
  b : UInt8
  g : UInt8
  r : UInt8
  deriving DecidableEq

def Pixel.value (p : Pixel) : Channel → Int
  | .r => p.r.toNat
  | .g => p.g.toNat
  | .b => p.b.toNat

/-- Four pixels, the upper two first. -/
abbrev Block := Fin 4 → Pixel

def Block.value (block : Block) (v : Fin 4 × Channel) : Int := (block v.1).value v.2

/-! Limited-range RGB. -/

def rgb {V : Type} (v : Expr V) : Expr V := (v - lit 16).clamp 0 219

def limitedLuma : Expr Channel :=
  lit 16 + (((13933 : Int) * rgb (var Channel.r) + (46871 : Int) * rgb (var Channel.g) +
    (4732 : Int) * rgb (var Channel.b) + lit 32768) >>> 16)

def limitedSum (c : Channel) : Expr (Fin 4 × Channel) :=
  lit 0 + rgb (var (0, c)) + rgb (var (1, c)) + rgb (var (2, c)) + rgb (var (3, c))

def chroma {V : Type} (v : Expr V) : Expr V :=
  (lit 128 + v.ifNonneg ((v + lit 131072) / (262144 : Nat))
    (-((-v + lit 131072) / (262144 : Nat)))).clamp 16 240

def limitedCb : Expr (Fin 4 × Channel) :=
  chroma ((-7680 : Int) * limitedSum Channel.r - (25836 : Int) * limitedSum Channel.g +
    (33516 : Int) * limitedSum Channel.b)

def limitedCr : Expr (Fin 4 × Channel) :=
  chroma ((33516 : Int) * limitedSum Channel.r - (30443 : Int) * limitedSum Channel.g -
    (3073 : Int) * limitedSum Channel.b)

/-! Full-range RGB. -/

def fullLuma : Expr Channel :=
  (lit 16 + (((47 : Int) * var Channel.r + (157 : Int) * var Channel.g + (16 : Int) * var Channel.b +
    lit 128) >>> 8)).clamp 0 255

def fullMean (c : Channel) : Expr (Fin 4 × Channel) :=
  (lit 0 + var (0, c) + var (1, c) + var (2, c) + var (3, c) + lit 2) / (4 : Nat)

def fullCb : Expr (Fin 4 × Channel) :=
  (lit 128 + (((-6596 : Int) * fullMean Channel.r - (22189 : Int) * fullMean Channel.g +
    (28785 : Int) * fullMean Channel.b + lit 32768) >>> 16)).clamp 0 255

def fullCr : Expr (Fin 4 × Channel) :=
  (lit 128 + (((28785 : Int) * fullMean Channel.r - (26145 : Int) * fullMean Channel.g -
    (2640 : Int) * fullMean Channel.b + lit 32768) >>> 16)).clamp 0 255

/-! The two paths. -/

def luma (limited : Bool) : Expr Channel := if limited then limitedLuma else fullLuma

def cb (limited : Bool) : Expr (Fin 4 × Channel) := if limited then limitedCb else fullCb

def cr (limited : Bool) : Expr (Fin 4 × Channel) := if limited then limitedCr else fullCr

def lumaByte (limited : Bool) (p : Pixel) : UInt8 := UInt8.ofInt ((luma limited).eval p.value)

def cbByte (limited : Bool) (block : Block) : UInt8 :=
  UInt8.ofInt ((cb limited).eval block.value)

def crByte (limited : Bool) (block : Block) : UInt8 :=
  UInt8.ofInt ((cr limited).eval block.value)

/-! What the standard says, over signals from 0 to 1. -/

def luma709 (e : Channel → ℚ) : ℚ := 2126 / 10000 * e .r + 7152 / 10000 * e .g + 722 / 10000 * e .b

def digitalY (e : Channel → ℚ) : ℚ := 16 + 219 * luma709 e

def digitalCb (e : Channel → ℚ) : ℚ := 128 + 224 * ((e .b - luma709 e) / (18556 / 10000))

def digitalCr (e : Channel → ℚ) : ℚ := 128 + 224 * ((e .r - luma709 e) / (15748 / 10000))

/-- The signals of a pixel; those of the limited range are clipped to it first. -/
def signal (limited : Bool) (p : Pixel) (c : Channel) : ℚ :=
  if limited then ((max 16 (min 235 (p.value c)) : Int) - 16) / 219 else p.value c / 255

def average (limited : Bool) (block : Block) (c : Channel) : ℚ :=
  (signal limited (block 0) c + signal limited (block 1) c + signal limited (block 2) c +
    signal limited (block 3) c) / 4

/-! Ranges, by interval analysis. -/

def byte : Range := ⟨0, 255⟩

theorem value_byte (p : Pixel) (c : Channel) : byte.Has (p.value c) := by
  have r := p.r.toNat_lt
  have g := p.g.toNat_lt
  have b := p.b.toNat_lt
  cases c
  · exact ⟨by simp only [Pixel.value, byte]; omega, by simp only [Pixel.value, byte]; omega⟩
  · exact ⟨by simp only [Pixel.value, byte]; omega, by simp only [Pixel.value, byte]; omega⟩
  · exact ⟨by simp only [Pixel.value, byte]; omega, by simp only [Pixel.value, byte]; omega⟩

theorem luma_bounded (limited : Bool) : (luma limited).bounded int32 (fun _ => byte) = true ∧
    ((luma limited).range fun _ => byte).inside ⟨16, 235⟩ = true := by
  cases limited <;> decide +kernel

theorem cb_bounded (limited : Bool) : (cb limited).bounded int32 (fun _ => byte) = true ∧
    ((cb limited).range fun _ => byte).inside ⟨16, 240⟩ = true := by
  cases limited <;> decide +kernel

theorem cr_bounded (limited : Bool) : (cr limited).bounded int32 (fun _ => byte) = true ∧
    ((cr limited).range fun _ => byte).inside ⟨16, 240⟩ = true := by
  cases limited <;> decide +kernel

theorem byte_value {V : Type} {env : V → Int} {e : Expr V} {outer : Range}
    (inputs : ∀ v, byte.Has (env v)) (inside : (e.range fun _ => byte).inside outer = true)
    (small : outer.inside byte = true) :
    ((UInt8.ofInt (e.eval env)).toNat : ℤ) = e.eval env ∧ outer.Has (e.eval env) := by
  have value := Range.has_of_inside inside (eval_range inputs e)
  have bounds := Range.has_of_inside small value
  obtain ⟨nonneg, le⟩ : 0 ≤ e.eval env ∧ e.eval env ≤ 255 := bounds
  refine ⟨?_, value⟩
  simp only [UInt8.ofInt, UInt8.toNat_ofNat']
  omega

/-! Accuracy. A byte is off by its rounding, at most a half, and by the coefficients
and the rounding of the means before them, at most another half. -/

theorem within_one {q t x : ℚ} (rounding : |q - t| ≤ 1 / 2) (coefficients : |t - x| ≤ 1 / 2) :
    |q - x| ≤ 1 :=
  (abs_sub_le q t x).trans (by linarith)

/-- The level of a channel above black, in steps of the limited range. -/
def level (p : Pixel) (c : Channel) : Int := clampInt (p.value c - 16) 0 219

theorem level_bounds (p : Pixel) (c : Channel) :
    (0 : ℚ) ≤ level p c ∧ (level p c : ℚ) ≤ 219 := by
  have bounds : 0 ≤ level p c ∧ level p c ≤ 219 := by
    unfold level clampInt
    omega
  exact_mod_cast bounds

theorem signal_limited (p : Pixel) (c : Channel) : signal true p c = level p c / 219 := by
  have same : max 16 (min 235 (p.value c)) - 16 = level p c := by
    unfold level clampInt
    omega
  rw [signal, if_pos rfl, ← same]
  push_cast
  rfl

theorem limitedLuma_error (p : Pixel) :
    |(limitedLuma.eval p.value : ℚ) - digitalY (signal true p)| ≤ 1 := by
  obtain ⟨r_pos, r_le⟩ := level_bounds p .r
  obtain ⟨g_pos, g_le⟩ := level_bounds p .g
  obtain ⟨b_pos, b_le⟩ := level_bounds p .b
  have value : limitedLuma.eval p.value =
      16 + roundHalfUp (13933 * level p .r + 46871 * level p .g + 4732 * level p .b) 32768 := rfl
  have rounding := roundHalfUp_error (13933 * level p .r + 46871 * level p .g + 4732 * level p .b)
    (h := 32768) (by norm_num)
  rw [value, digitalY, luma709, signal_limited, signal_limited, signal_limited]
  push_cast at rounding ⊢
  rw [add_sub_add_left_eq_sub]
  refine within_one rounding (abs_sub_le_iff.mpr ⟨?_, ?_⟩)
  · linarith
  · linarith

theorem clamp_error {n lo hi : Int} {x : ℚ} (lo_le : (lo : ℚ) ≤ x) (le_hi : x ≤ hi) :
    |(clampInt n lo hi : ℚ) - x| ≤ |(n : ℚ) - x| := by
  unfold clampInt
  push_cast
  rcases le_total (n : ℚ) hi with small | large
  · rw [min_eq_right small]
    rcases le_total (lo : ℚ) n with above | below
    · rw [max_eq_right above]
    · rw [max_eq_left below, abs_of_nonpos (by linarith), abs_of_nonpos (by linarith)]
      linarith
  · rw [min_eq_left large, max_eq_right (by linarith), abs_of_nonneg (by linarith),
      abs_of_nonneg (by linarith)]
    linarith

theorem fullLuma_error (p : Pixel) :
    |(fullLuma.eval p.value : ℚ) - digitalY (signal false p)| ≤ 1 := by
  have bounds : ∀ c, (0 : ℚ) ≤ p.value c ∧ (p.value c : ℚ) ≤ 255 := fun c => by
    exact_mod_cast value_byte p c
  obtain ⟨r_pos, r_le⟩ := bounds .r
  obtain ⟨g_pos, g_le⟩ := bounds .g
  obtain ⟨b_pos, b_le⟩ := bounds .b
  have value : fullLuma.eval p.value = clampInt (16 +
      roundHalfUp (47 * p.value .r + 157 * p.value .g + 16 * p.value .b) 128) 0 255 := rfl
  have rounding := roundHalfUp_error (47 * p.value .r + 157 * p.value .g + 16 * p.value .b)
    (h := 128) (by norm_num)
  have target : digitalY (signal false p) = 16 + 219 * (2126 / 10000 * (p.value .r / 255) +
      7152 / 10000 * (p.value .g / 255) + 722 / 10000 * (p.value .b / 255)) := rfl
  rw [value, target]
  refine (clamp_error (by push_cast; linarith) (by push_cast; linarith)).trans ?_
  push_cast at rounding ⊢
  rw [add_sub_add_left_eq_sub]
  refine within_one rounding (abs_sub_le_iff.mpr ⟨?_, ?_⟩)
  · linarith
  · linarith

def levels (block : Block) (c : Channel) : Int :=
  level (block 0) c + level (block 1) c + level (block 2) c + level (block 3) c

theorem levels_bounds (block : Block) (c : Channel) :
    (0 : ℚ) ≤ levels block c ∧ (levels block c : ℚ) ≤ 876 := by
  obtain ⟨pos₀, le₀⟩ := level_bounds (block 0) c
  obtain ⟨pos₁, le₁⟩ := level_bounds (block 1) c
  obtain ⟨pos₂, le₂⟩ := level_bounds (block 2) c
  obtain ⟨pos₃, le₃⟩ := level_bounds (block 3) c
  unfold levels
  push_cast
  constructor <;> linarith

theorem average_limited (block : Block) (c : Channel) :
    average true block c = levels block c / 876 := by
  unfold average levels
  simp only [signal_limited]
  push_cast
  ring

theorem limitedSum_eval (block : Block) (c : Channel) :
    (limitedSum c).eval block.value = levels block c := by
  have zero : (limitedSum c).eval block.value = 0 + level (block 0) c + level (block 1) c +
      level (block 2) c + level (block 3) c := rfl
  rw [zero, zero_add]
  rfl

theorem chroma_error {t : Int} {x : ℚ} (coefficients : |(t : ℚ) / 262144 - x| ≤ 1 / 2)
    (lo : -112 ≤ x) (hi : x ≤ 112) :
    |(clampInt (128 + roundHalfAway t 131072) 16 240 : ℚ) - (128 + x)| ≤ 1 := by
  have rounding := roundHalfAway_error t (h := 131072) (by norm_num)
  refine (clamp_error (by push_cast; linarith) (by push_cast; linarith)).trans ?_
  push_cast at rounding ⊢
  rw [add_sub_add_left_eq_sub]
  norm_num at rounding
  exact within_one rounding coefficients

theorem limitedCb_eval (block : Block) : limitedCb.eval block.value =
    clampInt (128 + roundHalfAway (-7680 * levels block .r - 25836 * levels block .g +
      33516 * levels block .b) 131072) 16 240 := by
  simp only [← limitedSum_eval]
  rfl

theorem limitedCr_eval (block : Block) : limitedCr.eval block.value =
    clampInt (128 + roundHalfAway (33516 * levels block .r - 30443 * levels block .g -
      3073 * levels block .b) 131072) 16 240 := by
  simp only [← limitedSum_eval]
  rfl

theorem limitedCb_error (block : Block) :
    |(limitedCb.eval block.value : ℚ) - digitalCb (average true block)| ≤ 1 := by
  obtain ⟨r_pos, r_le⟩ := levels_bounds block .r
  obtain ⟨g_pos, g_le⟩ := levels_bounds block .g
  obtain ⟨b_pos, b_le⟩ := levels_bounds block .b
  rw [limitedCb_eval]
  apply chroma_error
  · simp only [average_limited, luma709]
    push_cast
    refine abs_sub_le_iff.mpr ⟨?_, ?_⟩
    · linarith
    · linarith
  · simp only [average_limited, luma709]
    linarith
  · simp only [average_limited, luma709]
    linarith

theorem limitedCr_error (block : Block) :
    |(limitedCr.eval block.value : ℚ) - digitalCr (average true block)| ≤ 1 := by
  obtain ⟨r_pos, r_le⟩ := levels_bounds block .r
  obtain ⟨g_pos, g_le⟩ := levels_bounds block .g
  obtain ⟨b_pos, b_le⟩ := levels_bounds block .b
  rw [limitedCr_eval]
  apply chroma_error
  · simp only [average_limited, luma709]
    push_cast
    refine abs_sub_le_iff.mpr ⟨?_, ?_⟩
    · linarith
    · linarith
  · simp only [average_limited, luma709]
    linarith
  · simp only [average_limited, luma709]
    linarith

def total (block : Block) (c : Channel) : Int :=
  (block 0).value c + (block 1).value c + (block 2).value c + (block 3).value c

theorem total_bounds (block : Block) (c : Channel) : 0 ≤ total block c ∧ total block c ≤ 1020 := by
  obtain ⟨pos₀, le₀⟩ : 0 ≤ (block 0).value c ∧ (block 0).value c ≤ 255 := value_byte _ c
  obtain ⟨pos₁, le₁⟩ : 0 ≤ (block 1).value c ∧ (block 1).value c ≤ 255 := value_byte _ c
  obtain ⟨pos₂, le₂⟩ : 0 ≤ (block 2).value c ∧ (block 2).value c ≤ 255 := value_byte _ c
  obtain ⟨pos₃, le₃⟩ : 0 ≤ (block 3).value c ∧ (block 3).value c ≤ 255 := value_byte _ c
  unfold total
  omega

theorem average_full (block : Block) (c : Channel) :
    average false block c = total block c / 1020 := by
  unfold average signal total
  simp only [Bool.false_eq_true, if_false]
  push_cast
  ring

def mean (block : Block) (c : Channel) : Int := roundHalfUp (total block c) 2

theorem fullMean_eval (block : Block) (c : Channel) :
    (fullMean c).eval block.value = mean block c := by
  have bounds := total_bounds block c
  have value : (fullMean c).eval block.value = (0 + total block c + 2).tdiv 4 := by
    simp only [fullMean, eval_quot, eval_add, eval_lit, eval_var, total, Block.value]
    congr 1
    omega
  rw [value, zero_add, Int.tdiv_eq_ediv_of_nonneg (by omega)]
  rfl

theorem mean_error (block : Block) (c : Channel) :
    |(mean block c : ℚ) - 255 * average false block c| ≤ 1 / 2 := by
  have rounding := roundHalfUp_error (total block c) (h := 2) (by norm_num)
  have same : (total block c : ℚ) / (2 * (2 : ℤ)) = 255 * average false block c := by
    rw [average_full]
    push_cast
    ring
  rwa [same] at rounding

theorem average_bounds (block : Block) (c : Channel) :
    0 ≤ average false block c ∧ average false block c ≤ 1 := by
  have bounds := total_bounds block c
  have nonneg : (0 : ℚ) ≤ total block c := by exact_mod_cast bounds.1
  have le : (total block c : ℚ) ≤ 1020 := by exact_mod_cast bounds.2
  rw [average_full]
  constructor <;> linarith

theorem shifted_error {t : Int} {x : ℚ} (coefficients : |(t : ℚ) / 65536 - x| ≤ 1 / 2)
    (lo : -112 ≤ x) (hi : x ≤ 112) :
    |(clampInt (128 + roundHalfUp t 32768) 0 255 : ℚ) - (128 + x)| ≤ 1 := by
  have rounding := roundHalfUp_error t (h := 32768) (by norm_num)
  refine (clamp_error (by push_cast; linarith) (by push_cast; linarith)).trans ?_
  push_cast at rounding ⊢
  rw [add_sub_add_left_eq_sub]
  norm_num at rounding
  exact within_one rounding coefficients

theorem fullCb_eval (block : Block) : fullCb.eval block.value =
    clampInt (128 + roundHalfUp (-6596 * mean block .r - 22189 * mean block .g +
      28785 * mean block .b) 32768) 0 255 := by
  simp only [← fullMean_eval]
  rfl

theorem fullCr_eval (block : Block) : fullCr.eval block.value =
    clampInt (128 + roundHalfUp (28785 * mean block .r - 26145 * mean block .g -
      2640 * mean block .b) 32768) 0 255 := by
  simp only [← fullMean_eval]
  rfl

theorem fullCb_error (block : Block) :
    |(fullCb.eval block.value : ℚ) - digitalCb (average false block)| ≤ 1 := by
  obtain ⟨r_above, r_below⟩ := abs_sub_le_iff.mp (mean_error block .r)
  obtain ⟨g_above, g_below⟩ := abs_sub_le_iff.mp (mean_error block .g)
  obtain ⟨b_above, b_below⟩ := abs_sub_le_iff.mp (mean_error block .b)
  obtain ⟨r_pos, r_le⟩ := average_bounds block .r
  obtain ⟨g_pos, g_le⟩ := average_bounds block .g
  obtain ⟨b_pos, b_le⟩ := average_bounds block .b
  rw [fullCb_eval]
  apply shifted_error
  · push_cast
    rw [luma709]
    refine abs_sub_le_iff.mpr ⟨?_, ?_⟩
    · linarith
    · linarith
  · rw [luma709]
    linarith
  · rw [luma709]
    linarith

theorem fullCr_error (block : Block) :
    |(fullCr.eval block.value : ℚ) - digitalCr (average false block)| ≤ 1 := by
  obtain ⟨r_above, r_below⟩ := abs_sub_le_iff.mp (mean_error block .r)
  obtain ⟨g_above, g_below⟩ := abs_sub_le_iff.mp (mean_error block .g)
  obtain ⟨b_above, b_below⟩ := abs_sub_le_iff.mp (mean_error block .b)
  obtain ⟨r_pos, r_le⟩ := average_bounds block .r
  obtain ⟨g_pos, g_le⟩ := average_bounds block .g
  obtain ⟨b_pos, b_le⟩ := average_bounds block .b
  rw [fullCr_eval]
  apply shifted_error
  · push_cast
    rw [luma709]
    refine abs_sub_le_iff.mpr ⟨?_, ?_⟩
    · linarith
    · linarith
  · rw [luma709]
    linarith
  · rw [luma709]
    linarith

/-! Grey. -/

theorem grey_chroma (limited : Bool) {block : Block} {v : UInt8}
    (grey : ∀ k, block k = ⟨v, v, v⟩) :
    (cb limited).eval block.value = 128 ∧ (cr limited).eval block.value = 128 := by
  have same : ∀ k c, (block k).value c = v.toNat := by
    intro k c
    rw [grey k]
    cases c <;> rfl
  cases limited with
  | true =>
    have level : ∀ c, levels block c = levels block .r := by
      intro c
      simp only [levels, Colour.level, same]
    constructor
    · refine (limitedCb_eval block).trans ?_
      have cancel : -7680 * levels block .r - 25836 * levels block .r +
          33516 * levels block .r = 0 := by omega
      rw [level .g, level .b, cancel]
      rfl
    · refine (limitedCr_eval block).trans ?_
      have cancel : 33516 * levels block .r - 30443 * levels block .r -
          3073 * levels block .r = 0 := by omega
      rw [level .g, level .b, cancel]
      rfl
  | false =>
    have level : ∀ c, mean block c = mean block .r := by
      intro c
      simp only [mean, total, same]
    constructor
    · refine (fullCb_eval block).trans ?_
      have cancel : -6596 * mean block .r - 22189 * mean block .r +
          28785 * mean block .r = 0 := by omega
      rw [level .g, level .b, cancel]
      rfl
    · refine (fullCr_eval block).trans ?_
      have cancel : 28785 * mean block .r - 26145 * mean block .r -
          2640 * mean block .r = 0 := by omega
      rw [level .g, level .b, cancel]
      rfl

theorem luma_error (limited : Bool) (p : Pixel) :
    |((luma limited).eval p.value : ℚ) - digitalY (signal limited p)| ≤ 1 := by
  cases limited
  · exact fullLuma_error p
  · exact limitedLuma_error p

theorem cb_error (limited : Bool) (block : Block) :
    |((cb limited).eval block.value : ℚ) - digitalCb (average limited block)| ≤ 1 := by
  cases limited
  · exact fullCb_error block
  · exact limitedCb_error block

theorem cr_error (limited : Bool) (block : Block) :
    |((cr limited).eval block.value : ℚ) - digitalCr (average limited block)| ≤ 1 := by
  cases limited
  · exact fullCr_error block
  · exact limitedCr_error block

theorem byte_accuracy {V : Type} {env : V → Int} {e : Expr V} {lo hi : Nat} {x : ℚ}
    (inputs : ∀ v, byte.Has (env v))
    (inside : (e.range fun _ => byte).inside ⟨lo, hi⟩ = true) (hi_le : hi ≤ 255)
    (error : |(e.eval env : ℚ) - x| ≤ 1) :
    |((UInt8.ofInt (e.eval env)).toNat : ℚ) - x| ≤ 1 ∧
      lo ≤ (UInt8.ofInt (e.eval env)).toNat ∧ (UInt8.ofInt (e.eval env)).toNat ≤ hi := by
  have small : (Range.mk lo hi).inside byte = true := by
    simpa [Range.inside, byte] using hi_le
  obtain ⟨value, bounds⟩ := byte_value inputs inside small
  obtain ⟨lo_le, le_hi⟩ : (lo : Int) ≤ e.eval env ∧ e.eval env ≤ hi := bounds
  have cast : ((UInt8.ofInt (e.eval env)).toNat : ℚ) = e.eval env := by exact_mod_cast value
  rw [cast]
  exact ⟨error, by omega, by omega⟩

/-- Both paths are accurate to one step: every luma of its pixel, every chroma of the
average of its block; they keep to the limited ranges, leave grey without colour, and
no number on the way leaves 32 bits. -/
theorem bt709_accuracy (limited : Bool) (block : Block) :
    (∀ k, |((lumaByte limited (block k)).toNat : ℚ) - digitalY (signal limited (block k))| ≤ 1 ∧
      16 ≤ (lumaByte limited (block k)).toNat ∧ (lumaByte limited (block k)).toNat ≤ 235) ∧
    (|((cbByte limited block).toNat : ℚ) - digitalCb (average limited block)| ≤ 1 ∧
      16 ≤ (cbByte limited block).toNat ∧ (cbByte limited block).toNat ≤ 240) ∧
    (|((crByte limited block).toNat : ℚ) - digitalCr (average limited block)| ≤ 1 ∧
      16 ≤ (crByte limited block).toNat ∧ (crByte limited block).toNat ≤ 240) ∧
    (∀ v, (∀ k, block k = ⟨v, v, v⟩) → cbByte limited block = 128 ∧ crByte limited block = 128) ∧
    (∀ k, (luma limited).Fits int32 (block k).value) ∧
    (cb limited).Fits int32 block.value ∧ (cr limited).Fits int32 block.value := by
  have inputs : ∀ v, byte.Has (block.value v) := fun v => value_byte (block v.1) v.2
  refine ⟨fun k => ?_, ?_, ?_, ?_, fun k => ?_, ?_, ?_⟩
  · exact byte_accuracy (value_byte (block k)) (luma_bounded limited).2 (by decide)
      (luma_error limited (block k))
  · exact byte_accuracy inputs (cb_bounded limited).2 (by decide) (cb_error limited block)
  · exact byte_accuracy inputs (cr_bounded limited).2 (by decide) (cr_error limited block)
  · intro v grey
    obtain ⟨blue, red⟩ := grey_chroma limited grey
    rw [cbByte, crByte, blue, red]
    exact ⟨rfl, rfl⟩
  · exact fits_of_bounded (value_byte (block k)) _ (luma_bounded limited).1
  · exact fits_of_bounded inputs _ (cb_bounded limited).1
  · exact fits_of_bounded inputs _ (cr_bounded limited).1

end Video.Colour

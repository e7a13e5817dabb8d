import OrbFirmware.Rounding

/-! C's `float` and its conversions, as rationals. -/
namespace OrbFirmware.SingleFloat
open Float.Model Rounding

/-- `(float)n`. -/
def ofInt32 (n : Int32) : Float32 := .ofModel (.ofInt32 n)

/-- `(int32_t)x`. -/
def toInt32 (x : Float32) : Int32 := x.toModel.toInt32

/-- `lroundf`. -/
def lroundf (x : Float32) : Int32 := .ofInt (roundHalfAway x.toModel.unpack)

/-- `x` is finite and stands for `q`. -/
structure Denotes (x : Float32) (q : ℚ) : Prop where
  canonical : Canonical .binary32 x.toModel.unpack
  value : toRat x.toModel.unpack = q

/-- The rationals of the format, the largest binade apart. -/
def Single (q : ℚ) : Prop :=
  ∃ n k : ℤ, q = n*2^k ∧ |n| < 2^24 ∧ -149 ≤ k ∧ k ≤ 103

theorem Single.lt {q : ℚ} (h : Single q) : |q| < 2^(Format.binary32.exponentBias:ℤ) := by
  obtain ⟨n, k, rfl, hn, -, hk⟩ := h
  have hn' : |(n:ℚ)| < 2^24 := by exact_mod_cast hn
  have hpow : (0:ℚ) < 2^k := zpow_pos two_pos k
  rw [abs_mul, abs_of_pos hpow]
  calc
    |(n:ℚ)| * 2^k < 2^24*2^k := mul_lt_mul_of_pos_right hn' hpow
    _ = 2^(24+k) := by rw [zpow_add₀ two_ne_zero]; norm_num
    _ ≤ 2^(Format.binary32.exponentBias:ℤ) := zpow_le_zpow_right₀ one_le_two (by
      have hb : Format.binary32.exponentBias = 127 := rfl
      omega)

theorem single_int {n : ℤ} (hn : |n| < 2^24) : Single n :=
  ⟨n, 0, by simp, hn, by decide, by decide⟩

theorem single_half {n : ℤ} (hn : |n| < 2^24) : Single (n/2) :=
  ⟨n, -1, by rw [zpow_neg_one]; ring, hn, by decide, by decide⟩

theorem unpack_pack {x : UnpackedFloat} (h : Canonical .binary32 x) : (Float32.Model.pack x).unpack = x :=
  Rounding.unpack_pack h

theorem denotes_pack {q : ℚ} {r : UnpackedFloat} (h : Nearest .binary32 q r) (hq : Single q) :
    Denotes (.ofModel (.pack r)) q := by
  obtain ⟨n, k, hval, hn, hk, -⟩ := hq
  have hexact := h.exact hval (by exact_mod_cast hn) (by exact_mod_cast hk)
  constructor
  · rw [unpack_pack h.canonical]
    exact h.canonical
  · rw [unpack_pack h.canonical, hexact]

theorem Denotes.add {x y : Float32} {a b : ℚ} (hx : Denotes x a) (hy : Denotes y b) (h : Single (a+b)) :
    Denotes (x+y) (a+b) := by
  have hnear := add_near (by decide) hx.canonical hy.canonical (by rw [hx.value, hy.value]; exact h.lt)
  rw [hx.value, hy.value] at hnear
  exact denotes_pack hnear h

theorem Denotes.mul {x y : Float32} {a b : ℚ} (hx : Denotes x a) (hy : Denotes y b) (h : Single (a*b)) :
    Denotes (x*y) (a*b) := by
  have hnear := mul_near (by decide) hx.canonical hy.canonical (by rw [hx.value, hy.value]; exact h.lt)
  rw [hx.value, hy.value] at hnear
  exact denotes_pack hnear h

theorem Denotes.lt {x y : Float32} {a b : ℚ} (hx : Denotes x a) (hy : Denotes y b) : x < y ↔ a < b := by
  rw [← hx.value, ← hy.value, ← lt_iff hx.canonical hy.canonical]
  have hlt : x < y ↔ decide (x.toModel < y.toModel) = true := Iff.rfl
  rw [hlt, decide_eq_true_iff]
  exact Iff.rfl

theorem denotes_ofInt32 {n : Int32} (hn : |n.toInt| < 2^24) : Denotes (ofInt32 n) n.toInt := by
  have hbias : |n.toInt| < 2^Format.binary32.exponentBias := hn.trans (by decide)
  exact denotes_pack (ofInt_near (by decide) hbias) (single_int hn)

theorem div_near {x y : Float32} {a b : ℚ} (hx : Denotes x a) (hy : Denotes y b) (hb : b ≠ 0) (hq : |a/b| < 2^(127:ℤ)) :
    Nearest .binary32 (a/b) (UnpackedFloat.div .binary32 x.toModel.unpack y.toModel.unpack) := by
  have hnear := Rounding.div_near (f := .binary32) (by decide) hx.canonical hy.canonical (by rwa [hy.value]) (by
    rwa [hx.value, hy.value])
  rwa [hx.value, hy.value] at hnear

theorem Denotes.div {x y : Float32} {a b : ℚ} (hx : Denotes x a) (hy : Denotes y b) (hb : b ≠ 0) (h : Single (a/b)) :
    Denotes (x/y) (a/b) :=
  denotes_pack (div_near hx hy hb h.lt) h

/-- A quotient that is not a single carries the error of one rounding. -/
theorem Denotes.div_error {x y : Float32} {a b : ℚ} (hx : Denotes x a) (hy : Denotes y b) (hb : b ≠ 0)
    (hlow : 2^(-126:ℤ) ≤ |a/b|) (hhigh : |a/b| < 2^(127:ℤ)) : ∃ q, Denotes (x/y) q ∧ |q-a/b| ≤ |a/b|/2^24 := by
  have hnear := div_near hx hy hb hhigh
  have hunpack := unpack_pack hnear.canonical
  exact ⟨_, ⟨hunpack.symm ▸ hnear.canonical, congrArg toRat hunpack⟩, hnear.error hlow⟩

theorem toInt32_toInt {x : Float32} {q : ℚ} (hx : Denotes x q) (hq : |q| < 2^31) :
    (toInt32 x).toInt = if 0 ≤ q then ⌊q⌋ else ⌈q⌉ := by
  have hint := toInt_eq hx.canonical Int32.minValue.toInt Int32.maxValue.toInt
  rw [hx.value] at hint
  obtain ⟨hlow, hhigh⟩ := abs_lt.mp hq
  have hmin : Int32.minValue.toInt = -2^31 := rfl
  have hmax : Int32.maxValue.toInt = 2^31-1 := rfl
  have hrange : -2^31 ≤ (if 0 ≤ q then ⌊q⌋ else ⌈q⌉) ∧ (if 0 ≤ q then ⌊q⌋ else ⌈q⌉) ≤ 2^31-1 := by
    split
    · constructor
      · rw [Int.le_floor]
        push_cast
        linarith
      · have : ⌊q⌋ < 2^31 := Int.floor_lt.mpr (by exact_mod_cast hhigh)
        omega
    · constructor
      · have : -2^31 < ⌈q⌉ := Int.lt_ceil.mpr (by exact_mod_cast hlow)
        omega
      · rw [Int.ceil_le]
        push_cast
        linarith
  have hconv : toInt32 x = .ofIntClamp (if 0 ≤ q then ⌊q⌋ else ⌈q⌉) := congrArg Int32.ofIntClamp hint
  rw [hconv, Int32.toInt_ofIntClamp (by omega) (by omega)]

theorem lroundf_toInt {x : Float32} {h : ℤ} (hx : Denotes x (h/2)) (hh : |h| < 2^31) :
    (lroundf x).toInt = if 0 ≤ h then (h+1)/2 else -((-h+1)/2) := by
  obtain ⟨hlow, hhigh⟩ := abs_lt.mp hh
  rw [lroundf, roundHalfAway_eq hx.canonical hx.value, Int32.toInt_ofInt_of_le] <;> split <;> omega

end OrbFirmware.SingleFloat

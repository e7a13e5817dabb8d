import OrbFirmware.Binary64

/-! Floats of a format as rationals. What an operation rounds is within half of the last place of the exact result, and is
the exact result where the format has it. -/
namespace OrbFirmware.Rounding
open Float.Model Float.Model.UnpackedFloat Binary64

/-! Extended mantissas: what the two residual bits know of the digits that were dropped. -/

/-- `x` as a mantissa of which it is known how far it falls short. -/
def Approx (m : Nat) (x : ℚ) : Accuracy → Prop
  | .exact => x = m
  | .inexact .lt => m < x ∧ x < m+1/2
  | .inexact .eq => x = m+1/2
  | .inexact .gt => m+1/2 < x ∧ x < m+1

theorem Approx.rounded {m : Nat} {x : ℚ} {a : Accuracy} (h : Approx m x a) : |a.roundToNearestEven m-x| ≤ 1/2 := by
  rw [abs_le]
  cases a with
  | exact =>
    have hx : x = m := h
    simp only [Accuracy.roundToNearestEven, hx]
    norm_num
  | inexact o =>
    cases o with
    | lt =>
      obtain ⟨hlow, hhigh⟩ := h
      simp only [Accuracy.roundToNearestEven]
      constructor <;> linarith
    | eq =>
      have hx : x = m+1/2 := h
      simp only [Accuracy.roundToNearestEven, hx]
      -- a tie goes to the even neighbour, below or above
      obtain h' | h' := Nat.mod_two_eq_zero_or_one m <;> rw [h'] <;> push_cast <;> constructor <;> linarith
    | gt =>
      obtain ⟨hlow, hhigh⟩ := h
      simp only [Accuracy.roundToNearestEven]
      push_cast
      constructor <;> linarith

theorem Approx.floor {m : Nat} {x : ℚ} {a : Accuracy} (h : Approx m x a) : m ≤ x ∧ x < m+1 := by
  cases a with
  | exact =>
    have hx : x = m := h
    constructor <;> linarith
  | inexact o =>
    cases o with
    | lt => exact ⟨h.1.le, by linarith [h.2]⟩
    | eq =>
      have hx : x = m+1/2 := h
      constructor <;> linarith
    | gt => exact ⟨by linarith [h.1], h.2⟩

theorem Approx.roundToNearestEven_le {m : Nat} (a : Accuracy) :
    m ≤ a.roundToNearestEven m ∧ a.roundToNearestEven m ≤ m+1 := by
  cases a with
  | exact => exact ⟨le_rfl, Nat.le_succ m⟩
  | inexact o =>
    cases o with
    | lt => exact ⟨le_rfl, Nat.le_succ m⟩
    | eq =>
      simp only [Accuracy.roundToNearestEven]
      omega
    | gt => exact ⟨Nat.le_succ m, le_rfl⟩

theorem approx_ofMantissaAndAccuracy {m : Nat} {x : ℚ} {a : Accuracy} (h : Approx m x a) :
    Approx (ExtendedMantissa.ofMantissaAndAccuracy m a).mantissa x
      (ExtendedMantissa.ofMantissaAndAccuracy m a).accuracy := by
  cases a with
  | exact => exact h
  | inexact o => cases o <;> exact h

theorem approx_shiftRightOne {em : ExtendedMantissa} {x : ℚ} (h : Approx em.mantissa x em.accuracy) :
    Approx em.shiftRightOne.mantissa (x/2) em.shiftRightOne.accuracy := by
  obtain ⟨m, r, s⟩ := em
  obtain ⟨k, hk⟩ := Nat.even_or_odd' m
  have hhalf : m/2 = k := by omega
  -- the bit shifted out is the new round bit, the two residual bits the new sticky bit
  obtain rfl | rfl := hk
  · have hbit : (2*k % 2 != 0) = false := by simp
    cases r <;> cases s <;>
      simp only [ExtendedMantissa.shiftRightOne, ExtendedMantissa.accuracy, Approx, hhalf, hbit, Bool.or_false,
        Bool.or_true] at h ⊢ <;> push_cast at h
    · linarith
    · constructor <;> linarith
    · constructor <;> linarith
    · constructor <;> linarith
  · have hbit : ((2*k+1) % 2 != 0) = true := by simp
    cases r <;> cases s <;>
      simp only [ExtendedMantissa.shiftRightOne, ExtendedMantissa.accuracy, Approx, hhalf, hbit, Bool.or_false,
        Bool.or_true] at h ⊢ <;> push_cast at h
    · linarith
    · constructor <;> linarith
    · constructor <;> linarith
    · constructor <;> linarith

theorem approx_shiftRight {em : ExtendedMantissa} {x : ℚ} (h : Approx em.mantissa x em.accuracy) (k : Nat) :
    Approx (em >>> k).mantissa (x/2^k) (em >>> k).accuracy := by
  induction k with
  | zero => simpa [HShiftRight.hShiftRight, Nat.repeat] using h
  | succ k ih =>
    have hstep : em >>> (k+1) = (em >>> k).shiftRightOne := rfl
    rw [hstep, pow_succ, ← div_div]
    exact approx_shiftRightOne ih

/-! The formats. -/

section
variable {f : Format}

theorem minExponent_eq (f : Format) : f.minExponent = 1-(f.exponentBias:ℤ)-f.mantissaBitsWithoutImplicit := by
  have hpow : 1 ≤ 2^(f.exponentBits-1) := Nat.one_le_two_pow
  simp only [Format.minExponent, Format.exponentBias, Format.mantissaBits]
  push_cast [Nat.cast_sub hpow]
  ring

theorem minExponent_le (f : Format) : f.minExponent ≤ 0 := by
  have hmin := minExponent_eq f
  have := f.hm
  omega

theorem two_pow_exponentBits (f : Format) : 2^f.exponentBits = 2*f.exponentBias+2 := by
  have hpow : 1 ≤ 2^(f.exponentBits-1) := Nat.one_le_two_pow
  have hbits : f.exponentBits = (f.exponentBits-1)+1 := by have := f.he; omega
  rw [hbits, pow_succ, Format.exponentBias]
  omega

/-- What is packed without loss: a mantissa of full length, or the least exponent. -/
def Canonical (f : Format) : UnpackedFloat → Prop
  | .zero _ => True
  | .finite _ m e _ =>
    f.targetExponent (totalExponent m e) = e ∧ e ≤ (f.exponentBias:ℤ)-f.mantissaBitsWithoutImplicit
  | _ => False

theorem canonical_iff {s : Sign} {m : Nat} {e : ℤ} {hp : 0 < m} :
    Canonical f (.finite s m e hp) ↔
      f.minExponent ≤ e ∧ e ≤ (f.exponentBias:ℤ)-f.mantissaBitsWithoutImplicit ∧
        (m.log2 = f.mantissaBitsWithoutImplicit ∨ m.log2 < f.mantissaBitsWithoutImplicit ∧ e = f.minExponent) := by
  simp only [Canonical, Format.targetExponent, totalExponent, Format.mantissaBits]
  omega

theorem implicit_bit {n : Nat} (m : BitVec n) : (1#1 ++ m).toNat = 2^n+m.toNat := by
  rw [BitVec.toNat_append, ← Nat.shiftLeft_add_eq_or_of_lt m.isLt, Nat.shiftLeft_eq]
  simp

/-- Packing loses nothing of a canonical float. -/
theorem unpack_pack {x : UnpackedFloat} (h : Canonical f x) : UnpackedFloat.unpack f (UnpackedFloat.pack f x) = x := by
  have hmin := minExponent_eq f
  have hbits := two_pow_exponentBits f
  have hones : (0#f.exponentBits) ≠ -1#_ := by
    intro heq
    have := congrArg BitVec.toNat heq
    simp only [BitVec.neg_one_eq_allOnes, BitVec.toNat_allOnes, BitVec.toNat_zero] at this
    omega
  cases x with
  | infinity s => exact h.elim
  | notANumber => exact h.elim
  | zero s =>
    simp [UnpackedFloat.pack, packedZero, UnpackedFloat.unpack, hones]
  | finite s m e hp =>
    obtain ⟨hlow, hhigh, hlog⟩ := canonical_iff.mp h
    obtain ⟨b, hb⟩ : ∃ b : Nat, (b : ℤ) = e+f.exponentBias+f.mantissaBitsWithoutImplicit :=
      ⟨_, Int.toNat_of_nonneg (by omega)⟩
    have hbiased : (e+f.exponentBias+f.mantissaBitsWithoutImplicit).toNat = b := by omega
    have hroom : ¬2^f.exponentBits ≤ b+1 := by omega
    obtain hnormal | ⟨hsub, hleast⟩ := hlog
    · have hfull : m.log2+1 = f.mantissaBits := by rw [Format.mantissaBits]; omega
      obtain ⟨hm, hm'⟩ := (Nat.log2_eq_iff hp.ne').mp hnormal
      have hexp : (BitVec.ofNat f.exponentBits b).toNat = b := by
        rw [BitVec.toNat_ofNat, Nat.mod_eq_of_lt (by omega)]
      have hne : BitVec.ofNat f.exponentBits b ≠ -1#_ ∧ BitVec.ofNat f.exponentBits b ≠ 0#_ := by
        constructor <;> intro heq <;> have := congrArg BitVec.toNat heq <;>
          simp only [hexp, BitVec.neg_one_eq_allOnes, BitVec.toNat_allOnes, BitVec.toNat_zero] at this <;> omega
      have hmant : (1#1 ++ BitVec.ofNat f.mantissaBitsWithoutImplicit m).toNat = m := by
        rw [implicit_bit, BitVec.toNat_ofNat, Nat.mod_eq_sub_mod hm, Nat.mod_eq_of_lt (by rw [pow_succ] at hm'; omega)]
        omega
      have hpack : UnpackedFloat.pack f (.finite s m e hp) = packComponents f s (BitVec.ofNat _ b) (BitVec.ofNat _ m) := by
        simp only [UnpackedFloat.pack, hbiased, hfull, if_neg hroom, if_true]
      rw [hpack]
      simp only [UnpackedFloat.unpack, unpackExponent_packComponents, unpackMantissa_packComponents,
        unpackSign_packComponents, Sign.ofBitVec_toBitVec, hne, if_false, hmant, hexp]
      congr 1
      omega
    · have hshort : ¬m.log2+1 = f.mantissaBits := by rw [Format.mantissaBits]; omega
      have hm' : m < 2^f.mantissaBitsWithoutImplicit := (Nat.log2_lt hp.ne').mp hsub
      have hmant : (BitVec.ofNat f.mantissaBitsWithoutImplicit m).toNat = m := by
        rw [BitVec.toNat_ofNat, Nat.mod_eq_of_lt hm']
      have hne : BitVec.ofNat f.mantissaBitsWithoutImplicit m ≠ 0#_ := by
        intro heq
        have := congrArg BitVec.toNat heq
        simp only [hmant, BitVec.toNat_zero] at this
        omega
      have hpack : UnpackedFloat.pack f (.finite s m e hp) = packComponents f s 0#_ (BitVec.ofNat _ m) := by
        simp only [UnpackedFloat.pack, hbiased, hshort, if_neg hroom, if_false]
      rw [hpack]
      simp only [UnpackedFloat.unpack, unpackExponent_packComponents, unpackMantissa_packComponents,
        unpackSign_packComponents, Sign.ofBitVec_toBitVec, hones, hne, if_false, if_true, dif_neg, not_false_eq_true, hmant]
      congr 1
      simp only [BitVec.toNat_zero]
      omega

/-! Values. -/

def signOf : Sign → ℚ
  | .negative => -1
  | .positive => 1

theorem abs_signOf (s : Sign) : |signOf s| = 1 := by
  cases s <;> simp [signOf]

theorem signOf_mul (s s' : Sign) : signOf (s*s') = signOf s*signOf s' := by
  cases s <;> cases s'
  · exact (by norm_num : (1:ℚ) = -1*(-1))
  · exact (by norm_num : (-1:ℚ) = -1*1)
  · exact (by norm_num : (-1:ℚ) = 1*(-1))
  · exact (by norm_num : (1:ℚ) = 1*1)

theorem signOf_div (s s' : Sign) : signOf (s/s') = signOf s/signOf s' := by
  cases s <;> cases s'
  · exact (by norm_num : (1:ℚ) = -1/(-1))
  · exact (by norm_num : (-1:ℚ) = -1/1)
  · exact (by norm_num : (-1:ℚ) = 1/(-1))
  · exact (by norm_num : (1:ℚ) = 1/1)

theorem apply_cast (s : Sign) (n : ℤ) : ((s.apply n : ℤ) : ℚ) = signOf s*n := by
  cases s <;> simp [signOf, Sign.apply]

/-- The rational a finite float stands for. -/
def toRat : UnpackedFloat → ℚ
  | .finite s m e _ => signOf s*(m*2^e)
  | _ => 0

/-- The second shift of `roundWithAccuracy`, for a mantissa that rounding made one bit longer. -/
def carry (f : Format) (s : Sign) (M : Nat) (t : ℤ) : UnpackedFloat :=
  let (em, e) := shiftToTargetExponent f M t .exact
  if h : em.mantissa = 0 then .zero s else .finite s em.mantissa e (Nat.pos_of_ne_zero h)

theorem carry_canonical {s : Sign} {M : Nat} {t : ℤ} (hM : M ≤ 2^f.mantissaBits)
    (hlow : 2^f.mantissaBitsWithoutImplicit ≤ M ∨ t = f.minExponent) (hmin : f.minExponent ≤ t)
    (htop : t < (f.exponentBias:ℤ)-f.mantissaBitsWithoutImplicit) :
    Canonical f (carry f s M t) ∧ toRat (carry f s M t) = signOf s*(M*2^t) := by
  have hbits : f.mantissaBits = f.mantissaBitsWithoutImplicit+1 := by rw [Format.mantissaBits, Nat.add_comm]
  obtain hlt | rfl := hM.lt_or_eq
  · -- no carry: the target exponent is not above `t`
    have hlog : M.log2 ≤ f.mantissaBitsWithoutImplicit := by
      by_cases hz : M = 0
      · rw [hz, Nat.log2_zero]
        exact Nat.zero_le _
      · have := (Nat.log2_lt hz).mpr hlt
        omega
    have hshift : (f.targetExponent (totalExponent M t)-t).toNat = 0 := by
      simp only [Format.targetExponent, totalExponent]
      omega
    have hcarry : carry f s M t = if h : M = 0 then .zero s else .finite s M t (Nat.pos_of_ne_zero h) := by
      simp only [carry, shiftToTargetExponent, shiftToExponent, hshift, Nat.cast_zero, add_zero]
      rfl
    rw [hcarry]
    split
    · rename_i hz
      exact ⟨trivial, by simp [toRat, hz]⟩
    · rename_i hz
      refine ⟨canonical_iff.mpr ⟨hmin, htop.le, ?_⟩, rfl⟩
      obtain hlow | hlow := hlow
      · have := (Nat.le_log2 hz).mpr hlow
        omega
      · omega
  · have hshift : (f.targetExponent (totalExponent (2^f.mantissaBits) t)-t).toNat = 1 := by
      simp only [Format.targetExponent, totalExponent, Nat.log2_two_pow]
      omega
    have hhalf : 2^f.mantissaBits/2 = 2^f.mantissaBitsWithoutImplicit := by
      rw [hbits, pow_succ, Nat.mul_div_cancel _ (by decide)]
    have hpos : 0 < 2^f.mantissaBitsWithoutImplicit := Nat.two_pow_pos _
    have hcarry : carry f s (2^f.mantissaBits) t = .finite s (2^f.mantissaBitsWithoutImplicit) (t+1) hpos := by
      have hmant : (ExtendedMantissa.ofMantissaAndAccuracy (2^f.mantissaBits) .exact >>> 1).mantissa =
          2^f.mantissaBitsWithoutImplicit := by
        rw [mantissa_shiftRight, ← hhalf]
        rfl
      simp only [carry, shiftToTargetExponent, shiftToExponent, hshift, hmant, hpos.ne', dif_neg, not_false_eq_true]
      rfl
    rw [hcarry]
    refine ⟨canonical_iff.mpr ⟨by omega, by omega, .inl (Nat.log2_two_pow)⟩, ?_⟩
    simp only [toRat, hbits]
    push_cast
    rw [zpow_add_one₀ two_ne_zero, pow_succ]
    ring

/-- Rounding: to a multiple of the last place, no further than half of it. -/
theorem roundWithAccuracy_nearest {s : Sign} {m : Nat} {e t : ℤ} {x : ℚ} {a : Accuracy} (h : Approx m x a)
    (ht : f.targetExponent (totalExponent m e) = t) (he : e ≤ t)
    (htop : t < (f.exponentBias:ℤ)-f.mantissaBitsWithoutImplicit) :
    Canonical f (roundWithAccuracy f s m e a) ∧
      ∃ M : Nat, toRat (roundWithAccuracy f s m e a) = signOf s*(M*2^t) ∧ |(M:ℚ)*2^t-x*2^e| ≤ 2^t/2 := by
  obtain ⟨k, hk⟩ : ∃ k : Nat, (k : ℤ) = t-e := ⟨_, Int.toNat_of_nonneg (by omega)⟩
  have hkt : (t-e).toNat = k := by omega
  set em := ExtendedMantissa.ofMantissaAndAccuracy m a >>> k with hem
  have hround : roundWithAccuracy f s m e a = carry f s em.roundedMantissa t := by
    have hadd : e+(k : ℤ) = t := by omega
    simp only [roundWithAccuracy, carry, shiftToTargetExponent, shiftToExponent, ht, hkt, hadd, hem]
  have happrox : Approx em.mantissa (x/2^k) em.accuracy := approx_shiftRight (approx_ofMantissaAndAccuracy h) k
  have hmant : em.mantissa = m/2^k := by
    rw [hem, mantissa_shiftRight]
    cases a with
    | exact => rfl
    | inexact o => cases o <;> rfl
  obtain ⟨hle, hle'⟩ := Approx.roundToNearestEven_le (m := em.mantissa) em.accuracy
  -- the mantissa shifted to the target exponent has at most the bits of the format, and all of them above the least exponent
  have htarget : t = max ((m.log2:ℤ)+1+e-f.mantissaBits) f.minExponent := by
    rw [← ht, Format.targetExponent, totalExponent]
  have hbits : f.mantissaBits = f.mantissaBitsWithoutImplicit+1 := by rw [Format.mantissaBits, Nat.add_comm]
  have hupper : em.mantissa < 2^f.mantissaBits := by
    rw [hmant, Nat.div_lt_iff_lt_mul (Nat.two_pow_pos k), ← pow_add]
    exact Nat.lt_log2_self.trans_le (Nat.pow_le_pow_right (by decide) (by omega))
  have hlower : 2^f.mantissaBitsWithoutImplicit ≤ em.mantissa ∨ t = f.minExponent := by
    by_cases hleast : t = f.minExponent
    · exact .inr hleast
    · left
      have hm : m ≠ 0 := by
        intro hm
        have := f.hm
        rw [hm, Nat.log2_zero] at htarget
        omega
      rw [hmant, Nat.le_div_iff_mul_le (Nat.two_pow_pos k), ← pow_add]
      exact (Nat.pow_le_pow_right (by decide) (by omega)).trans (Nat.log2_self_le hm)
  obtain ⟨hcan, hval⟩ := carry_canonical (s := s) (M := em.roundedMantissa) (t := t) (by
    rw [ExtendedMantissa.roundedMantissa]
    omega) (hlower.imp_left fun hl => hl.trans hle) (by omega) htop
  rw [hround]
  refine ⟨hcan, _, hval, ?_⟩
  have hpow : (2:ℚ)^t = 2^k*2^e := by
    rw [← zpow_natCast, ← zpow_add₀ two_ne_zero]
    congr 1
    omega
  have hx : x*2^e = x/2^k*2^t := by
    rw [hpow]
    field_simp
  have hpos : (0:ℚ) < 2^t := zpow_pos two_pos t
  rw [hx, ← sub_mul, abs_mul, abs_of_pos hpos, div_eq_mul_one_div ((2:ℚ)^t) 2, mul_comm ((2:ℚ)^t)]
  exact mul_le_mul_of_nonneg_right happrox.rounded hpos.le

/-- `r` is `q` rounded: a multiple of the last place, which is that of `q` or the least one, within half of it. -/
structure Nearest (f : Format) (q : ℚ) (r : UnpackedFloat) : Prop where
  canonical : Canonical f r
  near : ∃ t M : ℤ, toRat r = M*2^t ∧ |toRat r-q| ≤ 2^t/2 ∧ f.minExponent ≤ t ∧
    (t = f.minExponent ∨ 2^(t+f.mantissaBitsWithoutImplicit) ≤ |q|)

/-- A value of the format is not rounded. -/
theorem Nearest.exact {q : ℚ} {r : UnpackedFloat} (h : Nearest f q r) {n k : ℤ} (hq : q = n*2^k)
    (hn : |n| < 2^f.mantissaBits) (hk : f.minExponent ≤ k) : toRat r = q := by
  obtain ⟨t, M, hval, hnear, hmin, hplace⟩ := h.near
  have hpos : (0:ℚ) < 2^t := zpow_pos two_pos t
  have htk : t ≤ k := by
    obtain hleast | hlow := hplace
    · omega
    · have hpow : (0:ℚ) < 2^k := zpow_pos two_pos k
      have hn' : |(n:ℚ)| < 2^(f.mantissaBits:ℤ) := by
        rw [zpow_natCast]
        exact_mod_cast hn
      have hlt : (2:ℚ)^(t+f.mantissaBitsWithoutImplicit) < 2^((f.mantissaBits:ℤ)+k) := by
        calc
          (2:ℚ)^(t+f.mantissaBitsWithoutImplicit) ≤ |q| := hlow
          _ = |(n:ℚ)| * 2^k := by rw [hq, abs_mul, abs_of_pos hpow]
          _ < 2^(f.mantissaBits:ℤ)*2^k := mul_lt_mul_of_pos_right hn' hpow
          _ = 2^((f.mantissaBits:ℤ)+k) := (zpow_add₀ two_ne_zero _ _).symm
      have := (zpow_lt_zpow_iff_right₀ (one_lt_two)).mp hlt
      rw [Format.mantissaBits] at this
      omega
  obtain ⟨j, hj⟩ : ∃ j : Nat, (j : ℤ) = k-t := ⟨_, Int.toNat_of_nonneg (by omega)⟩
  have hqt : q = (n*2^j : ℤ)*2^t := by
    have hk' : k = j+t := by omega
    rw [hq, hk', zpow_add₀ two_ne_zero]
    push_cast
    rw [zpow_natCast]
    ring
  -- two multiples of the last place within half of it
  rw [hval, hqt, ← sub_mul, abs_mul, abs_of_pos hpos, div_eq_mul_one_div ((2:ℚ)^t) 2, mul_comm ((2:ℚ)^t)] at hnear
  have hlt : |((M-n*2^j : ℤ) : ℚ)| < 1 := by
    have := le_of_mul_le_mul_right hnear hpos
    push_cast at this ⊢
    linarith
  have hzero : M-n*2^j = 0 := Int.abs_lt_one_iff.mp (by exact_mod_cast hlt)
  rw [hval, hqt, sub_eq_zero.mp hzero]

/-- The relative error of a result in the normal range. -/
theorem Nearest.error {q : ℚ} {r : UnpackedFloat} (h : Nearest f q r)
    (hq : 2^(f.minExponent+f.mantissaBitsWithoutImplicit) ≤ |q|) : |toRat r-q| ≤ |q|/2^f.mantissaBits := by
  obtain ⟨t, M, -, hnear, -, hplace⟩ := h.near
  have hlow : (2:ℚ)^(t+f.mantissaBitsWithoutImplicit) ≤ |q| := by
    obtain rfl | hlow := hplace
    · exact hq
    · exact hlow
  rw [le_div_iff₀ (by positivity)]
  calc
    |toRat r-q| * 2^f.mantissaBits ≤ 2^t/2*2^f.mantissaBits := mul_le_mul_of_nonneg_right hnear (by positivity)
    _ = 2^(t+f.mantissaBitsWithoutImplicit) := by
      rw [Format.mantissaBits, zpow_add₀ two_ne_zero, zpow_natCast, pow_add]
      ring
    _ ≤ |q| := hlow

theorem nearest_zero (s : Sign) : Nearest f 0 (.zero s) where
  canonical := trivial
  near := ⟨f.minExponent, 0, by simp [toRat], by simp only [toRat, sub_self, abs_zero]; positivity, le_rfl, .inl rfl⟩

theorem mantissa_le {m : Nat} (hm : 0 < m) (e : ℤ) : (2:ℚ)^(m.log2+e) ≤ m*2^e := by
  rw [zpow_add₀ two_ne_zero, zpow_natCast]
  exact mul_le_mul_of_nonneg_right (by exact_mod_cast Nat.log2_self_le hm.ne') (by positivity)

theorem mantissa_lt (m : Nat) (e : ℤ) : (m:ℚ)*2^e < 2^(m.log2+1+e) := by
  rw [zpow_add₀ two_ne_zero, ← Nat.cast_succ, zpow_natCast]
  exact mul_lt_mul_of_pos_right (by exact_mod_cast Nat.lt_log2_self) (by positivity)

theorem abs_toRat {s : Sign} {m : Nat} {e : ℤ} {hp : 0 < m} : |toRat (.finite s m e hp)| = m*2^e := by
  rw [toRat, abs_mul, abs_signOf, one_mul]
  exact abs_of_nonneg (by positivity)

theorem Canonical.nearest {r : UnpackedFloat} (h : Canonical f r) : Nearest f (toRat r) r := by
  cases r with
  | infinity s => exact h.elim
  | notANumber => exact h.elim
  | zero s => exact nearest_zero s
  | finite s m e hp =>
    obtain ⟨hmin, -, hlog⟩ := canonical_iff.mp h
    refine ⟨h, e, s.apply m, by rw [toRat, apply_cast]; push_cast; ring, by rw [sub_self, abs_zero]; positivity, hmin, ?_⟩
    obtain hfull | ⟨-, hleast⟩ := hlog
    · right
      rw [abs_toRat, ← hfull, add_comm]
      exact mantissa_le hp e
    · exact .inl hleast

/-! Operations. -/

theorem roundWithAccuracy_near {s : Sign} {m : Nat} {e : ℤ} {x : ℚ} {a : Accuracy} (hf : 0 < f.exponentBias)
    (h : Approx m x a) (he : e ≤ f.targetExponent (totalExponent m e)) (hx : x*2^e < 2^(f.exponentBias:ℤ)) :
    Nearest f (signOf s*(x*2^e)) (roundWithAccuracy f s m e a) := by
  have hpow : (0:ℚ) < 2^e := zpow_pos two_pos e
  have hmx : (m:ℚ)*2^e ≤ x*2^e := mul_le_mul_of_nonneg_right h.floor.1 hpow.le
  have hx0 : 0 ≤ x*2^e := le_trans (by positivity) hmx
  have hmin := minExponent_eq f
  -- the last place: that of the mantissa's first bit, or the least
  have hplace : f.targetExponent (totalExponent m e) = f.minExponent ∨ 0 < m ∧
      f.targetExponent (totalExponent m e)+f.mantissaBitsWithoutImplicit = m.log2+e := by
    simp only [Format.targetExponent, totalExponent, Format.mantissaBits] at he ⊢
    by_cases hm : m = 0
    · have := f.hm
      rw [hm, Nat.log2_zero] at he ⊢
      omega
    · omega
  have htop : f.targetExponent (totalExponent m e) < (f.exponentBias:ℤ)-f.mantissaBitsWithoutImplicit := by
    obtain hleast | ⟨hm, hfull⟩ := hplace
    · omega
    · have := (zpow_lt_zpow_iff_right₀ one_lt_two).mp (((mantissa_le hm e).trans hmx).trans_lt hx)
      omega
  obtain ⟨hcan, M, hval, hnear⟩ := roundWithAccuracy_nearest (s := s) h rfl he htop
  refine ⟨hcan, f.targetExponent (totalExponent m e), s.apply M, ?_, ?_, le_max_right _ _, ?_⟩
  · rw [hval, apply_cast]
    push_cast
    ring
  · rwa [hval, ← mul_sub, abs_mul, abs_signOf, one_mul]
  · rw [abs_mul, abs_signOf, one_mul, abs_of_nonneg hx0]
    refine hplace.imp_right ?_
    rintro ⟨hm, hfull⟩
    rw [hfull]
    exact (mantissa_le hm e).trans hmx

theorem round_near {s : Sign} {m : Nat} {e : ℤ} (hf : 0 < f.exponentBias) (hm : m ≠ 0)
    (hq : (m:ℚ)*2^e < 2^(f.exponentBias:ℤ)) : Nearest f (signOf s*(m*2^e)) (UnpackedFloat.round f s m e) := by
  obtain ⟨k, hk⟩ : ∃ k : Nat, k = (e-f.targetExponent (totalExponent m e)).toNat := ⟨_, rfl⟩
  have hround : UnpackedFloat.round f s m e = roundWithAccuracy f s (m <<< k) (e-k) .exact := by
    simp only [UnpackedFloat.round, decreaseExponent, ← hk]
  have htotal : totalExponent (m <<< k) (e-k) = totalExponent m e := by
    simp only [totalExponent, log2_shiftLeft hm]
    omega
  have hval : ((m <<< k : Nat) : ℚ)*2^(e-k) = m*2^e := by
    rw [Nat.shiftLeft_eq, zpow_sub₀ two_ne_zero, zpow_natCast]
    push_cast
    field_simp
  have hexact : Approx (m <<< k) ((m <<< k : Nat) : ℚ) .exact := rfl
  have hnear := roundWithAccuracy_near (s := s) (e := e-k) hf hexact (by rw [htotal]; omega) (by rwa [hval])
  rwa [hval, ← hround] at hnear

theorem normalize_near {M e : ℤ} (z : Sign) (hf : 0 < f.exponentBias) (hq : |(M:ℚ)*2^e| < 2^(f.exponentBias:ℤ)) :
    Nearest f (M*2^e) (UnpackedFloat.normalize f M e z) := by
  have hpow : (0:ℚ) < 2^e := zpow_pos two_pos e
  rw [abs_mul, abs_of_pos hpow] at hq
  obtain hneg | rfl | hpos := lt_trichotomy M 0
  · have hcast : ((-M).toNat : ℚ) = -M := by exact_mod_cast Int.toNat_of_nonneg (by omega : 0 ≤ -M)
    have hnear := round_near (s := .negative) (m := (-M).toNat) (e := e) hf (by omega) (by
      rwa [hcast, ← abs_of_neg (Int.cast_lt_zero.mpr hneg)])
    rw [hcast] at hnear
    simpa only [UnpackedFloat.normalize, Int.compare_eq_lt.mpr hneg, signOf, neg_mul, one_mul, neg_neg] using hnear
  · simpa only [UnpackedFloat.normalize, Int.compare_eq_eq.mpr rfl, Int.cast_zero, zero_mul] using nearest_zero (f := f) z
  · have hcast : (M.toNat : ℚ) = M := by exact_mod_cast Int.toNat_of_nonneg hpos.le
    have hnear := round_near (s := .positive) (m := M.toNat) (e := e) hf (by omega) (by
      rwa [hcast, ← abs_of_pos (Int.cast_pos.mpr hpos)])
    rw [hcast] at hnear
    simpa only [UnpackedFloat.normalize, Int.compare_eq_gt.mpr hpos, signOf, one_mul] using hnear

theorem decreaseExponent_toRat (m : Nat) {e t : ℤ} (h : t ≤ e) : ((decreaseExponent m e t).1 : ℚ)*2^t = m*2^e := by
  obtain ⟨k, hk⟩ : ∃ k : Nat, (k : ℤ) = e-t := ⟨_, Int.toNat_of_nonneg (by omega)⟩
  have he : e = k+t := by omega
  have hkt : (e-t).toNat = k := by omega
  simp only [decreaseExponent, hkt, Nat.shiftLeft_eq]
  rw [he, zpow_add₀ two_ne_zero, zpow_natCast]
  push_cast
  ring

theorem add_near {x y : UnpackedFloat} (hf : 0 < f.exponentBias) (hx : Canonical f x) (hy : Canonical f y)
    (hq : |toRat x+toRat y| < 2^(f.exponentBias:ℤ)) : Nearest f (toRat x+toRat y) (UnpackedFloat.add f x y) := by
  cases x with
  | infinity s => exact hx.elim
  | notANumber => exact hx.elim
  | zero s =>
    cases y with
    | infinity s' => exact hy.elim
    | notANumber => exact hy.elim
    | zero s' =>
      have hzero : toRat (.zero s)+toRat (.zero s') = 0 := by simp [toRat]
      rw [hzero, UnpackedFloat.add]
      split
      · exact nearest_zero s
      · exact nearest_zero .positive
    | finite s' m' e' hp' =>
      have hzero : toRat (.zero s)+toRat (.finite s' m' e' hp') = toRat (.finite s' m' e' hp') := zero_add _
      rw [hzero]
      exact hy.nearest
  | finite s m e hp =>
    cases y with
    | infinity s' => exact hy.elim
    | notANumber => exact hy.elim
    | zero s' =>
      have hzero : toRat (.finite s m e hp)+toRat (.zero s') = toRat (.finite s m e hp) := add_zero _
      rw [hzero]
      exact hx.nearest
    | finite s' m' e' hp' =>
      have hsum : toRat (.finite s m e hp)+toRat (.finite s' m' e' hp') =
          ((s.apply (decreaseExponent m e (min e e')).1+s'.apply (decreaseExponent m' e' (min e e')).1 : ℤ) : ℚ)*
            2^(min e e') := by
        push_cast
        rw [apply_cast, apply_cast, toRat, toRat, ← decreaseExponent_toRat m (min_le_left e e'),
          ← decreaseExponent_toRat m' (min_le_right e e')]
        push_cast
        ring
      rw [hsum] at hq ⊢
      exact normalize_near .positive hf hq

theorem Canonical.mantissa {s : Sign} {m : Nat} {e : ℤ} {hp : 0 < m} (h : Canonical f (.finite s m e hp)) :
    f.minExponent ≤ e ∧ (f.mantissaBitsWithoutImplicit ≤ m.log2 ∨ e = f.minExponent) := by
  obtain ⟨hmin, -, hlog⟩ := canonical_iff.mp h
  exact ⟨hmin, hlog.imp Eq.ge And.right⟩

theorem log2_mul {m m' : Nat} (hm : 0 < m) (hm' : 0 < m') : m.log2+m'.log2 ≤ (m*m').log2 := by
  rw [Nat.le_log2 (Nat.mul_pos hm hm').ne', pow_add]
  exact Nat.mul_le_mul (Nat.log2_self_le hm.ne') (Nat.log2_self_le hm'.ne')

theorem mul_near {x y : UnpackedFloat} (hf : 0 < f.exponentBias) (hx : Canonical f x) (hy : Canonical f y)
    (hq : |toRat x*toRat y| < 2^(f.exponentBias:ℤ)) : Nearest f (toRat x*toRat y) (UnpackedFloat.mul f x y) := by
  cases x with
  | infinity s => exact hx.elim
  | notANumber => exact hx.elim
  | zero s =>
    have hzero : toRat (.zero s)*toRat y = 0 := zero_mul _
    rw [hzero]
    cases y with
    | infinity s' => exact hy.elim
    | notANumber => exact hy.elim
    | zero s' => exact nearest_zero (s*s')
    | finite s' m' e' hp' => exact nearest_zero (s*s')
  | finite s m e hp =>
    cases y with
    | infinity s' => exact hy.elim
    | notANumber => exact hy.elim
    | zero s' =>
      have hzero : toRat (.finite s m e hp)*toRat (.zero s') = 0 := mul_zero _
      rw [hzero]
      exact nearest_zero (s*s')
    | finite s' m' e' hp' =>
      have hprod : toRat (.finite s m e hp)*toRat (.finite s' m' e' hp') =
          signOf (s*s')*(((m*m' : Nat) : ℚ)*2^(e+e')) := by
        rw [toRat, toRat, signOf_mul, zpow_add₀ two_ne_zero]
        push_cast
        ring
      rw [hprod] at hq ⊢
      rw [abs_mul, abs_signOf, one_mul, abs_of_nonneg (by positivity)] at hq
      have hexact : Approx (m*m') ((m*m' : Nat) : ℚ) .exact := rfl
      refine roundWithAccuracy_near hf hexact ?_ hq
      -- the product has at least as many bits as a factor that has them all
      obtain ⟨hmin, hlog⟩ := hx.mantissa
      obtain ⟨hmin', hlog'⟩ := hy.mantissa
      have hmul := log2_mul hp hp'
      have hle := minExponent_le f
      simp only [Format.targetExponent, totalExponent, Format.mantissaBits]
      omega

theorem approx_div (n : Nat) {d : Nat} (hd : 0 < d) : Approx (n/d) ((n:ℚ)/d) (accuracyOfFraction (n % d) d) := by
  have hdpos : (0:ℚ) < d := by exact_mod_cast hd
  have hlt : n % d < d := Nat.mod_lt n hd
  have hsplit : (n:ℚ)/d = (n/d : Nat)+((n % d : Nat):ℚ)/d := by
    rw [div_eq_iff hdpos.ne', add_mul, div_mul_cancel₀ _ hdpos.ne']
    exact_mod_cast (by rw [Nat.mul_comm]; exact (Nat.div_add_mod n d).symm)
  rw [hsplit, accuracyOfFraction]
  split
  · rename_i hz
    rw [hz]
    simp [Approx]
  · rename_i hz
    have hfrac : (0:ℚ) < (n % d : Nat)/d := div_pos (by exact_mod_cast Nat.pos_of_ne_zero hz) hdpos
    have hone : ((n % d : Nat):ℚ)/d < 1 := (div_lt_one hdpos).mpr (by exact_mod_cast hlt)
    obtain h | h | h := lt_trichotomy (2*(n % d)) d
    · rw [Nat.compare_eq_lt.mpr h]
      have : ((n % d : Nat):ℚ)/d < 1/2 := by
        rw [div_lt_div_iff₀ hdpos two_pos, one_mul, mul_comm]
        exact_mod_cast h
      constructor <;> linarith
    · rw [Nat.compare_eq_eq.mpr h]
      have : ((n % d : Nat):ℚ)/d = 1/2 := by
        rw [div_eq_div_iff hdpos.ne' two_ne_zero, one_mul, mul_comm]
        exact_mod_cast h
      rw [this]
      rfl
    · rw [Nat.compare_eq_gt.mpr h]
      have : 1/2 < ((n % d : Nat):ℚ)/d := by
        rw [div_lt_div_iff₀ two_pos hdpos, one_mul, mul_comm]
        exact_mod_cast h
      constructor <;> linarith

theorem div_finite_near {s s' : Sign} {m m' : Nat} {e e' : ℤ} {hp : 0 < m} {hp' : 0 < m'} (hf : 0 < f.exponentBias)
    (hq : |toRat (.finite s m e hp)/toRat (.finite s' m' e' hp')| < 2^(f.exponentBias:ℤ)) :
    Nearest f (toRat (.finite s m e hp)/toRat (.finite s' m' e' hp'))
      (UnpackedFloat.div f (.finite s m e hp) (.finite s' m' e' hp')) := by
  obtain ⟨t, ht⟩ : ∃ t, t = min (e-e') (f.targetExponent (totalExponent m e-totalExponent m' e')) := ⟨_, rfl⟩
  obtain ⟨k, hk⟩ : ∃ k : Nat, (k : ℤ) = e-e'-t := ⟨_, Int.toNat_of_nonneg (by omega)⟩
  have hkt : (e-e'-t).toNat = k := by omega
  have hdiv : UnpackedFloat.div f (.finite s m e hp) (.finite s' m' e' hp') =
      roundWithAccuracy f (s/s') ((m <<< k)/m') t (accuracyOfFraction ((m <<< k) % m') m') := by
    simp only [UnpackedFloat.div, divCore, ← ht, hkt]
  have hm' : (0:ℚ) < m' := by exact_mod_cast hp'
  have hval : ((m <<< k : Nat) : ℚ)/m'*2^t = m*2^e/(m'*2^e') := by
    have he : e = k+t+e' := by omega
    rw [he, zpow_add₀ two_ne_zero, zpow_add₀ two_ne_zero, zpow_natCast, Nat.shiftLeft_eq]
    push_cast
    field_simp
  have hquot : toRat (.finite s m e hp)/toRat (.finite s' m' e' hp') =
      signOf (s/s')*(((m <<< k : Nat) : ℚ)/m'*2^t) := by
    rw [hval, toRat, toRat, signOf_div, mul_div_mul_comm]
  rw [hquot] at hq ⊢
  rw [abs_mul, abs_signOf, one_mul, abs_of_nonneg (by positivity)] at hq
  rw [hdiv]
  refine roundWithAccuracy_near hf (approx_div (m <<< k) hp') ?_ hq
  by_cases hleast : t ≤ f.minExponent
  · exact hleast.trans (le_max_right _ _)
  · -- the dividend is shifted until the quotient has all its bits
    have hshift : m'.log2+1+f.mantissaBitsWithoutImplicit ≤ m.log2+k := by
      simp only [Format.targetExponent, totalExponent, Format.mantissaBits] at ht
      omega
    have hbits : 2^f.mantissaBitsWithoutImplicit ≤ (m <<< k)/m' := by
      rw [Nat.le_div_iff_mul_le hp', Nat.shiftLeft_eq]
      calc
        2^f.mantissaBitsWithoutImplicit*m' ≤ 2^f.mantissaBitsWithoutImplicit*2^(m'.log2+1) :=
          Nat.mul_le_mul_left _ Nat.lt_log2_self.le
        _ = 2^(m'.log2+1+f.mantissaBitsWithoutImplicit) := by rw [← pow_add, Nat.add_comm]
        _ ≤ 2^(m.log2+k) := Nat.pow_le_pow_right (by decide) hshift
        _ = 2^m.log2*2^k := pow_add _ _ _
        _ ≤ m*2^k := Nat.mul_le_mul_right _ (Nat.log2_self_le hp.ne')
    have hlog := (Nat.le_log2 (Nat.ne_of_gt ((Nat.two_pow_pos _).trans_le hbits))).mpr hbits
    simp only [Format.targetExponent, totalExponent, Format.mantissaBits]
    omega

theorem div_near {x y : UnpackedFloat} (hf : 0 < f.exponentBias) (hx : Canonical f x) (hy : Canonical f y)
    (hzero : toRat y ≠ 0) (hq : |toRat x/toRat y| < 2^(f.exponentBias:ℤ)) :
    Nearest f (toRat x/toRat y) (UnpackedFloat.div f x y) := by
  cases y with
  | infinity s' => exact hy.elim
  | notANumber => exact hy.elim
  | zero s' => exact absurd rfl hzero
  | finite s' m' e' hp' =>
    cases x with
    | infinity s => exact hx.elim
    | notANumber => exact hx.elim
    | zero s =>
      have hquot : toRat (.zero s)/toRat (.finite s' m' e' hp') = 0 := zero_div _
      rw [hquot]
      exact nearest_zero (s/s')
    | finite s m e hp => exact div_finite_near hf hq

/-! Comparisons and integers. -/

theorem canonical_lt {s s' : Sign} {m m' : Nat} {e e' : ℤ} {hp : 0 < m} {hp' : 0 < m'}
    (h : Canonical f (.finite s m e hp)) (h' : Canonical f (.finite s' m' e' hp')) (he : e < e') :
    (m:ℚ)*2^e < m'*2^e' := by
  obtain ⟨hmin, -, hlog⟩ := canonical_iff.mp h
  obtain ⟨-, -, hlog'⟩ := canonical_iff.mp h'
  calc
    (m:ℚ)*2^e < 2^(m.log2+1+e) := mantissa_lt m e
    _ ≤ 2^(m'.log2+e') := zpow_le_zpow_right₀ one_le_two (by omega)
    _ ≤ m'*2^e' := mantissa_le hp' e'

theorem compare_mantissas {s s' : Sign} {m m' : Nat} {e e' : ℤ} {hp : 0 < m} {hp' : 0 < m'}
    (h : Canonical f (.finite s m e hp)) (h' : Canonical f (.finite s' m' e' hp')) :
    (compare e e').then (compare m m') = .lt ↔ (m:ℚ)*2^e < m'*2^e' := by
  rw [Ordering.then_eq_lt, Int.compare_eq_lt, Int.compare_eq_eq, Nat.compare_eq_lt]
  obtain hlt | rfl | hgt := lt_trichotomy e e'
  · exact ⟨fun _ => canonical_lt h h' hlt, fun _ => .inl hlt⟩
  · have hpow : (0:ℚ) < 2^e := zpow_pos two_pos e
    rw [mul_lt_mul_iff_left₀ hpow, Nat.cast_lt]
    simp
  · have := canonical_lt h' h hgt
    constructor
    · intro hor
      omega
    · intro hlt
      linarith

theorem lt_iff {x y : UnpackedFloat} (hx : Canonical f x) (hy : Canonical f y) :
    UnpackedFloat.lt x y = true ↔ toRat x < toRat y := by
  cases x with
  | infinity s => exact hx.elim
  | notANumber => exact hx.elim
  | zero s =>
    cases y with
    | infinity s' => exact hy.elim
    | notANumber => exact hy.elim
    | zero s' => simp [UnpackedFloat.lt, UnpackedFloat.compare, toRat]
    | finite s' m' e' hp' =>
      have hpos : (0:ℚ) < m'*2^e' := mul_pos (by exact_mod_cast hp') (zpow_pos two_pos e')
      cases s' <;> simp [UnpackedFloat.lt, UnpackedFloat.compare, toRat, signOf, hpos, hpos.le]
  | finite s m e hp =>
    have hpos : (0:ℚ) < m*2^e := mul_pos (by exact_mod_cast hp) (zpow_pos two_pos e)
    cases y with
    | infinity s' => exact hy.elim
    | notANumber => exact hy.elim
    | zero s' => cases s <;> simp [UnpackedFloat.lt, UnpackedFloat.compare, toRat, signOf, hpos, hpos.le]
    | finite s' m' e' hp' =>
      have hpos' : (0:ℚ) < m'*2^e' := mul_pos (by exact_mod_cast hp') (zpow_pos two_pos e')
      cases s with
      | negative =>
        cases s' with
        | negative =>
          simp only [UnpackedFloat.lt, UnpackedFloat.compare, toRat, signOf, beq_iff_eq, Option.some.injEq, neg_mul, one_mul,
            neg_lt_neg_iff, Ordering.swap_then, Int.compare_swap, Nat.compare_swap, compare_mantissas hy hx]
        | positive =>
          have : -((m:ℚ)*2^e) < m'*2^e' := by linarith
          simp [UnpackedFloat.lt, UnpackedFloat.compare, toRat, signOf, this]
      | positive =>
        cases s' with
        | negative =>
          simp [UnpackedFloat.lt, UnpackedFloat.compare, toRat, signOf]
          linarith
        | positive =>
          simp only [UnpackedFloat.lt, UnpackedFloat.compare, toRat, signOf, beq_iff_eq, Option.some.injEq, one_mul,
            compare_mantissas hx hy]

theorem ofInt_near {n : ℤ} (hf : 0 < f.exponentBias) (hn : |n| < 2^f.exponentBias) :
    Nearest f n (UnpackedFloat.ofInt f n) := by
  have hq : |(n:ℚ)*2^(0:ℤ)| < 2^(f.exponentBias:ℤ) := by
    rw [zpow_zero, mul_one, zpow_natCast]
    exact_mod_cast hn
  have hnear := normalize_near .positive hf hq
  rwa [zpow_zero, mul_one] at hnear

theorem floor_mantissa (m : Nat) (e : ℤ) : ⌊(m:ℚ)*2^e⌋ = ((m <<< e.toNat/2^(-e).toNat : Nat) : ℤ) := by
  have hsplit : (m:ℚ)*2^e = ((m <<< e.toNat : Nat) : ℚ)/((2^(-e).toNat : Nat) : ℚ) := by
    have he : e = (e.toNat : ℤ)-((-e).toNat : ℤ) := by omega
    conv_lhs => rw [he]
    rw [zpow_sub₀ two_ne_zero, zpow_natCast, zpow_natCast, Nat.shiftLeft_eq]
    push_cast
    ring
  rw [hsplit]
  exact Rat.floor_natCast_div_natCast _ _

/-- What C makes of a float: the integral part. -/
theorem toInt_eq {x : UnpackedFloat} (hx : Canonical f x) (lo hi : ℤ) :
    UnpackedFloat.toInt lo hi x = if 0 ≤ toRat x then ⌊toRat x⌋ else ⌈toRat x⌉ := by
  cases x with
  | infinity s => exact hx.elim
  | notANumber => exact hx.elim
  | zero s => simp [UnpackedFloat.toInt, toRat]
  | finite s m e hp =>
    have hround : roundToInt s m e = s.apply ⌊(m:ℚ)*2^e⌋ := by
      have hk : (0-(e-e.toNat)).toNat = (-e).toNat := by omega
      rw [floor_mantissa]
      simp only [roundToInt, decreaseExponent, shiftToExponent, sub_zero, hk, mantissa_shiftRight]
      rfl
    have hpos : (0:ℚ) < m*2^e := mul_pos (by exact_mod_cast hp) (zpow_pos two_pos e)
    rw [UnpackedFloat.toInt, hround, toRat]
    cases s with
    | negative =>
      have hneg : ¬0 ≤ -((m:ℚ)*2^e) := by linarith
      simp only [signOf, neg_mul, one_mul, if_neg hneg, Int.ceil_neg, Sign.apply]
    | positive => simp only [signOf, one_mul, if_pos hpos.le, Sign.apply]

/-- To the nearest integer, halves away from zero. -/
def roundHalfAway : UnpackedFloat → ℤ
  | .finite s m e _ => s.apply (((2*m) <<< e.toNat/2^(-e).toNat+1)/2 : Nat)
  | _ => 0

theorem roundHalfAway_eq {x : UnpackedFloat} (hx : Canonical f x) {h : ℤ} (hh : toRat x = h/2) :
    roundHalfAway x = if 0 ≤ h then (h+1)/2 else -((-h+1)/2) := by
  cases x with
  | infinity s => exact hx.elim
  | notANumber => exact hx.elim
  | zero s =>
    have hzero : h = 0 := by
      have : (0:ℚ) = h/2 := hh
      have : (h:ℚ) = 0 := by linarith
      exact_mod_cast this
    rw [hzero]
    rfl
  | finite s m e hp =>
    have hpos : (0:ℚ) < m*2^e := mul_pos (by exact_mod_cast hp) (zpow_pos two_pos e)
    have hdouble : ((s.apply h : ℤ) : ℚ) = (2*m : Nat)*2^e := by
      have hval : signOf s*((m:ℚ)*2^e) = h/2 := hh
      have hone : signOf s*signOf s = 1 := by cases s <;> norm_num [signOf]
      rw [apply_cast]
      push_cast
      linear_combination (-2*signOf s)*hval+2*((m:ℚ)*2^e)*hone
    have hfloor : (((2*m) <<< e.toNat/2^(-e).toNat : Nat) : ℤ) = s.apply h := by
      rw [← floor_mantissa, ← hdouble, Int.floor_intCast]
    have hsign : 0 < s.apply h := by
      have : (0:ℚ) < (s.apply h : ℤ) := by
        rw [hdouble]
        push_cast
        linarith
      exact_mod_cast this
    rw [roundHalfAway]
    cases s with
    | negative =>
      simp only [Sign.apply] at hfloor hsign ⊢
      rw [if_neg (by omega)]
      omega
    | positive =>
      simp only [Sign.apply] at hfloor hsign ⊢
      rw [if_pos (by omega)]
      omega

end

end OrbFirmware.Rounding

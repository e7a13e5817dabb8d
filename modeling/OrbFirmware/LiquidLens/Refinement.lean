import OrbFirmware.LiquidLens.Controller

/-! The controller in `float` is the regulator in integers: no operation of the loop rounds, and the two divisions of the
measurement cannot move it by a milliampere. -/
namespace OrbFirmware.LiquidLens
open Machine SingleFloat

/-! Constants. -/

theorem denotes_positive {x : Float32} {m : Nat} {e : ℤ} {p : 0 < m} (h : x.toModel.unpack = .finite .positive m e p)
    (hm : m.log2 = 23) (he : -149 ≤ e ∧ e ≤ 104) : Denotes x (m*2^e) := by
  constructor
  · rw [h]
    exact Rounding.canonical_iff.mpr ⟨he.1, he.2, .inl hm⟩
  · rw [h, Rounding.toRat, Rounding.signOf, one_mul]

theorem denotes_controllerKi : Denotes controllerKi (1/2) := by
  have h := denotes_positive (x := controllerKi) (m := 2^23) (e := -24) (p := by decide) rfl (by decide) (by decide)
  convert h using 1
  norm_num

theorem denotes_controllerFeedForward : Denotes controllerFeedForward 1 := by
  have h := denotes_positive (x := controllerFeedForward) (m := 2^23) (e := -23) (p := by decide) rfl (by decide)
    (by decide)
  convert h using 1
  norm_num

theorem denotes_shuntResistanceOhms : Denotes shuntResistanceOhms (10066330/2^26) := by
  have h := denotes_positive (x := shuntResistanceOhms) (m := 10066330) (e := -26) (p := by decide) rfl (by decide)
    (by decide)
  convert h using 1
  norm_num

theorem amplifierGain_cases (version : OrbVersion) :
    version.amplifierGain.toInt = 20 ∨ version.amplifierGain.toInt = 10 := by
  cases version <;> decide

/-! Integers. -/

theorem toInt_sub_of_small {x y : Int32} (h : |x.toInt-y.toInt| < 2^31) : (x-y).toInt = x.toInt-y.toInt := by
  obtain ⟨hlow, hhigh⟩ := abs_lt.mp h
  rw [Int32.toInt_sub, Int.bmod_eq_of_le] <;> omega

theorem toInt_add_of_small {x y : Int32} (h : |x.toInt+y.toInt| < 2^31) : (x+y).toInt = x.toInt+y.toInt := by
  obtain ⟨hlow, hhigh⟩ := abs_lt.mp h
  rw [Int32.toInt_add, Int.bmod_eq_of_le] <;> omega

theorem toInt_toInt32 {x : UInt32} (h : x.toNat < 2^31) : x.toInt32.toInt = x.toNat := by
  have hcast : x.toInt32.toInt = x.toBitVec.toInt := rfl
  rw [hcast, BitVec.toInt_eq_toNat_of_lt (by rw [UInt32.toNat_toBitVec]; omega), UInt32.toNat_toBitVec]

theorem toNat_toUInt32 {x : Int32} (h : 0 ≤ x.toInt) : (x.toUInt32.toNat : ℤ) = x.toInt := by
  rw [Int32.toNat_toUInt32_of_le (Int32.le_iff_toInt_le.mpr h), Int32.toNatClampNeg]
  omega

theorem clamp_toInt (val : Int32) {low high : Int32} (h : low.toInt ≤ high.toInt) :
    (clamp val low high).toInt = max low.toInt (min high.toInt val.toInt) := by
  rw [clamp]
  split
  · rename_i hle
    rw [Int32.le_iff_toInt_le] at hle
    omega
  · rename_i hle
    rw [Int32.le_iff_toInt_le] at hle
    split
    · rename_i hlt
      rw [Int32.lt_iff_toInt_lt] at hlt
      omega
    · rename_i hlt
      rw [Int32.lt_iff_toInt_lt] at hlt
      omega

theorem limit_abs {bound : ℤ} (h : 0 ≤ bound) (n : ℤ) : |limit bound n| ≤ bound := by
  rw [limit, abs_le]
  omega

theorem limit_of_abs {bound n : ℤ} (h : |n| ≤ bound) : limit bound n = n := by
  rw [abs_le] at h
  rw [limit]
  omega

theorem toMillivolts_toInt (raw vrefMv : UInt16) :
    (toMillivolts raw vrefMv).toInt = (raw.toNat*vrefMv.toNat/4096 : Nat) ∧ raw.toNat*vrefMv.toNat/4096 < 2^20 := by
  have hprod : raw.toNat*vrefMv.toNat < 2^16*2^16 := Nat.mul_lt_mul'' raw.toNat_lt vrefMv.toNat_lt
  have hnat : (raw.toUInt64*vrefMv.toUInt64/4096).toUInt32.toNat = raw.toNat*vrefMv.toNat/4096 := by
    rw [UInt64.toNat_toUInt32, UInt64.toNat_div, UInt64.toNat_mul, UInt16.toNat_toUInt64, UInt16.toNat_toUInt64]
    have h4096 : (4096 : UInt64).toNat = 4096 := rfl
    rw [h4096]
    omega
  refine ⟨?_, by omega⟩
  rw [toMillivolts, toInt_toInt32 (by omega), hnat]

/-! The measurement. -/

section
variable (b : Board) (buffer : AdcSamples)

theorem shuntVoltageMv_toInt :
    (shuntVoltageMv b buffer).toInt =
        (buffer.ina240Ref.toNat*(b.getVrefMvFromRaw buffer.vrefint).toNat/4096 : Nat)-
          (buffer.ina240Sig.toNat*(b.getVrefMvFromRaw buffer.vrefint).toNat/4096 : Nat) ∧
      |(shuntVoltageMv b buffer).toInt| < 2^20 := by
  obtain ⟨hsig, hsig'⟩ := toMillivolts_toInt buffer.ina240Sig (b.getVrefMvFromRaw buffer.vrefint)
  obtain ⟨href, href'⟩ := toMillivolts_toInt buffer.ina240Ref (b.getVrefMvFromRaw buffer.vrefint)
  have hsub : (shuntVoltageMv b buffer).toInt = _ := toInt_sub_of_small (by rw [hsig, href, abs_lt]; omega)
  rw [hsub, hsig, href, abs_lt]
  omega

/-- Two roundings and the rounded resistance leave the quotient within two parts in ten million. -/
theorem denotes_quotient {shunt gain : ℤ} (hs : shunt ≠ 0) (hs' : |shunt| < 2^20) (hg : gain = 20 ∨ gain = 10)
    {x g : Float32} (hx : Denotes x shunt) (hgain : Denotes g gain) :
    ∃ q, Denotes (x/g/shuntResistanceOhms) q ∧ |q| < 2^31 ∧
      |q-shunt/gain*(20/3)| ≤ |(shunt/gain : ℚ)| * (20/3)/5000000 := by
  have hlow : (1:ℚ) ≤ |(shunt:ℚ)| := by exact_mod_cast Int.one_le_abs hs
  have hhigh : |(shunt:ℚ)| < 2^20 := by exact_mod_cast hs'
  have hgpos : (10:ℚ) ≤ gain ∧ (gain:ℚ) ≤ 20 := by
    obtain rfl | rfl := hg <;> norm_num
  obtain ⟨y, hy⟩ : ∃ y : ℚ, y = shunt/gain := ⟨_, rfl⟩
  have habs : |y| = |(shunt:ℚ)|/gain := by rw [hy, abs_div, abs_of_pos (by linarith : (0:ℚ) < gain)]
  have hylow : 1/20 ≤ |y| := by
    rw [habs, div_le_div_iff₀ (by norm_num) (by linarith)]
    linarith
  have hyhigh : |y| < 2^20 := by
    rw [habs, div_lt_iff₀ (by linarith)]
    nlinarith
  have hmin : (2:ℚ)^(-126:ℤ) ≤ 1/100 := by norm_num
  have hmax : (2:ℚ)^30 ≤ 2^(127:ℤ) := by norm_num
  obtain ⟨p, hp, hperr⟩ := hx.div_error hgain (by linarith : (gain:ℚ) ≠ 0) (by
    rw [← hy]
    exact hmin.trans (by linarith)) (by
    rw [← hy]
    norm_num at hyhigh hmax ⊢
    linarith)
  rw [← hy] at hperr ⊢
  obtain ⟨c, hc⟩ : ∃ c : ℚ, c = 2^26/10066330 := ⟨_, rfl⟩
  have hpc : p/(10066330/2^26) = p*c := by rw [hc]; field_simp
  have hcpos : 0 < c := by rw [hc]; norm_num
  obtain ⟨hplow, hphigh⟩ : |y|-|y|/2^24 ≤ |p| ∧ |p| ≤ |y|+|y|/2^24 := by
    have h1 := abs_sub_abs_le_abs_sub y p
    have h2 := abs_sub_abs_le_abs_sub p y
    rw [abs_sub_comm] at h1
    constructor <;> linarith
  obtain ⟨q, hq, hqerr⟩ := hp.div_error denotes_shuntResistanceOhms (by norm_num) (by
    rw [hpc, abs_mul, abs_of_pos hcpos, hc]
    exact hmin.trans (by linarith)) (by
    rw [hpc, abs_mul, abs_of_pos hcpos, hc]
    norm_num at hyhigh hmax hphigh ⊢
    linarith)
  rw [hpc, abs_mul, abs_of_pos hcpos] at hqerr
  -- the error of the second division, of the first, and of the resistance
  have hfirst : |p*c-y*c| ≤ |y|/2^24*c := by
    rw [← sub_mul, abs_mul, abs_of_pos hcpos]
    exact mul_le_mul_of_nonneg_right hperr hcpos.le
  have hohms : |y*c-y*(20/3)| ≤ |y| * (3/10000000) := by
    rw [← mul_sub, abs_mul]
    exact mul_le_mul_of_nonneg_left (by rw [hc, abs_le]; norm_num) (abs_nonneg y)
  have herr : |q-y*(20/3)| ≤ |y| * (20/3)/5000000 := by calc
    |q-y*(20/3)| ≤ |q-p*c|+|p*c-y*(20/3)| := abs_sub_le _ _ _
    _ ≤ |q-p*c|+(|p*c-y*c|+|y*c-y*(20/3)|) := by linarith [abs_sub_le (p*c) (y*c) (y*(20/3))]
    _ ≤ |p| * c/2^24+(|y|/2^24*c+|y| * (3/10000000)) := by linarith
    _ ≤ |y| * (20/3)/5000000 := by
      rw [hc]
      linarith
  refine ⟨q, hq, ?_, herr⟩
  have hval : |y*(20/3)| = |y| * (20/3) := by rw [abs_mul, abs_of_pos (by norm_num : (0:ℚ) < 20/3)]
  have hsum := abs_sub_abs_le_abs_sub q (y*(20/3))
  norm_num at hyhigh ⊢
  linarith

theorem floor_measures {shunt gain : ℤ} (hs : 0 < shunt) (hs' : shunt < 2^20) (hg : gain = 20 ∨ gain = 10) {q : ℚ}
    (hq : |q-shunt/gain*(20/3)| ≤ |(shunt/gain : ℚ)| * (20/3)/5000000) :
    0 ≤ q ∧ 0 ≤ ⌊q⌋ ∧ gain*15*⌊q⌋ ≤ 100*shunt ∧ 100*shunt ≤ gain*15*(⌊q⌋+1) := by
  have hlow := Int.floor_le q
  have hhigh := Int.lt_floor_add_one q
  have hpos : (0:ℚ) < shunt := by exact_mod_cast hs
  have hmax : (shunt:ℚ) < 2^20 := by exact_mod_cast hs'
  rw [abs_le] at hq
  obtain rfl | rfl := hg
  · push_cast at hq
    rw [abs_of_pos (by linarith)] at hq
    have hq0 : 0 ≤ q := by linarith
    have h1 : (3*⌊q⌋ : ℚ) < shunt+1 := by linarith
    have h2 : (shunt : ℚ) < 3*(⌊q⌋+1)+1 := by linarith
    have h1' : 3*⌊q⌋ < shunt+1 := by exact_mod_cast h1
    have h2' : shunt < 3*(⌊q⌋+1)+1 := by exact_mod_cast h2
    exact ⟨hq0, Int.floor_nonneg.mpr hq0, by omega, by omega⟩
  · push_cast at hq
    rw [abs_of_pos (by linarith)] at hq
    have hq0 : 0 ≤ q := by linarith
    have h1 : (3*⌊q⌋ : ℚ) < 2*shunt+1 := by linarith
    have h2 : (2*shunt : ℚ) < 3*(⌊q⌋+1)+1 := by linarith
    have h1' : 3*⌊q⌋ < 2*shunt+1 := by exact_mod_cast h1
    have h2' : 2*shunt < 3*(⌊q⌋+1)+1 := by exact_mod_cast h2
    exact ⟨hq0, Int.floor_nonneg.mpr hq0, by omega, by omega⟩

theorem lensCurrentMa_measures :
    Measures b buffer (lensCurrentMa b buffer).toInt ∧ |(lensCurrentMa b buffer).toInt| < 2^20 := by
  obtain ⟨hshunt, hsmall⟩ := shuntVoltageMv_toInt b buffer
  obtain ⟨s, hs⟩ : ∃ s, s = (shuntVoltageMv b buffer).toInt := ⟨_, rfl⟩
  have hx : Denotes (ofInt32 (shuntVoltageMv b buffer)) s := by
    rw [hs]
    exact denotes_ofInt32 (hsmall.trans (by norm_num))
  rw [← hs] at hshunt hsmall
  obtain ⟨hlow, hhigh⟩ := abs_lt.mp hsmall
  have hg := amplifierGain_cases b.version
  have hgain : Denotes b.currentAmplifierGain b.version.amplifierGain.toInt :=
    denotes_ofInt32 (by obtain h | h := hg <;> rw [h] <;> norm_num)
  have hg0 : (b.version.amplifierGain.toInt : ℚ) ≠ 0 := by obtain h | h := hg <;> rw [h] <;> norm_num
  simp only [Measures, ← hshunt]
  suffices h : ∃ c, (lensCurrentMa b buffer).toInt = c ∧ 0 ≤ c*s ∧ b.version.amplifierGain.toInt*15*|c| ≤ 100*|s| ∧
      100*|s| ≤ b.version.amplifierGain.toInt*15*(|c|+1) by
    obtain ⟨c, hc, hsign, hle, hge⟩ := h
    rw [hc]
    refine ⟨⟨hsign, hle, hge⟩, ?_⟩
    have hs' : |s| < 2^20 := hsmall
    obtain h | h := hg <;> rw [h] at hle <;> omega
  have htrunc : ∀ q, Denotes (ofInt32 (shuntVoltageMv b buffer)/b.currentAmplifierGain/shuntResistanceOhms) q →
      |q| < 2^31 → (lensCurrentMa b buffer).toInt = if 0 ≤ q then ⌊q⌋ else ⌈q⌉ :=
    fun q hq hlt => toInt32_toInt hq hlt
  obtain hneg | hzero | hpos := lt_trichotomy s 0
  · obtain ⟨q, hq, hqmax, hqerr⟩ := denotes_quotient hneg.ne hsmall hg hx hgain
    have hmirror := floor_measures (q := -q) (show 0 < -s by omega) (by omega) hg (by
      have heq : -q-((-s : ℤ):ℚ)/b.version.amplifierGain.toInt*(20/3) =
          -(q-s/b.version.amplifierGain.toInt*(20/3)) := by
        push_cast
        ring
      rw [heq, abs_neg]
      push_cast
      rwa [neg_div, abs_neg])
    rw [Int.floor_neg] at hmirror
    obtain ⟨hq0, hceil, hle, hge⟩ := hmirror
    have hceil' : ⌈q⌉ ≤ 0 := by omega
    have hint : (if 0 ≤ q then ⌊q⌋ else ⌈q⌉) = ⌈q⌉ := by
      split
      · have hzero : q = 0 := by linarith
        rw [hzero]
        simp
      · rfl
    refine ⟨⌈q⌉, by rw [htrunc q hq hqmax, hint], mul_nonneg_of_nonpos_of_nonpos hceil' hneg.le, ?_, ?_⟩
    · rwa [abs_of_nonpos hceil', abs_of_neg hneg]
    · rwa [abs_of_nonpos hceil', abs_of_neg hneg]
  · have hzero' : Denotes (ofInt32 (shuntVoltageMv b buffer)/b.currentAmplifierGain/shuntResistanceOhms) 0 := by
      have hx0 := hx.div hgain hg0 (by rw [hzero, Int.cast_zero, zero_div]; exact single_int (n := 0) (by norm_num))
      rw [hzero, Int.cast_zero, zero_div] at hx0
      have h := hx0.div denotes_shuntResistanceOhms (by norm_num) (by
        rw [zero_div]
        exact single_int (n := 0) (by norm_num))
      rwa [zero_div] at h
    refine ⟨0, ?_, by simp, by simp, ?_⟩
    · rw [htrunc 0 hzero' (by norm_num)]
      simp
    · rw [hzero]
      obtain h | h := hg <;> rw [h] <;> norm_num
  · obtain ⟨q, hq, hqmax, hqerr⟩ := denotes_quotient hpos.ne' hsmall hg hx hgain
    obtain ⟨hq0, hfloor, hle, hge⟩ := floor_measures hpos hhigh hg hqerr
    refine ⟨⌊q⌋, ?_, mul_nonneg hfloor hpos.le, ?_, ?_⟩
    · rw [htrunc q hq hqmax, if_pos hq0]
    · rwa [abs_of_nonneg hfloor, abs_of_pos hpos]
    · rwa [abs_of_nonneg hfloor, abs_of_pos hpos]

end

/-! The loop. -/

theorem denotes_zero : Denotes (ofInt32 0) ((0 : ℤ)/2) := by
  have h := denotes_ofInt32 (n := 0) (by decide)
  have hval : (0 : Int32).toInt = 0 := rfl
  rw [hval] at h
  convert h using 1
  norm_num

theorem denotes_integrate (error : Int32) {integral : Float32} {n : ℤ} (he : |error.toInt| ≤ 2^21)
    (hi : Denotes integral (n/2)) (hn : |n| ≤ 1998) :
    Denotes (integrate error integral) ((limit 1998 (n+error.toInt) : ℤ)/2) := by
  rw [abs_le] at he hn
  have hprod : Denotes (ofInt32 error*controllerKi) (error.toInt/2) := by
    have hmul := (denotes_ofInt32 (n := error) (by rw [abs_lt]; omega)).mul denotes_controllerKi (by
      rw [mul_one_div]
      exact single_half (by rw [abs_lt]; omega))
    rwa [mul_one_div] at hmul
  have hsum : Denotes (integral+ofInt32 error*controllerKi) ((n+error.toInt : ℤ)/2) := by
    have hval : (n:ℚ)/2+error.toInt/2 = ((n+error.toInt : ℤ) : ℚ)/2 := by
      push_cast
      ring
    rw [← hval]
    refine hi.add hprod ?_
    rw [hval]
    exact single_half (by rw [abs_lt]; omega)
  have hlow : Denotes (ofInt32 (-999)) ((-1998 : ℤ)/2) := by
    have h := denotes_ofInt32 (n := -999) (by decide)
    have hval : (-999 : Int32).toInt = -999 := rfl
    rw [hval] at h
    convert h using 1
    norm_num
  have hhigh : Denotes (ofInt32 999) ((1998 : ℤ)/2) := by
    have h := denotes_ofInt32 (n := 999) (by decide)
    have hval : (999 : Int32).toInt = 999 := rfl
    rw [hval] at h
    convert h using 1
    norm_num
  have hcast : ∀ i j : ℤ, (i:ℚ)/2 < j/2 ↔ i < j := fun i j => by
    rw [div_lt_div_iff_of_pos_right two_pos, Int.cast_lt]
  rw [integrate, limit]
  split
  · rename_i hlt
    rw [hsum.lt hlow, hcast] at hlt
    have hmax : max (-1998) (min 1998 (n+error.toInt)) = -1998 := by omega
    rwa [hmax]
  · rename_i hlt
    rw [hsum.lt hlow, hcast] at hlt
    split
    · rename_i hlt'
      rw [hhigh.lt hsum, hcast] at hlt'
      have hmax : max (-1998) (min 1998 (n+error.toInt)) = 1998 := by omega
      rwa [hmax]
    · rename_i hlt'
      rw [hhigh.lt hsum, hcast] at hlt'
      have hmax : max (-1998) (min 1998 (n+error.toInt)) = n+error.toInt := by omega
      rwa [hmax]

theorem pwmOutput_toInt (target : Int32) {integral : Float32} {n : ℤ} (ht : |target.toInt| ≤ 400)
    (hi : Denotes integral (n/2)) (hn : |n| ≤ 1998) :
    (pwmOutput target integral).toInt = limit 999 (halve (2*target.toInt+n)) := by
  rw [abs_le] at ht hn
  have hforward : Denotes (controllerFeedForward*ofInt32 target) target.toInt := by
    have hsingle := single_int (n := target.toInt) (by rw [abs_lt]; omega)
    have hmul := denotes_controllerFeedForward.mul (denotes_ofInt32 (n := target) (by rw [abs_lt]; omega)) (by rwa [one_mul])
    rwa [one_mul] at hmul
  have hsum : Denotes (controllerFeedForward*ofInt32 target+integral) ((2*target.toInt+n : ℤ)/2) := by
    have hval : (target.toInt:ℚ)+n/2 = ((2*target.toInt+n : ℤ) : ℚ)/2 := by
      push_cast
      ring
    rw [← hval]
    refine hforward.add hi ?_
    rw [hval]
    exact single_half (by rw [abs_lt]; omega)
  have hround := lroundf_toInt hsum (by rw [abs_lt]; omega)
  have hlow : (-999 : Int32).toInt = -999 := rfl
  have hhigh : (999 : Int32).toInt = 999 := rfl
  have hclamp := clamp_toInt (lroundf (controllerFeedForward*ofInt32 target+integral))
    (by decide : (-999 : Int32).toInt ≤ (999 : Int32).toInt)
  rw [hround, hlow, hhigh] at hclamp
  have hlimit : (clamp (lroundf (controllerFeedForward*ofInt32 target+integral)) (-999) 999).toInt =
      limit 999 (halve (2*target.toInt+n)) := hclamp
  have hrange := abs_le.mp (limit_abs (by decide : (0:ℤ) ≤ 999) (halve (2*target.toInt+n)))
  rw [pwmOutput, Int32.toInt_toInt16, hlimit, Int.bmod_eq_of_le] <;> omega

/-- What the two compare registers hold for a duty. -/
structure Bridges (s : Lens) (out : ℤ) : Prop where
  pos : (s.posCompare2.toNat : ℤ) = 6528+(6528*out).tdiv 1000
  neg : (s.negCompare2.toNat : ℤ) = 6528-(6528*out).tdiv 1000

theorem liquidLensSetPwm_bridges {perMille : Int16} (h : |perMille.toInt| ≤ 999) (s : Lens) :
    Bridges (liquidLensSetPwm perMille s) perMille.toInt := by
  have hlimits : (-999 : Int32).toInt = -999 ∧ (999 : Int32).toInt = 999 ∧ timPeriodHalf.toInt = 6528 ∧
      (1000 : Int32).toInt = 1000 := ⟨rfl, rfl, rfl, rfl⟩
  have hclamp := clamp_toInt perMille.toInt32 (by decide : (-999 : Int32).toInt ≤ (999 : Int32).toInt)
  rw [abs_le] at h
  have hsame : (clamp perMille.toInt32 (-999) 999).toInt = perMille.toInt := by
    rw [hclamp, Int16.toInt_toInt32]
    omega
  have hprod : (timPeriodHalf*clamp perMille.toInt32 (-999) 999/1000).toInt = (6528*perMille.toInt).tdiv 1000 := by
    rw [Int32.toInt_div_of_ne_right _ _ (by decide), Int32.toInt_mul, hsame, hlimits.2.2.1, hlimits.2.2.2,
      Int.bmod_eq_of_le] <;> omega
  have hrange : -6528 < (6528*perMille.toInt).tdiv 1000 ∧ (6528*perMille.toInt).tdiv 1000 < 6528 := by
    obtain hpos | hneg := le_total 0 (6528*perMille.toInt)
    · rw [Int.tdiv_eq_ediv_of_nonneg hpos]
      omega
    · rw [← neg_neg (6528*perMille.toInt), Int.neg_tdiv, Int.tdiv_eq_ediv_of_nonneg (by omega)]
      omega
  have hadd : (timPeriodHalf+timPeriodHalf*clamp perMille.toInt32 (-999) 999/1000).toInt =
      6528+(6528*perMille.toInt).tdiv 1000 := by
    rw [toInt_add_of_small, hprod, hlimits.2.2.1]
    rw [hprod, hlimits.2.2.1, abs_lt]
    omega
  have hsub : (timPeriodHalf-timPeriodHalf*clamp perMille.toInt32 (-999) 999/1000).toInt =
      6528-(6528*perMille.toInt).tdiv 1000 := by
    rw [toInt_sub_of_small, hprod, hlimits.2.2.1]
    rw [hprod, hlimits.2.2.1, abs_lt]
    omega
  constructor
  · rw [← hadd]
    exact toNat_toUInt32 (by rw [hadd]; omega)
  · rw [← hsub]
    exact toNat_toUInt32 (by rw [hsub]; omega)

/-! Runs. -/

/-- `self_test` was called by `liquid_lens_disable`, or this is past it. -/
def LensPc.disables : LensPc → Bool
  | .atZero disable => disable
  | .setsFifty disable _ => disable
  | .atFifty disable _ => disable
  | .stable disable _ => disable
  | .disabling => true
  | _ => false

/-- The code's state and the regulator's. -/
structure Obeys (s : Lens) (t : Regulator) : Prop where
  target : s.targetCurrentMa.toInt = t.target
  integral : Denotes s.pwmOutputIntegralPerMille (t.integral/2)
  out : s.lastPwmOutputPerMille.toInt = t.out
  running : s.liquidLensEnabled = t.running
  bridges : Bridges s t.out
  target_le : |t.target| ≤ 400
  integral_le : |t.integral| ≤ 1998
  out_le : |t.out| ≤ 999
  /-- A lens that regulates is driven. -/
  driven : t.running = true → s.timing = true ∧ s.enablePin = true
  enabling : s.pc = .enabling → t.running = false ∧ s.timing = true
  disables : s.pc.disables = true → t.running = true

/-- A step is one the regulator allows, and leaves the states in step. -/
def Follows (b : Board) (t : Regulator) (a : LensAction) (r : LensEvent × Lens) : Prop :=
  (regulator b).allows t a r.1 ∧ Obeys r.2 ((regulator b).next t a r.1)

theorem target_toInt (n : Int32) : |(clamp n (-400) 400).toInt| ≤ 400 := by
  have hlow : (-400 : Int32).toInt = -400 := rfl
  have hhigh : (400 : Int32).toInt = 400 := rfl
  rw [clamp_toInt n (by decide), hlow, hhigh, abs_le]
  omega

theorem Obeys.quiet {b : Board} {s : Lens} {t : Regulator} {a : LensAction} (h : Obeys s t)
    (ha : ∀ buffer, a ≠ .sample buffer) : Follows b t a (.quiet, s) :=
  ⟨fun buffer heq => absurd heq (ha buffer), h⟩

theorem Obeys.retarget {b : Board} {s : Lens} {t : Regulator} {a : LensAction} (h : Obeys s t) (n : Int32) :
    Follows b t a (liquidSetTargetCurrentMa n s) :=
  ⟨target_toInt n,
    { h with
      target := rfl
      bridges := ⟨h.bridges.pos, h.bridges.neg⟩
      target_le := target_toInt n }⟩

/-- A step of the thread that only moves on. -/
theorem Obeys.goto {s : Lens} {t : Regulator} (h : Obeys s t) (passed : Bool) (pc : LensPc)
    (henabling : pc ≠ .enabling) (hdisables : pc.disables = true → t.running = true) :
    Obeys { s with selfTestPassed := passed, pc := pc } t :=
  { h with
    bridges := ⟨h.bridges.pos, h.bridges.neg⟩
    enabling := fun hpc => absurd hpc henabling
    disables := hdisables }

theorem Obeys.sample {b : Board} {s : Lens} {t : Regulator} (h : Obeys s t) (buffer : AdcSamples) :
    Follows b t (.sample buffer) (adcCallback b buffer s) := by
  rw [adcCallback]
  split
  · rename_i hon
    obtain ⟨hmeasures, hcurrent⟩ := lensCurrentMa_measures b buffer
    obtain ⟨hc, hc'⟩ := abs_lt.mp hcurrent
    obtain ⟨ht, ht'⟩ := abs_le.mp h.target_le
    have hrunning : t.running = true := h.running ▸ hon
    have herr : (s.targetCurrentMa-lensCurrentMa b buffer).toInt = t.target-(lensCurrentMa b buffer).toInt := by
      rw [toInt_sub_of_small, h.target]
      rw [h.target, abs_lt]
      omega
    have hint := denotes_integrate (s.targetCurrentMa-lensCurrentMa b buffer)
      (by rw [herr, abs_le]; omega) h.integral h.integral_le
    have hlimit := limit_abs (by decide : (0:ℤ) ≤ 1998) (t.integral+(t.target-(lensCurrentMa b buffer).toInt))
    rw [herr] at hint
    have hduty := pwmOutput_toInt s.targetCurrentMa (by rw [h.target]; exact h.target_le) hint hlimit
    rw [h.target] at hduty
    have hduty_le : |(pwmOutput s.targetCurrentMa
        (integrate (s.targetCurrentMa-lensCurrentMa b buffer) s.pwmOutputIntegralPerMille)).toInt| ≤ 999 := by
      rw [hduty]
      exact limit_abs (by decide) _
    refine ⟨⟨hrunning, hduty, buffer, rfl, hmeasures⟩, ?_⟩
    have hbridges := liquidLensSetPwm_bridges hduty_le s
    exact {
      target := h.target
      integral := hint
      out := hduty
      running := h.running
      bridges := by
        rw [hduty] at hbridges
        exact ⟨hbridges.pos, hbridges.neg⟩
      target_le := h.target_le
      integral_le := hlimit
      out_le := by
        rw [hduty] at hduty_le
        exact hduty_le
      driven := h.driven
      enabling := h.enabling
      disables := h.disables }
  · rename_i hoff
    exact ⟨fun _ _ => h.running ▸ Bool.eq_false_iff.mpr hoff, h⟩

theorem Obeys.enable {b : Board} {s : Lens} {t : Regulator} (h : Obeys s t) :
    Follows b t .enable (liquidLensEnable s) := by
  rw [liquidLensEnable]
  split
  · exact h.quiet (by simp)
  · rename_i hoff
    have hrunning : t.running = false := h.running ▸ Bool.eq_false_iff.mpr hoff
    exact ⟨hrunning, { h with
      integral := denotes_zero
      bridges := ⟨h.bridges.pos, h.bridges.neg⟩
      integral_le := (by decide : |(0:ℤ)| ≤ 1998)
      driven := fun hon => absurd (hrunning.symm.trans hon) Bool.false_ne_true
      enabling := fun _ => ⟨hrunning, rfl⟩
      disables := fun hpc => absurd hpc Bool.false_ne_true }⟩

/-- The self-test returns to `liquid_lens_disable` or to `liquid_lens_init`. -/
theorem Obeys.selfTestEnds {b : Board} {s : Lens} {t : Regulator} (h : Obeys s t) {disable : Bool}
    (hpc : disable = true → t.running = true) (passed : Bool) : Follows b t .advance (selfTestEnds disable passed s) := by
  have hgoto : Obeys (LiquidLens.selfTestEnds disable passed s).2 t := by
    cases disable with
    | false => exact h.goto passed _ (by simp) fun hpc => absurd hpc Bool.false_ne_true
    | true => exact h.goto passed _ (by simp) fun _ => hpc rfl
  exact hgoto.quiet (by simp)

theorem Obeys.advance {b : Board} {s : Lens} {t : Regulator} (h : Obeys s t) :
    Follows b t .advance (advance s) := by
  have hpc := h.disables
  rw [LiquidLens.advance]
  cases hs : s.pc with
  | idle => exact h.quiet (by simp)
  | enabling => exact h.quiet (by simp)
  | disabling => exact h.quiet (by simp)
  | atZero disable =>
    rw [hs] at hpc
    have hgoto := h.goto s.selfTestPassed (.setsFifty disable s.lastPwmOutputPerMille) (by simp) hpc
    exact hgoto.quiet (by simp)
  | setsFifty disable prevPwm =>
    rw [hs] at hpc
    have hgoto := h.goto s.selfTestPassed (.atFifty disable prevPwm) (by simp) hpc
    exact hgoto.retarget 50
  | atFifty disable prevPwm =>
    rw [hs] at hpc
    simp only
    split
    · exact h.selfTestEnds hpc false
    · have hgoto := h.goto s.selfTestPassed (.stable disable s.lastPwmOutputPerMille) (by simp) hpc
      exact hgoto.quiet (by simp)
  | stable disable prevPwm =>
    rw [hs] at hpc
    exact h.selfTestEnds hpc _

theorem Obeys.gpio {b : Board} {s : Lens} {t : Regulator} (h : Obeys s t) (ret : Int32) :
    Follows b t (.gpio ret) (gpioSet ret s) := by
  have hpc := h.disables
  have hidle := h.goto s.selfTestPassed (.idle) (by simp) fun hpc => absurd hpc Bool.false_ne_true
  rw [gpioSet]
  cases hs : s.pc with
  | idle => exact h.quiet (by simp)
  | atZero disable => exact h.quiet (by simp)
  | setsFifty disable prevPwm => exact h.quiet (by simp)
  | atFifty disable prevPwm => exact h.quiet (by simp)
  | stable disable prevPwm => exact h.quiet (by simp)
  | enabling =>
    obtain ⟨hoff, htiming⟩ := h.enabling hs
    simp only
    split
    · exact ⟨hoff, { hidle with
        running := rfl
        bridges := ⟨h.bridges.pos, h.bridges.neg⟩
        driven := fun _ => ⟨htiming, rfl⟩
        enabling := by simp
        disables := fun hpc' => absurd hpc' Bool.false_ne_true }⟩
    · exact hidle.quiet (by simp)
  | disabling =>
    have hon := hpc (by rw [hs]; rfl)
    simp only
    split
    · exact ⟨hon, { hidle with
        running := rfl
        bridges := ⟨h.bridges.pos, h.bridges.neg⟩
        driven := fun hon' => absurd hon' Bool.false_ne_true
        enabling := by simp
        disables := fun hpc' => absurd hpc' Bool.false_ne_true }⟩
    · exact hidle.quiet (by simp)

theorem Obeys.step (b : Board) {s : Lens} {t : Regulator} (a : LensAction) (h : Obeys s t) :
    Follows b t a (lensStep b s a) := by
  cases a with
  | setTarget n => exact h.retarget n
  | sample buffer => exact h.sample buffer
  | enable =>
    rw [lensStep]
    split
    · exact h.enable
    · exact h.quiet (by simp)
  | disable =>
    rw [lensStep]
    split
    · rw [liquidLensDisable]
      split
      · rename_i hon
        have hrunning : t.running = true := h.running ▸ hon
        exact (h.goto s.selfTestPassed (.atZero true) (by simp) fun _ => hrunning).retarget 0
      · exact h.quiet (by simp)
    · exact h.quiet (by simp)
  | selfTest =>
    rw [lensStep]
    split
    · exact (h.goto s.selfTestPassed (.atZero false) (by simp) fun hpc => absurd hpc Bool.false_ne_true).retarget 0
    · exact h.quiet (by simp)
  | advance => exact h.advance
  | gpio ret => exact h.gpio ret

def regulatorInit : Regulator := ⟨0, 0, 0, false⟩

theorem obeys_init : Obeys lensInit regulatorInit where
  target := rfl
  integral := denotes_zero
  out := rfl
  running := rfl
  bridges := liquidLensSetPwm_bridges (by decide : |(0 : Int16).toInt| ≤ 999) _
  target_le := by decide
  integral_le := by decide
  out_le := by decide
  driven := by simp [regulatorInit]
  enabling := fun hpc => absurd hpc (by decide)
  disables := fun hpc => absurd hpc (by decide)

/-- In any interleaving of the ADC's interrupt, of targets set and of the calls that start and stop the lens, the loop in
`float` is the integer regulator, and the two bridges are driven in opposition. -/
theorem lens_regulates (b : Board) (actions : List LensAction) :
    ∃ t, (regulator b).Run regulatorInit actions (run (lensStep b) lensInit actions).1 t ∧
      Obeys (run (lensStep b) lensInit actions).2 t :=
  run_simulates (fun _ _ a _ h => h.step b a) lensInit regulatorInit actions (fun _ _ => trivial) obeys_init

end OrbFirmware.LiquidLens

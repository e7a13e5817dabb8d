import Mathlib

/-! Doubles against integers: what a comparison with a converted integer says about the integral
part of a double. -/
namespace OrbFirmware.Binary64
open Float.Model Float.Model.UnpackedFloat

theorem log2_shiftLeft {m k : Nat} (hm : m ≠ 0) : (m <<< k).log2 = m.log2+k := by
  have hpos := Nat.two_pow_pos k
  rw [Nat.shiftLeft_eq, Nat.log2_eq_iff (Nat.mul_ne_zero hm hpos.ne')]
  constructor
  · rw [Nat.pow_add]
    exact Nat.mul_le_mul_right _ (Nat.log2_self_le hm)
  · rw [Nat.add_right_comm, Nat.pow_add]
    exact Nat.mul_lt_mul_of_pos_right Nat.lt_log2_self hpos

/-- Packing loses nothing of a number in the normal range. -/
theorem unpack_pack_normal {m : Nat} {e : Int} (s : Sign) (hp : 0 < m) (hm : m.log2 = 52) (he : -1074 < e)
    (he' : e < 971) :
    UnpackedFloat.unpack .binary64 (UnpackedFloat.pack .binary64 (.finite s m e hp)) = .finite s m e hp := by
  have hbias : (e+1023+52).toNat < 2047 ∧ 0 < (e+1023+52).toNat := by omega
  have hbits : m.log2+1 = Format.binary64.mantissaBits := by rw [hm]; rfl
  obtain ⟨hlow, hhigh⟩ := (Nat.log2_eq_iff hp.ne').mp hm
  have hb : Format.binary64.exponentBias = 1023 := rfl
  have hexp : BitVec.ofNat 11 (e+1023+52).toNat ≠ -1#11 ∧ BitVec.ofNat 11 (e+1023+52).toNat ≠ 0#11 := by
    constructor <;> intro h <;> have h' := congrArg BitVec.toNat h <;> simp at h' <;> omega
  have hmant : (1#1 ++ BitVec.ofNat 52 m).toNat = m := by
    rw [BitVec.toNat_append, ← Nat.shiftLeft_add_eq_or_of_lt (BitVec.isLt _)]
    simp only [BitVec.toNat_ofNat]
    have hm' : m % 2^52 = m-2^52 := by omega
    rw [hm']
    simp
    omega
  have hlim : ¬2^11 ≤ (e+1023+52).toNat+1 := by omega
  have hpack : UnpackedFloat.pack .binary64 (.finite s m e hp) =
      packComponents .binary64 s (BitVec.ofNat 11 (e+1023+52).toNat) (BitVec.ofNat 52 m) := by
    simp only [UnpackedFloat.pack, hb, hbits, if_true]
    exact if_neg hlim
  rw [hpack]
  simp only [UnpackedFloat.unpack, unpackExponent_packComponents, unpackMantissa_packComponents,
    unpackSign_packComponents, Sign.ofBitVec_toBitVec, hexp, if_false, hmant, hb]
  have hval : ((BitVec.ofNat 11 (e+1023+52).toNat).toNat : Int)-((1023:Nat)+(52:Nat)) = e := by
    rw [BitVec.toNat_ofNat, Nat.mod_eq_of_lt (by omega)]
    omega
  congr 1

/-- An integer of at most 53 bits converts without rounding. -/
theorem round_nat {n : Nat} (hn : n ≠ 0) (hb : n.log2 ≤ 52) :
    ∃ h, UnpackedFloat.round .binary64 .positive n 0 = .finite .positive (n <<< (52-n.log2)) (n.log2-52) h := by
  have hl := log2_shiftLeft (k := 52-n.log2) hn
  have hpos : 0 < n <<< (52-n.log2) := by
    rw [Nat.shiftLeft_eq]
    exact Nat.mul_pos (Nat.pos_of_ne_zero hn) (Nat.two_pow_pos _)
  have ht : Format.binary64.targetExponent (totalExponent n 0) = n.log2-52 := by
    simp only [Format.targetExponent, totalExponent, Format.mantissaBits, Format.minExponent]
    omega
  have ht' : Format.binary64.targetExponent (totalExponent (n <<< (52-n.log2)) (n.log2-52)) = n.log2-52 := by
    simp only [Format.targetExponent, totalExponent, Format.mantissaBits, Format.minExponent, hl]
    omega
  have hd : decreaseExponent n 0 (n.log2-52) = (n <<< (52-n.log2), (n.log2:Int)-52) := by
    have hk : (0-((n.log2:Int)-52)).toNat = 52-n.log2 := by omega
    simp only [decreaseExponent, hk]
    congr 1
    omega
  have hs : shiftToTargetExponent .binary64 (n <<< (52-n.log2)) (n.log2-52) .exact =
      (⟨n <<< (52-n.log2), false, false⟩, (n.log2:Int)-52) := by
    simp only [shiftToTargetExponent, shiftToExponent, ht', sub_self, Int.toNat_zero, Nat.cast_zero, add_zero]
    rfl
  refine ⟨hpos, ?_⟩
  simp only [UnpackedFloat.round, ht, hd, roundWithAccuracy, hs]
  have hr : ExtendedMantissa.roundedMantissa ⟨n <<< (52-n.log2), false, false⟩ = n <<< (52-n.log2) := rfl
  simp only [hr, hs, hpos.ne', dif_neg, not_false_eq_true]

/-- The double of a positive 16-bit integer. -/
theorem unpack_toFloat {n : UInt16} (hn : n.toNat ≠ 0) :
    ∃ h, n.toFloat.toModel.unpack = .finite .positive (n.toNat <<< (52-n.toNat.log2)) (n.toNat.log2-52) h := by
  have hlog : n.toNat.log2 < 16 := (Nat.log2_lt hn).mpr n.toNat_lt
  obtain ⟨h, hr⟩ := round_nat hn (by omega)
  have hbits : (n.toNat <<< (52-n.toNat.log2)).log2 = 52 := by
    rw [log2_shiftLeft hn]
    omega
  have hof : UnpackedFloat.ofUInt16 .binary64 n = UnpackedFloat.round .binary64 .positive n.toNat 0 := by
    have hc : compare (n.toNat:Int) 0 = .gt := Int.compare_eq_gt.mpr (by omega)
    simp only [UnpackedFloat.ofUInt16, UnpackedFloat.ofNat, UnpackedFloat.ofInt, UnpackedFloat.normalize, hc, Int.toNat_natCast]
  refine ⟨h, ?_⟩
  have hpack := unpack_pack_normal .positive h hbits (e := (n.toNat.log2:Int)-52) (by omega) (by omega)
  rw [← hpack, ← hr, ← hof]
  rfl

/-- Finite, positive, and with all the bits of its significand. -/
def PositiveNormal (x : Float) : Prop :=
  match x.toModel.unpack with
  | .finite .positive m _ _ => m.log2 = 52
  | _ => False

instance (x : Float) : Decidable (PositiveNormal x) := by
  unfold PositiveNormal
  split <;> infer_instance

theorem mantissa_shiftRight (em : ExtendedMantissa) (k : Nat) : (em >>> k).mantissa = em.mantissa/2^k := by
  induction k generalizing em with
  | zero => simp [HShiftRight.hShiftRight, Nat.repeat]
  | succ k ih =>
    have hstep : (em >>> (k+1)).mantissa = (em >>> k).mantissa/2 := rfl
    rw [hstep, ih, Nat.div_div_eq_div_mul, Nat.pow_succ]

/-- The integral part, as C truncates it. -/
theorem toUInt32_toNat {x : Float} {m : Nat} {e : Int} {hm : 0 < m}
    (h : x.toModel.unpack = .finite .positive m e hm) :
    x.toUInt32.toNat = min (m <<< e.toNat/2^(-e).toNat) (2^32-1) := by
  have hround : roundToInt .positive m e = (m <<< e.toNat/2^(-e).toNat : Nat) := by
    have hk : (0-(e-e.toNat)).toNat = (-e).toNat := by omega
    simp only [roundToInt, decreaseExponent, shiftToExponent, sub_zero, hk, mantissa_shiftRight]
    rfl
  have hclamp : x.toUInt32 = UInt32.ofNatClamp (m <<< e.toNat/2^(-e).toNat) := by
    have hx : x.toUInt32 = UnpackedFloat.toUInt32 x.toModel.unpack := rfl
    rw [hx, h, UnpackedFloat.toUInt32, UnpackedFloat.toInt, hround, Int.toNat_natCast]
  have hsize : UInt32.size = 2^32 := rfl
  rw [hclamp, UInt32.ofNatClamp]
  split
  · rename_i hlt
    simp only [UInt32.toNat_ofNatLT]
    omega
  · rename_i hge
    simp only [UInt32.toNat_ofNatLT]
    omega

theorem lt_iff {x : Float} {m m' : Nat} {e e' : Int} {hm : 0 < m} {hm' : 0 < m'} {y : Float}
    (hx : x.toModel.unpack = .finite .positive m e hm) (hy : y.toModel.unpack = .finite .positive m' e' hm') :
    x < y ↔ e < e' ∨ e = e' ∧ m < m' := by
  have hlt : x < y ↔ decide (x.toModel < y.toModel) = true := Iff.rfl
  have hmodel : x.toModel < y.toModel ↔ UnpackedFloat.lt x.toModel.unpack y.toModel.unpack = true := Iff.rfl
  rw [hlt, decide_eq_true_iff, hmodel, hx, hy]
  simp only [UnpackedFloat.lt, UnpackedFloat.compare, beq_iff_eq, Option.some.injEq, Ordering.then_eq_lt,
    Int.compare_eq_lt, Int.compare_eq_eq, Nat.compare_eq_lt]

/-- An integer that the comparison does not put above a double is within its integral part. -/
theorem le_toUInt32_of_not_lt {x : Float} (hx : PositiveNormal x) {n : UInt16} (h : ¬x < n.toFloat) :
    n.toNat ≤ x.toUInt32.toNat := by
  by_cases hn : n.toNat = 0
  · omega
  obtain ⟨h', hy⟩ := unpack_toFloat hn
  unfold PositiveNormal at hx
  split at hx
  case h_2 => exact hx.elim
  case h_1 m e hm hu =>
    rw [lt_iff hu hy] at h
    rw [toUInt32_toNat hu]
    have h16 := n.toNat_lt
    obtain ⟨hlow, -⟩ := (Nat.log2_eq_iff hm.ne').mp hx
    have hbits := Nat.lt_log2_self (n := n.toNat)
    have hlog : n.toNat.log2 < 16 := (Nat.log2_lt hn).mpr h16
    suffices hle : n.toNat ≤ m <<< e.toNat/2^(-e).toNat by omega
    by_cases hpos : 0 ≤ e
    · -- no fractional part: at least 2^52
      have hk : (-e).toNat = 0 := by omega
      rw [hk, Nat.pow_zero, Nat.div_one, Nat.shiftLeft_eq]
      have hm1 := Nat.le_mul_of_pos_right m (Nat.two_pow_pos e.toNat)
      omega
    · have hk : e.toNat = 0 := by omega
      rw [hk, Nat.shiftLeft_zero, Nat.le_div_iff_mul_le (Nat.two_pow_pos _)]
      by_cases he : e = n.toNat.log2-52
      · have hs : (-e).toNat = 52-n.toNat.log2 := by omega
        rw [Nat.shiftLeft_eq] at h
        rw [hs]
        omega
      · have hs : n.toNat.log2+1+(-e).toNat ≤ 52 := by omega
        calc
          n.toNat*2^(-e).toNat ≤ 2^(n.toNat.log2+1)*2^(-e).toNat := Nat.mul_le_mul_right _ hbits.le
          _ = 2^(n.toNat.log2+1+(-e).toNat) := (Nat.pow_add _ _ _).symm
          _ ≤ 2^52 := Nat.pow_le_pow_right (by omega) hs
          _ ≤ m := hlow

end OrbFirmware.Binary64

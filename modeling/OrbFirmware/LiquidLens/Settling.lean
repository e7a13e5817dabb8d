import OrbFirmware.LiquidLens.Refinement

/-! The closed loop: with a lens whose current follows the duty, the current settles at the target. -/
namespace OrbFirmware.LiquidLens
open Machine SingleFloat

/-! One sample. -/

/-- The range of the duty. -/
def saturate (u : ℚ) : ℚ := max (min u 999) (-999)

theorem halve_near (n : ℤ) : |(halve n : ℚ)-n/2| ≤ 1/2 := by
  have hint : 2*halve n-n ≤ 1 ∧ -1 ≤ 2*halve n-n := by
    rw [halve]
    split <;> omega
  have hle : (2*halve n-n : ℚ) ≤ 1 := by exact_mod_cast hint.1
  have hge : (-1:ℚ) ≤ 2*halve n-n := by exact_mod_cast hint.2
  rw [abs_le]
  constructor <;> linarith

theorem duty_near (n : ℤ) : |(limit 999 (halve n) : ℚ)-saturate (n/2)| ≤ 1/2 := by
  have hcast : ((limit 999 (halve n) : ℤ) : ℚ) = saturate (halve n) := by
    rw [limit, saturate, max_comm, min_comm]
    push_cast
    rfl
  have hmax := abs_max_sub_max_le_abs (min (halve n : ℚ) 999) (min (n/2) 999) (-999)
  have hmin := abs_min_sub_min_le_max (halve n : ℚ) 999 (n/2) 999
  rw [sub_self, abs_zero, max_eq_left (abs_nonneg _)] at hmin
  rw [hcast]
  exact hmax.trans (hmin.trans (halve_near n))

/-- The limits of the integral do not lead it away from a value within them. -/
theorem limit_toward {j : ℚ} (hj : |j| ≤ 999) (n : ℤ) : |(limit 1998 n : ℚ)/2-j| ≤ |(n:ℚ)/2-j| := by
  rw [abs_le] at hj
  obtain hlow | hlow := lt_or_ge n (-1998)
  · have hlimit : limit 1998 n = -1998 := by rw [limit]; omega
    have hn : (n:ℚ) < -1998 := by exact_mod_cast hlow
    rw [hlimit, abs_of_nonpos (by push_cast; linarith), abs_of_nonpos (by linarith)]
    push_cast
    linarith
  · obtain hhigh | hhigh := lt_or_ge 1998 n
    · have hlimit : limit 1998 n = 1998 := by rw [limit]; omega
      have hn : (1998:ℚ) < n := by exact_mod_cast hhigh
      rw [hlimit, abs_of_nonneg (by push_cast; linarith), abs_of_nonneg (by linarith)]
      push_cast
      linarith
    · rw [limit_of_abs (abs_le.mpr ⟨hlow, hhigh⟩)]

/-- Saturation keeps the side, and of the distance all that the range has room for. -/
theorem saturate_toward {u a : ℚ} (ha : |a| ≤ 800) :
    (0 ≤ u-a ∧ min (u-a) 199 ≤ saturate u-a ∧ saturate u-a ≤ u-a) ∨
      (0 ≤ a-u ∧ min (a-u) 199 ≤ a-saturate u ∧ a-saturate u ≤ a-u) := by
  rw [abs_le] at ha
  obtain hlow | hlow := le_total u (-999)
  · have hs : saturate u = -999 := by rw [saturate, min_eq_left (by linarith), max_eq_right hlow]
    rw [hs]
    exact .inr ⟨by linarith, (min_le_right _ _).trans (by linarith), by linarith⟩
  · obtain hhigh | hhigh := le_total 999 u
    · have hs : saturate u = 999 := by rw [saturate, min_eq_right hhigh, max_eq_left (by norm_num)]
      rw [hs]
      exact .inl ⟨by linarith, (min_le_right _ _).trans (by linarith), by linarith⟩
    · have hs : saturate u = u := by rw [saturate, min_eq_left hhigh, max_eq_left hlow]
      rw [hs]
      obtain h | h := le_total a u
      · exact .inl ⟨by linarith, min_le_left _ _, le_rfl⟩
      · exact .inr ⟨by linarith, min_le_left _ _, le_rfl⟩

/-- How far the output, unlimited, is from the duty that gives the target. -/
def Regulator.offset (κ : ℚ) (t : Regulator) : ℚ := t.target+t.integral/2-t.target/κ

section
variable {κ δ : ℚ}

theorem target_duty (hκ : 1/2 ≤ κ) (hκ' : κ ≤ 1) {target : ℤ} (ht : |target| ≤ 400) :
    |(target:ℚ)/κ| ≤ 800 ∧ |(target:ℚ)/κ-target| ≤ 400 := by
  have hpos : 0 < κ := by linarith
  have htarget : |(target:ℚ)| ≤ 400 := by exact_mod_cast ht
  have hinv : 1/κ ≤ 2 := by
    rw [div_le_iff₀ hpos]
    linarith
  have hinv' : 1 ≤ 1/κ := by
    rw [le_div_iff₀ hpos]
    linarith
  have hmul : (target:ℚ)/κ = target*(1/κ) := by ring
  constructor
  · rw [hmul, abs_mul, abs_of_pos (by linarith : (0:ℚ) < 1/κ)]
    nlinarith [abs_nonneg (target:ℚ)]
  · have hsub : (target:ℚ)/κ-target = target*(1/κ-1) := by ring
    rw [hsub, abs_mul, abs_of_nonneg (by linarith : (0:ℚ) ≤ 1/κ-1)]
    nlinarith [abs_nonneg (target:ℚ)]

/-- A sample leads the integral towards the target: by a part of the distance, as far as the duty has room for it. -/
theorem Regulator.offset_sampled (hκ : 1/2 ≤ κ) (hκ' : κ ≤ 1) {t : Regulator} (t' : Regulator) (ht : |t.target| ≤ 400)
    (hout : t.out = limit 999 (halve (2*t.target+t.integral))) {current : ℤ} (hplant : |current-κ*t.out| ≤ δ)
    (htarget : t'.target = t.target) (hintegral : t'.integral = t.integrated current) :
    |t'.offset κ| ≤ |t.offset κ|-κ/2*min |t.offset κ| 199+(δ+κ/2)/2 := by
  obtain ⟨hduty, hroom⟩ := target_duty hκ hκ' ht
  have hpos : 0 < κ := by linarith
  obtain ⟨a, ha⟩ : ∃ a : ℚ, a = t.target/κ := ⟨_, rfl⟩
  have hT : (t.target : ℚ) = κ*a := by
    rw [ha]
    field_simp
  rw [← ha] at hduty hroom
  -- the integral moves by half the error, before its limits
  have hmoved : |t'.offset κ| ≤ |t.offset κ+(t.target-current)/2| := by
    have hlimit := limit_toward (j := a-t.target) (by linarith) (t.integral+(t.target-current))
    rw [Regulator.offset, Regulator.offset, htarget, hintegral, Regulator.integrated, ← ha]
    push_cast at hlimit ⊢
    convert hlimit using 2 <;> ring
  have hnear := duty_near (2*t.target+t.integral)
  rw [← hout] at hnear
  obtain ⟨u, hu⟩ : ∃ u : ℚ, u = ((2*t.target+t.integral : ℤ) : ℚ)/2 := ⟨_, rfl⟩
  rw [← hu] at hnear
  have hoffset : t.offset κ = u-a := by
    rw [Regulator.offset, hu, ha]
    push_cast
    ring
  have hnoise : |(κ*saturate u-current)/2| ≤ (δ+κ/2)/2 := by
    rw [abs_le] at hnear hplant ⊢
    have h1 : κ*(t.out-saturate u) ≤ κ*(1/2) := mul_le_mul_of_nonneg_left hnear.2 hpos.le
    have h2 : κ*(-(1/2)) ≤ κ*(t.out-saturate u) := mul_le_mul_of_nonneg_left hnear.1 hpos.le
    constructor <;> linarith
  have htoward : |u-a-κ/2*(saturate u-a)| ≤ |u-a|-κ/2*min |u-a| 199 := by
    obtain ⟨hside, hfar, hle⟩ | ⟨hside, hfar, hle⟩ := saturate_toward (u := u) hduty
    · rw [abs_of_nonneg hside, abs_of_nonneg (by nlinarith)]
      nlinarith
    · have habs : |u-a| = a-u := by rw [abs_sub_comm, abs_of_nonneg hside]
      have hflip : u-a-κ/2*(saturate u-a) = -(a-u-κ/2*(a-saturate u)) := by ring
      rw [habs, hflip, abs_neg, abs_of_nonneg (by nlinarith)]
      nlinarith
  have hsplit : t.offset κ+(t.target-current)/2 = (u-a-κ/2*(saturate u-a))+(κ*saturate u-current)/2 := by
    rw [hoffset, hT]
    ring
  rw [hsplit] at hmoved
  rw [hoffset]
  calc
    |t'.offset κ| ≤ |u-a-κ/2*(saturate u-a)|+|(κ*saturate u-current)/2| := hmoved.trans (abs_add_le _ _)
    _ ≤ |u-a|-κ/2*min |u-a| 199+(δ+κ/2)/2 := add_le_add htoward hnoise

/-! Runs. -/

/-- A bound of the distance after each sample, less what the rounding and the lens leave. -/
def reach : Nat → ℚ
  | 0 => 1399
  | k+1 => reach k-min (reach k) 160/4

theorem reach_nonneg (k : Nat) : 0 ≤ reach k := by
  induction k with
  | zero => norm_num [reach]
  | succ k ih =>
    have := min_le_left (reach k) 160
    rw [reach]
    linarith

theorem reach_antitone : Antitone reach := by
  refine antitone_nat_of_succ_le fun k => ?_
  have : 0 ≤ min (reach k) 160 := le_min (reach_nonneg k) (by norm_num)
  rw [reach]
  linarith

theorem reach_settled : reach 59 ≤ 1/10 := by decide +kernel

/-- After `k` samples. -/
def Near (κ δ : ℚ) (k : Nat) (t : Regulator) : Prop :=
  0 < k → t.out = limit 999 (halve (2*t.target+t.integral)) ∧ |t.offset κ| ≤ reach (k-1)+(δ/κ+1/2)

theorem offset_le (hκ : 1/2 ≤ κ) (hκ' : κ ≤ 1) {t : Regulator} (ht : |t.target| ≤ 400) (hi : |t.integral| ≤ 1998) :
    |t.offset κ| ≤ 1399 := by
  obtain ⟨-, hroom⟩ := target_duty hκ hκ' ht
  have hhalf : |(t.integral:ℚ)| ≤ 1998 := by exact_mod_cast hi
  rw [abs_le] at hroom hhalf
  rw [Regulator.offset, abs_le]
  constructor <;> linarith

theorem Near.sampled (hκ : 1/2 ≤ κ) (hκ' : κ ≤ 1) (hδ : 0 ≤ δ) (hδ' : δ ≤ 10) {k : Nat} {t : Regulator}
    (h : Near κ δ k t) (ht : |t.target| ≤ 400) {current : ℤ}
    (hplant : |current-κ*t.out| ≤ δ) :
    Near κ δ (k+1) { t with integral := t.integrated current, out := t.duty current } := by
  have hpos : 0 < κ := by linarith
  have hσ : 0 ≤ δ/κ := div_nonneg hδ hpos.le
  have hσ' : δ/κ ≤ 20 := by
    rw [div_le_iff₀ hpos]
    linarith
  refine fun _ => ⟨rfl, ?_⟩
  cases k with
  | zero =>
    have hle := offset_le hκ hκ' (t := { t with integral := t.integrated current, out := t.duty current }) ht
      (limit_abs (by decide) _)
    have hreach : reach 0 = 1399 := rfl
    rw [Nat.zero_add, Nat.sub_self, hreach]
    linarith
  | succ k =>
    obtain ⟨hout, hnear⟩ := h (Nat.succ_pos k)
    rw [Nat.add_sub_cancel] at hnear ⊢
    have hstep := Regulator.offset_sampled hκ hκ'
      { t with integral := t.integrated current, out := t.duty current } ht hout hplant rfl rfl
    have hnoise : (δ+κ/2)/2 = κ/2*(δ/κ+1/2) := by field_simp
    rw [hnoise] at hstep
    have hr := reach_nonneg k
    obtain ⟨w, hw⟩ : ∃ w, w = reach k+(δ/κ+1/2) := ⟨_, rfl⟩
    rw [← hw] at hnear
    -- a distance that is larger stays larger
    have hmono : κ/2*(min w 199-min |t.offset κ| 199) ≤ κ/2*(w-|t.offset κ|) := by
      refine mul_le_mul_of_nonneg_left ?_ (by linarith)
      obtain h199 | h199 := le_total |t.offset κ| 199
      · rw [min_eq_left h199]
        linarith [min_le_left w 199]
      · rw [min_eq_right h199]
        linarith [min_le_right w 199]
    have hless : κ/2*(w-|t.offset κ|) ≤ w-|t.offset κ| := mul_le_of_le_one_left (by linarith) (by linarith)
    have hroom : min (reach k) 160+(δ/κ+1/2) ≤ min w 199 :=
      le_min (by linarith [min_le_left (reach k) 160]) (by linarith [min_le_right (reach k) 160])
    have hmin : 0 ≤ min (reach k) 160 := le_min hr (by norm_num)
    have hgain : min (reach k) 160/4 ≤ κ/2*(min w 199-(δ/κ+1/2)) := by
      calc
        min (reach k) 160/4 = 1/4*min (reach k) 160 := by ring
        _ ≤ κ/2*min (reach k) 160 := mul_le_mul_of_nonneg_right (by linarith) hmin
        _ ≤ κ/2*(min w 199-(δ/κ+1/2)) := mul_le_mul_of_nonneg_left (by linarith) (by linarith)
    rw [reach]
    linarith

/-- The regulation goes on undisturbed. -/
def LensEvent.steady : LensEvent → Bool
  | .quiet => true
  | .sampled _ _ => true
  | _ => false

def LensEvent.isSampled : LensEvent → Bool
  | .sampled _ _ => true
  | _ => false

/-- A lens, measured: its current is `κ` milliamperes for a per mille of the duty that the bridges hold, within `δ`. -/
def Plant (b : Board) (κ δ : ℚ) (s : Lens) : LensAction → Prop
  | .sample buffer => |((lensCurrentMa b buffer).toInt : ℚ)-κ*s.lastPwmOutputPerMille.toInt| ≤ δ
  | _ => True

instance (b : Board) (κ δ : ℚ) (s : Lens) : (a : LensAction) → Decidable (Plant b κ δ s a)
  | .sample buffer =>
    inferInstanceAs (Decidable (|((lensCurrentMa b buffer).toInt : ℚ)-κ*s.lastPwmOutputPerMille.toInt| ≤ δ))
  | .setTarget _ => isTrue trivial
  | .enable => isTrue trivial
  | .disable => isTrue trivial
  | .selfTest => isTrue trivial
  | .advance => isTrue trivial
  | .gpio _ => isTrue trivial

theorem Near.step (hκ : 1/2 ≤ κ) (hκ' : κ ≤ 1) (hδ : 0 ≤ δ) (hδ' : δ ≤ 10) {b : Board} {k : Nat} {s : Lens}
    {t : Regulator} {a : LensAction} (h : Near κ δ k t) (hs : Obeys s t) (hplant : Plant b κ δ s a)
    (hsteady : (lensStep b s a).1.steady = true) :
    Near κ δ (k+[(lensStep b s a).1].countP LensEvent.isSampled) ((regulator b).next t a (lensStep b s a).1) ∧
      ((regulator b).next t a (lensStep b s a).1).target = t.target := by
  obtain ⟨hallow, -⟩ := hs.step b a
  cases he : (lensStep b s a).1 with
  | quiet => exact ⟨h, rfl⟩
  | target ma => rw [he] at hsteady; exact absurd hsteady Bool.false_ne_true
  | reset => rw [he] at hsteady; exact absurd hsteady Bool.false_ne_true
  | started => rw [he] at hsteady; exact absurd hsteady Bool.false_ne_true
  | stopped => rw [he] at hsteady; exact absurd hsteady Bool.false_ne_true
  | sampled current pwm =>
    rw [he] at hallow
    obtain ⟨hrunning, -, buffer, rfl, -⟩ := hallow
    have hcurrent : current = lensCurrentMa b buffer := by
      have hon : s.liquidLensEnabled = true := hs.running ▸ hrunning
      simp only [lensStep, adcCallback, hon, if_true, LensEvent.sampled.injEq] at he
      exact he.1.symm
    have hplant' : |(current.toInt : ℚ)-κ*t.out| ≤ δ := by
      rw [hcurrent, ← hs.out]
      exact hplant
    exact ⟨h.sampled hκ hκ' hδ hδ' hs.target_le hplant', rfl⟩

theorem near_run (hκ : 1/2 ≤ κ) (hκ' : κ ≤ 1) (hδ : 0 ≤ δ) (hδ' : δ ≤ 10) (b : Board) (actions : List LensAction)
    (k : Nat) (s : Lens) (t : Regulator) (h : Near κ δ k t) (hs : Obeys s t)
    (hplant : Meets (lensStep b) (Plant b κ δ) s actions)
    (hsteady : ∀ e ∈ (run (lensStep b) s actions).1, e.steady = true) :
    ∃ t', Near κ δ (k+(run (lensStep b) s actions).1.countP LensEvent.isSampled) t' ∧
      Obeys (run (lensStep b) s actions).2 t' := by
  induction actions generalizing k s t with
  | nil => exact ⟨t, h, hs⟩
  | cons a actions ih =>
    obtain ⟨ha, hrest⟩ := hplant
    have hevents : (run (lensStep b) s (a :: actions)).1 =
        (lensStep b s a).1 :: (run (lensStep b) (lensStep b s a).2 actions).1 := rfl
    rw [hevents] at hsteady ⊢
    obtain ⟨hnear, -⟩ := h.step hκ hκ' hδ hδ' hs ha (hsteady _ List.mem_cons_self)
    obtain ⟨t', hnear', hobeys⟩ := ih _ _ _ hnear (hs.step b a).2 hrest fun e hmem => hsteady e (List.mem_cons_of_mem _ hmem)
    refine ⟨t', ?_, hobeys⟩
    rwa [Nat.add_assoc, ← List.countP_append, List.singleton_append] at hnear'

/-- Where the lens follows its duty, sixty samples after the last target and the last start the measured current is at the
target, up to twice what the lens deviates and a milliampere. -/
theorem lens_settles (b : Board) (hκ : 1/2 ≤ κ) (hκ' : κ ≤ 1) (hδ : 0 ≤ δ) (hδ' : δ ≤ 10)
    (actions more : List LensAction) (buffer : AdcSamples)
    (hsteady : ∀ e ∈ (run (lensStep b) (run (lensStep b) lensInit actions).2 more).1, e.steady = true)
    (hsamples : 60 ≤ (run (lensStep b) (run (lensStep b) lensInit actions).2 more).1.countP LensEvent.isSampled)
    (hplant : Meets (lensStep b) (Plant b κ δ) (run (lensStep b) lensInit actions).2 (more ++ [.sample buffer])) :
    let s := (run (lensStep b) lensInit (actions ++ more)).2
    |((lensCurrentMa b buffer).toInt : ℚ)-s.targetCurrentMa.toInt| ≤ 2*δ+11/10 := by
  intro s
  obtain ⟨t, -, ht⟩ := run_simulates (fun _ _ a _ h => Obeys.step b a h) lensInit regulatorInit actions
    (fun _ _ => trivial) obeys_init
  obtain ⟨hbefore, hlast⟩ := meets_append.mp hplant
  have hzero : Near κ δ 0 t := fun hpos => absurd hpos (Nat.lt_irrefl 0)
  obtain ⟨t', hnear, hobeys⟩ := near_run hκ hκ' hδ hδ' b more 0 _ t hzero ht hbefore hsteady
  rw [← run_append] at hobeys hlast
  obtain ⟨k, hk⟩ : ∃ k, k = 0+(run (lensStep b) (run (lensStep b) lensInit actions).2 more).1.countP LensEvent.isSampled :=
    ⟨_, rfl⟩
  rw [← hk] at hnear
  obtain ⟨hout, hoffset⟩ := hnear (by omega)
  have hreach : reach (k-1) ≤ 1/10 := (reach_antitone (by omega)).trans reach_settled
  have hpos : 0 < κ := by linarith
  have hplant' : |((lensCurrentMa b buffer).toInt : ℚ)-κ*t'.out| ≤ δ := by
    rw [← hobeys.out]
    exact hlast.1
  obtain ⟨hduty, -⟩ := target_duty hκ hκ' hobeys.target_le
  have hround := duty_near (2*t'.target+t'.integral)
  rw [← hout] at hround
  -- the duty is as near to the one that gives the target as its argument
  have hnear' : |(t'.out : ℚ)-t'.target/κ| ≤ 1/2+|t'.offset κ| := by
    have hoffset' : t'.offset κ = ((2*t'.target+t'.integral : ℤ) : ℚ)/2-t'.target/κ := by
      rw [Regulator.offset]
      push_cast
      ring
    have hsat : |saturate (((2*t'.target+t'.integral : ℤ) : ℚ)/2)-t'.target/κ| ≤ |t'.offset κ| := by
      rw [hoffset']
      obtain ⟨hside, hfar, hle⟩ | ⟨hside, hfar, hle⟩ :=
        saturate_toward (u := ((2*t'.target+t'.integral : ℤ) : ℚ)/2) hduty
      · rw [abs_of_nonneg hside, abs_of_nonneg ((le_min hside (by norm_num)).trans hfar)]
        exact hle
      · rw [abs_sub_comm, abs_of_nonneg ((le_min hside (by norm_num)).trans hfar), abs_sub_comm, abs_of_nonneg hside]
        exact hle
    exact (abs_sub_le _ _ _).trans (add_le_add hround hsat)
  have htarget : κ*(t'.target/κ) = t'.target := by field_simp
  have hσ : κ*(δ/κ) = δ := by field_simp
  rw [hobeys.target]
  calc
    |((lensCurrentMa b buffer).toInt : ℚ)-t'.target| ≤
        |((lensCurrentMa b buffer).toInt : ℚ)-κ*t'.out|+|κ*t'.out-t'.target| := abs_sub_le _ _ _
    _ = |((lensCurrentMa b buffer).toInt : ℚ)-κ*t'.out|+κ*|t'.out-t'.target/κ| := by
      rw [← abs_of_pos hpos, ← abs_mul, abs_of_pos hpos, mul_sub, htarget]
    _ ≤ δ+κ*(1/2+(1/10+(δ/κ+1/2))) :=
      add_le_add hplant' (mul_le_mul_of_nonneg_left (by linarith) hpos.le)
    _ ≤ 2*δ+11/10 := by linarith

end

/-- The samples of a lens that takes a milliampere for a per mille, on its way to 50 mA. -/
def settlingSamples : List LensAction :=
  (([0, 75, 63, 56, 54, 52, 51] : List UInt16) ++ (List.replicate 27 [50, 51]).flatten).map fun ma =>
    .sample ⟨2000, 2000-3*ma, 0⟩

theorem lens_settles_diamond :
    let b : Board := ⟨.diamond, fun _ => 0⟩
    let s := (run (lensStep b) lensInit ([.enable, .gpio 0, .setTarget 50] ++ settlingSamples)).2
    |((lensCurrentMa b ⟨2000, 1850, 0⟩).toInt : ℚ)-s.targetCurrentMa.toInt| ≤ 2*1+11/10 :=
  lens_settles ⟨.diamond, fun _ => 0⟩ (by norm_num : (1/2:ℚ) ≤ 1) le_rfl zero_le_one (by norm_num)
    [.enable, .gpio 0, .setTarget 50] settlingSamples ⟨2000, 1850, 0⟩ (by decide +kernel) (by decide +kernel)
    (by decide +kernel)

end OrbFirmware.LiquidLens

import Mathlib.Data.List.GetD
import Mathlib.Tactic.Ring

/-! Byte-addressed NOR flash over an arbitrary address space: reading a range, erasing it to ones,
programming it by clearing bits, and programming by blocks that refuse to be reprogrammed. -/
namespace OrbFirmware.Nor

abbrev Mem := Nat → UInt8

def slice (m : Mem) (off : Nat) : Nat → List UInt8
  | 0 => []
  | n+1 => m off :: slice m (off+1) n

def erase (m : Mem) (off len : Nat) : Mem :=
  fun a => if off ≤ a ∧ a < off+len then 0xff else m a

/-- Programming only clears bits: every written byte is the AND of the old and the new one. -/
def program (m : Mem) (off : Nat) (data : List UInt8) : Mem :=
  fun a => if off ≤ a ∧ a < off+data.length then m a &&& data.getD (a-off) 0xff else m a

def view (m : Mem) (base : Nat) : Mem := fun a => m (base+a)

def Erased (m : Mem) (lo hi : Nat) : Prop := ∀ a, lo ≤ a → a < hi → m a = 0xff

instance (m : Mem) (lo hi : Nat) : Decidable (Erased m lo hi) :=
  inferInstanceAs (Decidable (∀ a, lo ≤ a → a < hi → m a = 0xff))

def AgreeOn (m m' : Mem) (lo hi : Nat) : Prop := ∀ a, lo ≤ a → a < hi → m a = m' a

@[simp] theorem slice_length (m : Mem) (off n : Nat) : (slice m off n).length = n := by
  induction n generalizing off with
  | zero => rfl
  | succ n ih => simp [slice, ih]

theorem slice_add (m : Mem) (off n k : Nat) :
    slice m off (n+k) = slice m off n ++ slice m (off+n) k := by
  induction n generalizing off with
  | zero => simp [slice]
  | succ n ih =>
    have h := ih (off+1)
    rw [show n+1+k = (n+k)+1 by omega]
    simp only [slice, h, List.cons_append]
    rw [show off+1+n = off+(n+1) by omega]

theorem slice_getElem (m : Mem) (off n i : Nat) (h : i < (slice m off n).length) :
    (slice m off n)[i] = m (off+i) := by
  induction n generalizing off i with
  | zero => simp [slice] at h
  | succ n ih =>
    cases i with
    | zero => rfl
    | succ i =>
      have hi : i < (slice m (off+1) n).length := by simpa [slice] using h
      simpa [slice, Nat.add_assoc, Nat.add_comm 1 i] using ih (off+1) i hi

theorem slice_getD (m : Mem) (off n i : Nat) (d : UInt8) (h : i < n) :
    (slice m off n).getD i d = m (off+i) := by
  have hi : i < (slice m off n).length := by simpa using h
  rw [List.getD_eq_getElem _ d hi, slice_getElem m off n i hi]

theorem slice_eq_iff (m : Mem) (off : Nat) (data : List UInt8) :
    slice m off data.length = data ↔ ∀ i (h : i < data.length), m (off+i) = data[i] := by
  constructor
  · intro h i hi
    have hg : i < (slice m off data.length).length := by simpa using hi
    have hs := slice_getElem m off data.length i hg
    simp only [h] at hs
    exact hs.symm
  · intro h
    apply List.ext_getElem (by simp)
    intro i h1 h2
    rw [slice_getElem, h i h2]

theorem slice_congr {m m' : Mem} {off n : Nat} (h : AgreeOn m m' off (off+n)) :
    slice m off n = slice m' off n := by
  apply List.ext_getElem (by simp)
  intro i h1 h2
  rw [slice_getElem, slice_getElem]
  have hi : i < n := by simpa using h1
  exact h (off+i) (by omega) (by omega)

theorem AgreeOn.symm {m m' : Mem} {lo hi : Nat} (h : AgreeOn m m' lo hi) : AgreeOn m' m lo hi :=
  fun a ha hb => (h a ha hb).symm

theorem AgreeOn.trans {m m' m'' : Mem} {lo hi : Nat} (h : AgreeOn m m' lo hi)
    (h' : AgreeOn m' m'' lo hi) : AgreeOn m m'' lo hi :=
  fun a ha hb => (h a ha hb).trans (h' a ha hb)

theorem AgreeOn.mono {m m' : Mem} {lo hi lo' hi' : Nat} (h : AgreeOn m m' lo hi)
    (hlo : lo ≤ lo') (hhi : hi' ≤ hi) : AgreeOn m m' lo' hi' :=
  fun a ha hb => h a (by omega) (by omega)

theorem Erased.mono {m : Mem} {lo hi lo' hi' : Nat} (h : Erased m lo hi)
    (hlo : lo ≤ lo') (hhi : hi' ≤ hi) : Erased m lo' hi' :=
  fun a ha hb => h a (by omega) (by omega)

theorem Erased.congr {m m' : Mem} {lo hi : Nat} (h : Erased m lo hi) (ha : AgreeOn m m' lo hi) :
    Erased m' lo hi :=
  fun a h1 h2 => (ha a h1 h2).symm.trans (h a h1 h2)

theorem Erased.slice {m : Mem} {lo hi off n : Nat} (h : Erased m lo hi)
    (hlo : lo ≤ off) (hhi : off+n ≤ hi) : Nor.slice m off n = List.replicate n 0xff := by
  have hr : Nor.slice m off (List.replicate n (0xff : UInt8)).length = List.replicate n 0xff := by
    rw [slice_eq_iff]
    intro i hi
    have hn : i < n := by simpa using hi
    rw [h (off+i) (by omega) (by omega), List.getElem_replicate]
  simpa using hr

theorem erase_erased (m : Mem) (off len : Nat) : Erased (erase m off len) off (off+len) :=
  fun _ ha hb => if_pos ⟨ha, hb⟩

theorem erase_outside {m : Mem} {off len a : Nat} (h : a < off ∨ off+len ≤ a) :
    erase m off len a = m a :=
  if_neg (by omega)

theorem program_outside {m : Mem} {off a : Nat} {data : List UInt8}
    (h : a < off ∨ off+data.length ≤ a) : program m off data a = m a :=
  if_neg (by omega)

theorem program_inside {m : Mem} {off i : Nat} {data : List UInt8} (h : i < data.length) :
    program m off data (off+i) = m (off+i) &&& data[i] := by
  have hc : off ≤ off+i ∧ off+i < off+data.length := by omega
  simp [program, h]

@[simp] theorem program_nil (m : Mem) (off : Nat) : program m off [] = m := by
  funext a
  exact program_outside (by simp; omega)

theorem ones_and (b : UInt8) : (0xff : UInt8) &&& b = b := by
  have h : (0xff : UInt8) = -1 := rfl
  rw [h, UInt8.neg_one_and]

/-- On erased flash programming stores exactly the data. -/
theorem slice_program_erased {m : Mem} {off : Nat} {data : List UInt8}
    (h : Erased m off (off+data.length)) : slice (program m off data) off data.length = data := by
  rw [slice_eq_iff]
  intro i hi
  rw [program_inside hi, h (off+i) (by omega) (by omega), ones_and]

/-- Zeros can be programmed over anything. -/
theorem slice_program_zeros (m : Mem) (off n : Nat) :
    slice (program m off (List.replicate n 0)) off n = List.replicate n 0 := by
  have hr : slice (program m off (List.replicate n 0)) off (List.replicate n (0 : UInt8)).length =
      List.replicate n 0 := by
    rw [slice_eq_iff]
    intro i hi
    rw [program_inside hi, List.getElem_replicate, UInt8.and_zero]
  simpa using hr

theorem slice_program_outside {m : Mem} {off p n : Nat} {data : List UInt8}
    (h : p+n ≤ off ∨ off+data.length ≤ p) : slice (program m off data) p n = slice m p n :=
  slice_congr (fun _ ha hb => program_outside (by omega))

theorem program_append (m : Mem) (off : Nat) (u v : List UInt8) :
    program m off (u ++ v) = program (program m off u) (off+u.length) v := by
  funext a
  by_cases hu : off ≤ a ∧ a < off+u.length
  · have hi : a-off < u.length := by omega
    have hv : program (program m off u) (off+u.length) v a = program m off u a :=
      program_outside (by omega)
    have hc : a < off+(u.length+v.length) := by omega
    rw [hv]
    simp [program, hu, List.getElem?_append_left hi, hc]
  · have hn : program m off u a = m a := program_outside (by omega)
    by_cases hv : off+u.length ≤ a ∧ a < off+u.length+v.length
    · have hlo : off ≤ a := by omega
      have hi : u.length ≤ a-off := by omega
      have hc : a < off+(u.length+v.length) := by omega
      have he : a-off-u.length = a-(off+u.length) := by omega
      simp only [program, hv, hlo, hc, List.length_append, and_self, if_true] at hn ⊢
      rw [hn, List.getD_eq_getElem?_getD, List.getD_eq_getElem?_getD, List.getElem?_append_right hi, he]
    · have hn' : program (program m off u) (off+u.length) v a = program m off u a :=
        program_outside (by omega)
      have hl : program m off (u ++ v) a = m a :=
        program_outside (by simp only [List.length_append]; omega)
      rw [hn', hn, hl]

/-! Regions of the address space. -/

structure Region where
  lo : Nat
  hi : Nat

namespace Region

def Apart (r r' : Region) : Prop := ∀ a, r.lo ≤ a → a < r.hi → ¬ (r'.lo ≤ a ∧ a < r'.hi)

instance (r r' : Region) : Decidable (r.Apart r') :=
  inferInstanceAs (Decidable (∀ a, r.lo ≤ a → a < r.hi → ¬ (r'.lo ≤ a ∧ a < r'.hi)))

theorem Apart.symm {r r' : Region} (h : r.Apart r') : r'.Apart r :=
  fun a h1 h2 hr => h a hr.1 hr.2 ⟨h1, h2⟩

theorem Apart.mono {r r₁ r' : Region} (h : r.Apart r') (hlo : r.lo ≤ r₁.lo) (hhi : r₁.hi ≤ r.hi) :
    r₁.Apart r' :=
  fun a h1 h2 => h a (by omega) (by omega)

end Region

/-! Programming by blocks: a block takes new data only while it is erased, or all-zero data. -/

def erasedBlock (m : Mem) (off blk : Nat) : Bool := (slice m off blk).all (· == 0xff)

def zeroBlock (data : List UInt8) : Bool := data.all (· == 0)

/-- The first refused block ends the operation; the blocks before it stay programmed. -/
def programBlocks (blk : Nat) : Nat → Mem → Nat → List UInt8 → Bool × Mem
  | 0, m, _, _ => (true, m)
  | n+1, m, off, data =>
    if erasedBlock m off blk || zeroBlock (data.take blk) then
      programBlocks blk n (program m off (data.take blk)) (off+blk) (data.drop blk)
    else (false, m)

theorem erasedBlock_iff (m : Mem) (off blk : Nat) :
    erasedBlock m off blk = true ↔ Erased m off (off+blk) := by
  simp only [erasedBlock, List.all_eq_true, beq_iff_eq]
  constructor
  · intro h a ha hb
    have hi : a-off < (slice m off blk).length := by simp; omega
    have hs := slice_getElem m off blk (a-off) hi
    rw [show off+(a-off) = a by omega] at hs
    rw [← hs]
    exact h _ (List.getElem_mem hi)
  · intro h b hb
    obtain ⟨i, hi, rfl⟩ := List.mem_iff_getElem.mp hb
    rw [slice_getElem]
    have hn : i < blk := by simpa using hi
    exact h (off+i) (by omega) (by omega)

/-- Whatever is refused, nothing outside the addressed range changes. -/
theorem programBlocks_outside (blk n : Nat) (m : Mem) (off : Nat) (data : List UInt8)
    (hlen : data.length = n*blk) {a : Nat} (h : a < off ∨ off+data.length ≤ a) :
    (programBlocks blk n m off data).2 a = m a := by
  induction n generalizing m off data with
  | zero => rfl
  | succ n ih =>
    have hblk : (n+1)*blk = n*blk+blk := by ring
    have htake : (data.take blk).length = blk := by simp only [List.length_take]; omega
    have hdrop : (data.drop blk).length = n*blk := by simp only [List.length_drop]; omega
    unfold programBlocks
    split
    · rw [ih _ _ _ hdrop (by omega)]
      exact program_outside (by omega)
    · rfl

/-- An accepted block-wise write programs exactly the data. -/
theorem programBlocks_true (blk n : Nat) (m : Mem) (off : Nat) (data : List UInt8)
    (hlen : data.length = n*blk) (h : (programBlocks blk n m off data).1 = true) :
    (programBlocks blk n m off data).2 = program m off data := by
  induction n generalizing m off data with
  | zero =>
    have hd : data = [] := List.eq_nil_of_length_eq_zero (by omega)
    simp [programBlocks, hd]
  | succ n ih =>
    have hblk : (n+1)*blk = n*blk+blk := by ring
    have htake : (data.take blk).length = blk := by simp only [List.length_take]; omega
    have hdrop : (data.drop blk).length = n*blk := by simp only [List.length_drop]; omega
    unfold programBlocks at h ⊢
    split at h
    · rename_i hc
      rw [if_pos hc, ih _ _ _ hdrop h]
      conv_rhs => rw [← List.take_append_drop blk data, program_append, htake]
    · simp at h

theorem programBlocks_erased (blk n : Nat) (m : Mem) (off : Nat) (data : List UInt8)
    (hlen : data.length = n*blk) (h : Erased m off (off+data.length)) :
    (programBlocks blk n m off data).1 = true := by
  induction n generalizing m off data with
  | zero => rfl
  | succ n ih =>
    have hblk : (n+1)*blk = n*blk+blk := by ring
    have htake : (data.take blk).length = blk := by simp only [List.length_take]; omega
    have hdrop : (data.drop blk).length = n*blk := by simp only [List.length_drop]; omega
    have hfirst : erasedBlock m off blk = true :=
      (erasedBlock_iff m off blk).mpr (h.mono le_rfl (by omega))
    unfold programBlocks
    rw [if_pos (by simp [hfirst])]
    apply ih _ _ _ hdrop
    intro a ha hb
    rw [program_outside (by omega)]
    exact h a (by omega) (by omega)

theorem programBlocks_zeros (blk n : Nat) (m : Mem) (off : Nat) :
    (programBlocks blk n m off (List.replicate (n*blk) 0)).1 = true := by
  induction n generalizing m off with
  | zero => rfl
  | succ n ih =>
    have hblk : (n+1)*blk = n*blk+blk := by ring
    unfold programBlocks
    rw [if_pos (by simp [zeroBlock, List.take_replicate])]
    rw [List.drop_replicate, show (n+1)*blk-blk = n*blk by omega]
    exact ih _ _

/-- A write that is accepted up to a block boundary goes on as a second write. -/
theorem programBlocks_append (blk n k : Nat) (m : Mem) (off : Nat) (u v : List UInt8)
    (hlen : u.length = n*blk) :
    programBlocks blk (n+k) m off (u ++ v) =
      if (programBlocks blk n m off u).1 = true then
        programBlocks blk k (program m off u) (off+u.length) v
      else programBlocks blk n m off u := by
  induction n generalizing m off u with
  | zero =>
    have hu : u = [] := List.eq_nil_of_length_eq_zero (by omega)
    simp [programBlocks, hu]
  | succ n ih =>
    have hblk : (n+1)*blk = n*blk+blk := by ring
    have hle : blk ≤ u.length := by omega
    have htake : (u.take blk).length = blk := by simp only [List.length_take]; omega
    have hdrop : (u.drop blk).length = n*blk := by simp only [List.length_drop]; omega
    have hrec := ih (program m off (u.take blk)) (off+blk) (u.drop blk) hdrop
    have hprog : program m off u = program (program m off (u.take blk)) (off+blk) (u.drop blk) := by
      conv_lhs => rw [← List.take_append_drop blk u, program_append, htake]
    have hoff : off+blk+(u.drop blk).length = off+u.length := by omega
    rw [show n+1+k = (n+k)+1 by omega]
    simp only [programBlocks, List.take_append_of_le_length hle, List.drop_append_of_le_length hle]
    by_cases hc : (erasedBlock m off blk || zeroBlock (u.take blk)) = true
    · simp only [if_pos hc]
      rw [hrec, hprog, hoff]
    · simp [hc]

/-- Which writes are accepted, block by block and read off the memory before the write. -/
theorem programBlocks_iff (blk n : Nat) (m : Mem) (off : Nat) (data : List UInt8)
    (hlen : data.length = n*blk) :
    (programBlocks blk n m off data).1 = true ↔
      ∀ j < n, Erased m (off+j*blk) (off+j*blk+blk) ∨
        zeroBlock ((data.drop (j*blk)).take blk) = true := by
  induction n generalizing m off data with
  | zero => simp [programBlocks]
  | succ n ih =>
    have hblk : (n+1)*blk = n*blk+blk := by ring
    have htake : (data.take blk).length = blk := by simp only [List.length_take]; omega
    have hdrop : (data.drop blk).length = n*blk := by simp only [List.length_drop]; omega
    have hstep (j : Nat) : (j+1)*blk = blk+j*blk := by ring
    -- programming the first block changes none of the later ones
    have hlater (j : Nat) : Erased (program m off (data.take blk)) (off+blk+j*blk) (off+blk+j*blk+blk) ↔
        Erased m (off+(j+1)*blk) (off+(j+1)*blk+blk) := by
      have ha : AgreeOn (program m off (data.take blk)) m (off+blk+j*blk) (off+blk+j*blk+blk) :=
        fun a h1 h2 => program_outside (by omega)
      rw [hstep, ← Nat.add_assoc]
      exact ⟨fun h => h.congr ha, fun h => h.congr ha.symm⟩
    have hrec := ih (program m off (data.take blk)) (off+blk) (data.drop blk) hdrop
    simp only [programBlocks]
    by_cases hc : (erasedBlock m off blk || zeroBlock (data.take blk)) = true
    · rw [if_pos hc, hrec]
      constructor
      · intro h j hj
        cases j with
        | zero => simpa [erasedBlock_iff] using hc
        | succ j =>
          have hj' := h j (by omega)
          rwa [hlater, List.drop_drop, ← hstep] at hj'
      · intro h j hj
        have hj' := h (j+1) (by omega)
        rwa [hlater, List.drop_drop, ← hstep]
    · rw [if_neg hc]
      simp only [Bool.false_eq_true, false_iff]
      intro h
      exact hc (by simpa [erasedBlock_iff] using h 0 (by omega))

/-- A block-wise write that is accepted leaves its data. -/
theorem slice_program_blocks {c : Mem} {blk n off : Nat} {data : List UInt8} (hblk : 0 < blk)
    (hlen : data.length = n*blk)
    (h : ∀ j < n, Erased c (off+j*blk) (off+j*blk+blk) ∨ zeroBlock ((data.drop (j*blk)).take blk) = true) :
    slice (program c off data) off data.length = data := by
  rw [slice_eq_iff]
  intro i hi
  rw [program_inside hi]
  have hdiv := Nat.div_add_mod i blk
  have hmod := Nat.mod_lt i hblk
  have hj : i/blk < n := by
    rw [Nat.div_lt_iff_lt_mul hblk]
    omega
  have hcomm : blk*(i/blk) = i/blk*blk := Nat.mul_comm _ _
  cases h (i/blk) hj with
  | inl he => rw [he (off+i) (by omega) (by omega), ones_and]
  | inr hz =>
    have hzero : data[i] = 0 := by
      simp only [zeroBlock, List.all_eq_true, beq_iff_eq] at hz
      refine hz _ (List.mem_iff_getElem.mpr ⟨i % blk, ?_, ?_⟩)
      · simp only [List.length_take, List.length_drop]
        omega
      · rw [List.getElem_take, List.getElem_drop]
        congr 1
        omega
    rw [hzero, UInt8.and_zero]

/-! An area of the memory seen through its base address. -/

theorem slice_view (m : Mem) (base off n : Nat) : slice (view m base) off n = slice m (base+off) n := by
  induction n generalizing off with
  | zero => rfl
  | succ n ih => simp [slice, view, ih, Nat.add_assoc]

theorem view_program (m : Mem) (base off : Nat) (data : List UInt8) :
    view (program m (base+off) data) base = program (view m base) off data := by
  funext a
  have hc : (base+off ≤ base+a ∧ base+a < base+off+data.length) ↔ (off ≤ a ∧ a < off+data.length) := by
    omega
  simp only [view, program, hc, show base+a-(base+off) = a-off by omega]

theorem view_erase (m : Mem) (base off len : Nat) :
    view (erase m (base+off) len) base = erase (view m base) off len := by
  funext a
  have hc : (base+off ≤ base+a ∧ base+a < base+off+len) ↔ (off ≤ a ∧ a < off+len) := by omega
  simp only [view, erase, hc]

theorem programBlocks_view (blk n : Nat) (m : Mem) (base off : Nat) (data : List UInt8) :
    (programBlocks blk n (view m base) off data).1 = (programBlocks blk n m (base+off) data).1 ∧
    (programBlocks blk n (view m base) off data).2 =
      view (programBlocks blk n m (base+off) data).2 base := by
  induction n generalizing m off data with
  | zero => exact ⟨rfl, rfl⟩
  | succ n ih =>
    have he : erasedBlock (view m base) off blk = erasedBlock m (base+off) blk := by
      simp [erasedBlock, slice_view]
    unfold programBlocks
    rw [he]
    split
    · rw [← view_program, Nat.add_assoc]
      exact ih _ _ _
    · exact ⟨rfl, rfl⟩

end OrbFirmware.Nor

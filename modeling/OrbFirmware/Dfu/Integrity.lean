import OrbFirmware.Dfu.Sequencing

/-! An image sent block by block reaches the slot: what was received is what the slot holds up to
`flash_offset` and the buffer behind it, through every interleaving with the processing thread. -/
namespace OrbFirmware.Dfu
open Nor
variable {κ φ : Type*} {b : Build}

/-- An upload of the blocks `calls` that fits the slot. -/
structure Image (b : Build) (calls : List (LoadCall κ φ)) : Prop where
  count_pos : 0 < calls.length
  count_lt : calls.length < 2^32
  fits : calls.length*b.dfuBlockSizeMax ≤ b.secondarySlot.faSize
  blockNumber : ∀ k (h : k < calls.length), calls[k].blockNumber = .ofNat k
  blockCount : ∀ call ∈ calls, call.blockCount = .ofNat calls.length
  size : ∀ call ∈ calls, call.data.length ≤ b.dfuBlockSizeMax

/-- The payload of the first `k` blocks. -/
def received (calls : List (LoadCall κ φ)) (k : Nat) : List UInt8 := (calls.take k).flatMap (·.data)

theorem received_succ {calls : List (LoadCall κ φ)} {k : Nat} {call : LoadCall κ φ} (h : calls[k]? = some call) :
    received calls (k+1) = received calls k ++ call.data := by
  obtain ⟨hk, rfl⟩ := List.getElem?_eq_some_iff.mp h
  rw [received, received, List.take_succ_eq_append_getElem hk, List.flatMap_append, List.flatMap_singleton]

@[simp] theorem received_all (calls : List (LoadCall κ φ)) :
    received calls calls.length = calls.flatMap (·.data) := by
  rw [received, List.take_length]

/-! The buffer. -/

theorem put_inside {m : Mem} {off a : Nat} {data : List UInt8} (h : off ≤ a ∧ a < off+data.length) :
    put m off data a = data.getD (a-off) 0 := if_pos h

theorem put_outside {m : Mem} {off a : Nat} {data : List UInt8} (h : a < off ∨ off+data.length ≤ a) :
    put m off data a = m a := if_neg (by omega)

theorem slice_put (m : Mem) (off : Nat) (data : List UInt8) : slice (put m off data) off data.length = data := by
  rw [slice_eq_iff]
  intro i hi
  rw [put_inside (by omega), Nat.add_sub_cancel_left, List.getD_eq_getElem _ _ hi]

theorem slice_put_before {m : Mem} {off n : Nat} {data : List UInt8} (h : n ≤ off) :
    slice (put m off data) 0 n = slice m 0 n :=
  slice_congr fun _ _ ha => put_outside (by omega)

/-- Data put behind the first `off` bytes. -/
theorem slice_put_append (m : Mem) (off : Nat) (data : List UInt8) :
    slice (put m off data) 0 (off+data.length) = slice m 0 off ++ data := by
  rw [slice_add, Nat.zero_add, slice_put, slice_put_before (le_refl off)]

/-! The erased part of the slot. -/

/-- Sectors are erased up to `e`, bytes written up to `off`. -/
structure Frontier (b : Build) (slot : Mem) (off e : Nat) : Prop where
  sector : b.dfuFlashSectorSize ∣ e
  le : off ≤ e
  lt : e < off+b.dfuFlashSectorSize
  erased : Erased slot off e

/-- What the slot holds in `fl`. -/
abbrev slotContent (b : Build) (fl : Mem) : Mem := content b.secondarySlot fl

theorem content_eraseAt (fa : FlashArea) (m : Mem) (off len : Nat) :
    content fa (erase m (fa.faOff+off) len) = erase (content fa m) off len :=
  view_erase m fa.faOff off len

/-- The end of the erased part is the end of the sector that `off` lies in. -/
theorem Frontier.end_eq {slot : Mem} {off e : Nat} (h : Frontier b slot off e) :
    e = if off % b.dfuFlashSectorSize = 0 then off
      else off-off % b.dfuFlashSectorSize+b.dfuFlashSectorSize := by
  obtain ⟨n, hn⟩ := h.sector
  have hle := h.le
  have hlt := h.lt
  have hoff := Nat.div_add_mod off b.dfuFlashSectorSize
  have hpos : 0 < b.dfuFlashSectorSize := by
    have := b.sector_lt
    omega
  have hr := Nat.mod_lt off hpos
  generalize b.dfuFlashSectorSize = S at *
  generalize off % S = r at *
  generalize off/S = q at *
  split
  · have hnq : n < q+1 := Nat.lt_of_mul_lt_mul_left (a := S) (by rw [Nat.mul_add]; omega)
    have hqn : q < n+1 := Nat.lt_of_mul_lt_mul_left (a := S) (by rw [Nat.mul_add]; omega)
    have he : n = q := by omega
    subst he
    omega
  · have hqn : q < n := Nat.lt_of_mul_lt_mul_left (a := S) (by omega)
    have hnq : n < q+2 := Nat.lt_of_mul_lt_mul_left (a := S) (by rw [Nat.mul_add]; omega)
    have he : n = q+1 := by omega
    subst he
    rw [Nat.mul_add] at hn
    omega

/-- A chunk in whole writes ends in its sector or at its end. -/
theorem sector_room {off : Nat} (hoff : dfuBlocksWriteSize ∣ off) :
    off % b.dfuFlashSectorSize+dfuBlocksWriteSize ≤ b.dfuFlashSectorSize ∧
      2*dfuBlocksWriteSize ≤ b.dfuFlashSectorSize := by
  obtain ⟨s, hs⟩ := b.sector_dvd
  have hlt := b.sector_lt
  have hr := Nat.mod_lt off (show 0 < b.dfuFlashSectorSize by omega)
  obtain ⟨k, hk⟩ := (Nat.dvd_mod_iff b.sector_dvd).mpr hoff
  simp only [dfuBlocksWriteSize] at *
  omega

/-- Before a chunk is written, the sector it begins or runs into is erased next, or none is missing. -/
theorem Frontier.sectorToErase_eq {slot : Mem} {off e len : Nat} (h : Frontier b slot off e)
    (hoff : dfuBlocksWriteSize ∣ off) (hlen : len ≤ 2*dfuBlocksWriteSize) :
    (sectorToErase b off len = some e ∧ off+len ≤ e+b.dfuFlashSectorSize ∧ (e = off ∨ e < off+len)) ∨
      (sectorToErase b off len = none ∧ off+len ≤ e) := by
  obtain ⟨hroom, hsector⟩ := sector_room (b := b) hoff
  have he := h.end_eq
  have hmod := Nat.mod_le off b.dfuFlashSectorSize
  rw [sectorToErase]
  split_ifs at he ⊢ with h0 hstraddle
  · exact .inl ⟨by rw [he], by omega, .inl he⟩
  · exact .inl ⟨by rw [he], by omega, .inr (by omega)⟩
  · exact .inr ⟨rfl, by omega⟩

/-- Data programmed behind the first `off` bytes. -/
theorem slice_program_append {m : Mem} {off : Nat} {data : List UInt8} (h : Erased m off (off+data.length)) :
    slice (program m off data) 0 (off+data.length) = slice m 0 off ++ data := by
  rw [slice_add, Nat.zero_add, slice_program_erased h, slice_program_outside (.inl (by omega))]

/-! The stages of the upload, by where the token is. -/

section
variable (b) (calls : List (LoadCall κ φ)) (j e : Nat) (s : Shared κ φ)

/-- The first `j` blocks are in the slot up to `flash_offset` and in the buffer behind it. -/
structure Held : Prop where
  state : s.dfuState.state = .inProgress
  count : s.dfuState.blockCount = .ofNat calls.length
  holds : slice (slotContent b s.flash) 0 s.dfuState.flashOffset ++
    slice s.dfuState.bytes 0 s.dfuState.wrIdx = received calls j
  whole : dfuBlocksWriteSize ∣ s.dfuState.flashOffset

structure Buffered : Prop extends Held b calls j s where
  frontier : Frontier b (slotContent b s.flash) s.dfuState.flashOffset e

/-- The slot holds the image, filled up to a double-word. -/
def Complete : Prop :=
  ∃ pad < 8, 8 ∣ (calls.flatMap (·.data)).length+pad ∧
    slice (slotContent b s.flash) 0 ((calls.flatMap (·.data)).length+pad) =
      calls.flatMap (·.data) ++ List.replicate pad 0xff

/-- Between two blocks, or behind the last. -/
def Resting : Prop :=
  Buffered b calls j e s ∧ s.dfuState.wrIdx < dfuBlocksWriteSize ∧ j < calls.length ∨
    j = calls.length ∧ Complete b calls s

/-- A block is in the buffer and waits to be queued or processed. -/
structure Loaded : Prop extends Buffered b calls j e s where
  bound : s.dfuState.wrIdx < 2*dfuBlocksWriteSize-1
  pos : 0 < j
  le : j ≤ calls.length
  number : s.dfuState.blockNumber = .ofNat (j-1)

def Queued : Prop :=
  Loaded b calls j e s ∧ (dfuBlocksWriteSize ≤ s.dfuState.wrIdx ∨ j = calls.length)

def LoadingAt : LoadPc → Prop
  | .reset => (j = 0 → e = 0) ∧ (0 < j → Buffered b calls j e s ∧ s.dfuState.wrIdx < dfuBlocksWriteSize)
  | .blockNumber => Buffered b calls j e s ∧ s.dfuState.wrIdx < dfuBlocksWriteSize
  | .copy => Buffered b calls j e s ∧ s.dfuState.wrIdx < dfuBlocksWriteSize ∧
      s.dfuState.blockNumber = .ofNat j
  | .ctx | .cb | .queue => Loaded b calls j e s
  | _ => False

/-- A chunk before the last one is a whole write, the last one all that is left. -/
def Chunk (len : Nat) : Prop :=
  j < calls.length ∧ Held b calls j s ∧ len = dfuBlocksWriteSize ∧
      dfuBlocksWriteSize ≤ s.dfuState.wrIdx ∧ s.dfuState.wrIdx < 2*dfuBlocksWriteSize ∨
    j = calls.length ∧ s.dfuState.wrIdx ≤ len ∧ len < s.dfuState.wrIdx+8 ∧ 8 ∣ s.dfuState.flashOffset+len ∧
      slice (slotContent b s.flash) 0 s.dfuState.flashOffset ++ slice s.dfuState.bytes 0 len =
        calls.flatMap (·.data) ++ List.replicate (len-s.dfuState.wrIdx) 0xff

/-- The sectors of the next chunk are erased, and before the last one no further ones. -/
structure ErasedAhead (len : Nat) : Prop where
  sector : b.dfuFlashSectorSize ∣ e
  le : s.dfuState.flashOffset+len ≤ e
  erased : Erased (slotContent b s.flash) s.dfuState.flashOffset e
  lt : j < calls.length → e < s.dfuState.flashOffset+len+b.dfuFlashSectorSize

def ProcessingAt : ConsumerPc φ → Prop
  | .openArea | .checkSize | .prepare => Queued b calls j e s
  | .erase len => Chunk b calls j s len ∧ len ≤ 2*dfuBlocksWriteSize ∧
      dfuBlocksWriteSize ∣ s.dfuState.flashOffset ∧
      Frontier b (slotContent b s.flash) s.dfuState.flashOffset e
  | .write len => Chunk b calls j s len ∧ ErasedAhead b calls j e s len
  | .shift len => Resting b calls j e (consumerStep (ι := Unit) b s .success (.shift len)).2.1
  | .give .blocks _ => Resting b calls j e s
  | _ => False

end

/-- The call in progress is that of the block to be copied, until it is. -/
def CallerFits (calls : List (LoadCall κ φ)) (k j : Nat) : CallerPc κ φ → Prop
  | .idle => k = j
  | .load _ .ctx | .load _ .cb | .load _ .queue => k = j
  | .load call _ => k = j+1 ∧ calls[j]? = some call
  | .check _ _ | .activate _ => False

def At (b : Build) (calls : List (LoadCall κ φ)) (j e : Nat) (s : DfuSystem Unit κ φ) : Owner Unit → Prop
  | .freeSpace => Resting b calls j e s.shared
  | .caller _ => ∃ call pc, s.callers () = .load call pc ∧ LoadingAt b calls j e s.shared pc
  | .full => Queued b calls j e s.shared
  | .consumer => ProcessingAt b calls j e s.shared s.consumer

/-- `k` blocks were sent, `j` are in the buffer, and the sectors up to `e` are erased. -/
structure UploadInv (b : Build) (calls : List (LoadCall κ φ)) (k e j : Nat) (s : DfuSystem Unit κ φ) :
    Prop where
  place : ∃ o, Owned s o ∧ At b calls j e s o
  caller : CallerFits calls k j (s.callers ())

/-! What a run shows. -/

/-- The end of the erased sectors. -/
def frontierStep (e : Nat) : Event Unit κ φ → Unit × Nat
  | .erased off len _ => ((), off+len)
  | _ => ((), e)

/-- Sectors are erased one behind the other, and bytes written below the last one. -/
def EraseFirst (b : Build) (e : Nat) : Event Unit κ φ → Prop
  | .erased off len ok => off = e ∧ len = b.dfuFlashSectorSize ∧ ok = true
  | .wrote off len _ => off+len ≤ e
  | _ => True

/-- The call is accepted, the flash operation does not fail. -/
def Event.Carried : Event Unit κ φ → Prop
  | .returned _ _ ret => ret.accepted = true
  | .erased _ _ ok | .wrote _ _ ok => ok = true
  | _ => True

def called (tr : List (Event Unit κ φ)) : List (DfuCall κ φ) :=
  tr.filterMap fun
    | .called _ call => some call
    | _ => none

/-- The blocks behind block 0 are sent in order, every call is accepted and no flash operation fails. -/
structure SentInOrder (calls : List (LoadCall κ φ)) (tr : List (Event Unit κ φ)) : Prop where
  called : called tr <+: calls.tail.map .load
  carried : ∀ ev ∈ tr, ev.Carried

/-- The driver's answers in a step. -/
def DriverOk : Action Unit κ φ → Prop
  | .consume outcome => outcome = .success
  | _ => True

/-! The stages do not ask for the semaphores or the callback. -/

variable {calls : List (LoadCall κ φ)} {k j e : Nat} {s s' : Shared κ φ}

/-- The upload in `s'` is that in `s`. -/
structure SameUpload (s s' : Shared κ φ) : Prop where
  bytes : s'.dfuState.bytes = s.dfuState.bytes
  wrIdx : s'.dfuState.wrIdx = s.dfuState.wrIdx
  blockCount : s'.dfuState.blockCount = s.dfuState.blockCount
  flashOffset : s'.dfuState.flashOffset = s.dfuState.flashOffset
  state : s'.dfuState.state = s.dfuState.state
  flash : s'.flash = s.flash

theorem Held.same (h : Held b calls j s) (hs : SameUpload s s') : Held b calls j s' := by
  refine ⟨?_, ?_, ?_, ?_⟩
  · rw [hs.state]
    exact h.state
  · rw [hs.blockCount]
    exact h.count
  · rw [hs.flash, hs.flashOffset, hs.bytes, hs.wrIdx]
    exact h.holds
  · rw [hs.flashOffset]
    exact h.whole

theorem Buffered.same (h : Buffered b calls j e s) (hs : SameUpload s s') : Buffered b calls j e s' := by
  refine ⟨h.toHeld.same hs, ?_⟩
  rw [hs.flash, hs.flashOffset]
  exact h.frontier

theorem Loaded.same (h : Loaded b calls j e s) (hs : SameUpload s s')
    (hn : s'.dfuState.blockNumber = s.dfuState.blockNumber) : Loaded b calls j e s' :=
  ⟨h.toBuffered.same hs, by rw [hs.wrIdx]; exact h.bound, h.pos, h.le, by rw [hn]; exact h.number⟩

theorem Resting.same (h : Resting b calls j e s) (hs : SameUpload s s') : Resting b calls j e s' := by
  rcases h with ⟨h, hw, hj⟩ | ⟨hj, pad, hpad, h⟩
  · exact .inl ⟨h.same hs, by rw [hs.wrIdx]; exact hw, hj⟩
  · refine .inr ⟨hj, pad, hpad, ?_⟩
    rw [hs.flash]
    exact h

/-! `dfu_load`. -/

/-- Nothing received, nothing erased. -/
theorem Buffered.frontier_zero (h : Buffered b calls 0 e s) : e = 0 := by
  have hempty : received calls 0 = [] := rfl
  have hlen := congrArg List.length (h.holds.trans hempty)
  rw [List.length_append, slice_length, slice_length, List.length_nil] at hlen
  have hoff : s.dfuState.flashOffset = 0 := by omega
  have he := h.frontier.end_eq
  rwa [hoff, Nat.zero_mod, if_pos rfl] at he

theorem Image.ofNat_eq {n m : Nat} (hn : n < 2^32) (hm : m < 2^32) (h : UInt32.ofNat n = .ofNat m) : n = m := by
  have h := congrArg UInt32.toNat h
  rwa [UInt32.toNat_ofNat', UInt32.toNat_ofNat', Nat.mod_eq_of_lt hn, Nat.mod_eq_of_lt hm] at h

/-- The last block is found by its number. -/
theorem Loaded.lastBlock_iff (himg : Image b calls) (h : Loaded b calls j e s) :
    s.dfuState.blockNumber = s.dfuState.blockCount-1 ↔ j = calls.length := by
  have hpos := himg.count_pos
  have hlt := himg.count_lt
  have hj := h.pos
  have hle := h.le
  have hlast : (UInt32.ofNat calls.length)-1 = .ofNat (calls.length-1) := by
    have hsplit : calls.length = calls.length-1+1 := by omega
    rw [hsplit, UInt32.ofNat_add]
    simp
  rw [h.number, h.count, hlast]
  constructor
  · intro heq
    have heq := Image.ofNat_eq (by omega) (by omega) heq
    omega
  · intro heq
    rw [heq]

section
variable {s : DfuSystem Unit κ φ} {o : Owner Unit} {call : LoadCall κ φ} {pc : LoadPc} {pc' : CallerPc κ φ}

theorem UploadInv.loading (h : UploadInv b calls k e j s) (hi : s.callers () = .load call pc)
    (hpc : pc.holds = true) : Owned s (.caller ()) ∧ LoadingAt b calls j e s.shared pc := by
  obtain ⟨o, ho, hat⟩ := h.place
  obtain rfl : o = .caller () := (ho.caller ()).mp (by rw [hi]; exact hpc)
  obtain ⟨call', pc', hi', hat⟩ := hat
  rw [hi] at hi'
  obtain ⟨rfl, rfl⟩ := CallerPc.load.inj hi'
  exact ⟨ho, hat⟩

theorem UploadInv.goes {e' : Nat} {shared : Shared κ φ} (ho : Owned (s.goes () shared pc') o)
    (hat : At b calls j e' (s.goes () shared pc') o) (hfits : CallerFits calls k j pc') :
    UploadInv b calls k e' j (s.goes () shared pc') :=
  ⟨⟨o, ho, hat⟩, by rw [DfuSystem.goes_same]; exact hfits⟩

/-- A caller that goes on outside of its part leaves the upload where it is. -/
theorem UploadInv.outside (h : UploadInv b calls k e j s) {k' : Nat} (hin : (s.callers ()).holds = false)
    (hpc : pc'.holds = false) (hfits : CallerFits calls k' j pc') :
    UploadInv b calls k' e j (s.goes () s.shared pc') := by
  obtain ⟨o, ho, hat⟩ := h.place
  refine .goes (ho.move rfl rfl (hpc.trans hin.symm)) ?_ hfits
  cases o with
  | caller i =>
    have hcaller := (ho.caller ()).mpr rfl
    rw [hin] at hcaller
    contradiction
  | freeSpace | full | consumer => exact hat

/-- A caller that goes on inside of it. -/
theorem UploadInv.inside {j' e' : Nat} {shared : Shared κ φ} (ho : Owned s (.caller ()))
    (hin : (s.callers ()).holds = true) (hfree : shared.freeSpace = s.shared.freeSpace)
    (hfull : shared.full = s.shared.full) (hpc : pc.holds = true) (hat : LoadingAt b calls j' e' shared pc)
    (hfits : CallerFits calls k j' (.load call pc)) :
    UploadInv b calls k e' j' (s.goes () shared (.load call pc)) :=
  .goes (ho.move hfree hfull (hin.symm ▸ hpc)) ⟨call, pc, DfuSystem.goes_same _ _ _ _, hat⟩ hfits

/-- What a step shows of the erased sectors, and what it keeps. -/
def KeepsUpload (b : Build) (calls : List (LoadCall κ φ)) (k e : Nat)
    (r : List (Event Unit κ φ) × DfuSystem Unit κ φ) : Prop :=
  Machine.Meets frontierStep (EraseFirst b) e r.1 ∧
    ∃ j, UploadInv b calls (k+(called r.1).length) (Machine.run frontierStep e r.1).2 j r.2

theorem UploadInv.load_step (himg : Image b calls) (h : UploadInv b calls k e j s)
    (hi : s.callers () = .load call pc) (hcarried : ∀ ev ∈ (dfuStep b s (.run ())).1, ev.Carried) :
    KeepsUpload b calls k e (dfuStep b s (.run ())) := by
  have hfits := h.caller
  have hblock := b.block_lt
  rw [hi] at hfits
  simp only [dfuStep, hi] at hcarried ⊢
  cases pc with
  | number | count =>
    simp only [loadStep] at hcarried ⊢
    split_ifs at hcarried ⊢
    · simp [DfuSystem.advance, Event.Carried, DfuRet.accepted] at hcarried
    · exact ⟨trivial, j, h.outside (by rw [hi]; rfl) rfl hfits⟩
  | take =>
    simp only [loadStep] at hcarried ⊢
    split_ifs at hcarried ⊢ with hfree
    · obtain ⟨o, ho, hat⟩ := h.place
      obtain rfl := ho.freeSpace.mp hfree
      obtain ⟨hbuf, hw, -⟩ | ⟨hj, -⟩ := hat
      · have hat : LoadingAt b calls j e { s.shared with freeSpace := false } .reset := by
          refine ⟨fun hj => ?_, fun _ => ⟨hbuf.same ⟨rfl, rfl, rfl, rfl, rfl, rfl⟩, hw⟩⟩
          subst hj
          exact hbuf.frontier_zero
        exact ⟨trivial, j, .goes (ho.take hfree rfl rfl rfl)
          ⟨call, .reset, DfuSystem.goes_same _ _ _ _, hat⟩ hfits⟩
      · obtain ⟨hlt, -⟩ := List.getElem?_eq_some_iff.mp hfits.2
        omega
    · simp [DfuSystem.advance, Event.Carried, DfuRet.accepted] at hcarried
  | reset =>
    obtain ⟨ho, hzero, hmore⟩ := h.loading hi rfl
    obtain ⟨hj, hcall⟩ := List.getElem?_eq_some_iff.mp hfits.2
    have hnumber := himg.blockNumber j hj
    have hcount := himg.blockCount _ (List.getElem_mem hj)
    rw [hcall] at hnumber hcount
    have hlt := himg.count_lt
    simp only [loadStep]
    split_ifs with h0
    · obtain rfl : j = 0 := Image.ofNat_eq (m := 0) (by omega) (by omega) (hnumber.symm.trans h0)
      obtain rfl := hzero rfl
      have hsector := b.sector_lt
      have hwidth : 0 < dfuBlocksWriteSize := by decide
      refine ⟨trivial, 0, .inside ho (by rw [hi]; rfl) rfl rfl rfl ⟨⟨⟨rfl, hcount, rfl, dvd_zero _⟩,
        ⟨dvd_zero _, le_refl _, ?_, fun a _ h2 => absurd h2 (Nat.not_lt_zero a)⟩⟩, hwidth⟩ hfits⟩
      change 0 < 0+b.dfuFlashSectorSize
      omega
    · have hpos : 0 < j := by
        refine Nat.pos_of_ne_zero fun hj0 => h0 ?_
        rw [hnumber, hj0]
        rfl
      exact ⟨trivial, j, .inside ho (by rw [hi]; rfl) rfl rfl rfl (hmore hpos) hfits⟩
  | blockNumber =>
    obtain ⟨ho, hbuf, hw⟩ := h.loading hi rfl
    obtain ⟨hj, hcall⟩ := List.getElem?_eq_some_iff.mp hfits.2
    have hnumber := himg.blockNumber j hj
    rw [hcall] at hnumber
    exact ⟨trivial, j, .inside ho (by rw [hi]; rfl) rfl rfl rfl
      ⟨hbuf.same ⟨rfl, rfl, rfl, rfl, rfl, rfl⟩, hw, hnumber⟩ hfits⟩
  | copy =>
    obtain ⟨ho, hbuf, hw, hnumber⟩ := h.loading hi rfl
    obtain ⟨hj, hcall⟩ := List.getElem?_eq_some_iff.mp hfits.2
    have hsize := himg.size _ (List.getElem_mem hj)
    rw [hcall] at hsize
    simp only [loadStep] at hcarried ⊢
    split_ifs at hcarried ⊢
    · simp [DfuSystem.advance, Event.Carried, DfuRet.accepted] at hcarried
    · refine ⟨⟨trivial, trivial⟩, j+1, .inside ho (by rw [hi]; rfl) rfl rfl rfl
        ⟨⟨⟨hbuf.state, hbuf.count, ?_, hbuf.whole⟩, hbuf.frontier⟩, ?_, by omega, hj, hnumber⟩ hfits.1⟩
      · dsimp only
        rw [slice_put_append, ← List.append_assoc, hbuf.holds, received_succ hfits.2]
      · dsimp only
        omega
  | ctx | cb =>
    obtain ⟨ho, hload⟩ := h.loading hi rfl
    exact ⟨trivial, j, .inside ho (by rw [hi]; rfl) rfl rfl rfl
      (hload.same ⟨rfl, rfl, rfl, rfl, rfl, rfl⟩ rfl) hfits⟩
  | queue =>
    obtain ⟨ho, hload⟩ := h.loading hi rfl
    have hlast := hload.lastBlock_iff himg
    simp only [loadStep]
    split_ifs with hqueue
    · rw [hlast] at hqueue
      exact ⟨⟨trivial, trivial⟩, j, .goes (o := .full) (ho.release rfl (.inr ⟨rfl, rfl, rfl⟩))
        ⟨hload.same ⟨rfl, rfl, rfl, rfl, rfl, rfl⟩ rfl, hqueue⟩ hfits⟩
    · rw [hlast, not_or, not_le] at hqueue
      have hle := hload.le
      exact ⟨⟨trivial, trivial⟩, j, .goes (o := .freeSpace) (ho.release rfl (.inl ⟨rfl, rfl, rfl⟩))
        (.inl ⟨hload.toBuffered.same ⟨rfl, rfl, rfl, rfl, rfl, rfl⟩, hqueue.1, by omega⟩) hfits⟩

end

/-! A round of the processing thread. -/

/-- The buffer filled up behind the last block. -/
def padded (s : Shared κ φ) : Shared κ φ :=
  { s with dfuState := { s.dfuState with
      bytes := put s.dfuState.bytes s.dfuState.wrIdx
        (List.replicate (paddedLen s.dfuState.wrIdx-s.dfuState.wrIdx) 0xff), state := .finishedVerify } }

theorem Loaded.lastChunk (h : Loaded b calls calls.length e s) :
    Chunk b calls calls.length (padded s) (paddedLen s.dfuState.wrIdx) := by
  obtain ⟨hdvd, hle, hlt⟩ := paddedLen_spec s.dfuState.wrIdx
  have hwhole : 8 ∣ s.dfuState.flashOffset := Nat.dvd_trans (by decide) h.whole
  refine .inr ⟨rfl, hle, hlt, Nat.dvd_add hwhole hdvd, ?_⟩
  have hput := slice_put_append s.dfuState.bytes s.dfuState.wrIdx
    (List.replicate (paddedLen s.dfuState.wrIdx-s.dfuState.wrIdx) 0xff)
  rw [List.length_replicate, Nat.add_sub_cancel' hle] at hput
  simp only [padded]
  rw [hput, ← List.append_assoc, h.holds, received_all]

/-- What lies behind `flash_offset` in the slot does not matter. -/
theorem Chunk.flash {len : Nat} {fl : Mem} (h : Chunk b calls j s len)
    (hfl : slice (slotContent b fl) 0 s.dfuState.flashOffset =
      slice (slotContent b s.flash) 0 s.dfuState.flashOffset) :
    Chunk b calls j { s with flash := fl } len := by
  rcases h with ⟨hj, hheld, hlen, hw, hw'⟩ | ⟨hj, hle, hlt, hdvd, hdata⟩
  · refine .inl ⟨hj, ⟨hheld.state, hheld.count, ?_, hheld.whole⟩, hlen, hw, hw'⟩
    dsimp only
    rw [hfl]
    exact hheld.holds
  · refine .inr ⟨hj, hle, hlt, hdvd, ?_⟩
    dsimp only
    rw [hfl]
    exact hdata

/-- A sector erased at the frontier makes room for the chunk. -/
theorem Chunk.erase_next {len : Nat} (h : Chunk b calls j s len)
    (hfront : Frontier b (slotContent b s.flash) s.dfuState.flashOffset e)
    (hroom : s.dfuState.flashOffset+len ≤ e+b.dfuFlashSectorSize)
    (hnext : e = s.dfuState.flashOffset ∨ e < s.dfuState.flashOffset+len) :
    let fl := erase s.flash (b.secondarySlot.faOff+e) b.dfuFlashSectorSize
    Chunk b calls j { s with flash := fl } len ∧
      ErasedAhead b calls j (e+b.dfuFlashSectorSize) { s with flash := fl } len := by
  have hle := hfront.le
  have hcontent := content_eraseAt b.secondarySlot s.flash e b.dfuFlashSectorSize
  dsimp only
  refine ⟨h.flash ?_, ⟨(Nat.dvd_add_self_right).mpr hfront.sector, hroom, fun a h1 h2 => ?_, fun hj => ?_⟩⟩
  · rw [slotContent, hcontent]
    exact slice_congr fun _ _ ha => erase_outside (by omega)
  · rw [slotContent, hcontent]
    by_cases ha : a < e
    · rw [erase_outside (.inl ha)]
      exact hfront.erased a h1 ha
    · exact erase_erased _ _ _ a (by omega) h2
  · rcases h with ⟨-, -, rfl, -⟩ | ⟨hn, -⟩
    · have hwidth : 0 < dfuBlocksWriteSize := by decide
      dsimp only
      omega
    · omega

/-- The chunk that is written joins what the slot holds. -/
theorem Chunk.written {len : Nat} (h : Chunk b calls j s len) (hahead : ErasedAhead b calls j e s len) :
    let fl := program s.flash (b.secondarySlot.faOff+s.dfuState.flashOffset) (slice s.dfuState.bytes 0 len)
    Resting b calls j e
      (consumerStep (ι := Unit) b { s with flash := fl } .success (.shift len) : _ × Shared κ φ × _).2.1 := by
  have hle := hahead.le
  have hlen := slice_length s.dfuState.bytes 0 len
  have herased : Erased (slotContent b s.flash) s.dfuState.flashOffset
      (s.dfuState.flashOffset+(slice s.dfuState.bytes 0 len).length) :=
    hahead.erased.mono (le_refl _) (by omega)
  have hslot := slice_program_append herased
  have hcontent := content_program b.secondarySlot s.flash s.dfuState.flashOffset (slice s.dfuState.bytes 0 len)
  rw [hlen] at hslot
  rcases h with ⟨hj, hheld, rfl, hw, hw'⟩ | ⟨rfl, hle', hlt, hdvd, hdata⟩
  · simp only [consumerStep, if_pos hw]
    refine .inl ⟨⟨⟨hheld.state, hheld.count, ?_, ?_⟩, ⟨hahead.sector, hle, hahead.lt hj, fun a h1 h2 => ?_⟩⟩,
      ?_, hj⟩
    · have hshift : slice (put s.dfuState.bytes 0 (slice s.dfuState.bytes dfuBlocksWriteSize
          (s.dfuState.wrIdx-dfuBlocksWriteSize))) 0 (s.dfuState.wrIdx-dfuBlocksWriteSize) =
            slice s.dfuState.bytes dfuBlocksWriteSize (s.dfuState.wrIdx-dfuBlocksWriteSize) := by
        have hput := slice_put s.dfuState.bytes 0
          (slice s.dfuState.bytes dfuBlocksWriteSize (s.dfuState.wrIdx-dfuBlocksWriteSize))
        rwa [slice_length] at hput
      have hbuf := slice_add s.dfuState.bytes 0 dfuBlocksWriteSize (s.dfuState.wrIdx-dfuBlocksWriteSize)
      rw [Nat.add_sub_cancel' hw, Nat.zero_add] at hbuf
      dsimp only
      rw [slotContent, hcontent, hslot, hshift, List.append_assoc, ← hbuf]
      exact hheld.holds
    · exact Nat.dvd_add hheld.whole (Nat.dvd_refl _)
    · dsimp only at h1 ⊢
      rw [slotContent, hcontent, program_outside (.inr (by omega))]
      exact hahead.erased a (by omega) h2
    · dsimp only
      omega
  · have hlength := congrArg List.length hdata
    simp only [List.length_append, slice_length, List.length_replicate] at hlength
    refine .inr ⟨rfl, len-s.dfuState.wrIdx, by omega, ?_⟩
    simp only [consumerStep]
    rw [← hlength, slotContent, hcontent, hslot, hdata]
    exact ⟨hdvd, rfl⟩

section
variable {s : DfuSystem Unit κ φ} {o : Owner Unit} {shared : Shared κ φ} {consumer : ConsumerPc φ}

theorem UploadInv.processing (h : UploadInv b calls k e j s) (hc : s.consumer = consumer)
    (hin : consumer.holds = true) : Owned s .consumer ∧ ProcessingAt b calls j e s.shared consumer := by
  obtain ⟨o, ho, hat⟩ := h.place
  obtain rfl := ho.consumer.mp (hc ▸ hin)
  exact ⟨ho, hc ▸ hat⟩

/-- The processing thread goes on inside of its part. -/
theorem UploadInv.processes {e' : Nat} {consumer' : ConsumerPc φ} (h : UploadInv b calls k e j s)
    (hc : s.consumer = consumer) (hin : consumer.holds = true) (hfree : shared.freeSpace = s.shared.freeSpace)
    (hfull : shared.full = s.shared.full) (hpc : consumer'.holds = true)
    (hat : ProcessingAt b calls j e' shared consumer') :
    UploadInv b calls k e' j { s with shared, consumer := consumer' } := by
  obtain ⟨ho, -⟩ := h.processing hc hin
  exact ⟨⟨.consumer, ho.consume_move hfree hfull (by rw [hpc, hc, hin]), hat⟩, h.caller⟩

/-- Outside of it, it changes nothing. -/
theorem UploadInv.consumes_outside {consumer' : ConsumerPc φ} (h : UploadInv b calls k e j s)
    (hc : s.consumer = consumer) (hin : consumer.holds = false) (hpc : consumer'.holds = false) :
    UploadInv b calls k e j { s with consumer := consumer' } := by
  obtain ⟨o, ho, hat⟩ := h.place
  refine ⟨⟨o, ho.consume_move rfl rfl (by rw [hpc, hc, hin]), ?_⟩, h.caller⟩
  cases o with
  | consumer =>
    have hconsumer := ho.consumer.mpr rfl
    rw [hc, hin] at hconsumer
    contradiction
  | freeSpace | full | caller => exact hat

theorem UploadInv.consume_step (himg : Image b calls) (h : UploadInv b calls k e j s)
    (hcarried : ∀ ev ∈ (dfuStep b s (.consume .success)).1, ev.Carried) :
    KeepsUpload b calls k e (dfuStep b s (.consume .success)) := by
  simp only [dfuStep] at hcarried ⊢
  cases hc : s.consumer with
  | waiting =>
    simp only [consumerStep]
    split_ifs with hfull
    · obtain ⟨o, ho, hat⟩ := h.place
      obtain rfl := ho.full.mp hfull
      obtain ⟨hload, hqueue⟩ := hat
      rw [hload.state]
      exact ⟨trivial, j, ⟨.consumer, ho.consume_take rfl rfl rfl,
        hload.same ⟨rfl, rfl, rfl, rfl, rfl, rfl⟩ rfl, hqueue⟩, h.caller⟩
    · exact ⟨trivial, j, h.consumes_outside hc rfl rfl⟩
  | openArea =>
    obtain ⟨-, hqueued⟩ := h.processing hc rfl
    simp only [consumerStep, if_true]
    exact ⟨trivial, j, h.processes hc rfl rfl rfl rfl hqueued⟩
  | checkSize =>
    obtain ⟨-, hload, hqueue⟩ := h.processing hc rfl
    have hlt := himg.count_lt
    have hfits := himg.fits
    have hmod := Nat.mod_le (calls.length*b.dfuBlockSizeMax) (2^32)
    have hroom : ¬ (s.shared.dfuState.flashOffset = 0 ∧
        b.secondarySlot.faSize < s.shared.dfuState.blockCount.toNat*b.dfuBlockSizeMax % 2^32) := by
      rw [hload.count, UInt32.toNat_ofNat', Nat.mod_eq_of_lt hlt]
      omega
    simp only [consumerStep, if_neg hroom]
    exact ⟨trivial, j, h.processes hc rfl rfl rfl rfl ⟨hload, hqueue⟩⟩
  | prepare =>
    obtain ⟨-, hload, hqueue⟩ := h.processing hc rfl
    have hlast := hload.lastBlock_iff himg
    have hbound := hload.bound
    have hle := hload.le
    obtain ⟨hdvd, -, hlt⟩ := paddedLen_spec s.shared.dfuState.wrIdx
    have hwidth : dfuBlocksWriteSize = 64 := rfl
    by_cases hn : s.shared.dfuState.blockNumber = s.shared.dfuState.blockCount-1
    · obtain rfl := hlast.mp hn
      have hkeep : UploadInv b calls k e _ { s with
          shared := padded s.shared, consumer := .erase (paddedLen s.shared.dfuState.wrIdx) } :=
        h.processes hc rfl rfl rfl rfl ⟨hload.lastChunk, by omega, hload.whole, hload.frontier⟩
      simp only [consumerStep, lastBlock, decide_eq_true hn, if_true]
      split_ifs
      · exact ⟨⟨trivial, trivial⟩, _, hkeep⟩
      · exact ⟨trivial, _, hkeep⟩
    · have hj : j ≠ calls.length := fun hj => hn (hlast.mpr hj)
      have hw := hqueue.resolve_right hj
      have hw' : s.shared.dfuState.wrIdx < 2*dfuBlocksWriteSize := by omega
      have hchunk : Chunk b calls j s.shared dfuBlocksWriteSize :=
        .inl ⟨by omega, hload.toHeld, rfl, hw, hw'⟩
      simp only [consumerStep, lastBlock, decide_eq_false hn]
      exact ⟨trivial, j, h.processes hc rfl rfl rfl rfl ⟨hchunk, by omega, hload.whole, hload.frontier⟩⟩
  | erase len =>
    obtain ⟨-, hchunk, hlen, hwhole, hfront⟩ := h.processing hc rfl
    rw [hc] at hcarried
    obtain ⟨hsec, hroom, hnext⟩ | ⟨hsec, hroom⟩ := hfront.sectorToErase_eq hwhole hlen
    · cases hfl : flashAreaErase b.secondarySlot e b.dfuFlashSectorSize
          ⟨s.shared.flash, fun _ _ => true⟩ with
      | mk ok fl =>
        simp only [consumerStep, hsec, decide_true, hfl] at hcarried ⊢
        obtain rfl : ok = true := hcarried _ (List.mem_singleton_self _)
        obtain ⟨hchunk', hahead⟩ := hchunk.erase_next hfront hroom hnext
        have hmem : fl.mem = erase s.shared.flash (b.secondarySlot.faOff+e) b.dfuFlashSectorSize :=
          flashAreaErase_true hfl
        rw [hmem]
        exact ⟨⟨⟨rfl, rfl, rfl⟩, trivial⟩, j, h.processes hc rfl rfl rfl rfl ⟨hchunk', hahead⟩⟩
    · have hlt := hfront.lt
      have hlt' : e < s.shared.dfuState.flashOffset+len+b.dfuFlashSectorSize := by omega
      simp only [consumerStep, hsec]
      exact ⟨trivial, j, h.processes hc rfl rfl rfl rfl
        ⟨hchunk, hfront.sector, hroom, hfront.erased, fun _ => hlt'⟩⟩
  | write len =>
    obtain ⟨-, hchunk, hahead⟩ := h.processing hc rfl
    have hle := hahead.le
    rw [hc] at hcarried
    cases hfl : flashAreaWrite b.board b.secondarySlot s.shared.dfuState.flashOffset
        (slice s.shared.dfuState.bytes 0 len)
        ⟨s.shared.flash, fun _ _ => true⟩ with
    | mk ok fl =>
      simp only [consumerStep, decide_true, hfl] at hcarried ⊢
      obtain rfl : ok = true := hcarried _ (List.mem_cons_of_mem _ (List.mem_singleton_self _))
      obtain ⟨-, hmem⟩ := flashAreaWrite_true hfl
      rw [hmem]
      exact ⟨⟨trivial, hle, trivial⟩, j, h.processes hc rfl rfl rfl rfl (hchunk.written hahead)⟩
  | shift len =>
    obtain ⟨ho, hrest⟩ := h.processing hc rfl
    have hkeep : UploadInv b calls k e j { s with
        shared := (consumerStep (ι := Unit) b s.shared .success (.shift len)).2.1,
        consumer := .give .blocks .success } := h.processes hc rfl rfl rfl rfl hrest
    simp only [consumerStep] at hkeep ⊢
    split_ifs at hkeep ⊢
    · exact ⟨⟨trivial, trivial⟩, j, hkeep⟩
    · exact ⟨trivial, j, hkeep⟩
  | verify => exact (h.processing hc rfl).2.elim
  | give round err =>
    cases round with
    | blocks =>
      obtain ⟨ho, hrest⟩ := h.processing hc rfl
      exact ⟨⟨trivial, trivial⟩, j, ⟨.freeSpace, ho.consume_give rfl rfl rfl,
        hrest.same ⟨rfl, rfl, rfl, rfl, rfl, rfl⟩⟩, h.caller⟩
    | verify => exact (h.processing hc rfl).2.elim
  | testCb err =>
    simp only [consumerStep]
    split <;> exact ⟨trivial, j, h.consumes_outside hc rfl rfl⟩
  | callCb cb err => exact ⟨⟨trivial, trivial⟩, j, h.consumes_outside hc rfl rfl⟩

end

/-! Runs. -/

theorem UploadInv.step (himg : Image b calls) {s : DfuSystem Unit κ φ} (h : UploadInv b calls k e j s)
    {a : Action Unit κ φ} (hdriver : DriverOk a) (hcarried : ∀ ev ∈ (dfuStep b s a).1, ev.Carried)
    (hcalled : called (dfuStep b s a).1 <+: (calls.drop k).map .load) :
    KeepsUpload b calls k e (dfuStep b s a) := by
  have hfits := h.caller
  cases a with
  | call i call =>
    cases hi : s.callers () with
    | idle =>
      rw [hi] at hfits
      obtain rfl : k = j := hfits
      simp only [dfuStep, hi] at hcalled ⊢
      obtain ⟨rest, hrest⟩ := hcalled
      obtain ⟨next, l, hdrop, rfl, -⟩ := List.map_eq_cons_iff.mp hrest.symm
      have hnext : calls[k]? = some next := by
        rw [← List.head?_drop, hdrop]
        rfl
      exact ⟨⟨trivial, trivial⟩, k, h.outside (by rw [hi]; rfl) rfl ⟨rfl, hnext⟩⟩
    | load | check | activate =>
      simp only [dfuStep, hi]
      exact ⟨trivial, j, h⟩
  | run i =>
    cases hi : s.callers () with
    | idle =>
      simp only [dfuStep, hi]
      exact ⟨trivial, j, h⟩
    | load call pc => exact h.load_step himg hi hcarried
    | check call pc | activate pending =>
      rw [hi] at hfits
      exact hfits.elim
  | timeout i =>
    cases hi : s.callers () with
    | idle | load | activate =>
      simp only [dfuStep, hi]
      exact ⟨trivial, j, h⟩
    | check call pc =>
      rw [hi] at hfits
      exact hfits.elim
  | consume outcome =>
    obtain rfl : outcome = .success := hdriver
    exact h.consume_step himg hcarried

theorem called_append (tr tr' : List (Event Unit κ φ)) : called (tr ++ tr') = called tr ++ called tr' :=
  List.filterMap_append

theorem SentInOrder.left {tr tr' : List (Event Unit κ φ)} (h : SentInOrder calls (tr ++ tr')) :
    SentInOrder calls tr := by
  refine ⟨?_, fun ev hev => h.carried ev (List.mem_append_left _ hev)⟩
  have hcalled := h.called
  rw [called_append] at hcalled
  exact (List.prefix_append _ _).trans hcalled

/-- Along a run of the upload the invariant holds and the sectors are erased in order. -/
theorem UploadInv.run (himg : Image b calls) {s : DfuSystem Unit κ φ} (h : UploadInv b calls 1 0 0 s)
    {actions : List (Action Unit κ φ)} (hdriver : ∀ a ∈ actions, DriverOk a)
    (hsent : SentInOrder calls (Machine.events (dfuStep b) s actions)) :
    let tr := Machine.events (dfuStep b) s actions
    Machine.Meets frontierStep (EraseFirst b) 0 tr ∧
      ∃ j, UploadInv b calls (1+(called tr).length) (Machine.run frontierStep 0 tr).2 j
        (Machine.run (dfuStep b) s actions).2 := by
  have hstep (tr : List (Event Unit κ φ)) (s : DfuSystem Unit κ φ) (a : Action Unit κ φ)
      (hs : Machine.Meets frontierStep (EraseFirst b) 0 tr ∧
        ∃ j, UploadInv b calls (1+(called tr).length) (Machine.run frontierStep 0 tr).2 j s)
      (ha : DriverOk a) (hsent : SentInOrder calls (tr ++ (dfuStep b s a).1)) :
      Machine.Meets frontierStep (EraseFirst b) 0 (tr ++ (dfuStep b s a).1) ∧
        ∃ j, UploadInv b calls (1+(called (tr ++ (dfuStep b s a).1)).length)
          (Machine.run frontierStep 0 (tr ++ (dfuStep b s a).1)).2 j (dfuStep b s a).2 := by
    obtain ⟨hmeets, j, hinv⟩ := hs
    have hnext : called (dfuStep b s a).1 <+: (calls.drop (1+(called tr).length)).map .load := by
      obtain ⟨rest, hrest⟩ := hsent.called
      have hdrop := congrArg (List.drop (called tr).length) hrest
      rw [called_append, List.append_assoc, List.drop_left, ← List.map_drop, ← List.drop_one,
        List.drop_drop] at hdrop
      exact ⟨rest, hdrop⟩
    obtain ⟨hmeets', j', hinv'⟩ :=
      hinv.step himg ha (fun ev hev => hsent.carried ev (List.mem_append_right _ hev)) hnext
    refine ⟨Machine.meets_append.mpr ⟨hmeets, hmeets'⟩, j', ?_⟩
    rw [called_append, List.length_append, ← Nat.add_assoc, Machine.run_append]
    exact hinv'
  have hrun := Machine.events_invariant_of_inputs (P := DriverOk) (C := SentInOrder calls)
    (I := fun tr s => Machine.Meets frontierStep (EraseFirst b) 0 tr ∧
      ∃ j, UploadInv b calls (1+(called tr).length) (Machine.run frontierStep 0 tr).2 j s)
    (fun _ _ => SentInOrder.left) hstep [] s actions ⟨trivial, 0, h⟩ hdriver hsent
  exact hrun

/-! Erased before written. -/

/-- Every sector below the frontier was erased. -/
theorem erased_below {tr : List (Event Unit κ φ)} (h : Machine.Meets frontierStep (EraseFirst b) e tr)
    {before : List (Event Unit κ φ)} (hsector : b.dfuFlashSectorSize ∣ e)
    (hbefore : ∀ q, q*b.dfuFlashSectorSize < e →
      .erased (q*b.dfuFlashSectorSize) b.dfuFlashSectorSize true ∈ before) :
    b.dfuFlashSectorSize ∣ (Machine.run frontierStep e tr).2 ∧
      ∀ q, q*b.dfuFlashSectorSize < (Machine.run frontierStep e tr).2 →
        .erased (q*b.dfuFlashSectorSize) b.dfuFlashSectorSize true ∈ before ++ tr := by
  induction tr generalizing e before with
  | nil =>
    rw [List.append_nil]
    exact ⟨hsector, hbefore⟩
  | cons ev tr ih =>
    obtain ⟨hev, htr⟩ := h
    have hkeep {e' : Nat} (he : (frontierStep e ev).2 = e') (hdvd : b.dfuFlashSectorSize ∣ e')
        (hnext : ∀ q, q*b.dfuFlashSectorSize < e' →
          .erased (q*b.dfuFlashSectorSize) b.dfuFlashSectorSize true ∈ before ++ [ev]) :
        b.dfuFlashSectorSize ∣ (Machine.run frontierStep e (ev :: tr)).2 ∧
          ∀ q, q*b.dfuFlashSectorSize < (Machine.run frontierStep e (ev :: tr)).2 →
            .erased (q*b.dfuFlashSectorSize) b.dfuFlashSectorSize true ∈ before ++ ev :: tr := by
      rw [Machine.run_cons, he]
      rw [he] at htr
      have hrun := ih htr hdvd hnext
      rwa [List.append_assoc] at hrun
    have hold : ∀ q, q*b.dfuFlashSectorSize < e →
        .erased (q*b.dfuFlashSectorSize) b.dfuFlashSectorSize true ∈ before ++ [ev] :=
      fun q hq => List.mem_append_left _ (hbefore q hq)
    cases ev with
    | erased off len ok =>
      obtain ⟨rfl, rfl, rfl⟩ := hev
      refine hkeep rfl (Nat.dvd_add hsector (Nat.dvd_refl _)) fun q hq => ?_
      obtain ⟨n, rfl⟩ := hsector
      have hqn : q < n+1 := by
        refine Nat.lt_of_mul_lt_mul_left (a := b.dfuFlashSectorSize) ?_
        rwa [Nat.mul_comm, Nat.mul_add, Nat.mul_one]
      by_cases hlt : q < n
      · refine hold q ?_
        rw [Nat.mul_comm]
        exact Nat.mul_lt_mul_of_pos_left hlt (Nat.lt_trans (by decide) b.sector_lt)
      · obtain rfl : q = n := by omega
        rw [Nat.mul_comm]
        exact List.mem_append_right _ (List.mem_singleton_self _)
    | called | returned | stored | moved | wrote | divided | processed | callback => exact hkeep rfl hsector hold

/-- No sector below the frontier is erased. -/
theorem frontier_le_erased {tr : List (Event Unit κ φ)} (h : Machine.Meets frontierStep (EraseFirst b) e tr)
    {off len : Nat} {ok : Bool} (hmem : .erased off len ok ∈ tr) : e ≤ off := by
  induction tr generalizing e with
  | nil => contradiction
  | cons ev tr ih =>
    obtain ⟨hev, htr⟩ := h
    rcases List.mem_cons.mp hmem with rfl | hmem
    · exact hev.1.ge
    · have hle := ih htr hmem
      cases ev with
      | erased off' len' ok' =>
        obtain ⟨rfl, -, -⟩ := hev
        have hle : off'+len' ≤ off := hle
        omega
      | called | returned | stored | moved | wrote | divided | processed | callback => exact hle

/-- The sector of every byte that is written was erased, and is not erased any more. -/
theorem sector_erased_once {tr₁ tr₂ : List (Event Unit κ φ)} {off len a : Nat} {ok : Bool}
    (h : Machine.Meets frontierStep (EraseFirst b) 0 (tr₁ ++ .wrote off len ok :: tr₂))
    (ha : off ≤ a ∧ a < off+len) :
    .erased (a/b.dfuFlashSectorSize*b.dfuFlashSectorSize) b.dfuFlashSectorSize true ∈ tr₁ ∧
      ∀ off' len' ok', .erased off' len' ok' ∈ tr₂ →
        a/b.dfuFlashSectorSize*b.dfuFlashSectorSize+b.dfuFlashSectorSize ≤ off' := by
  obtain ⟨h₁, hwrote, h₂⟩ := Machine.meets_append.mp h
  have hbefore (q : Nat) (hq : q*b.dfuFlashSectorSize < 0) :
      Event.erased (q*b.dfuFlashSectorSize) b.dfuFlashSectorSize true ∈ ([] : List (Event Unit κ φ)) :=
    absurd hq (Nat.not_lt_zero _)
  obtain ⟨⟨n, hn⟩, hbelow⟩ := erased_below h₁ (dvd_zero _) hbefore
  have hpos : 0 < b.dfuFlashSectorSize := Nat.lt_trans (by decide) b.sector_lt
  have hwrote : off+len ≤ (Machine.run frontierStep 0 tr₁).2 := hwrote
  have hq : a/b.dfuFlashSectorSize < n := by
    rw [Nat.div_lt_iff_lt_mul hpos, Nat.mul_comm, ← hn]
    omega
  have hend : a/b.dfuFlashSectorSize*b.dfuFlashSectorSize+b.dfuFlashSectorSize ≤
      (Machine.run frontierStep 0 tr₁).2 := by
    rw [hn, ← Nat.succ_mul, Nat.mul_comm]
    exact Nat.mul_le_mul_left _ hq
  refine ⟨hbelow _ (by omega), fun off' len' ok' hmem => ?_⟩
  exact Nat.le_trans hend (frontier_le_erased h₂ hmem)

/-- Block 0 has the semaphore. -/
theorem uploadInv_start {s : DfuSystem Unit κ φ} (howned : ∃ o, Owned s o) {call : LoadCall κ φ}
    (h0 : calls[0]? = some call) (hi : s.callers () = .load call .reset) : UploadInv b calls 1 0 0 s := by
  obtain ⟨o, ho⟩ := howned
  obtain rfl : o = .caller () := (ho.caller ()).mp (by rw [hi]; rfl)
  refine ⟨⟨_, ho, call, .reset, hi, fun _ => rfl, fun h => absurd h (Nat.lt_irrefl 0)⟩, ?_⟩
  rw [hi]
  exact ⟨rfl, h0⟩

/-- Between two calls, with nothing left to process, all blocks sent are in the slot. -/
theorem UploadInv.complete {s : DfuSystem Unit κ φ} (h : UploadInv b calls calls.length e j s)
    (hidle : s.callers () = .idle) (hfree : s.shared.freeSpace = true) : Complete b calls s.shared := by
  obtain ⟨o, ho, hat⟩ := h.place
  obtain rfl := ho.freeSpace.mp hfree
  have hfits := h.caller
  rw [hidle] at hfits
  obtain ⟨-, -, hj⟩ | ⟨-, hcomplete⟩ := hat
  · exact absurd hj (by rw [← hfits]; exact Nat.lt_irrefl _)
  · exact hcomplete

/-- From any state in which block 0 of an image that fits has the semaphore, whatever the order in which the
calls and the processing thread go on, as long as the blocks are sent in order, each is accepted and no flash
operation fails: once all are sent and processed the slot holds the image and less than a double-word of
0xff. The sector of each byte that is written was erased before and is not erased again. -/
theorem image_in_slot (b : Build) (m : Mem) (calls : List (LoadCall κ φ)) (himg : Image b calls)
    (before actions : List (Action Unit κ φ)) (call : LoadCall κ φ) (h0 : calls[0]? = some call)
    (hi : (Machine.run (dfuStep b) (.start m) before).2.callers () = .load call .reset)
    (hdriver : ∀ a ∈ actions, DriverOk a)
    (hsent : SentInOrder calls
      (Machine.events (dfuStep b) (Machine.run (dfuStep b) (.start m) before).2 actions)) :
    let s₀ := (Machine.run (dfuStep b) (.start m) before).2
    let tr := Machine.events (dfuStep b) s₀ actions
    let s := (Machine.run (dfuStep b) s₀ actions).2
    (called tr = calls.tail.map .load → s.callers () = .idle → s.shared.freeSpace = true →
      ∃ pad < 8, 8 ∣ (calls.flatMap (·.data)).length+pad ∧
        slice (content b.secondarySlot s.shared.flash) 0 ((calls.flatMap (·.data)).length+pad) =
          calls.flatMap (·.data) ++ List.replicate pad 0xff) ∧
    ∀ tr₁ off len ok tr₂, tr = tr₁ ++ .wrote off len ok :: tr₂ → ∀ a, off ≤ a ∧ a < off+len →
      .erased (a/b.dfuFlashSectorSize*b.dfuFlashSectorSize) b.dfuFlashSectorSize true ∈ tr₁ ∧
        ∀ off' len' ok', .erased off' len' ok' ∈ tr₂ →
          a/b.dfuFlashSectorSize*b.dfuFlashSectorSize+b.dfuFlashSectorSize ≤ off' := by
  intro s₀ tr s
  have howned : ∃ o, Owned s₀ o :=
    Machine.run_invariant (I := fun s => ∃ o, Owned s o) (owned_step b) (.start m) before ⟨_, owned_start m⟩
  obtain ⟨hmeets, j, hinv⟩ := (uploadInv_start howned h0 hi).run himg hdriver hsent
  refine ⟨fun hall hidle hfree => ?_, fun tr₁ off len ok tr₂ htr a ha => ?_⟩
  · have hpos := himg.count_pos
    have hcount : 1+(called tr).length = calls.length := by
      rw [hall, List.length_map, List.length_tail]
      omega
    rw [hcount] at hinv
    exact hinv.complete hidle hfree
  · have hmeets : Machine.Meets frontierStep (EraseFirst b) 0 tr := hmeets
    rw [htr] at hmeets
    exact sector_erased_once hmeets ha

instance (ev : Event Unit κ φ) : Decidable ev.Carried :=
  match ev with
  | .returned _ _ ret => inferInstanceAs (Decidable (ret.accepted = true))
  | .erased _ _ ok | .wrote _ _ ok => inferInstanceAs (Decidable (ok = true))
  | .called _ _ | .stored _ _ | .moved _ _ | .divided _ | .processed _ _ | .callback _ _ _ => isTrue trivial

instance (a : Action Unit κ φ) : Decidable (DriverOk a) :=
  match a with
  | .consume outcome => inferInstanceAs (Decidable (outcome = .success))
  | .call _ _ | .run _ | .timeout _ => isTrue trivial

/-- Three blocks of 83 bytes. -/
def smallImage : List (LoadCall Unit Unit) :=
  [⟨0, 3, List.replicate 39 1, none, none⟩, ⟨1, 3, List.replicate 39 2, none, none⟩,
    ⟨2, 3, List.replicate 5 3, none, none⟩]

theorem image_smallImage : Image (.of .pearl) smallImage := by
  refine ⟨by decide, by decide, by decide, fun k hk => ?_, by decide, by decide⟩
  have hk : k < 3 := hk
  obtain rfl | rfl | rfl : k = 0 ∨ k = 1 ∨ k = 2 := by omega
  all_goals rfl

/-- The rest of the upload, once block 0 has the semaphore: the processing thread has not come back from
block 1 when block 2 is called. -/
def smallUpload : List (Action Unit Unit Unit) :=
  List.replicate 6 (Action.run ()) ++ wholeLoad ⟨1, 3, List.replicate 39 2, none, none⟩ ++
    List.replicate 8 (Action.consume .success) ++ Action.call () (.load ⟨2, 3, List.replicate 5 3, none, none⟩) ::
    .run () :: .consume .success :: List.replicate 8 (Action.run ()) ++ List.replicate 9 (Action.consume .success)

/-- On Pearl, over a slot full of zeros. -/
theorem image_in_slot_pearl :
    let s₀ := (Machine.run (dfuStep (.of .pearl)) (.start fun _ => 0)
      (Action.call () (.load ⟨0, 3, List.replicate 39 1, none, none⟩) :: List.replicate 3 (Action.run ()))).2
    let s := (Machine.run (dfuStep (.of .pearl)) s₀ smallUpload).2
    ∃ pad < 8, 8 ∣ (smallImage.flatMap (·.data)).length+pad ∧
      slice (content (Build.of .pearl).secondarySlot s.shared.flash) 0
        ((smallImage.flatMap (·.data)).length+pad) = smallImage.flatMap (·.data) ++ List.replicate pad 0xff :=
  (image_in_slot (.of .pearl) (fun _ => 0) smallImage image_smallImage
    (Action.call () (.load ⟨0, 3, List.replicate 39 1, none, none⟩) :: List.replicate 3 (Action.run ())) smallUpload
    _ rfl rfl (by decide) ⟨by decide +kernel, by decide +kernel⟩).1 (by decide +kernel) rfl rfl

end OrbFirmware.Dfu

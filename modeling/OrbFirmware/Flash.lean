import OrbFirmware.Nor

/-! Return codes, boards, and the flash map calls the firmware makes. The device behind a flash
area is NOR flash; every call that reaches it gets a verdict, so faults and power losses are inputs. -/
namespace OrbFirmware
open Nor

inductive RetCode where
  | success | internal | noMem | notFound | invalidParam | invalidState | invalidAddr | busy
  | offline | forbidden | timeout | notInitialized | assertFails | alreadyInitialized
  | notSupported | unsafeState
  deriving DecidableEq, Repr

inductive Board where
  | pearl | diamond
  deriving DecidableEq, Repr

/-- `write-block-size` of the flash that holds `storage_partition`: the double-word of the STM32
internal flash on Pearl, the default 1 on Diamond, whose SPI NOR node has no such property. -/
def flashWriteBlockSize : Board → Nat
  | .pearl => 8
  | .diamond => 1

/-- A fixed partition; it starts on a flash sector, hence on a double-word. -/
structure FlashArea where
  faOff : Nat
  faSize : Nat
  aligned : 8 ∣ faOff

/-- `storage_partition` of the main board's device tree. -/
def storagePartition : Board → FlashArea
  | .pearl => ⟨0x7E000, 0x1000, by decide⟩
  | .diamond => ⟨0x7E000, 0x2000, by decide⟩

/-- `config_partition` of the main board's device tree. -/
def configPartition : Board → FlashArea
  | .pearl => ⟨0x7F000, 0x1000, by decide⟩
  | .diamond => ⟨0x7F000, 0x2000, by decide⟩

inductive FlashOp where
  | access | read | write | erase
  deriving DecidableEq, Repr

/-- Memory of the device, and for the n-th call from now on, by kind, whether it is carried out.
A refused call returns an error and changes nothing. -/
structure Flash where
  mem : Mem
  verdict : Nat → FlashOp → Bool

def Flash.tick (fl : Flash) : Flash := ⟨fl.mem, fun n => fl.verdict (n+1)⟩

def Flash.set (fl : Flash) (m : Mem) : Flash := ⟨m, fun n => fl.verdict (n+1)⟩

/-- A device on which every call is carried out. -/
def Flash.ok (m : Mem) : Flash := ⟨m, fun _ _ => true⟩

/-- Power is lost after `k` calls: nothing reaches the flash any more. -/
def Flash.cut (m : Mem) (k : Nat) : Flash := ⟨m, fun n _ => decide (n < k)⟩

def flashAreaOpen (fl : Flash) : Bool × Flash := (fl.verdict 0 .access, fl.tick)

def flashAreaRead (fa : FlashArea) (off len : Nat) (fl : Flash) : Option (List UInt8) × Flash :=
  if fa.faSize < off+len then (none, fl)
  else if fl.verdict 0 .read then (some (slice fl.mem (fa.faOff+off) len), fl.tick)
  else (none, fl.tick)

/-- The STM32 driver wants whole double-words and reprograms one only with zeros;
the SPI NOR ANDs every byte. -/
def deviceWrite (b : Board) (m : Mem) (addr : Nat) (data : List UInt8) : Bool × Mem :=
  match b with
  | .diamond => (true, program m addr data)
  | .pearl =>
    if addr % 8 = 0 ∧ data.length % 8 = 0 then programBlocks 8 (data.length/8) m addr data
    else (false, m)

def flashAreaWrite (b : Board) (fa : FlashArea) (off : Nat) (data : List UInt8) (fl : Flash) :
    Bool × Flash :=
  if fa.faSize < off+data.length then (false, fl)
  else if fl.verdict 0 .write then
    let (ret, m) := deviceWrite b fl.mem (fa.faOff+off) data
    (ret, fl.set m)
  else (false, fl.tick)

def flashAreaErase (fa : FlashArea) (off len : Nat) (fl : Flash) : Bool × Flash :=
  if fa.faSize < off+len then (false, fl)
  else if fl.verdict 0 .erase then (true, fl.set (erase fl.mem (fa.faOff+off) len))
  else (false, fl.tick)

@[simp] theorem Flash.tick_mem (fl : Flash) : fl.tick.mem = fl.mem := rfl
@[simp] theorem Flash.set_mem (fl : Flash) (m : Mem) : (fl.set m).mem = m := rfl
@[simp] theorem Flash.ok_mem (m : Mem) : (Flash.ok m).mem = m := rfl
@[simp] theorem Flash.ok_tick (m : Mem) : (Flash.ok m).tick = Flash.ok m := rfl
@[simp] theorem Flash.ok_set (m m' : Mem) : (Flash.ok m).set m' = Flash.ok m' := rfl
@[simp] theorem Flash.ok_verdict (m : Mem) (n : Nat) (op : FlashOp) :
    (Flash.ok m).verdict n op = true := rfl

/-- What an area holds, by offset into the area. -/
def content (fa : FlashArea) (m : Mem) : Mem := view m fa.faOff

/-- `fl'` is `fl` after some calls. -/
def Flash.Later (fl fl' : Flash) : Prop := ∃ k, fl'.verdict = fun n => fl.verdict (n+k)

theorem Flash.Later.refl (fl : Flash) : fl.Later fl := ⟨0, rfl⟩

theorem Flash.later_tick (fl : Flash) : fl.Later fl.tick := ⟨1, rfl⟩

theorem Flash.later_set (fl : Flash) (m : Mem) : fl.Later (fl.set m) := ⟨1, rfl⟩

theorem Flash.Later.trans {fl fl' fl'' : Flash} (h : fl.Later fl') (h' : fl'.Later fl'') :
    fl.Later fl'' := by
  obtain ⟨k, hk⟩ := h
  obtain ⟨k', hk'⟩ := h'
  refine ⟨k'+k, ?_⟩
  rw [hk', hk]
  funext n
  exact congrArg fl.verdict (Nat.add_assoc n k' k)

/-- `fl'` is `fl` after some calls that changed no byte. -/
structure Flash.SameMem (fl fl' : Flash) : Prop where
  mem : fl'.mem = fl.mem
  later : fl.Later fl'

theorem Flash.SameMem.refl (fl : Flash) : fl.SameMem fl := ⟨rfl, .refl fl⟩

theorem Flash.sameMem_tick (fl : Flash) : fl.SameMem fl.tick := ⟨rfl, fl.later_tick⟩

theorem Flash.SameMem.trans {fl fl' fl'' : Flash} (h : fl.SameMem fl') (h' : fl'.SameMem fl'') :
    fl.SameMem fl'' :=
  ⟨h'.mem.trans h.mem, h.later.trans h'.later⟩

/-- A fault-free device stays the same object as long as nothing is written. -/
theorem Flash.SameMem.ok {m : Mem} {fl : Flash} (h : (Flash.ok m).SameMem fl) : fl = .ok m := by
  obtain ⟨mem, verdict⟩ := fl
  obtain ⟨k, hk⟩ := h.later
  have hm : mem = m := h.mem
  have hv : verdict = fun _ _ => true := hk
  rw [hm, hv]
  rfl

theorem flashAreaRead_sameMem (fa : FlashArea) (off len : Nat) (fl : Flash) :
    fl.SameMem (flashAreaRead fa off len fl).2 := by
  unfold flashAreaRead
  split
  · exact .refl fl
  · split <;> exact fl.sameMem_tick

theorem flashAreaRead_some {fa : FlashArea} {off len : Nat} {fl fl' : Flash} {data : List UInt8}
    (h : flashAreaRead fa off len fl = (some data, fl')) :
    off+len ≤ fa.faSize ∧ data = slice (content fa fl.mem) off len := by
  unfold flashAreaRead at h
  split at h
  · simp at h
  · split at h
    · obtain ⟨hd, -⟩ := Prod.mk.inj h
      refine ⟨by omega, ?_⟩
      rw [content, slice_view]
      exact (Option.some.inj hd).symm
    · simp at h

theorem flashAreaRead_ok {fa : FlashArea} {off len : Nat} (h : off+len ≤ fa.faSize) (m : Mem) :
    flashAreaRead fa off len (.ok m) = (some (slice (content fa m) off len), .ok m) := by
  unfold flashAreaRead
  rw [if_neg (by omega), content, slice_view]
  rfl

theorem flashAreaRead_out {fa : FlashArea} {off len : Nat} (h : fa.faSize < off+len) (fl : Flash) :
    flashAreaRead fa off len fl = (none, fl) :=
  if_pos h

theorem flashAreaRead_carried_out {fa : FlashArea} {off len : Nat} {fl : Flash} (h : off+len ≤ fa.faSize)
    (hv : fl.verdict 0 .read = true) :
    flashAreaRead fa off len fl = (some (slice (content fa fl.mem) off len), fl.tick) := by
  unfold flashAreaRead
  rw [if_neg (by omega), if_pos hv, content, slice_view]

theorem flashAreaRead_success {fa : FlashArea} {off len : Nat} {fl fl' : Flash} {data : List UInt8}
    (h : flashAreaRead fa off len fl = (some data, fl')) :
    off+len ≤ fa.faSize ∧ fl.verdict 0 .read = true ∧ fl' = fl.tick := by
  have hin := (flashAreaRead_some h).1
  unfold flashAreaRead at h
  rw [if_neg (by omega)] at h
  split at h
  · rename_i hv
    exact ⟨hin, hv, (Prod.mk.inj h).2.symm⟩
  · simp at h

theorem flashAreaErase_ok (fa : FlashArea) (m : Mem) :
    flashAreaErase fa 0 fa.faSize (.ok m) = (true, .ok (erase m fa.faOff fa.faSize)) := by
  unfold flashAreaErase
  rw [if_neg (by omega)]
  rfl

theorem content_erase (fa : FlashArea) (m : Mem) :
    content fa (erase m fa.faOff fa.faSize) = erase (content fa m) 0 fa.faSize :=
  view_erase m fa.faOff 0 fa.faSize

theorem content_program (fa : FlashArea) (m : Mem) (off : Nat) (data : List UInt8) :
    content fa (program m (fa.faOff+off) data) = program (content fa m) off data :=
  view_program m fa.faOff off data

/-- A write stays inside the addressed range, whatever it returns. -/
theorem deviceWrite_outside {b : Board} {m : Mem} {addr a : Nat} {data : List UInt8}
    (h : a < addr ∨ addr+data.length ≤ a) : (deviceWrite b m addr data).2 a = m a := by
  cases b with
  | diamond => exact program_outside h
  | pearl =>
    simp only [deviceWrite]
    split
    · exact programBlocks_outside 8 _ m addr data (by omega) h
    · rfl

theorem deviceWrite_true {b : Board} {m : Mem} {addr : Nat} {data : List UInt8}
    (h : (deviceWrite b m addr data).1 = true) : (deviceWrite b m addr data).2 = program m addr data := by
  cases b with
  | diamond => rfl
  | pearl =>
    simp only [deviceWrite] at h ⊢
    split at h
    · rename_i hal
      rw [if_pos hal]
      exact programBlocks_true 8 _ m addr data (by omega) h
    · simp at h

theorem deviceWrite_erased {b : Board} {m : Mem} {addr : Nat} {data : List UInt8}
    (ha : flashWriteBlockSize b ∣ addr) (hl : flashWriteBlockSize b ∣ data.length)
    (he : Erased m addr (addr+data.length)) : (deviceWrite b m addr data).1 = true := by
  cases b with
  | diamond => rfl
  | pearl =>
    have hal : addr % 8 = 0 ∧ data.length % 8 = 0 := by
      simp only [flashWriteBlockSize] at ha hl
      omega
    simp only [deviceWrite, if_pos hal]
    exact programBlocks_erased 8 _ m addr data (by omega) he

/-- Which double-words the STM32 driver takes. -/
theorem deviceWrite_pearl_iff {m : Mem} {addr : Nat} {data : List UInt8} (ha : addr % 8 = 0)
    (hl : data.length % 8 = 0) :
    (deviceWrite .pearl m addr data).1 = true ↔ ∀ j < data.length/8,
      Erased m (addr+j*8) (addr+j*8+8) ∨ zeroBlock ((data.drop (j*8)).take 8) = true := by
  simp only [deviceWrite, if_pos (And.intro ha hl)]
  exact programBlocks_iff 8 _ m addr data (by omega)

theorem deviceWrite_zeros {b : Board} {m : Mem} {addr : Nat} (ha : flashWriteBlockSize b ∣ addr) :
    (deviceWrite b m addr (List.replicate 8 0)).1 = true := by
  cases b with
  | diamond => rfl
  | pearl =>
    have hal : addr % 8 = 0 ∧ (List.replicate 8 (0 : UInt8)).length % 8 = 0 := by
      simp only [flashWriteBlockSize] at ha
      simp
      omega
    simp only [deviceWrite, if_pos hal]
    exact programBlocks_zeros 8 1 m addr

/-- Two adjacent writes, the second of them only after the first is accepted, are one write. -/
theorem deviceWrite_append {b : Board} {m : Mem} {addr : Nat} {u v : List UInt8}
    (ha : flashWriteBlockSize b ∣ addr) (hu : flashWriteBlockSize b ∣ u.length)
    (hv : flashWriteBlockSize b ∣ v.length) :
    deviceWrite b m addr (u ++ v) =
      if (deviceWrite b m addr u).1 = true then deviceWrite b (program m addr u) (addr+u.length) v
      else deviceWrite b m addr u := by
  cases b with
  | diamond => simp [deviceWrite, program_append]
  | pearl =>
    simp only [flashWriteBlockSize] at ha hu hv
    have h1 : addr % 8 = 0 ∧ (u ++ v).length % 8 = 0 := by
      simp only [List.length_append]; omega
    have h2 : addr % 8 = 0 ∧ u.length % 8 = 0 := by omega
    have h3 : (addr+u.length) % 8 = 0 ∧ v.length % 8 = 0 := by omega
    have hn : (u ++ v).length/8 = u.length/8+v.length/8 := by
      simp only [List.length_append]; omega
    simp only [deviceWrite, if_pos h1, if_pos h2, if_pos h3, hn]
    exact programBlocks_append 8 _ _ m addr u v (by omega)

theorem faOff_aligned (b : Board) (fa : FlashArea) : flashWriteBlockSize b ∣ fa.faOff := by
  cases b with
  | pearl => exact fa.aligned
  | diamond => exact one_dvd _

/-- A write addressed inside an area acts on the content of the area. -/
theorem deviceWrite_content (b : Board) (fa : FlashArea) (m : Mem) (off : Nat) (data : List UInt8) :
    (deviceWrite b (content fa m) off data).1 = (deviceWrite b m (fa.faOff+off) data).1 ∧
    (deviceWrite b (content fa m) off data).2 = content fa (deviceWrite b m (fa.faOff+off) data).2 := by
  cases b with
  | diamond => exact ⟨rfl, (content_program fa m off data).symm⟩
  | pearl =>
    have ha := Nat.mod_eq_zero_of_dvd fa.aligned
    have hm : (fa.faOff+off) % 8 = off % 8 := by omega
    simp only [deviceWrite, hm]
    split
    · exact programBlocks_view 8 _ m fa.faOff off data
    · exact ⟨rfl, rfl⟩

theorem flashAreaWrite_ok {b : Board} {fa : FlashArea} {off : Nat} {data : List UInt8}
    (h : off+data.length ≤ fa.faSize) (m : Mem) :
    flashAreaWrite b fa off data (.ok m) =
      ((deviceWrite b (content fa m) off data).1, .ok (deviceWrite b m (fa.faOff+off) data).2) := by
  unfold flashAreaWrite
  rw [if_neg (by omega), (deviceWrite_content b fa m off data).1]
  rfl

theorem flashAreaWrite_later (b : Board) (fa : FlashArea) (off : Nat) (data : List UInt8) (fl : Flash) :
    fl.Later (flashAreaWrite b fa off data fl).2 := by
  simp only [flashAreaWrite]
  split
  · exact .refl fl
  · split
    · exact fl.later_set _
    · exact fl.later_tick

theorem flashAreaWrite_outside {b : Board} {fa : FlashArea} {off a : Nat} {data : List UInt8}
    {fl : Flash} (h : a < fa.faOff+off ∨ fa.faOff+off+data.length ≤ a) :
    (flashAreaWrite b fa off data fl).2.mem a = fl.mem a := by
  unfold flashAreaWrite
  split
  · rfl
  · split
    · exact deviceWrite_outside h
    · rfl

theorem flashAreaErase_true {fa : FlashArea} {off len : Nat} {fl fl' : Flash}
    (h : flashAreaErase fa off len fl = (true, fl')) :
    fl'.mem = erase fl.mem (fa.faOff+off) len := by
  unfold flashAreaErase at h
  split at h
  · simp at h
  · split at h
    · obtain ⟨-, rfl⟩ := Prod.mk.inj h
      rfl
    · simp at h

theorem flashAreaWrite_true {b : Board} {fa : FlashArea} {off : Nat} {data : List UInt8}
    {fl fl' : Flash} (h : flashAreaWrite b fa off data fl = (true, fl')) :
    off+data.length ≤ fa.faSize ∧ fl'.mem = program fl.mem (fa.faOff+off) data := by
  unfold flashAreaWrite at h
  split at h
  · simp at h
  · split at h
    · obtain ⟨hr, rfl⟩ := Prod.mk.inj h
      exact ⟨by omega, deviceWrite_true hr⟩
    · simp at h

/-! Devices that refuse no call of one kind. -/

def Flash.Grants (fl : Flash) (op : FlashOp) : Prop := ∀ n, fl.verdict n op = true

theorem Flash.grants_ok (m : Mem) (op : FlashOp) : (Flash.ok m).Grants op := fun _ => rfl

theorem Flash.Later.grants {fl fl' : Flash} {op : FlashOp} (h : fl.Later fl') (hg : fl.Grants op) :
    fl'.Grants op := by
  obtain ⟨k, hk⟩ := h
  intro n
  rw [hk]
  exact hg (n+k)

theorem flashAreaRead_granted {fl : Flash} (h : fl.Grants .read) (fa : FlashArea) (off len : Nat) :
    (flashAreaRead fa off len fl).1 = (flashAreaRead fa off len (.ok fl.mem)).1 := by
  simp only [flashAreaRead, h 0, Flash.ok_verdict, if_true, Flash.ok_mem]
  split <;> rfl

/-! Power loss. -/

@[simp] theorem Flash.cut_mem (m : Mem) (k : Nat) : (Flash.cut m k).mem = m := rfl

theorem Flash.cut_tick (m : Mem) (k : Nat) : (Flash.cut m k).tick = .cut m (k-1) := by
  simp only [Flash.tick, Flash.cut, Flash.mk.injEq, true_and]
  funext n op
  exact decide_eq_decide.mpr (by omega)

theorem Flash.cut_set (m m' : Mem) (k : Nat) : (Flash.cut m k).set m' = .cut m' (k-1) := by
  simp only [Flash.set, Flash.cut, Flash.mk.injEq, true_and]
  funext n op
  exact decide_eq_decide.mpr (by omega)

theorem Flash.SameMem.cut {m : Mem} {k : Nat} {fl : Flash} (h : (Flash.cut m k).SameMem fl) :
    ∃ k', fl = .cut m k' := by
  obtain ⟨mem, verdict⟩ := fl
  obtain ⟨j, hj⟩ := h.later
  have hm : mem = m := h.mem
  have hv : verdict = (Flash.cut m (k-j)).verdict := by
    rw [show verdict = _ from hj]
    funext n op
    exact decide_eq_decide.mpr (by omega)
  exact ⟨k-j, by rw [hm, hv]; rfl⟩

theorem flashAreaRead_cut {fa : FlashArea} {off len : Nat} (h : off+len ≤ fa.faSize) (m : Mem) (k : Nat) :
    flashAreaRead fa off len (.cut m k) =
      (if 0 < k then some (slice (content fa m) off len) else none, .cut m (k-1)) := by
  unfold flashAreaRead
  rw [if_neg (by omega), Flash.cut_tick, content, slice_view]
  by_cases hk : 0 < k <;> simp [Flash.cut, hk]

/-- Over erased flash a write goes through as long as there is power. -/
theorem flashAreaWrite_cut {b : Board} {fa : FlashArea} {off : Nat} {data : List UInt8} {m : Mem}
    (h : off+data.length ≤ fa.faSize) (ha : flashWriteBlockSize b ∣ off)
    (hl : flashWriteBlockSize b ∣ data.length) (he : Erased (content fa m) off (off+data.length)) (k : Nat) :
    flashAreaWrite b fa off data (.cut m k) =
      if 0 < k then (true, .cut (program m (fa.faOff+off) data) (k-1)) else (false, .cut m 0) := by
  have hw := deviceWrite_erased ha hl he
  rw [(deviceWrite_content b fa m off data).1] at hw
  have hd : deviceWrite b m (fa.faOff+off) data = (true, program m (fa.faOff+off) data) :=
    Prod.ext hw (deviceWrite_true hw)
  unfold flashAreaWrite
  rw [if_neg (by omega), Flash.cut_tick, Flash.cut_mem, hd]
  by_cases hk : 0 < k
  · have hv : (Flash.cut m k).verdict 0 .write = true := decide_eq_true hk
    rw [if_pos hv, if_pos hk]
    simp only [Flash.cut_set]
  · have hv : ¬ (Flash.cut m k).verdict 0 .write = true := fun h => hk (of_decide_eq_true h)
    rw [if_neg hv, if_neg hk, show k-1 = 0 by omega]

theorem flashAreaErase_off (fa : FlashArea) (m : Mem) :
    flashAreaErase fa 0 fa.faSize (.cut m 0) = (false, .cut m 0) := by
  unfold flashAreaErase
  rw [if_neg (by omega), Flash.cut_tick]
  rfl

end OrbFirmware

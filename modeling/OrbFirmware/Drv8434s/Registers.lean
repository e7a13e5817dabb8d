import OrbFirmware.Flash
import OrbFirmware.Machine

/-! `drv8434s.c` and `drv8434s_private.c`: the registers of the stepper driver behind SPI, their shadow, and the
setters of single fields, which build a register from its shadow. -/
namespace OrbFirmware.Drv8434s
open Machine

inductive Reg where
  | fault | diagStatus1 | diagStatus2 | ctrl1 | ctrl2 | ctrl3 | ctrl4 | ctrl5 | ctrl6 | ctrl7 | ctrl8 | ctrl9
  deriving DecidableEq

/-- The addresses of `drv8434s_registers.h`. -/
def Reg.address : Reg → UInt8
  | .fault => 0x00
  | .diagStatus1 => 0x01
  | .diagStatus2 => 0x02
  | .ctrl1 => 0x03
  | .ctrl2 => 0x04
  | .ctrl3 => 0x05
  | .ctrl4 => 0x06
  | .ctrl5 => 0x07
  | .ctrl6 => 0x08
  | .ctrl7 => 0x09
  | .ctrl8 => 0x0A
  | .ctrl9 => 0x0B

def Reg.all : List Reg :=
  [.fault, .diagStatus1, .diagStatus2, .ctrl1, .ctrl2, .ctrl3, .ctrl4, .ctrl5, .ctrl6, .ctrl7, .ctrl8, .ctrl9]

def Reg.ofAddress (address : UInt8) : Option Reg := Reg.all.find? fun reg => reg.address == address

/-- `validate_register_operation`. -/
def validateRegisterOperation (reg : Reg) (write : Bool) : Bool :=
  match reg with
  | .ctrl1 | .ctrl2 | .ctrl3 | .ctrl4 | .ctrl5 | .ctrl6 | .ctrl7 => true
  | .fault | .diagStatus1 | .diagStatus2 | .ctrl8 | .ctrl9 => !write

/-- The configuration of the device, with the raw value of each register. -/
structure DeviceCfg where
  ctrl2 : UInt8
  ctrl3 : UInt8
  ctrl4 : UInt8
  ctrl7 : UInt8
  deriving DecidableEq

/-- `g_drv8434s_instance`, less its SPI buffers: the last configuration written, and the shadow registers; and the
registers of the device. -/
structure Driver where
  deviceCfg : DeviceCfg
  registers : Reg → UInt8
  device : Reg → UInt8

/-- How a transfer ends: whether it succeeds, and the status byte that the device sends first. -/
structure Answer where
  ok : Bool
  status : UInt8

/-- The bytes of a word, the high one first. -/
def txBuffer (txWord : UInt16) : UInt8 × UInt8 :=
  (((txWord >>> 8) &&& 0xFF).toUInt8, (txWord &&& 0xFF).toUInt8)

def readWord (reg : Reg) : UInt16 := (reg.address.toUInt16 <<< 9) ||| ((1 : UInt16) <<< 14)

def writeWord (reg : Reg) (data : UInt8) : UInt16 := (reg.address.toUInt16 <<< 9) ||| data.toUInt16

/-- What the device does with the bytes it gets: the second byte that it sends, and its registers. -/
def deviceTransfer (device : Reg → UInt8) (tx : UInt8 × UInt8) : UInt8 × (Reg → UInt8) :=
  match Reg.ofAddress ((tx.1 >>> 1) &&& 0x1F) with
  | none => (0, device)
  | some reg =>
    (device reg,
      if tx.1 &&& 0x40 = 0 ∧ validateRegisterOperation reg true then Function.update device reg tx.2 else device)

/-- `drv8434s_private_reg_read`. -/
def regRead (answer : Answer) (reg : Reg) (s : Driver) : RetCode × Driver :=
  if validateRegisterOperation reg false = false then (.invalidAddr, s)
  else if answer.ok = false then (.busy, s)
  else
    let (rx, device) := deviceTransfer s.device (txBuffer (readWord reg))
    let registers := Function.update s.registers .fault answer.status
    (.success, { s with registers := Function.update registers reg rx, device })

/-- `drv8434s_private_reg_write`; only the fault status is taken from what the device sends. -/
def regWrite (answer : Answer) (reg : Reg) (data : UInt8) (s : Driver) : RetCode × Driver :=
  if validateRegisterOperation reg true = false then (.invalidAddr, s)
  else if answer.ok = false then (.busy, s)
  else
    let (_, device) := deviceTransfer s.device (txBuffer (writeWord reg data))
    (.success, { s with registers := Function.update s.registers .fault answer.status, device })

/-- `drv8434s_init` wipes the instance. -/
def drv8434sInit (s : Driver) : RetCode × Driver :=
  (.success, { s with deviceCfg := ⟨0, 0, 0, 0⟩, registers := fun _ => 0 })

/-- Transfers until the first one that fails. -/
def transfers (spi : Nat → Answer) (transfer : Answer → Reg → Driver → RetCode × Driver) :
    Nat → List Reg → Driver → RetCode × Driver
  | _, [], s => (.success, s)
  | i, reg :: regs, s =>
    let (ret, s) := transfer (spi i) reg s
    if ret ≠ .success then (ret, s) else transfers spi transfer (i+1) regs s

def DeviceCfg.value (cfg : DeviceCfg) : Reg → UInt8
  | .ctrl2 => cfg.ctrl2
  | .ctrl3 => cfg.ctrl3
  | .ctrl4 => cfg.ctrl4
  | .ctrl7 => cfg.ctrl7
  | _ => 0

def drv8434sWriteConfig (cfg : DeviceCfg) (spi : Nat → Answer) (s : Driver) : RetCode × Driver :=
  transfers spi (fun answer reg => regWrite answer reg (cfg.value reg)) 0 [.ctrl4, .ctrl2, .ctrl3, .ctrl7]
    { s with deviceCfg := cfg }

def drv8434sReadConfig (spi : Nat → Answer) (s : Driver) : RetCode × Driver :=
  transfers spi regRead 0 [.ctrl2, .ctrl3, .ctrl4, .ctrl7] s

/-- A bit field: its register, its bits, and the lowest of them. -/
structure Field where
  reg : Reg
  mask : UInt8
  shift : UInt8
  deriving DecidableEq

def ctrl1TrqDac : Field := ⟨.ctrl1, 0xF0, 4⟩

def ctrl2EnOut : Field := ⟨.ctrl2, 0x80, 7⟩

def ctrl4Lock : Field := ⟨.ctrl4, 0x70, 4⟩

def ctrl4ClrFlt : Field := ⟨.ctrl4, 0x80, 7⟩

def ctrl5EnStl : Field := ⟨.ctrl5, 0x10, 4⟩

/-- A register after an assignment to a bit field of it. -/
def Field.assign (field : Field) (value raw : UInt8) : UInt8 :=
  (raw &&& ~~~field.mask) ||| ((value <<< field.shift) &&& field.mask)

/-- The setters write what the shadow becomes with their field, and leave the shadow. -/
def setField (field : Field) (value : UInt8) (spi : Nat → Answer) (s : Driver) : RetCode × Driver :=
  regWrite (spi 0) field.reg (field.assign value (s.registers field.reg)) s

def drv8434sDisable : (Nat → Answer) → Driver → RetCode × Driver := setField ctrl2EnOut 0

def drv8434sEnable : (Nat → Answer) → Driver → RetCode × Driver := setField ctrl2EnOut 1

def drv8434sClearFault : (Nat → Answer) → Driver → RetCode × Driver := setField ctrl4ClrFlt 1

def drv8434sUnlockControlRegisters : (Nat → Answer) → Driver → RetCode × Driver := setField ctrl4Lock 0x3

def drv8434sLockControlRegisters : (Nat → Answer) → Driver → RetCode × Driver := setField ctrl4Lock 0x6

def drv8434sEnableStallGuard : (Nat → Answer) → Driver → RetCode × Driver := setField ctrl5EnStl 1

def drv8434sScaleCurrent (current : UInt8) : (Nat → Answer) → Driver → RetCode × Driver := setField ctrl1TrqDac current

inductive Operation where
  | init
  | writeConfig (cfg : DeviceCfg)
  | readConfig
  | enable
  | disable
  | clearFault
  | lock
  | unlock
  | enableStallGuard
  | scaleCurrent (current : UInt8)

/-- An operation, and how its transfers end. -/
def step (s : Driver) (op : Operation × (Nat → Answer)) : RetCode × Driver :=
  match op.1 with
  | .init => drv8434sInit s
  | .writeConfig cfg => drv8434sWriteConfig cfg op.2 s
  | .readConfig => drv8434sReadConfig op.2 s
  | .enable => drv8434sEnable op.2 s
  | .disable => drv8434sDisable op.2 s
  | .clearFault => drv8434sClearFault op.2 s
  | .lock => drv8434sLockControlRegisters op.2 s
  | .unlock => drv8434sUnlockControlRegisters op.2 s
  | .enableStallGuard => drv8434sEnableStallGuard op.2 s
  | .scaleCurrent current => drv8434sScaleCurrent current op.2 s

/-- The static instance is zero at the start, whatever the device holds. -/
def Driver.start (device : Reg → UInt8) : Driver := ⟨⟨0, 0, 0, 0⟩, fun _ => 0, device⟩

/-- The field that a setter is named after. -/
def Operation.field : Operation → Option Field
  | .init | .writeConfig _ | .readConfig => none
  | .enable | .disable => some ctrl2EnOut
  | .clearFault => some ctrl4ClrFlt
  | .lock | .unlock => some ctrl4Lock
  | .enableStallGuard => some ctrl5EnStl
  | .scaleCurrent _ => some ctrl1TrqDac

/-- The bits of a register besides a field. -/
def Field.rest (field : Field) (raw : UInt8) : UInt8 := raw &&& ~~~field.mask

/-- A setter changes nothing in the device but its field. -/
def ChangesOnlyField (s : Driver) (op : Operation × (Nat → Answer)) : Prop :=
  ∀ field, op.1.field = some field →
    (∀ reg, reg ≠ field.reg → (step s op).2.device reg = s.device reg) ∧
      field.rest ((step s op).2.device field.reg) = field.rest (s.device field.reg)

/-! A transfer reads or writes the register that it names. -/

/-- The data fill the low byte of a word. -/
theorem txBuffer_or (word : UInt16) (data : UInt8) (hlow : word.toNat % 2^8 = 0) :
    txBuffer (word ||| data.toUInt16) = (((word >>> 8) &&& 0xFF).toUInt8, data) := by
  have hdata : data.toNat < 2^8 := data.toNat_lt
  have hhigh : data.toUInt16 >>> 8 = 0 := by
    apply UInt16.toNat_inj.mp
    rw [UInt16.toNat_shiftRight, UInt8.toNat_toUInt16, Nat.shiftRight_eq_div_pow]
    exact Nat.div_eq_of_lt hdata
  refine Prod.ext ?_ (UInt8.toNat_inj.mp ?_)
  · simp only [txBuffer, UInt16.shiftRight_or, hhigh, UInt16.or_zero]
  · have hmask : (0xFF : UInt16).toNat = 2^8-1 := rfl
    simp only [txBuffer, UInt16.toNat_toUInt8, UInt16.toNat_and, UInt16.toNat_or, UInt8.toNat_toUInt16, hmask,
      Nat.and_two_pow_sub_one_eq_mod, Nat.or_mod_two_pow, hlow, Nat.mod_eq_of_lt hdata, Nat.zero_or]

theorem txBuffer_write (reg : Reg) (data : UInt8) : txBuffer (writeWord reg data) = (reg.address <<< 1, data) := by
  rw [writeWord, txBuffer_or _ _ (by cases reg <;> rfl)]
  cases reg <;> rfl

theorem deviceTransfer_write {reg : Reg} (h : validateRegisterOperation reg true = true) (device : Reg → UInt8)
    (data : UInt8) :
    (deviceTransfer device (txBuffer (writeWord reg data))).2 = Function.update device reg data := by
  have haddress : Reg.ofAddress (((reg.address <<< 1) >>> 1) &&& 0x1F) = some reg := by
    cases reg <;> decide
  have hwrites : (reg.address <<< 1) &&& 0x40 = 0 := by
    cases reg <;> decide
  simp only [txBuffer_write, deviceTransfer, haddress, hwrites, h, and_self, if_true]

theorem deviceTransfer_read (reg : Reg) (device : Reg → UInt8) :
    deviceTransfer device (txBuffer (readWord reg)) = (device reg, device) := by
  have haddress : Reg.ofAddress (((txBuffer (readWord reg)).1 >>> 1) &&& 0x1F) = some reg := by
    cases reg <;> decide
  have hreads : (txBuffer (readWord reg)).1 &&& 0x40 ≠ 0 := by
    cases reg <;> decide
  simp only [deviceTransfer, haddress, hreads, false_and, if_false]

/-- A write takes its data to the device; the shadow gets no more than the fault status. -/
theorem regWrite_eq {reg : Reg} (h : validateRegisterOperation reg true = true) (answer : Answer) (data : UInt8)
    (s : Driver) :
    regWrite answer reg data s =
      if answer.ok then
        (.success,
          { s with
            registers := Function.update s.registers .fault answer.status
            device := Function.update s.device reg data })
      else (.busy, s) := by
  simp only [regWrite, h, Bool.true_eq_false, if_false, deviceTransfer_write h]
  cases answer.ok <;> rfl

/-- A read takes what the device holds to the shadow. -/
theorem regRead_eq (answer : Answer) (reg : Reg) (s : Driver) :
    regRead answer reg s =
      if answer.ok then
        (.success,
          { s with
            registers := Function.update (Function.update s.registers .fault answer.status) reg (s.device reg) })
      else (.busy, s) := by
  have hvalid : validateRegisterOperation reg false = true := by
    cases reg <;> rfl
  simp only [regRead, hvalid, Bool.true_eq_false, if_false, deviceTransfer_read]
  cases answer.ok <;> rfl

/-! What the setters leave in the device. -/

theorem assign_rest (field : Field) (value raw : UInt8) : field.rest (field.assign value raw) = field.rest raw := by
  apply UInt8.toBitVec_inj.mp
  ext i hi
  simp only [Field.rest, Field.assign, UInt8.toBitVec_and, UInt8.toBitVec_or, UInt8.toBitVec_not, BitVec.getElem_and,
    BitVec.getElem_or, BitVec.getElem_not]
  grind

theorem setField_device {field : Field} (hvalid : validateRegisterOperation field.reg true = true) (value : UInt8)
    (spi : Nat → Answer) (s : Driver) :
    (setField field value spi s).2.device =
      if (spi 0).ok then Function.update s.device field.reg (field.assign value (s.registers field.reg))
      else s.device := by
  rw [setField, regWrite_eq hvalid]
  split_ifs <;> rfl

/-- The bits beside the field come from the shadow. -/
theorem setField_frame_iff {field : Field} (hvalid : validateRegisterOperation field.reg true = true) (value : UInt8)
    (spi : Nat → Answer) (s : Driver) :
    ((∀ reg, reg ≠ field.reg → (setField field value spi s).2.device reg = s.device reg) ∧
        field.rest ((setField field value spi s).2.device field.reg) = field.rest (s.device field.reg)) ↔
      ((spi 0).ok = true → field.rest (s.registers field.reg) = field.rest (s.device field.reg)) := by
  rw [setField_device hvalid]
  split_ifs with hok
  · have hothers : ∀ reg, reg ≠ field.reg →
        Function.update s.device field.reg (field.assign value (s.registers field.reg)) reg = s.device reg :=
      fun reg hne => Function.update_of_ne hne _ _
    simp only [Function.update_self, assign_rest, hok, forall_const]
    exact and_iff_right hothers
  · exact iff_of_true ⟨fun _ _ => rfl, rfl⟩ fun h => absurd h hok

/-! Nothing reads CTRL1 and CTRL5, so that their shadow is zero. -/

def Unread (s : Driver) : Prop := s.registers .ctrl1 = 0 ∧ s.registers .ctrl5 = 0

variable {s : Driver}

theorem Unread.regWrite (h : Unread s) {reg : Reg} (hvalid : validateRegisterOperation reg true = true) (answer : Answer)
    (data : UInt8) : Unread (regWrite answer reg data s).2 := by
  rw [regWrite_eq hvalid]
  split_ifs
  · exact h
  · exact h

theorem Unread.regRead (h : Unread s) {reg : Reg} (hreg : reg ≠ .ctrl1 ∧ reg ≠ .ctrl5) (answer : Answer) :
    Unread (regRead answer reg s).2 := by
  rw [regRead_eq]
  split_ifs
  · exact ⟨(Function.update_of_ne hreg.1.symm _ _).trans h.1, (Function.update_of_ne hreg.2.symm _ _).trans h.2⟩
  · exact h

theorem transfers_keep {P : Driver → Prop} {spi : Nat → Answer} {transfer : Answer → Reg → Driver → RetCode × Driver}
    {regs : List Reg} (hkeep : ∀ reg ∈ regs, ∀ answer s, P s → P (transfer answer reg s).2) (i : Nat) (h : P s) :
    P (transfers spi transfer i regs s).2 := by
  induction regs generalizing i s with
  | nil => exact h
  | cons reg regs ih =>
    have hnext := hkeep reg List.mem_cons_self (spi i) s h
    simp only [transfers]
    split_ifs
    · exact hnext
    · exact ih (fun reg' hmem => hkeep reg' (List.mem_cons_of_mem reg hmem)) (i+1) hnext

theorem Unread.setField (h : Unread s) {field : Field} (hvalid : validateRegisterOperation field.reg true = true)
    (value : UInt8) (spi : Nat → Answer) : Unread (setField field value spi s).2 := h.regWrite hvalid _ _

theorem Unread.step (h : Unread s) (op : Operation × (Nat → Answer)) : Unread (step s op).2 := by
  obtain ⟨op, spi⟩ := op
  cases op with
  | init => exact ⟨rfl, rfl⟩
  | writeConfig cfg =>
    refine transfers_keep (fun reg hmem answer s hs => hs.regWrite ?_ answer _) 0 h
    simp only [List.mem_cons, List.not_mem_nil, or_false] at hmem
    obtain rfl | rfl | rfl | rfl := hmem <;> rfl
  | readConfig =>
    refine transfers_keep (fun reg hmem answer s hs => hs.regRead ?_ answer) 0 h
    simp only [List.mem_cons, List.not_mem_nil, or_false] at hmem
    obtain rfl | rfl | rfl | rfl := hmem <;> decide
  | enable | disable | clearFault | lock | unlock | enableStallGuard | scaleCurrent current => exact h.setField rfl _ _

/-- Beside the field of a setter, the device holds what the last `drv8434s_read_config` since the last init found in
the register, or zero if there was none or it does not read the register. -/
def ShadowHolds (s : Driver) (op : Operation × (Nat → Answer)) : Prop :=
  (op.2 0).ok = true →
    match op.1 with
    | .init | .writeConfig _ | .readConfig => True
    | .enable | .disable => ctrl2EnOut.rest (s.registers .ctrl2) = ctrl2EnOut.rest (s.device .ctrl2)
    | .clearFault => ctrl4ClrFlt.rest (s.registers .ctrl4) = ctrl4ClrFlt.rest (s.device .ctrl4)
    | .lock | .unlock => ctrl4Lock.rest (s.registers .ctrl4) = ctrl4Lock.rest (s.device .ctrl4)
    | .enableStallGuard => ctrl5EnStl.rest (s.device .ctrl5) = 0
    | .scaleCurrent _ => ctrl1TrqDac.rest (s.device .ctrl1) = 0

theorem changesOnlyField_some {field : Field} {op : Operation × (Nat → Answer)} (h : op.1.field = some field) :
    ChangesOnlyField s op ↔
      (∀ reg, reg ≠ field.reg → (step s op).2.device reg = s.device reg) ∧
        field.rest ((step s op).2.device field.reg) = field.rest (s.device field.reg) := by
  constructor
  · intro hframe
    exact hframe field h
  · intro hframe field' h'
    obtain rfl := Option.some.inj (h.symm.trans h')
    exact hframe

theorem step_frame_iff (h : Unread s) (op : Operation × (Nat → Answer)) : ChangesOnlyField s op ↔ ShadowHolds s op := by
  obtain ⟨op, spi⟩ := op
  have hzero (field : Field) : field.rest 0 = 0 := UInt8.zero_and
  cases op with
  | init | writeConfig cfg | readConfig => exact iff_of_true (fun _ hfield => nomatch hfield) fun _ => trivial
  | enable | disable | clearFault | lock | unlock =>
    exact (changesOnlyField_some rfl).trans (setField_frame_iff rfl _ spi s)
  | enableStallGuard =>
    refine (changesOnlyField_some rfl).trans ((setField_frame_iff rfl _ spi s).trans ?_)
    simp only [ShadowHolds, ctrl5EnStl, h.2, hzero, eq_comm]
  | scaleCurrent current =>
    refine (changesOnlyField_some rfl).trans ((setField_frame_iff rfl _ spi s).trans ?_)
    simp only [ShadowHolds, ctrl1TrqDac, h.1, hzero, eq_comm]

/-- Every setter of a run changes its field only, if and only if each finds the device as it was last read. -/
theorem setters_frame_iff (device : Reg → UInt8) (ops : List (Operation × (Nat → Answer))) :
    Meets step ChangesOnlyField (.start device) ops ↔ Meets step ShadowHolds (.start device) ops := by
  have hstart : Unread (.start device) := ⟨rfl, rfl⟩
  constructor
  · exact meets_mono (fun s op hs _ => Unread.step hs op) (fun s op hs => (step_frame_iff hs op).mp) _ ops hstart
  · exact meets_mono (fun s op hs _ => Unread.step hs op) (fun s op hs => (step_frame_iff hs op).mpr) _ ops hstart

/-- The locked registers are unlocked by clearing a fault. -/
theorem clear_fault_unlocks : ¬∀ (device : Reg → UInt8) (ops : List (Operation × (Nat → Answer))),
    (∀ op ∈ ops, ∀ i, (op.2 i).ok = true) → Meets step ChangesOnlyField (.start device) ops := by
  intro h
  let spi : Nat → Answer := fun _ => ⟨true, 0xC0⟩
  have hmeets := h (fun _ => 0) [(.lock, spi), (.clearFault, spi)] (by simp [spi])
  have hrest := (hmeets.2.1 ctrl4ClrFlt rfl).2
  exact absurd hrest (by decide)

end OrbFirmware.Drv8434s

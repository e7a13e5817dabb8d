import OrbFirmware.Storage.Faults

/-! `config.c`: the reboot behavior in RAM and its record in the config partition. The mutex makes each
call atomic. -/
namespace OrbFirmware.Config
open Nor Storage

def bootButtonPress : UInt8 := 0
def bootAutoAlwaysOn : UInt8 := 1

/-- The packed record; the enum takes one byte. -/
structure PersistentConfig where
  boot : UInt8
  pad : Vector UInt8 7
  deriving DecidableEq, Repr

def sizeofPersistentConfig : Nat := 8

def PersistentConfig.zero : PersistentConfig := ⟨bootButtonPress, .replicate 7 0⟩

def PersistentConfig.bytes (config : PersistentConfig) : List UInt8 := config.boot :: config.pad.toList

/-- A shorter record, of an older firmware, leaves the rest zero. -/
def PersistentConfig.ofBytes (l : List UInt8) : PersistentConfig :=
  ⟨l.getD 0 0, .ofFn fun i => l.getD (i+1) 0⟩

/-- The statics of `config.c`. -/
structure Statics where
  storageArea : StorageArea
  current : PersistentConfig
  initialized : Bool

/-- An error of the free is only logged. -/
def persistConfig (p : Platform) (config : Statics) (fl : Flash) : RetCode × Statics × Flash :=
  let (area, fl) :=
    if storageHasData config.storageArea then
      let (_, area, fl) := storageFree p config.storageArea fl
      (area, fl)
    else (config.storageArea, fl)
  let (ret, area, fl) := storagePush p area config.current.bytes fl
  (ret, { config with storageArea := area }, fl)

/-- The loop of `config_init` that frees all records but the last. Every round that goes on has
invalidated a header, so `faSize` rounds are enough. -/
def configDrain (p : Platform) : Nat → StorageArea → Flash → StorageArea × Flash
  | 0, area, fl => (area, fl)
  | n+1, area, fl =>
    if storageHasData area then
      let (isLast, fl) := storageIsLastRecord p area fl
      if isLast then (area, fl)
      else
        match storageFree p area fl with
        | (.success, area, fl) => configDrain p n area fl
        | (_, area, fl) => (area, fl)
    else (area, fl)

def configInit (p : Platform) (fa : FlashArea) (fl : Flash) : RetCode × Statics × Flash :=
  match storageInit p fa fl with
  | (.success, area, fl) =>
    let (area, fl) := configDrain p fa.faSize area fl
    let (result, area, fl) := storagePeek p area sizeofPersistentConfig fl
    let current := if result.ret = .success then .ofBytes result.buffer else .zero
    (.success, ⟨area, current, true⟩, fl)
  | (ret, area, fl) => (ret, ⟨area, .zero, false⟩, fl)

/-- `none` where the assertion fails. -/
def configGetRebootBehavior (config : Statics) : Option UInt8 :=
  if config.initialized then some config.current.boot else none

def configSetRebootBehavior (p : Platform) (behavior : UInt8) (config : Statics) (fl : Flash) :
    RetCode × Statics × Flash :=
  if config.initialized = false then (.notInitialized, config, fl)
  else if config.current.boot = behavior then (.success, config, fl)
  else if behavior ≠ bootButtonPress ∧ behavior ≠ bootAutoAlwaysOn then (.invalidParam, config, fl)
  else persistConfig p { config with current := { config.current with boot := behavior } } fl

/-! Runs of calls, each on a device that refuses what it likes. -/

inductive ConfigCall where
  | init (verdict : Nat → FlashOp → Bool)
  | setRebootBehavior (behavior : UInt8) (verdict : Nat → FlashOp → Bool)

structure ConfigState where
  config : Statics
  mem : Mem

def configStep (p : Platform) (fa : FlashArea) (s : ConfigState) : ConfigCall → RetCode × ConfigState
  | .init verdict =>
    let (ret, config, fl) := configInit p fa ⟨s.mem, verdict⟩
    (ret, ⟨config, fl.mem⟩)
  | .setRebootBehavior behavior verdict =>
    let (ret, config, fl) := configSetRebootBehavior p behavior s.config ⟨s.mem, verdict⟩
    (ret, ⟨config, fl.mem⟩)

/-- The statics are zero at power-up. -/
def ConfigState.start (m : Mem) : ConfigState := ⟨⟨⟨none, 0, 0⟩, .zero, false⟩, m⟩

/-- A call that gets as far as `persist_config`. -/
def Persists (config : Statics) (behavior : UInt8) : Prop :=
  config.initialized = true ∧ config.current.boot ≠ behavior ∧
    (behavior = bootButtonPress ∨ behavior = bootAutoAlwaysOn)

instance (config : Statics) (behavior : UInt8) : Decidable (Persists config behavior) :=
  inferInstanceAs (Decidable (_ ∧ _ ∧ _))

/-- A run that remembers whether the last `persist_config` failed, with no `config_init` since. -/
structure ConfigRun where
  state : ConfigState
  persistFailed : Bool

def configRunStep (p : Platform) (fa : FlashArea) (r : ConfigRun) (call : ConfigCall) : RetCode × ConfigRun :=
  let (ret, state) := configStep p fa r.state call
  let persistFailed :=
    match call with
    | .init _ => false
    | .setRebootBehavior behavior _ =>
      if Persists r.state.config behavior then decide (ret ≠ .success) else r.persistFailed
  (ret, ⟨state, persistFailed⟩)

/-- A call that does not get as far as `persist_config` changes nothing. -/
theorem configSetRebootBehavior_idle {p : Platform} {behavior : UInt8} {config : Statics} {fl : Flash}
    (h : ¬ Persists config behavior) :
    ∃ ret, configSetRebootBehavior p behavior config fl = (ret, config, fl) ∧
      (ret = .success ↔ config.initialized = true ∧ config.current.boot = behavior) := by
  cases hi : config.initialized with
  | false => exact ⟨.notInitialized, if_pos hi, by simp⟩
  | true =>
    by_cases hb : config.current.boot = behavior
    · exact ⟨.success, by simp [configSetRebootBehavior, hi, hb], by simp [hb]⟩
    · have hbad : behavior ≠ bootButtonPress ∧ behavior ≠ bootAutoAlwaysOn :=
        not_or.mp fun hok => h ⟨hi, hb, hok⟩
      exact ⟨.invalidParam, by simp [configSetRebootBehavior, hi, hb, hbad], by simp [hb]⟩

theorem configSetRebootBehavior_persists {p : Platform} {behavior : UInt8} {config : Statics} {fl : Flash}
    (h : Persists config behavior) :
    configSetRebootBehavior p behavior config fl =
      persistConfig p { config with current := { config.current with boot := behavior } } fl := by
  obtain ⟨hi, hb, hok⟩ := h
  have hvalid : ¬ (behavior ≠ bootButtonPress ∧ behavior ≠ bootAutoAlwaysOn) := fun hbad =>
    hok.elim hbad.1 hbad.2
  simp only [configSetRebootBehavior, hi, Bool.true_eq_false, if_false, if_neg hb, if_neg hvalid]

end OrbFirmware.Config

import OrbFirmware.Flash
import OrbFirmware.Machine

/-! The removed-battery watchdog of the two battery threads. -/
namespace OrbFirmware.Battery

def batteryMinimumVoltageStartupMv : Int32 := 13750
def batteryMinimumVoltageRuntimeMv : Int32 := 12500

/-- What one period of the thread meets: whether a message came from the battery, what `voltage_measurement_get` stores
(nothing if it fails), and what `publish_new` returns. -/
structure Period where
  message : Bool
  vbatSwVoltageMv : Option Int32
  publishNew : RetCode

inductive BatteryEvent where
  | shutdownScheduled (msUntilShutdown : UInt32)
  | reboot (delay : UInt32)
  deriving DecidableEq

structure Watchdog where
  batteryMessagesTimeout : UInt32
  shutdownScheduledSent : RetCode
  cordedPowerSupply : Bool

/-- The thread at its start; `battery_init` has looked for a corded power supply. -/
def Watchdog.init (cordedPowerSupply : Bool) : Watchdog := ⟨0, .notInitialized, cordedPowerSupply⟩

/-! The end of one period of `battery_rx_thread` on each board. -/

namespace Amber

def batteryInfoSendPeriodMs : UInt32 := 1000
def batteryMessagesRemovedTimeoutMs : UInt32 := batteryInfoSendPeriodMs * 4
def batteryMessagesForceRebootTimeoutMs : UInt32 := batteryInfoSendPeriodMs * 10

def batteryRxThread (s : Watchdog) (period : Period) : List BatteryEvent × Watchdog :=
  if period.message then
    ([], { batteryMessagesTimeout := 0, shutdownScheduledSent := .notInitialized, cordedPowerSupply := false })
  else
    -- 0 where it cannot be had, whatever the error
    let vbatSwVoltageMv := period.vbatSwVoltageMv.getD 0
    if vbatSwVoltageMv < batteryMinimumVoltageRuntimeMv then
      let timeout := s.batteryMessagesTimeout + batteryInfoSendPeriodMs
      let s := { s with batteryMessagesTimeout := timeout }
      if batteryMessagesRemovedTimeoutMs ≤ timeout ∧ s.shutdownScheduledSent ≠ .success then
        -- the reboot is inside the branch of the notice
        (.shutdownScheduled (batteryMessagesForceRebootTimeoutMs - timeout) ::
          (if batteryMessagesForceRebootTimeoutMs ≤ timeout then [.reboot 0] else []),
          { s with shutdownScheduledSent := period.publishNew })
      else
        ([], s)
    else if period.vbatSwVoltageMv.isSome ∧ batteryMinimumVoltageStartupMv < vbatSwVoltageMv then
      ([], { s with cordedPowerSupply := true })
    else
      ([], s)

end Amber

namespace Ruby

def batteryInfoSendPeriodMs : UInt32 := 1100
def batteryMessagesRemovedTimeoutMs : UInt32 := batteryInfoSendPeriodMs * 3
def batteryMessagesForceRebootTimeoutMs : UInt32 := batteryInfoSendPeriodMs * 10

def batteryRxThread (s : Watchdog) (period : Period) : List BatteryEvent × Watchdog :=
  if period.message then
    ([], { batteryMessagesTimeout := 0, shutdownScheduledSent := .notInitialized, cordedPowerSupply := false })
  else
    let vbatSwVoltageMv := period.vbatSwVoltageMv.getD 0
    if period.vbatSwVoltageMv = none ∨ vbatSwVoltageMv < batteryMinimumVoltageRuntimeMv then
      let timeout := s.batteryMessagesTimeout + batteryInfoSendPeriodMs
      let s := { s with batteryMessagesTimeout := timeout }
      let notice := batteryMessagesRemovedTimeoutMs ≤ timeout ∧ s.shutdownScheduledSent ≠ .success
      ((if notice then [.shutdownScheduled (batteryMessagesForceRebootTimeoutMs - timeout)] else []) ++
          (if batteryMessagesForceRebootTimeoutMs ≤ timeout then [.reboot 0] else []),
        { s with shutdownScheduledSent := if notice then period.publishNew else s.shutdownScheduledSent })
    else if period.vbatSwVoltageMv.isSome ∧ batteryMinimumVoltageStartupMv < vbatSwVoltageMv ∧
        s.cordedPowerSupply = false then
      ([], { s with cordedPowerSupply := true })
    else
      ([], s)

end Ruby

/-! What the watchdog is for: a reboot once there has been no message, and no voltage that a power supply would give,
for too long. -/

def Period.voltageLow (period : Period) : Bool :=
  period.vbatSwVoltageMv.all (· < batteryMinimumVoltageRuntimeMv)

/-- The time accumulated in the first `n` periods since the last message. -/
def removedMs (periodMs : UInt32) (history : Nat → Period) : Nat → Nat
  | 0 => 0
  | n + 1 =>
    if (history n).message then 0
    else if (history n).voltageLow then removedMs periodMs history n + periodMs.toNat
    else removedMs periodMs history n

/-- The thread requests its first reboot in the first period in which that time reaches the timeout. -/
def RebootsOnTime (thread : Watchdog → Period → List BatteryEvent × Watchdog) (periodMs timeoutMs : UInt32)
    (s : Watchdog) (history : Nat → Period) : Prop :=
  ∀ n, Machine.FirstAt (fun n => .reboot 0 ∈ Machine.outputAt thread s history n) n ↔
    Machine.FirstAt (fun n => timeoutMs.toNat ≤ removedMs periodMs history (n + 1)) n

/-- Before period `n`, and after the last message, a notice that the amber thread sends is published. -/
def Noticed (history : Nat → Period) (n : Nat) : Prop :=
  ∃ m < n, (∀ k, m ≤ k → k < n → (history k).message = false) ∧ (history m).voltageLow = true ∧
    Amber.batteryMessagesRemovedTimeoutMs.toNat ≤ removedMs Amber.batteryInfoSendPeriodMs history (m + 1) ∧
    (history m).publishNew = .success

variable {s : Watchdog} {period : Period} {history : Nat → Period} {n : Nat}

theorem noticed_zero : ¬Noticed history 0 := by
  rintro ⟨m, hlt, -⟩
  omega

theorem noticed_succ : Noticed history (n + 1) ↔ (history n).message = false ∧ (Noticed history n ∨
    (history n).voltageLow = true ∧
      Amber.batteryMessagesRemovedTimeoutMs.toNat ≤ removedMs Amber.batteryInfoSendPeriodMs history (n + 1) ∧
      (history n).publishNew = .success) := by
  constructor
  · rintro ⟨m, hlt, hsilent, hnotice⟩
    refine ⟨hsilent n (by omega) (by omega), ?_⟩
    obtain rfl | hbefore := Nat.eq_or_lt_of_le (Nat.le_of_lt_succ hlt)
    · exact .inr hnotice
    · exact .inl ⟨m, hbefore, fun k hle hk => hsilent k hle (by omega), hnotice⟩
  · rintro ⟨hsilent, ⟨m, hlt, hbefore, hnotice⟩ | hnotice⟩
    · refine ⟨m, by omega, fun k hle hk => ?_, hnotice⟩
      obtain rfl | hearlier := Nat.eq_or_lt_of_le (Nat.le_of_lt_succ hk)
      · exact hsilent
      · exact hbefore k hle hearlier
    · refine ⟨n, by omega, fun k hle hk => ?_, hnotice⟩
      obtain rfl : k = n := by omega
      exact hsilent

/-- The thread's counter goes up by a period, from 0 at each message. -/
def Accumulates (thread : Watchdog → Period → List BatteryEvent × Watchdog) (periodMs : UInt32) : Prop :=
  ∀ s period, (thread s period).2.batteryMessagesTimeout =
    if period.message then 0
    else if period.voltageLow then s.batteryMessagesTimeout + periodMs
    else s.batteryMessagesTimeout

theorem voltageLow_iff : period.voltageLow = true ↔ period.vbatSwVoltageMv = none ∨
    period.vbatSwVoltageMv.getD 0 < batteryMinimumVoltageRuntimeMv := by
  cases h : period.vbatSwVoltageMv with
  | none => simp [Period.voltageLow, h]
  | some mv => simp [Period.voltageLow, h]

theorem getD_low_iff : period.vbatSwVoltageMv.getD 0 < batteryMinimumVoltageRuntimeMv ↔ period.voltageLow = true := by
  cases h : period.vbatSwVoltageMv with
  | none =>
    simp only [Period.voltageLow, h, Option.getD_none, Option.all_none, iff_true]
    decide
  | some mv => simp [Period.voltageLow, h]

theorem Amber.accumulates : Accumulates Amber.batteryRxThread Amber.batteryInfoSendPeriodMs := by
  intro s period
  simp only [Amber.batteryRxThread, getD_low_iff]
  split_ifs <;> rfl

theorem Ruby.accumulates : Accumulates Ruby.batteryRxThread Ruby.batteryInfoSendPeriodMs := by
  intro s period
  simp only [Ruby.batteryRxThread, ← voltageLow_iff]
  split_ifs <;> rfl

theorem removedMs_lt {periodMs timeoutMs : UInt32} (hpos : 0 < timeoutMs.toNat)
    (hbefore : ∀ m < n, ¬timeoutMs.toNat ≤ removedMs periodMs history (m + 1)) :
    removedMs periodMs history n < timeoutMs.toNat := by
  cases n with
  | zero => exact hpos
  | succ n => exact Nat.lt_of_not_le (hbefore n (Nat.lt_succ_self n))

/-- Up to the timeout the counter does not wrap. -/
theorem timeout_toNat {thread : Watchdog → Period → List BatteryEvent × Watchdog} {periodMs timeoutMs : UInt32}
    (hthread : Accumulates thread periodMs) (hs : s.batteryMessagesTimeout = 0)
    (hpos : 0 < timeoutMs.toNat) (hfits : timeoutMs.toNat + periodMs.toNat < 2 ^ 32)
    (hbefore : ∀ m < n, ¬timeoutMs.toNat ≤ removedMs periodMs history (m + 1)) :
    (Machine.stateAt thread s history n).batteryMessagesTimeout.toNat = removedMs periodMs history n := by
  induction n with
  | zero => simp [Machine.stateAt, removedMs, hs]
  | succ n ih =>
    have hearlier : ∀ m < n, ¬timeoutMs.toNat ≤ removedMs periodMs history (m + 1) := fun m hm => hbefore m (by omega)
    have hn := ih hearlier
    have hlt := removedMs_lt hpos hearlier
    simp only [Machine.stateAt, removedMs, hthread _ (history n)]
    split_ifs
    · rfl
    · rw [UInt32.toNat_add, hn]
      omega
    · exact hn

theorem Amber.reboot_iff : .reboot 0 ∈ (Amber.batteryRxThread s period).1 ↔ period.message = false ∧
    period.voltageLow = true ∧
    Amber.batteryMessagesForceRebootTimeoutMs ≤ s.batteryMessagesTimeout + Amber.batteryInfoSendPeriodMs ∧
    s.shutdownScheduledSent ≠ .success := by
  have hforce : Amber.batteryMessagesRemovedTimeoutMs ≤ Amber.batteryMessagesForceRebootTimeoutMs := by decide
  simp only [Amber.batteryRxThread, getD_low_iff]
  split_ifs with hmessage hlow hnotice htimeout <;> simp_all
  exact fun htimeout => hnotice (UInt32.le_trans hforce htimeout)

theorem Amber.sent_iff : (Amber.batteryRxThread s period).2.shutdownScheduledSent = .success ↔
    period.message = false ∧ (s.shutdownScheduledSent = .success ∨ period.voltageLow = true ∧
      Amber.batteryMessagesRemovedTimeoutMs ≤ s.batteryMessagesTimeout + Amber.batteryInfoSendPeriodMs ∧
      period.publishNew = .success) := by
  simp only [Amber.batteryRxThread, getD_low_iff]
  split_ifs with hmessage hlow hnotice <;> simp_all

theorem Ruby.reboot_iff : .reboot 0 ∈ (Ruby.batteryRxThread s period).1 ↔ period.message = false ∧
    period.voltageLow = true ∧
    Ruby.batteryMessagesForceRebootTimeoutMs ≤ s.batteryMessagesTimeout + Ruby.batteryInfoSendPeriodMs := by
  simp only [Ruby.batteryRxThread, ← voltageLow_iff]
  split_ifs with hmessage hlow <;> simp_all

/-- Up to the timeout, one period more reaches a bound of the counter where it does for the accumulated time. -/
theorem reaches_iff {thread : Watchdog → Period → List BatteryEvent × Watchdog} {periodMs timeoutMs bound : UInt32}
    (hthread : Accumulates thread periodMs) (hs : s.batteryMessagesTimeout = 0)
    (hpos : 0 < timeoutMs.toNat) (hfits : timeoutMs.toNat + periodMs.toNat < 2 ^ 32)
    (hbefore : ∀ m < n, ¬timeoutMs.toNat ≤ removedMs periodMs history (m + 1))
    (hsilent : (history n).message = false) (hlow : (history n).voltageLow = true) :
    bound ≤ (Machine.stateAt thread s history n).batteryMessagesTimeout + periodMs ↔
      bound.toNat ≤ removedMs periodMs history (n + 1) := by
  have hn := timeout_toNat hthread hs hpos hfits hbefore
  have hlt := removedMs_lt hpos hbefore
  rw [UInt32.le_iff_toNat_le, UInt32.toNat_add, hn, Nat.mod_eq_of_lt (by omega)]
  simp [removedMs, hsilent, hlow]

theorem Amber.sent_noticed (cordedPowerSupply : Bool)
    (hbefore : ∀ m < n, ¬Amber.batteryMessagesForceRebootTimeoutMs.toNat ≤
      removedMs Amber.batteryInfoSendPeriodMs history (m + 1)) :
    (Machine.stateAt Amber.batteryRxThread (.init cordedPowerSupply) history n).shutdownScheduledSent = .success ↔
      Noticed history n := by
  induction n with
  | zero =>
    refine iff_of_false ?_ noticed_zero
    simp [Machine.stateAt, Watchdog.init]
  | succ n ih =>
    have hearlier := fun m (hm : m < n) => hbefore m (by omega)
    simp only [Machine.stateAt]
    rw [Amber.sent_iff, ih hearlier, noticed_succ]
    refine and_congr_right fun hsilent => or_congr_right (and_congr_right fun hlow => and_congr_left' ?_)
    exact reaches_iff Amber.accumulates rfl (by decide) (by decide) hearlier hsilent hlow

/-- The reboot of the removed battery needs a period without message and voltage. -/
theorem removed_of_first {periodMs timeoutMs : UInt32} (hpos : 0 < timeoutMs.toNat)
    (hbefore : ∀ m < n, ¬timeoutMs.toNat ≤ removedMs periodMs history (m + 1))
    (hn : timeoutMs.toNat ≤ removedMs periodMs history (n + 1)) :
    (history n).message = false ∧ (history n).voltageLow = true := by
  have hlt := removedMs_lt hpos hbefore
  simp only [removedMs] at hn
  split_ifs at hn with hmessage hlow
  · omega
  · exact ⟨Bool.eq_false_iff.mpr hmessage, hlow⟩
  · omega

theorem Amber.requests_iff (cordedPowerSupply : Bool) (history : Nat → Period) (n : Nat)
    (hbefore : ∀ m < n, ¬Amber.batteryMessagesForceRebootTimeoutMs.toNat ≤
      removedMs Amber.batteryInfoSendPeriodMs history (m + 1)) :
    .reboot 0 ∈ Machine.outputAt Amber.batteryRxThread (.init cordedPowerSupply) history n ↔
      Amber.batteryMessagesForceRebootTimeoutMs.toNat ≤ removedMs Amber.batteryInfoSendPeriodMs history (n + 1) ∧
        ¬Noticed history n := by
  simp only [Machine.outputAt]
  rw [Amber.reboot_iff, ne_eq, Amber.sent_noticed cordedPowerSupply hbefore]
  constructor
  · rintro ⟨hsilent, hlow, htimeout, hnot⟩
    exact ⟨(reaches_iff Amber.accumulates rfl (by decide) (by decide) hbefore hsilent hlow).mp htimeout, hnot⟩
  · rintro ⟨htimeout, hnot⟩
    obtain ⟨hsilent, hlow⟩ := removed_of_first (by decide) hbefore htimeout
    exact ⟨hsilent, hlow, (reaches_iff Amber.accumulates rfl (by decide) (by decide) hbefore hsilent hlow).mpr htimeout,
      hnot⟩

theorem Ruby.requests_iff (cordedPowerSupply : Bool)
    (hbefore : ∀ m < n, ¬Ruby.batteryMessagesForceRebootTimeoutMs.toNat ≤
      removedMs Ruby.batteryInfoSendPeriodMs history (m + 1)) :
    .reboot 0 ∈ Machine.outputAt Ruby.batteryRxThread (.init cordedPowerSupply) history n ↔
      Ruby.batteryMessagesForceRebootTimeoutMs.toNat ≤ removedMs Ruby.batteryInfoSendPeriodMs history (n + 1) := by
  simp only [Machine.outputAt]
  rw [Ruby.reboot_iff]
  constructor
  · rintro ⟨hsilent, hlow, htimeout⟩
    exact (reaches_iff Ruby.accumulates rfl (by decide) (by decide) hbefore hsilent hlow).mp htimeout
  · intro htimeout
    obtain ⟨hsilent, hlow⟩ := removed_of_first (by decide) hbefore htimeout
    exact ⟨hsilent, hlow, (reaches_iff Ruby.accumulates rfl (by decide) (by decide) hbefore hsilent hlow).mpr htimeout⟩

/-- Both threads time out after as many periods without message and voltage. -/
theorem removedMs_boards : Amber.batteryMessagesForceRebootTimeoutMs.toNat ≤
      removedMs Amber.batteryInfoSendPeriodMs history n ↔
    Ruby.batteryMessagesForceRebootTimeoutMs.toNat ≤ removedMs Ruby.batteryInfoSendPeriodMs history n := by
  have hproportional : 11 * removedMs Amber.batteryInfoSendPeriodMs history n =
      10 * removedMs Ruby.batteryInfoSendPeriodMs history n := by
    induction n with
    | zero => rfl
    | succ n ih =>
      have hamber : Amber.batteryInfoSendPeriodMs.toNat = 1000 := rfl
      have hruby : Ruby.batteryInfoSendPeriodMs.toNat = 1100 := rfl
      simp only [removedMs]
      split_ifs <;> omega
  have hamber : Amber.batteryMessagesForceRebootTimeoutMs.toNat = 10000 := rfl
  have hruby : Ruby.batteryMessagesForceRebootTimeoutMs.toNat = 11000 := rfl
  omega

/-- Both threads reboot on time, and so in the same period. -/
structure WatchdogsReboot (amberCorded rubyCorded : Bool) (history : Nat → Period) : Prop where
  amber : RebootsOnTime Amber.batteryRxThread Amber.batteryInfoSendPeriodMs Amber.batteryMessagesForceRebootTimeoutMs
    (.init amberCorded) history
  ruby : RebootsOnTime Ruby.batteryRxThread Ruby.batteryInfoSendPeriodMs Ruby.batteryMessagesForceRebootTimeoutMs
    (.init rubyCorded) history
  same : ∀ n, Machine.FirstAt (fun n => .reboot 0 ∈ Machine.outputAt Amber.batteryRxThread (.init amberCorded) history n) n ↔
    Machine.FirstAt (fun n => .reboot 0 ∈ Machine.outputAt Ruby.batteryRxThread (.init rubyCorded) history n) n

/-- They do so if and only if the amber thread published no notice before the timeout. -/
theorem watchdogs_reboot (amberCorded rubyCorded : Bool) (history : Nat → Period) :
    WatchdogsReboot amberCorded rubyCorded history ↔
      ∀ n, Machine.FirstAt (fun n => Amber.batteryMessagesForceRebootTimeoutMs.toNat ≤
        removedMs Amber.batteryInfoSendPeriodMs history (n + 1)) n → ¬Noticed history n := by
  have hamber := Machine.firstAt_guarded (Amber.requests_iff amberCorded history)
  have hruby : RebootsOnTime Ruby.batteryRxThread Ruby.batteryInfoSendPeriodMs
      Ruby.batteryMessagesForceRebootTimeoutMs (.init rubyCorded) history :=
    Machine.firstAt_congr fun n => Ruby.requests_iff rubyCorded
  constructor
  · exact fun h => hamber.mp h.amber
  · intro hnot
    have hontime := hamber.mpr hnot
    refine ⟨hontime, hruby, fun n => ?_⟩
    rw [hontime n, hruby n]
    simp only [Machine.FirstAt, removedMs_boards]

theorem watchdogs_reboot_differ : ¬∀ amberCorded rubyCorded history, WatchdogsReboot amberCorded rubyCorded history := by
  intro h
  have hamber := (h false false fun _ => ⟨false, none, .success⟩).amber 9
  have hfirst : Machine.FirstAt (fun n => Amber.batteryMessagesForceRebootTimeoutMs.toNat ≤
      removedMs Amber.batteryInfoSendPeriodMs (fun _ => ⟨false, none, .success⟩) (n + 1)) 9 := by
    constructor
    · decide +kernel
    · decide +kernel
  have hsilent : .reboot 0 ∉ Machine.outputAt Amber.batteryRxThread (.init false)
      (fun _ => ⟨false, none, .success⟩) 9 := by decide +kernel
  exact hsilent (hamber.mpr hfirst).1

end OrbFirmware.Battery

import OrbFirmware.Machine
import Mathlib.Logic.Function.Basic

/-! `spi_mux_gpio.c` and `i2c_mux_gpio.c`: a bus behind a multiplexer whose select lines are GPIOs, and which caches
the channel that it has selected. The two drivers are alike but for their names and one check of the init. -/
namespace OrbFirmware.MuxGpio
open Machine
variable {ι : Type*} [DecidableEq ι]

inductive Bus where
  | spi
  | i2c
  deriving DecidableEq

/-- The configuration of a root: its bus, whether the port of its `enable_gpio` is set, and how many lines it has. -/
structure RootConfig where
  bus : Bus
  enableGpio : Bool
  numberOfMuxGpios : Nat

/-- The data of a root, and the levels of its pins. -/
structure Root where
  selectedChan : UInt8
  lines : List Bool
  enabled : Bool
  deriving DecidableEq

def eio : Int := 5

def enodev : Int := 19

/-- A transfer on a channel, with what the kernel and the other drivers answer: the lock, the writes of the lines
(`pinSet i` says whether that of line `i` succeeds), of the enable pin before and after, and the bus. A write that
fails leaves its pin. -/
structure Transfer where
  chanAddr : UInt8
  lock : Int
  pinSet : Nat → Bool
  enable : Bool
  disable : Bool
  bus : Int

/-- What a call returns, and the lines while the bus does the transfer, if it is issued. -/
structure Outcome where
  ret : Int
  issued : Option (List Bool)
  deriving DecidableEq

/-- The loop over the lines from line `i` on, which stops at the first write that fails. -/
def setLines (channelAddr : UInt8) (pinSet : Nat → Bool) : Nat → List Bool → Bool × List Bool
  | _, [] => (true, [])
  | i, line :: lines =>
    if pinSet i then
      let (done, lines) := setLines channelAddr pinSet (i+1) lines
      (done, channelAddr.toNat.testBit i :: lines)
    else (false, line :: lines)

def setEnable (enableGpio : Bool) (root : Root) (value : Bool) : Root :=
  if enableGpio then { root with enabled := value } else root

/-- The lines are written only if the channel is different from the last one. -/
def selectChannel (t : Transfer) (root : Root) : Bool × Root :=
  if root.selectedChan ≠ t.chanAddr then
    let (done, lines) := setLines t.chanAddr t.pinSet 0 root.lines
    (done, { root with lines, selectedChan := if done then t.chanAddr else root.selectedChan })
  else (true, root)

/-- `spi_mux_gpio_set_channel` and `i2c_mux_gpio_set_channel`. -/
def setChannel (enableGpio : Bool) (t : Transfer) (root : Root) : Int × Root :=
  let (done, root) := selectChannel t root
  if done = false then (-eio, root)
  else if enableGpio = true ∧ t.enable = false then (-eio, root)
  else (0, setEnable enableGpio root true)

/-- The transfer under the lock, which is released in any case. -/
def muxTransfer (enableGpio : Bool) (t : Transfer) (root : Root) : Outcome × Root :=
  if t.lock ≠ 0 then (⟨t.lock, none⟩, root)
  else
    let (res, root) := setChannel enableGpio t root
    if res ≠ 0 then (⟨res, none⟩, root)
    else
      let issued := some root.lines
      if enableGpio = true ∧ t.disable = false then (⟨-eio, issued⟩, root)
      else (⟨t.bus, issued⟩, setEnable enableGpio root false)

/-- `spi_mux_gpio_transceive`. -/
def spiMuxGpioTransceive : Bool → Transfer → Root → Outcome × Root := muxTransfer

/-- `i2c_mux_gpio_transfer`, where the lock may be one for all I2C multiplexers. -/
def i2cMuxGpioTransfer : Bool → Transfer → Root → Outcome × Root := muxTransfer

def RootConfig.transfer (config : RootConfig) : Transfer → Root → Outcome × Root :=
  match config.bus with
  | .spi => spiMuxGpioTransceive config.enableGpio
  | .i2c => i2cMuxGpioTransfer config.enableGpio

/-- What `root_init` finds: whether the bus and the port of the enable pin are ready, and whether the pins are
configured. -/
structure InitAnswers where
  busReady : Bool
  enableReady : Bool
  configureEnable : Bool
  configurePin : Nat → Bool

/-- The loop that configures the lines from line `i` on as inactive outputs. -/
def configureLines (configurePin : Nat → Bool) : Nat → List Bool → Bool × List Bool
  | _, [] => (true, [])
  | i, line :: lines =>
    if configurePin i then
      let (done, lines) := configureLines configurePin (i+1) lines
      (done, false :: lines)
    else (false, line :: lines)

/-- The rest of the init, behind the checks of the enable pin. -/
def rootInit (answers : InitAnswers) (enableGpio : Bool) (root : Root) : Int × Root :=
  if enableGpio = true ∧ answers.configureEnable = false then (-eio, root)
  else
    let root := setEnable enableGpio root false
    let (done, lines) := configureLines answers.configurePin 0 root.lines
    if done then (0, { root with lines, selectedChan := 0 }) else (-eio, { root with lines })

/-- `spi_mux_gpio_root_init`, which needs the enable pin. -/
def spiMuxGpioRootInit (answers : InitAnswers) (enableGpio : Bool) (root : Root) : Int × Root :=
  if answers.busReady = false then (-enodev, root)
  else if enableGpio = false ∨ answers.enableReady = false then (-enodev, root)
  else rootInit answers enableGpio root

/-- `i2c_mux_gpio_root_init`. -/
def i2cMuxGpioRootInit (answers : InitAnswers) (enableGpio : Bool) (root : Root) : Int × Root :=
  if answers.busReady = false then (-enodev, root)
  else rootInit answers enableGpio root

def RootConfig.init (config : RootConfig) (answers : InitAnswers) : Root → Int × Root :=
  match config.bus with
  | .spi => spiMuxGpioRootInit answers config.enableGpio
  | .i2c => i2cMuxGpioRootInit answers config.enableGpio

/-! Any number of multiplexers, on which transfers are made in any order; the lock of one keeps its transfers apart. -/

structure Issued (ι : Type*) where
  root : ι
  chanAddr : UInt8
  lines : List Bool
  deriving DecidableEq

def muxStep (configs : ι → RootConfig) (roots : ι → Root) (request : ι × Transfer) : List (Issued ι) × (ι → Root) :=
  let (i, t) := request
  let (outcome, root) := (configs i).transfer t (roots i)
  (match outcome.issued with
    | some lines => [⟨i, t.chanAddr, lines⟩]
    | none => [],
    Function.update roots i root)

/-- The levels of `count` lines that encode a channel, the first one its lowest bit. -/
def encode (chanAddr : UInt8) (count : Nat) : List Bool := (List.range count).map chanAddr.toNat.testBit

/-- The lines select the channel of the transfer. -/
def Issued.Selected (configs : ι → RootConfig) (issued : Issued ι) : Prop :=
  issued.lines = encode issued.chanAddr (configs issued.root).numberOfMuxGpios

/-- The lines do encode the cached channel, if the transfer is on it and reaches the bus. -/
def CacheHolds (configs : ι → RootConfig) (roots : ι → Root) (request : ι × Transfer) : Prop :=
  let (i, t) := request
  t.lock = 0 → ((configs i).enableGpio = true → t.enable = true) → (roots i).selectedChan = t.chanAddr →
    (roots i).lines = encode t.chanAddr (configs i).numberOfMuxGpios

variable {configs : ι → RootConfig} {roots : ι → Root} {chanAddr : UInt8} {pinSet : Nat → Bool}

theorem setLines_length (i : Nat) (lines : List Bool) :
    (setLines chanAddr pinSet i lines).2.length = lines.length := by
  induction lines generalizing i with
  | nil => rfl
  | cons line lines ih =>
    simp only [setLines]
    split_ifs
    · exact congrArg (·+1) (ih (i+1))
    · rfl

theorem setLines_done {i : Nat} {lines : List Bool} (h : (setLines chanAddr pinSet i lines).1 = true) :
    (setLines chanAddr pinSet i lines).2 = (List.range' i lines.length).map chanAddr.toNat.testBit := by
  induction lines generalizing i with
  | nil => rfl
  | cons line lines ih =>
    simp only [setLines] at h ⊢
    split_ifs at h ⊢ with hpin
    rw [List.length_cons, List.range'_succ, List.map_cons, ih h]

/-- Once all lines are written, they encode the channel. -/
theorem setLines_encode {lines : List Bool} (h : (setLines chanAddr pinSet 0 lines).1 = true) :
    (setLines chanAddr pinSet 0 lines).2 = encode chanAddr lines.length := by
  rw [setLines_done h, encode, List.range_eq_range']

theorem setEnable_lines (enableGpio value : Bool) (root : Root) : (setEnable enableGpio root value).lines = root.lines := by
  simp only [setEnable]
  split_ifs <;> rfl

theorem setEnable_selectedChan (enableGpio value : Bool) (root : Root) :
    (setEnable enableGpio root value).selectedChan = root.selectedChan := by
  simp only [setEnable]
  split_ifs <;> rfl

theorem setChannel_eq (enableGpio : Bool) (t : Transfer) (root : Root) :
    ((setChannel enableGpio t root).1 = 0 ↔ (selectChannel t root).1 = true ∧ (enableGpio = true → t.enable = true)) ∧
      (setChannel enableGpio t root).2.lines = (selectChannel t root).2.lines ∧
      (setChannel enableGpio t root).2.selectedChan = (selectChannel t root).2.selectedChan := by
  have heio : (-eio : Int) ≠ 0 := by decide
  have henable : (enableGpio = true → t.enable = true) ↔ ¬(enableGpio = true ∧ t.enable = false) := by
    cases t.enable <;> simp
  rw [henable]
  cases hdone : (selectChannel t root).1 with
  | false => simp only [setChannel, hdone, if_true, heio, Bool.false_eq_true, false_and, and_self]
  | true =>
    by_cases hfails : enableGpio = true ∧ t.enable = false
    · simp only [setChannel, hdone, hfails, Bool.true_eq_false, if_false, and_self, if_true, heio, not_true_eq_false,
        and_false]
    · simp only [setChannel, hdone, hfails, Bool.true_eq_false, if_false, setEnable_lines, setEnable_selectedChan,
        not_false_eq_true, and_self]

/-- When the bus does the transfer, and with which lines. -/
theorem muxTransfer_issued (enableGpio : Bool) (t : Transfer) (root : Root) :
    (muxTransfer enableGpio t root).1.issued =
      if t.lock = 0 ∧ (selectChannel t root).1 = true ∧ (enableGpio = true → t.enable = true) then
        some (selectChannel t root).2.lines
      else none := by
  obtain ⟨hres, hlines, -⟩ := setChannel_eq enableGpio t root
  simp only [muxTransfer, ne_eq, ← hres, ← hlines]
  by_cases hlock : t.lock = 0
  · by_cases hzero : (setChannel enableGpio t root).1 = 0
    · simp only [hlock, hzero, not_true_eq_false, if_false, and_self, if_true]
      split_ifs <;> rfl
    · simp only [hlock, hzero, not_true_eq_false, if_false, not_false_eq_true, if_true, and_false]
  · simp only [hlock, not_false_eq_true, if_true, false_and, if_false]

/-- The lines and the cache that a transfer leaves. -/
theorem muxTransfer_root (enableGpio : Bool) (t : Transfer) (root : Root) :
    let root' := if t.lock = 0 then (selectChannel t root).2 else root
    (muxTransfer enableGpio t root).2.lines = root'.lines ∧
      (muxTransfer enableGpio t root).2.selectedChan = root'.selectedChan := by
  obtain ⟨-, hlines, hchan⟩ := setChannel_eq enableGpio t root
  simp only [muxTransfer, ne_eq]
  by_cases hlock : t.lock = 0
  · simp only [hlock, not_true_eq_false, if_false, if_true]
    split_ifs
    · exact ⟨hlines, hchan⟩
    · exact ⟨(setEnable_lines _ _ _).trans hlines, (setEnable_selectedChan _ _ _).trans hchan⟩
    · exact ⟨hlines, hchan⟩
  · simp only [hlock, not_false_eq_true, if_true, if_false, and_self]

theorem transfer_eq (config : RootConfig) : config.transfer = muxTransfer config.enableGpio := by
  unfold RootConfig.transfer
  cases config.bus <;> rfl

/-- Every multiplexer has its lines. -/
def Wired (configs : ι → RootConfig) (roots : ι → Root) : Prop :=
  ∀ i, (roots i).lines.length = (configs i).numberOfMuxGpios

theorem selectChannel_length (t : Transfer) (root : Root) :
    (selectChannel t root).2.lines.length = root.lines.length := by
  rw [selectChannel]
  split
  · exact setLines_length 0 _
  · rfl

theorem Wired.step (h : Wired configs roots) (request : ι × Transfer) : Wired configs (muxStep configs roots request).2 := by
  obtain ⟨i, t⟩ := request
  intro j
  obtain rfl | hne := eq_or_ne j i
  · simp only [muxStep, Function.update_self, transfer_eq, (muxTransfer_root _ t (roots j)).1]
    split_ifs
    · rw [selectChannel_length, h j]
    · exact h j
  · simp only [muxStep, Function.update_of_ne hne]
    exact h j

/-- A transfer finds its channel selected, unless it trusts a cache that is wrong. -/
theorem step_selected_iff (h : Wired configs roots) (request : ι × Transfer) :
    (∀ issued ∈ (muxStep configs roots request).1, issued.Selected configs) ↔ CacheHolds configs roots request := by
  obtain ⟨i, t⟩ := request
  have hissued : (∀ issued ∈ (muxStep configs roots (i, t)).1, issued.Selected configs) ↔
      (t.lock = 0 ∧ (selectChannel t (roots i)).1 = true ∧ ((configs i).enableGpio = true → t.enable = true) →
        (selectChannel t (roots i)).2.lines = encode t.chanAddr (configs i).numberOfMuxGpios) := by
    simp only [muxStep, transfer_eq, muxTransfer_issued]
    split_ifs with hcond
    · rw [List.forall_mem_singleton]
      exact ⟨fun hselected _ => hselected, fun hselected => hselected hcond⟩
    · exact iff_of_true (List.forall_mem_nil _) fun hreached => absurd hreached hcond
  rw [hissued]
  by_cases hsame : (roots i).selectedChan = t.chanAddr
  · have hcached : selectChannel t (roots i) = (true, roots i) := if_neg (not_not_intro hsame)
    simp only [hcached, CacheHolds, hsame, true_and, and_imp, forall_const]
  · have hwritten : (selectChannel t (roots i)).1 = true →
        (selectChannel t (roots i)).2.lines = encode t.chanAddr (configs i).numberOfMuxGpios := by
      simp only [selectChannel, ne_eq, hsame, not_false_eq_true, if_true]
      intro hdone
      rw [setLines_encode hdone, h i]
    constructor
    · intro _ _ _ hchan
      exact absurd hchan hsame
    · intro _ hcond
      exact hwritten hcond.2.1

/-! While no write of a line fails, the cache tells what the lines select. -/

def Coherent (configs : ι → RootConfig) (roots : ι → Root) : Prop :=
  ∀ i, (roots i).lines = encode (roots i).selectedChan (configs i).numberOfMuxGpios

omit [DecidableEq ι] in
theorem Coherent.wired (h : Coherent configs roots) : Wired configs roots := by
  intro i
  rw [h i, encode, List.length_map, List.length_range]

omit [DecidableEq ι] in
theorem Coherent.holds (h : Coherent configs roots) (request : ι × Transfer) : CacheHolds configs roots request := by
  intro _ _ hchan
  rw [← hchan]
  exact h request.1

theorem setLines_all (hpins : ∀ i, pinSet i = true) (i : Nat) (lines : List Bool) :
    (setLines chanAddr pinSet i lines).1 = true := by
  induction lines generalizing i with
  | nil => rfl
  | cons line lines ih =>
    simp only [setLines, hpins i, if_true]
    exact ih (i+1)

theorem selectChannel_all {t : Transfer} (hpins : ∀ i, t.pinSet i = true) {root : Root} {count : Nat}
    (h : root.lines = encode root.selectedChan count) :
    (selectChannel t root).2.lines = encode (selectChannel t root).2.selectedChan count := by
  have hlength : root.lines.length = count := by
    rw [h, encode, List.length_map, List.length_range]
  rw [selectChannel]
  split
  · have hdone : (setLines t.chanAddr t.pinSet 0 root.lines).1 = true := setLines_all hpins 0 root.lines
    simp only [hdone, if_true, setLines_encode hdone, hlength]
  · exact h

theorem Coherent.step (h : Coherent configs roots) (request : ι × Transfer) (hpins : ∀ i, request.2.pinSet i = true) :
    Coherent configs (muxStep configs roots request).2 := by
  obtain ⟨i, t⟩ := request
  intro j
  obtain rfl | hne := eq_or_ne j i
  · obtain ⟨hlines, hchan⟩ := muxTransfer_root (configs j).enableGpio t (roots j)
    simp only [muxStep, Function.update_self, transfer_eq, hlines, hchan]
    split_ifs
    · exact selectChannel_all hpins (h j)
    · exact h j
  · simp only [muxStep, Function.update_of_ne hne]
    exact h j

theorem configureLines_done {configurePin : Nat → Bool} {i : Nat} {lines : List Bool}
    (h : (configureLines configurePin i lines).1 = true) :
    (configureLines configurePin i lines).2 = List.replicate lines.length false := by
  induction lines generalizing i with
  | nil => rfl
  | cons line lines ih =>
    simp only [configureLines] at h ⊢
    split_ifs at h ⊢ with hpin
    rw [List.length_cons, List.replicate_succ, ih h]

theorem rootInit_success {answers : InitAnswers} {enableGpio : Bool} {root : Root}
    (h : (rootInit answers enableGpio root).1 = 0) :
    (rootInit answers enableGpio root).2.lines = List.replicate root.lines.length false ∧
      (rootInit answers enableGpio root).2.selectedChan = 0 := by
  have heio : (-eio : Int) ≠ 0 := by decide
  simp only [rootInit, setEnable_lines] at h ⊢
  split_ifs at h ⊢ with henable hdone
  · exact absurd h heio
  · exact ⟨configureLines_done hdone, rfl⟩
  · exact absurd h heio

theorem init_success_rest {config : RootConfig} {answers : InitAnswers} {root : Root}
    (h : (config.init answers root).1 = 0) :
    config.init answers root = rootInit answers config.enableGpio root := by
  have henodev : (-enodev : Int) ≠ 0 := by decide
  obtain ⟨bus, enableGpio, count⟩ := config
  cases bus with
  | spi =>
    simp only [RootConfig.init, spiMuxGpioRootInit] at h ⊢
    split_ifs at h ⊢
    · exact absurd h henodev
    · exact absurd h henodev
    · rfl
  | i2c =>
    simp only [RootConfig.init, i2cMuxGpioRootInit] at h ⊢
    split_ifs at h ⊢
    · exact absurd h henodev
    · rfl

/-- After a successful init the lines select channel 0, as the cache says. -/
theorem init_coherent {config : RootConfig} {answers : InitAnswers} {root : Root}
    (hpins : root.lines.length = config.numberOfMuxGpios) (h : (config.init answers root).1 = 0) :
    (config.init answers root).2.lines =
      encode (config.init answers root).2.selectedChan config.numberOfMuxGpios := by
  have hzero : encode 0 config.numberOfMuxGpios = List.replicate config.numberOfMuxGpios false :=
    List.eq_replicate_iff.mpr ⟨by rw [encode, List.length_map, List.length_range], by simp [encode]⟩
  have hrest := init_success_rest h
  rw [hrest] at h ⊢
  obtain ⟨hlines, hchan⟩ := rootInit_success h
  rw [hlines, hchan, hzero, hpins]

/-- From a successful init on, the lines select the channel of every transfer that is issued, if and only if no
transfer on a cached channel comes when the lines do not encode it; so they do if no write of a line fails. -/
theorem selection_iff (configs : ι → RootConfig) (answers : ι → InitAnswers) (unconfigured : ι → Root)
    (hpins : ∀ i, (unconfigured i).lines.length = (configs i).numberOfMuxGpios)
    (hinit : ∀ i, ((configs i).init (answers i) (unconfigured i)).1 = 0) (requests : List (ι × Transfer)) :
    let roots := fun i => ((configs i).init (answers i) (unconfigured i)).2
    ((∀ issued ∈ events (muxStep configs) roots requests, issued.Selected configs) ↔
        Meets (muxStep configs) (CacheHolds configs) roots requests) ∧
      ((∀ request ∈ requests, ∀ i, request.2.pinSet i = true) →
        ∀ issued ∈ events (muxStep configs) roots requests, issued.Selected configs) := by
  intro roots
  have hcoherent : Coherent configs roots := fun i => init_coherent (hpins i) (hinit i)
  have hiff : (∀ issued ∈ events (muxStep configs) roots requests, issued.Selected configs) ↔
      Meets (muxStep configs) (CacheHolds configs) roots requests :=
    events_forall_iff (fun roots request (h : Wired configs roots) => h.step request)
      (fun roots request h => step_selected_iff h request) roots requests hcoherent.wired
  refine ⟨hiff, fun hwrites => hiff.mpr ?_⟩
  exact meets_mono (fun roots request (h : Coherent configs roots) => h.step request)
    (fun roots request h _ => h.holds request) roots requests hcoherent (meets_of_forall roots requests hwrites)

/-- On the way from channel 0 to channel 3 line 1 cannot be written; the next transfer on channel 0 goes to channel 1. -/
theorem selection_lost : ¬∀ (ι : Type) [DecidableEq ι] (configs : ι → RootConfig) (answers : ι → InitAnswers)
    (unconfigured : ι → Root), (∀ i, (unconfigured i).lines.length = (configs i).numberOfMuxGpios) →
    (∀ i, ((configs i).init (answers i) (unconfigured i)).1 = 0) → ∀ requests : List (ι × Transfer),
    ∀ issued ∈ events (muxStep configs) (fun i => ((configs i).init (answers i) (unconfigured i)).2) requests,
      issued.Selected configs := by
  intro h
  let requests : List (Unit × Transfer) :=
    [((), ⟨3, 0, (· ≠ 1), true, true, 0⟩), ((), ⟨0, 0, fun _ => true, true, true, 0⟩)]
  have hlast := h Unit (fun _ => ⟨.i2c, true, 2⟩) (fun _ => ⟨true, true, true, fun _ => true⟩)
    (fun _ => ⟨0, [false, false], false⟩) (fun _ => rfl) (fun _ => rfl) requests ⟨(), 0, [true, false]⟩ (by decide)
  exact absurd hlast (by unfold Issued.Selected; decide)

/-- The second of two transfers one after the other. -/
theorem selection_iff_undisturbed : Issued.Selected (fun _ : Unit => ⟨.spi, true, 2⟩) ⟨(), 0, [false, false]⟩ :=
  (selection_iff (fun _ : Unit => ⟨.spi, true, 2⟩) (fun _ => ⟨true, true, true, fun _ => true⟩)
    (fun _ => ⟨0, [false, false], false⟩) (fun _ => rfl) (fun _ => rfl)
    [((), ⟨3, 0, fun _ => true, true, true, 0⟩), ((), ⟨0, 0, fun _ => true, true, true, 0⟩)]).2 (by simp)
    ⟨(), 0, [false, false]⟩ (by decide)

end OrbFirmware.MuxGpio

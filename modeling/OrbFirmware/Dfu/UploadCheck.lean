import OrbFirmware.Dfu.Check
import OrbFirmware.Dfu.Integrity

/-! From the blocks to the verdict: what the check that follows an upload says is decided by the blocks that were sent. -/
namespace OrbFirmware.Dfu
open Nor
variable {κ φ : Type*} {b : Build} {f : ImageFormat} {cb : CheckBuild} {image : List UInt8} {crc32 : UInt32}

/-- The header that an image starts with. -/
def imageHeader (f : ImageFormat) (image : List UInt8) : ImageHeader := f.header (image.take f.headerSize)

/-- An image ends with the TLV area that its header puts behind it. -/
structure SignedImage (f : ImageFormat) (image : List UInt8) : Prop where
  header : f.headerSize ≤ image.length
  notEmpty : (imageHeader f image).ihImgSize ≠ 0
  tlvInfo : (imageHeader f image).size+f.tlvInfoSize ≤ image.length
  tlv : f.isTlvInfo (f.tlvInfo ((image.drop (imageHeader f image).size).take f.tlvInfoSize)) = true
  whole : (imageHeader f image).size+
    (f.tlvInfo ((image.drop (imageHeader f image).size).take f.tlvInfoSize)).itTlvTot.toNat = image.length

/-- A part of what the memory starts with. -/
theorem slice_of_start {c : Mem} (h : slice c 0 image.length = image) {off n : Nat} (hn : off+n ≤ image.length) :
    slice c off n = (image.drop off).take n := by
  rw [slice_eq_iff] at h
  apply List.ext_getElem
  · rw [slice_length, List.length_take, List.length_drop]
    omega
  · intro i hi hi'
    rw [slice_length] at hi
    rw [slice_getElem, List.getElem_take, List.getElem_drop]
    have hget := h (off+i) (by omega)
    simpa only [Nat.zero_add] using hget

/-- The check of a slot that starts with an image reads that image and nothing behind it. -/
theorem check_of_image (himage : SignedImage f image) {m : Mem} (hfits : image.length ≤ cb.secondarySlot.faSize)
    (hholds : slice (content cb.secondarySlot m) 0 image.length = image) (header : ImageHeader) (crc32 : UInt32) :
    (dfuSecondaryCheck f cb header false crc32 (.ok m)).ret =
      if Crc32.update 0 image = crc32 then .success else .invalidState := by
  have hslot := cb.slot_lt
  have hstart : currentHeader f (content cb.secondarySlot m) = imageHeader f image := by
    rw [currentHeader, slice_of_start hholds (by simpa using himage.header), List.drop_zero, imageHeader]
  have hread : HeaderRead f cb (.ok m) := ⟨rfl, himage.header.trans hfits, rfl⟩
  obtain ⟨hversion, hflash⟩ := dfuVersionSecondaryGet_read header hread
  rw [Flash.ok_mem, hstart] at hversion
  simp only [Flash.ok_tick] at hflash
  have harea : tlvArea f cb (content cb.secondarySlot m) (imageHeader f image).size =
      (f.tlvInfo ((image.drop (imageHeader f image).size).take f.tlvInfoSize)).itTlvTot.toNat := by
    rw [tlvArea, slice_of_start hholds himage.tlvInfo]
    exact if_pos ⟨himage.tlvInfo.trans hfits, himage.tlv⟩
  have hused : usedSize f cb header (.ok m) = image.length := by
    rw [usedSize, hversion, hflash, Flash.ok_tick]
    have hsize := (sizeToCheck_iff f cb (imageHeader f image) (.ok m)).mpr
    rw [Flash.ok_mem, harea, himage.whole] at hsize
    exact hsize ⟨by omega, .inl rfl⟩
  have hcan : CanSucceed f cb header false (.ok m) := by
    refine ⟨rfl, ?_, by rw [hflash]; rfl, fun _ => ?_, fun k _ => ?_⟩
    · rw [hversion]
      exact himage.notEmpty
    · have hle : usedSize f cb header (.ok m) ≤ cb.secondarySlot.faSize := by omega
      exact hle
    · rw [hversion, hflash, Flash.ok_tick, (sizeToCheck_sameMem f cb (imageHeader f image) (.ok m)).ok]
      rfl
  obtain ⟨hret, -⟩ := dfuSecondaryCheck_ends hcan crc32
  rw [hret, hused, Flash.ok_mem, hholds]
  by_cases heq : Crc32.update 0 image = crc32
  · rw [if_neg (not_not.mpr heq), if_pos heq]
  · rw [if_pos heq, if_neg heq]

theorem flatMap_length_le {calls : List (LoadCall κ φ)} {n : Nat} (h : ∀ call ∈ calls, call.data.length ≤ n) :
    (calls.flatMap (·.data)).length ≤ calls.length*n := by
  induction calls with
  | nil => exact Nat.zero_le _
  | cons call calls ih =>
    have hcall := h call List.mem_cons_self
    have hcalls := ih fun call' hmem => h call' (List.mem_cons_of_mem call hmem)
    rw [List.flatMap_cons, List.length_append, List.length_cons, Nat.add_mul, Nat.one_mul]
    omega

/-- An image whose blocks fit fits the slot. -/
theorem Image.length_le {calls : List (LoadCall κ φ)} (h : Image b calls) :
    (calls.flatMap (·.data)).length ≤ b.secondarySlot.faSize :=
  (flatMap_length_le h.size).trans h.fits

/-! What follows an upload. -/

/-- The calls are for a check with this value. -/
def Action.Checks (crc32 : UInt32) : Action Unit κ φ → Prop
  | .call _ (.check request) => request.crc32 = crc32
  | .call _ _ => False
  | _ => True

/-- The processing thread is answered by `dfu_secondary_check`, with whatever copy of a header that has kept. -/
def Verifies (f : ImageFormat) (cb : CheckBuild) (s : DfuSystem Unit κ φ) : Action Unit κ φ → Prop
  | .consume outcome => s.consumer = .verify → ∃ header,
      outcome = (dfuSecondaryCheck f cb header false s.shared.dfuState.expectedCrc32 (.ok s.shared.flash)).ret
  | _ => True

def Checking (f : ImageFormat) (cb : CheckBuild) (crc32 : UInt32) (s : DfuSystem Unit κ φ) (a : Action Unit κ φ) : Prop :=
  a.Checks crc32 ∧ Verifies f cb s a

/-- What the check is to say. -/
def verdict (image : List UInt8) (crc32 : UInt32) : RetCode :=
  if Crc32.update 0 image = crc32 then .success else .invalidState

/-- The caller is in a check, and past its test only behind a complete upload. -/
def CallerChecks (crc32 : UInt32) (state : DfuStateE) : CallerPc κ φ → Prop
  | .idle => True
  | .check call .take | .check call .state => call.crc32 = crc32
  | .check call _ => call.crc32 = crc32 ∧ state = .finishedVerify
  | .load _ _ | .activate _ => False

def ConsumerVerifies (image : List UInt8) (crc32 expectedCrc32 : UInt32) : ConsumerPc φ → Prop
  | .waiting | .testCb _ | .callCb _ _ => True
  | .verify => expectedCrc32 = crc32
  | .give round err => round = .verify ∧ err = verdict image crc32
  | _ => False

/-- Checks with one value go on over a slot that does not change. -/
structure CheckingInv (m : Mem) (image : List UInt8) (crc32 : UInt32) (s : DfuSystem Unit κ φ) : Prop where
  flash : s.shared.flash = m
  caller : CallerChecks crc32 s.shared.dfuState.state (s.callers ())
  full : s.shared.full = true → s.shared.dfuState.state = .finishedVerify ∧ s.shared.dfuState.expectedCrc32 = crc32
  consumer : ConsumerVerifies image crc32 s.shared.dfuState.expectedCrc32 s.consumer

/-- A round that ends was that of a check, with its verdict. -/
def Event.Decided (image : List UInt8) (crc32 : UInt32) : Event Unit κ φ → Prop
  | .processed round err => round = .verify ∧ err = verdict image crc32
  | _ => True

variable {m : Mem} {s : DfuSystem Unit κ φ}

/-- The caller goes on in its check. -/
theorem CheckingInv.goes (h : CheckingInv m image crc32 s) {shared : Shared κ φ} {pc : CallerPc κ φ}
    (hflash : shared.flash = s.shared.flash) (hpc : CallerChecks crc32 shared.dfuState.state pc)
    (hfull : shared.full = true → shared.dfuState.state = .finishedVerify ∧ shared.dfuState.expectedCrc32 = crc32)
    (hcrc : shared.dfuState.expectedCrc32 = s.shared.dfuState.expectedCrc32 ∨ shared.dfuState.expectedCrc32 = crc32) :
    CheckingInv m image crc32 (s.goes () shared pc) where
  flash := hflash.trans h.flash
  caller := by
    rw [DfuSystem.goes_same]
    exact hpc
  full := hfull
  consumer := by
    have hconsumer := h.consumer
    rw [DfuSystem.goes_consumer, DfuSystem.goes_shared]
    rcases hcrc with hcrc | hcrc
    · rw [hcrc]
      exact hconsumer
    · cases hc : s.consumer <;> rw [hc] at hconsumer <;> first | exact hconsumer | exact hcrc

theorem CheckingInv.call (h : CheckingInv m image crc32 s) (i : Unit) (call : DfuCall κ φ)
    (hcall : Action.Checks crc32 (.call i call)) : CheckingInv m image crc32 (dfuStep b s (.call i call)).2 ∧
      ∀ ev ∈ (dfuStep b s (.call i call)).1, ev.Decided image crc32 := by
  simp only [dfuStep]
  cases call with
  | check call =>
    split
    case h_1 =>
      refine ⟨h.goes rfl hcall h.full (.inl rfl), fun ev hev => ?_⟩
      rw [List.mem_singleton.mp hev]
      trivial
    case h_2 => exact ⟨h, fun ev hev => absurd hev List.not_mem_nil⟩
  | load call | activate pending => exact hcall.elim

theorem CheckingInv.run (h : CheckingInv m image crc32 s) (i : Unit) :
    CheckingInv m image crc32 (dfuStep b s (.run i)).2 ∧
      ∀ ev ∈ (dfuStep b s (.run i)).1, ev.Decided image crc32 := by
  have hcaller := h.caller
  have hfull := h.full
  have hnone : ∀ ev ∈ ([] : List (Event Unit κ φ)), ev.Decided image crc32 := fun ev hev => absurd hev List.not_mem_nil
  have hret (call : DfuCall κ φ) (ret : DfuRet) :
      ∀ ev ∈ ([.returned i call ret] : List (Event Unit κ φ)), ev.Decided image crc32 := by
    intro ev hev
    rw [List.mem_singleton.mp hev]
    trivial
  simp only [dfuStep]
  cases hi : s.callers i with
  | idle => exact ⟨h, hnone⟩
  | load call pc | activate pending =>
    rw [show s.callers () = _ from hi] at hcaller
    exact hcaller.elim
  | check call pc =>
    rw [show s.callers () = _ from hi] at hcaller
    cases pc with
    | take =>
      simp only [checkStep]
      split_ifs
      · exact ⟨h.goes rfl hcaller hfull (.inl rfl), hnone⟩
      · exact ⟨h.goes rfl hcaller hfull (.inl rfl), hnone⟩
    | state =>
      simp only [checkStep]
      split_ifs with hstate
      · exact ⟨h.goes rfl ⟨hcaller, hstate⟩ hfull (.inl rfl), hnone⟩
      · exact ⟨h.goes rfl trivial hfull (.inl rfl), hret _ _⟩
    | ctx | cb => exact ⟨h.goes rfl hcaller hfull (.inl rfl), hnone⟩
    | crc => exact ⟨h.goes rfl trivial (fun _ => ⟨hcaller.2, hcaller.1⟩) (.inr hcaller.1), hret _ _⟩

theorem CheckingInv.timeout (h : CheckingInv m image crc32 s) (i : Unit) :
    CheckingInv m image crc32 (dfuStep b s (.timeout i)).2 ∧
      ∀ ev ∈ (dfuStep b s (.timeout i)).1, ev.Decided image crc32 := by
  simp only [dfuStep]
  split
  case h_1 =>
    split_ifs
    · exact ⟨h, fun ev hev => absurd hev List.not_mem_nil⟩
    · refine ⟨h.goes rfl trivial h.full (.inl rfl), fun ev hev => ?_⟩
      rw [List.mem_singleton.mp hev]
      trivial
  case h_2 => exact ⟨h, fun ev hev => absurd hev List.not_mem_nil⟩

theorem CheckingInv.consume (h : CheckingInv m image crc32 s) (outcome : RetCode)
    (hverify : s.consumer = .verify → outcome = verdict image crc32) :
    CheckingInv m image crc32 (dfuStep b s (.consume outcome)).2 ∧
      ∀ ev ∈ (dfuStep b s (.consume outcome)).1, ev.Decided image crc32 := by
  have hconsumer := h.consumer
  have hnone : ∀ ev ∈ ([] : List (Event Unit κ φ)), ev.Decided image crc32 := fun ev hev => absurd hev List.not_mem_nil
  simp only [dfuStep]
  cases hc : s.consumer with
  | waiting =>
    simp only [consumerStep]
    split_ifs with hfull
    · obtain ⟨hstate, hcrc⟩ := h.full hfull
      rw [hstate]
      exact ⟨⟨h.flash, h.caller, fun hnot => Bool.noConfusion hnot, hcrc⟩, hnone⟩
    · exact ⟨⟨h.flash, h.caller, h.full, trivial⟩, hnone⟩
  | verify => exact ⟨⟨h.flash, h.caller, h.full, rfl, hverify hc⟩, hnone⟩
  | give round err =>
    rw [hc] at hconsumer
    refine ⟨⟨h.flash, h.caller, h.full, trivial⟩, fun ev hev => ?_⟩
    rw [List.mem_singleton.mp hev]
    exact hconsumer
  | testCb err =>
    simp only [consumerStep]
    split <;> exact ⟨⟨h.flash, h.caller, h.full, trivial⟩, hnone⟩
  | callCb cb err =>
    refine ⟨⟨h.flash, h.caller, h.full, trivial⟩, fun ev hev => ?_⟩
    rw [List.mem_singleton.mp hev]
    trivial
  | openArea | checkSize | prepare | erase len | write len | shift len =>
    rw [hc] at hconsumer
    exact hconsumer.elim

theorem CheckingInv.step (h : CheckingInv m image crc32 s)
    (hcheck : ∀ header, (dfuSecondaryCheck f cb header false crc32 (.ok m)).ret = verdict image crc32)
    (a : Action Unit κ φ) (ha : Checking f cb crc32 s a) :
    CheckingInv m image crc32 (dfuStep b s a).2 ∧ ∀ ev ∈ (dfuStep b s a).1, ev.Decided image crc32 := by
  cases a with
  | call i call => exact h.call i call ha.1
  | run i => exact h.run i
  | timeout i => exact h.timeout i
  | consume outcome =>
    refine h.consume outcome fun hc => ?_
    obtain ⟨header, rfl⟩ := ha.2 hc
    have hcrc : s.shared.dfuState.expectedCrc32 = crc32 := by
      have hconsumer := h.consumer
      rw [hc] at hconsumer
      exact hconsumer
    rw [hcrc, h.flash]
    exact hcheck header

/-- An upload that is complete, as seen by the checks behind it. -/
theorem checkingInv_start {o : Owner Unit} (ho : Owned s o) (hidle : s.callers () = .idle) (hfree : s.shared.freeSpace = true)
    (image : List UInt8) (crc32 : UInt32) : CheckingInv s.shared.flash image crc32 s := by
  obtain rfl := ho.freeSpace.mp hfree
  have hfull := ho.full
  have hconsumer := ho.consumer
  simp only [reduceCtorEq, iff_false, Bool.not_eq_true] at hfull hconsumer
  refine ⟨rfl, ?_, fun hnot => ?_, ?_⟩
  · rw [hidle]
    trivial
  · rw [hfull] at hnot
    contradiction
  · cases hc : s.consumer <;> rw [hc] at hconsumer <;> first | exact True.intro | exact Bool.noConfusion hconsumer

/-- From the first block to the verdict: when an image that ends with its TLV area has been uploaded, the blocks sent in
order, each accepted and no flash operation failing, then in whatever order the checks that follow and the processing
thread go on, every round that ends is that of a check, and it is a success exactly if the value sent with the check is
the CRC-32 of the bytes of the blocks. -/
theorem upload_decides_check (b : Build) (m : Mem) (calls : List (LoadCall κ φ)) (himg : Image b calls)
    (before actions : List (Action Unit κ φ)) (call : LoadCall κ φ) (h0 : calls[0]? = some call)
    (hi : (Machine.run (dfuStep b) (.start m) before).2.callers () = .load call .reset)
    (hdriver : ∀ a ∈ actions, DriverOk a)
    (hsent : SentInOrder calls (Machine.events (dfuStep b) (Machine.run (dfuStep b) (.start m) before).2 actions))
    (s : DfuSystem Unit κ φ) (hs : (Machine.run (dfuStep b) (.start m) (before ++ actions)).2 = s)
    (hall : called (Machine.events (dfuStep b) (Machine.run (dfuStep b) (.start m) before).2 actions) =
      calls.tail.map .load)
    (hidle : s.callers () = .idle) (hfree : s.shared.freeSpace = true) (f : ImageFormat)
    (himage : SignedImage f (calls.flatMap (·.data))) (cb : CheckBuild) (hslot : cb.secondarySlot = b.secondarySlot)
    (crc32 : UInt32) (checks : List (Action Unit κ φ)) (hchecks : Machine.Meets (dfuStep b) (Checking f cb crc32) s checks) :
    ∀ round err, .processed round err ∈ Machine.events (dfuStep b) s checks →
      round = .verify ∧ err = if Crc32.update 0 (calls.flatMap (·.data)) = crc32 then .success else .invalidState := by
  have howned : ∃ o, Owned s o := by
    rw [← hs]
    exact Machine.run_invariant (I := fun s => ∃ o, Owned s o) (owned_step b) (.start m) _ ⟨_, owned_start m⟩
  have hcomplete : Complete b calls s.shared := by
    have hstart : ∃ o, Owned (Machine.run (dfuStep b) (.start m) before).2 o :=
      Machine.run_invariant (I := fun s => ∃ o, Owned s o) (owned_step b) (.start m) before ⟨_, owned_start m⟩
    obtain ⟨-, j, hinv⟩ := (uploadInv_start hstart h0 hi).run himg hdriver hsent
    have hpos := himg.count_pos
    have hcount : 1+calls.tail.length = calls.length := by
      rw [List.length_tail]
      omega
    rw [hall, List.length_map, hcount, ← Machine.run_append, hs] at hinv
    exact hinv.complete hidle hfree
  have hholds : slice (content cb.secondarySlot s.shared.flash) 0 (calls.flatMap (·.data)).length =
      calls.flatMap (·.data) := by
    obtain ⟨pad, -, -, hpadded⟩ := hcomplete
    rw [slice_add, hslot] at *
    exact (List.append_inj hpadded (slice_length _ _ _)).1
  have hcheck (header : ImageHeader) :
      (dfuSecondaryCheck f cb header false crc32 (.ok s.shared.flash)).ret = verdict (calls.flatMap (·.data)) crc32 :=
    check_of_image himage (hslot ▸ himg.length_le) hholds header crc32
  obtain ⟨o, ho⟩ := howned
  have hrun := Machine.events_invariant
    (I := fun tr s' => CheckingInv s.shared.flash (calls.flatMap (·.data)) crc32 s' ∧
      ∀ ev ∈ tr, ev.Decided (calls.flatMap (·.data)) crc32)
    (fun tr s' a h ha => by
      obtain ⟨hinv, hev⟩ := h.1.step (b := b) hcheck a ha
      exact ⟨hinv, List.forall_mem_append.mpr ⟨h.2, hev⟩⟩)
    [] s checks ⟨checkingInv_start ho hidle hfree _ _, fun ev hev => absurd hev List.not_mem_nil⟩ hchecks
  intro round err hev
  exact hrun.2 _ hev

/-- The short image in two blocks. -/
def shortCalls : List (LoadCall Unit Unit) :=
  [⟨0, 2, shortImage.take 39, none, none⟩, ⟨1, 2, shortImage.drop 39, none, none⟩]

def shortUpload : List (Action Unit Unit Unit) :=
  List.replicate 6 (Action.run ()) ++ wholeLoad ⟨1, 2, shortImage.drop 39, none, none⟩ ++
    List.replicate 9 (Action.consume .success)

def shortChecks : List (Action Unit Unit Unit) :=
  Action.call () (.check ⟨304867777, none, none⟩) :: List.replicate 5 (Action.run ()) ++
    List.replicate 3 (Action.consume .success)

def shortStart : List (Action Unit Unit Unit) :=
  Action.call () (.load ⟨0, 2, shortImage.take 39, none, none⟩) :: List.replicate 3 (Action.run ())

theorem image_shortCalls : Image (.of .pearl) shortCalls := by
  refine ⟨by decide, by decide, by decide, fun k hk => ?_, by decide, by decide⟩
  have hk : k < 2 := hk
  obtain rfl | rfl : k = 0 ∨ k = 1 := by omega
  all_goals rfl

theorem signedImage_short : SignedImage mcuboot (shortCalls.flatMap (·.data)) :=
  ⟨by decide, by decide, by decide, by decide, by decide⟩

theorem upload_decides_check_pearl :
    let s := (Machine.run (dfuStep (.of .pearl)) (.start fun _ => 0) (shortStart ++ shortUpload)).2
    ∀ round err, .processed round err ∈ Machine.events (dfuStep (.of .pearl)) s shortChecks →
      round = .verify ∧ err = if Crc32.update 0 (shortCalls.flatMap (·.data)) = 304867777 then .success else .invalidState := by
  intro s
  have hchecks : Machine.Meets (dfuStep (.of .pearl)) (Checking mcuboot (.of .pearl) 304867777) s shortChecks := by
    refine ⟨⟨rfl, trivial⟩, ⟨trivial, trivial⟩, ⟨trivial, trivial⟩, ⟨trivial, trivial⟩, ⟨trivial, trivial⟩,
      ⟨trivial, trivial⟩, ⟨trivial, fun hnot => ?_⟩, ⟨trivial, fun _ => ⟨⟨0, 0, 0, 0, 0, 0⟩, ?_⟩⟩, ⟨trivial, fun hnot => ?_⟩,
      trivial⟩
    · exact absurd hnot (by decide +kernel)
    · decide +kernel
    · exact absurd hnot (by decide +kernel)
  exact upload_decides_check (.of .pearl) (fun _ => 0) shortCalls image_shortCalls shortStart shortUpload _ rfl rfl
    (by decide) ⟨by decide +kernel, by decide +kernel⟩ s rfl (by decide +kernel) rfl rfl mcuboot signedImage_short (.of .pearl)
    rfl 304867777 shortChecks hchecks

end OrbFirmware.Dfu

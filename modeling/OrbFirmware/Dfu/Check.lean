import OrbFirmware.Crc32
import OrbFirmware.Dfu.State

/-! `dfu_secondary_check`: the CRC-32 of the image that the secondary slot announces. The copy of its header outlives a
read that fails, its sizes are added in 32 bits, and the read of the TLV information is not checked. -/
namespace OrbFirmware.Dfu
open Nor

structure ImageVersion where
  ivMajor : UInt8
  ivMinor : UInt8
  ivRevision : UInt16
  ivBuildNum : UInt32
  deriving DecidableEq, Repr

structure ImageHeader where
  ihHdrSize : UInt16
  ihImgSize : UInt32
  ihVer : ImageVersion
  deriving DecidableEq, Repr

structure ImageTlvInfo where
  itMagic : UInt16
  itTlvTot : UInt16
  deriving DecidableEq, Repr

/-- How `bootutil/image.h`, which is not in the repository, lays out a header and the information in front of a TLV
area. -/
structure ImageFormat where
  headerSize : Nat
  header : List UInt8 → ImageHeader
  tlvInfoSize : Nat
  tlvInfo : List UInt8 → ImageTlvInfo
  imageTlvInfoMagic : UInt16
  imageTlvProtInfoMagic : UInt16

def ImageFormat.isTlvInfo (f : ImageFormat) (tlv : ImageTlvInfo) : Bool :=
  tlv.itMagic = f.imageTlvInfoMagic || tlv.itMagic = f.imageTlvProtInfoMagic

def ofLe (bytes : List UInt8) : Nat := bytes.foldr (fun byte n => byte.toNat+256*n) 0

/-- The layout of MCUboot. -/
def mcuboot : ImageFormat where
  headerSize := 32
  header bytes :=
    ⟨.ofNat (ofLe ((bytes.drop 8).take 2)), .ofNat (ofLe ((bytes.drop 12).take 4)),
      ⟨bytes.getD 20 0, bytes.getD 21 0, .ofNat (ofLe ((bytes.drop 22).take 2)),
        .ofNat (ofLe ((bytes.drop 24).take 4))⟩⟩
  tlvInfoSize := 4
  tlvInfo bytes := ⟨.ofNat (ofLe (bytes.take 2)), .ofNat (ofLe ((bytes.drop 2).take 2))⟩
  imageTlvInfoMagic := 0x6907
  imageTlvProtInfoMagic := 0x6908

/-- The slot and `DFU_FLASH_PAGE_SIZE`; an offset in the slot and a page behind it are a `size_t`. -/
structure CheckBuild where
  secondarySlot : FlashArea
  dfuFlashPageSize : Nat
  page_pos : 0 < dfuFlashPageSize
  slot_lt : secondarySlot.faSize+dfuFlashPageSize < 2^32

/-- The page of the internal flash, and that of the SPI flash. -/
def CheckBuild.of : Board → CheckBuild
  | .pearl => ⟨(Build.of .pearl).secondarySlot, 2048, by decide, by decide⟩
  | .diamond => ⟨(Build.of .diamond).secondarySlot, 256, by decide, by decide⟩

/-- `dfu_version_secondary_get`: the code, what it stores in `ih_ver`, and `secondary_slot_header` behind it. -/
structure VersionResult where
  ret : RetCode
  ihVer : Option ImageVersion
  header : ImageHeader
  flash : Flash

def dfuVersionSecondaryGet (f : ImageFormat) (b : CheckBuild) (secondarySlotHeader : ImageHeader) (fl : Flash) :
    VersionResult :=
  match flashAreaOpen fl with
  | (false, fl) => ⟨.internal, none, secondarySlotHeader, fl⟩
  | (true, fl) =>
    match flashAreaRead b.secondarySlot 0 f.headerSize fl with
    | (none, fl) => ⟨.internal, none, secondarySlotHeader, fl⟩
    | (some data, fl) =>
      let header := f.header data
      -- an erased slot holds no image, but the copy is made
      if header.ihVer.ivBuildNum = 0xFFFFFFFF ∧ header.ihVer.ivRevision = 0xFFFF then
        ⟨.notFound, none, header, fl⟩
      else ⟨.success, some header.ihVer, header, fl⟩

/-- The TLV information at the end of the image; it stays zero if it cannot be read. -/
def readTlvInfo (f : ImageFormat) (b : CheckBuild) (imgSize : UInt32) (fl : Flash) : ImageTlvInfo × Flash :=
  match flashAreaRead b.secondarySlot imgSize.toNat f.tlvInfoSize fl with
  | (none, fl) => (⟨0, 0⟩, fl)
  | (some data, fl) => (f.tlvInfo data, fl)

/-- `img_size`, as `size_t`. -/
def sizeToCheck (f : ImageFormat) (b : CheckBuild) (header : ImageHeader) (fl : Flash) : UInt32 × Flash :=
  let imgSize := header.ihHdrSize.toUInt32+header.ihImgSize
  let (tlvMagic, fl) := readTlvInfo f b imgSize fl
  (if f.isTlvInfo tlvMagic then imgSize+tlvMagic.itTlvTot.toUInt32 else imgSize, fl)

/-- What is read at `off`. -/
def CheckBuild.pageLen (b : CheckBuild) (imgSize off : Nat) : Nat :=
  if imgSize-off < b.dfuFlashPageSize then imgSize-off else b.dfuFlashPageSize

/-- The loop over the pages from `off`: the checksum unless a read fails, and the bytes read so far. -/
def checkPages (b : CheckBuild) (imgSize : Nat) :
    Nat → Nat → UInt32 → List UInt8 → Flash → Option UInt32 × List UInt8 × Flash
  | 0, _, crc, bytes, fl => (some crc, bytes, fl)
  | n+1, off, crc, bytes, fl =>
    if off < imgSize then
      match flashAreaRead b.secondarySlot off (b.pageLen imgSize off) fl with
      | (none, fl) => (none, bytes, fl)
      | (some buf, fl) =>
        checkPages b imgSize n (off+b.dfuFlashPageSize) (Crc32.update crc buf) (bytes++buf) fl
    else (some crc, bytes, fl)

/-- The code, `secondary_slot_header`, and the bytes that went into the checksum. -/
structure CheckResult where
  ret : RetCode
  header : ImageHeader
  bytes : List UInt8

/-- `busy` is the answer of `sem_headers`, which is given back and taken again in between. Every round of the loop goes
a page on, so `img_size` rounds are enough. -/
def dfuSecondaryCheck (f : ImageFormat) (b : CheckBuild) (secondarySlotHeader : ImageHeader) (busy : Bool)
    (crc32 : UInt32) (fl : Flash) : CheckResult :=
  let version := dfuVersionSecondaryGet f b secondarySlotHeader fl
  let header := version.header
  if busy then ⟨.busy, header, []⟩
  else if header.ihImgSize = 0 then ⟨.invalidState, header, []⟩
  else
    match flashAreaOpen version.flash with
    | (false, _) => ⟨.internal, header, []⟩
    | (true, fl) =>
      let (imgSize, fl) := sizeToCheck f b header fl
      match checkPages b imgSize.toNat imgSize.toNat 0 0 [] fl with
      | (none, bytes, _) => ⟨.internal, header, bytes⟩
      | (some computedCrc, bytes, _) =>
        ⟨if computedCrc ≠ crc32 then .invalidState else .success, header, bytes⟩

/-! What the slot announces. -/

/-- The total of the TLV area behind the image, if there is one in the slot. -/
def tlvArea (f : ImageFormat) (b : CheckBuild) (c : Mem) (imgSize : Nat) : Nat :=
  let tlv := f.tlvInfo (slice c imgSize f.tlvInfoSize)
  if imgSize+f.tlvInfoSize ≤ b.secondarySlot.faSize ∧ f.isTlvInfo tlv = true then tlv.itTlvTot.toNat else 0

/-- The header that the slot holds. -/
def currentHeader (f : ImageFormat) (c : Mem) : ImageHeader := f.header (slice c 0 f.headerSize)

def ImageHeader.size (h : ImageHeader) : Nat := h.ihHdrSize.toNat+h.ihImgSize.toNat

/-- Header, image and TLV area, over the integers. -/
def announcedSize (f : ImageFormat) (b : CheckBuild) (c : Mem) : Nat :=
  (currentHeader f c).size+tlvArea f b c (currentHeader f c).size

/-- The bytes checked are the whole image, within the slot, and their checksum is the expected one. -/
structure ChecksImage (f : ImageFormat) (b : CheckBuild) (c : Mem) (bytes : List UInt8) (crc32 : UInt32) : Prop where
  fits : announcedSize f b c ≤ b.secondarySlot.faSize
  bytes : bytes = slice c 0 (announcedSize f b c)
  crc : Crc32.update 0 (slice c 0 (announcedSize f b c)) = crc32

variable {f : ImageFormat} {b : CheckBuild} {fl fl' : Flash} {imgSize n off : Nat} {crc : UInt32} {bytes : List UInt8}

/-- The pages from `off` on are in the slot, and the next reads are carried out. -/
def PagesRead (b : CheckBuild) (fl : Flash) (imgSize off : Nat) : Prop :=
  (off < imgSize → imgSize ≤ b.secondarySlot.faSize) ∧
    ∀ k, off+k*b.dfuFlashPageSize < imgSize → fl.verdict k .read = true

theorem PagesRead.next (h : PagesRead b fl imgSize off) : PagesRead b fl.tick imgSize (off+b.dfuFlashPageSize) := by
  refine ⟨fun hlt => h.1 (by omega), fun k hk => h.2 (k+1) ?_⟩
  rw [Nat.add_mul, Nat.one_mul]
  omega

theorem pageLen_le (b : CheckBuild) (hlt : off < imgSize) : off+b.pageLen imgSize off ≤ imgSize := by
  rw [CheckBuild.pageLen]
  split <;> omega

/-- A page, and what is behind it. -/
theorem slice_page (c : Mem) (b : CheckBuild) (imgSize off : Nat) :
    slice c off (imgSize-off) =
      slice c off (b.pageLen imgSize off)++
        slice c (off+b.dfuFlashPageSize) (imgSize-(off+b.dfuFlashPageSize)) := by
  rw [CheckBuild.pageLen]
  split
  · have hz : imgSize-(off+b.dfuFlashPageSize) = 0 := by omega
    rw [hz, slice, List.append_nil]
  · rw [← slice_add]
    congr 1
    omega

/-- Pages that are read are the bytes from `off` on. -/
theorem checkPages_read (hn : imgSize ≤ off+n) (h : PagesRead b fl imgSize off) :
    (checkPages b imgSize n off crc bytes fl).1 =
        some (Crc32.update crc (slice (content b.secondarySlot fl.mem) off (imgSize-off))) ∧
      (checkPages b imgSize n off crc bytes fl).2.1 =
        bytes++slice (content b.secondarySlot fl.mem) off (imgSize-off) := by
  induction n generalizing off crc bytes fl with
  | zero =>
    have hz : imgSize-off = 0 := by omega
    simp [checkPages, hz, slice]
  | succ n ih =>
    by_cases hlt : off < imgSize
    · have hpos := b.page_pos
      have hread := flashAreaRead_carried_out ((pageLen_le b hlt).trans (h.1 hlt)) (h.2 0 (by omega))
      obtain ⟨hcrc, hbytes⟩ := ih (by omega) h.next
      simp only [checkPages, if_pos hlt, hread]
      rw [hcrc, hbytes, slice_page _ b imgSize off, Crc32.update_append, List.append_assoc]
      exact ⟨rfl, rfl⟩
    · have hz : imgSize-off = 0 := by omega
      simp [checkPages, hlt, hz, slice]

/-- A checksum means that all pages were read. -/
theorem pagesRead_of_some (hn : imgSize ≤ off+n) {crc' : UInt32}
    (h : (checkPages b imgSize n off crc bytes fl).1 = some crc') : PagesRead b fl imgSize off := by
  induction n generalizing off crc bytes fl with
  | zero => exact ⟨fun hlt => absurd hlt (by omega), fun k hk => absurd hk (by omega)⟩
  | succ n ih =>
    by_cases hlt : off < imgSize
    · have hpos := b.page_pos
      cases hread : flashAreaRead b.secondarySlot off (b.pageLen imgSize off) fl with
      | mk data fl' =>
        simp only [checkPages, if_pos hlt, hread] at h
        cases data with
        | none => simp at h
        | some buf =>
          obtain ⟨hin, hv, rfl⟩ := flashAreaRead_success hread
          obtain ⟨hslot, hrest⟩ := ih (by omega) h
          refine ⟨fun _ => ?_, fun k hk => ?_⟩
          · by_cases hmore : off+b.dfuFlashPageSize < imgSize
            · exact hslot hmore
            · rw [CheckBuild.pageLen] at hin
              split at hin <;> omega
          · cases k with
            | zero => exact hv
            | succ k =>
              refine hrest k ?_
              rw [Nat.add_mul, Nat.one_mul] at hk
              omega
    · exact ⟨fun hlt' => absurd hlt' hlt, fun k hk => absurd hk (by omega)⟩

/-- The semaphore is free, the copy of the header has an image size, and the slot can be opened and read up to the size
that the check uses. -/
def CanSucceed (f : ImageFormat) (b : CheckBuild) (secondarySlotHeader : ImageHeader) (busy : Bool)
    (fl : Flash) : Prop :=
  let version := dfuVersionSecondaryGet f b secondarySlotHeader fl
  let size := sizeToCheck f b version.header version.flash.tick
  busy = false ∧ version.header.ihImgSize ≠ 0 ∧ version.flash.verdict 0 .access = true ∧
    PagesRead b size.2 size.1.toNat 0

/-- That size. -/
def usedSize (f : ImageFormat) (b : CheckBuild) (secondarySlotHeader : ImageHeader) (fl : Flash) : Nat :=
  let version := dfuVersionSecondaryGet f b secondarySlotHeader fl
  (sizeToCheck f b version.header version.flash.tick).1.toNat

theorem dfuVersionSecondaryGet_sameMem (f : ImageFormat) (b : CheckBuild) (secondarySlotHeader : ImageHeader)
    (fl : Flash) : fl.SameMem (dfuVersionSecondaryGet f b secondarySlotHeader fl).flash := by
  have hread := flashAreaRead_sameMem b.secondarySlot 0 f.headerSize fl.tick
  simp only [dfuVersionSecondaryGet, flashAreaOpen]
  split
  · rename_i h
    rw [← (Prod.mk.inj h).2]
    exact fl.sameMem_tick
  · rename_i h
    rw [← (Prod.mk.inj h).2]
    split
    · rename_i hr
      rw [hr] at hread
      exact fl.sameMem_tick.trans hread
    · rename_i hr
      rw [hr] at hread
      split <;> exact fl.sameMem_tick.trans hread

theorem sizeToCheck_sameMem (f : ImageFormat) (b : CheckBuild) (header : ImageHeader) (fl : Flash) :
    fl.SameMem (sizeToCheck f b header fl).2 := by
  have hread := flashAreaRead_sameMem b.secondarySlot (header.ihHdrSize.toUInt32+header.ihImgSize).toNat
    f.tlvInfoSize fl
  simp only [sizeToCheck, readTlvInfo]
  split
  · rename_i h
    rw [h] at hread
    exact hread
  · rename_i h
    rw [h] at hread
    exact hread

variable {secondarySlotHeader : ImageHeader} {busy : Bool}

theorem flash_content_unchanged (f : ImageFormat) (b : CheckBuild) (secondarySlotHeader : ImageHeader) (fl : Flash) :
    let version := dfuVersionSecondaryGet f b secondarySlotHeader fl
    (sizeToCheck f b version.header version.flash.tick).2.mem = fl.mem := by
  have hversion := dfuVersionSecondaryGet_sameMem f b secondarySlotHeader fl
  exact ((hversion.trans (Flash.sameMem_tick _)).trans (sizeToCheck_sameMem f b _ _)).mem

/-- Where the check gets to its end. -/
theorem dfuSecondaryCheck_ends (h : CanSucceed f b secondarySlotHeader busy fl) (crc32 : UInt32) :
    let image := slice (content b.secondarySlot fl.mem) 0 (usedSize f b secondarySlotHeader fl)
    (dfuSecondaryCheck f b secondarySlotHeader busy crc32 fl).ret =
        (if Crc32.update 0 image ≠ crc32 then .invalidState else .success) ∧
      (dfuSecondaryCheck f b secondarySlotHeader busy crc32 fl).bytes = image := by
  obtain ⟨rfl, hsize, hopen, hpages⟩ := h
  have hread : (checkPages b _ _ 0 0 [] _).1 = some _ ∧ (checkPages b _ _ 0 0 [] _).2.1 = _ :=
    checkPages_read (Nat.le_add_left _ _) hpages
  rw [flash_content_unchanged, Nat.sub_zero, List.nil_append] at hread
  generalize hr : checkPages b _ _ 0 0 [] _ = result at hread
  obtain ⟨crc, bytes, fl'⟩ := result
  obtain ⟨rfl, rfl⟩ := hread
  simp only [dfuSecondaryCheck, flashAreaOpen, Bool.false_eq_true, if_false, if_neg hsize, hopen, hr]
  exact ⟨rfl, rfl⟩

/-- A check that succeeds got to its end. -/
theorem canSucceed_of_success {crc32 : UInt32}
    (h : (dfuSecondaryCheck f b secondarySlotHeader busy crc32 fl).ret = .success) :
    CanSucceed f b secondarySlotHeader busy fl := by
  simp only [CanSucceed]
  simp only [dfuSecondaryCheck] at h
  generalize dfuVersionSecondaryGet f b secondarySlotHeader fl = version at *
  split_ifs at h with hbusy hsize
  simp only [flashAreaOpen] at h
  refine ⟨by simpa using hbusy, hsize, ?_⟩
  cases hopen : version.flash.verdict 0 .access with
  | false => simp [hopen] at h
  | true =>
    simp only [hopen] at h
    refine ⟨rfl, ?_⟩
    generalize sizeToCheck f b version.header version.flash.tick = size at *
    rcases hr : checkPages b size.1.toNat size.1.toNat 0 0 [] size.2 with ⟨_ | crc, bytes, fl'⟩
    · simp [hr] at h
    · have hsome : (checkPages b size.1.toNat size.1.toNat 0 0 [] size.2).1 = some crc := by rw [hr]
      exact pagesRead_of_some (Nat.le_add_left _ _) hsome

/-- For every expected value, success says what it should exactly if the size used is the one announced. -/
theorem checksImage_iff (f : ImageFormat) (b : CheckBuild) (secondarySlotHeader : ImageHeader) (busy : Bool)
    (fl : Flash) :
    (∀ crc32, (dfuSecondaryCheck f b secondarySlotHeader busy crc32 fl).ret = .success →
      ChecksImage f b (content b.secondarySlot fl.mem)
        (dfuSecondaryCheck f b secondarySlotHeader busy crc32 fl).bytes crc32) ↔
    (CanSucceed f b secondarySlotHeader busy fl →
      usedSize f b secondarySlotHeader fl = announcedSize f b (content b.secondarySlot fl.mem)) := by
  constructor
  · intro h hcan
    -- the expected value of just these bytes
    obtain ⟨hret, hbytes⟩ := dfuSecondaryCheck_ends hcan (Crc32.update 0
      (slice (content b.secondarySlot fl.mem) 0 (usedSize f b secondarySlotHeader fl)))
    rw [if_neg (by simp)] at hret
    have hlen := congrArg List.length (hbytes.symm.trans (h _ hret).bytes)
    simpa only [slice_length] using hlen
  · intro h crc32 hret
    have hcan := canSucceed_of_success hret
    obtain ⟨hret', hbytes⟩ := dfuSecondaryCheck_ends hcan crc32
    rw [h hcan] at hret' hbytes
    refine ⟨?_, hbytes, ?_⟩
    · obtain ⟨hin, -⟩ := hcan.2.2.2
      rw [← h hcan]
      by_cases hpos : 0 < usedSize f b secondarySlotHeader fl
      · exact hin hpos
      · omega
    · by_contra hne
      rw [if_pos hne, hret] at hret'
      contradiction

/-- The header of the slot is read. -/
def HeaderRead (f : ImageFormat) (b : CheckBuild) (fl : Flash) : Prop :=
  fl.verdict 0 .access = true ∧ f.headerSize ≤ b.secondarySlot.faSize ∧ fl.verdict 1 .read = true

theorem dfuVersionSecondaryGet_read (secondarySlotHeader : ImageHeader) (h : HeaderRead f b fl) :
    (dfuVersionSecondaryGet f b secondarySlotHeader fl).header = currentHeader f (content b.secondarySlot fl.mem) ∧
      (dfuVersionSecondaryGet f b secondarySlotHeader fl).flash = fl.tick.tick := by
  obtain ⟨hopen, hsize, hread⟩ := h
  have hdata : flashAreaRead b.secondarySlot 0 f.headerSize fl.tick = _ :=
    flashAreaRead_carried_out (by omega) hread
  simp only [dfuVersionSecondaryGet, flashAreaOpen, hopen, hdata]
  split <;> exact ⟨rfl, rfl⟩

/-- The size of a header in 32 bits. -/
theorem size_toNat (h : ImageHeader) : (h.ihHdrSize.toUInt32+h.ihImgSize).toNat = h.size % 2^32 := by
  rw [UInt32.toNat_add, UInt16.toNat_toUInt32, ImageHeader.size]

/-- The size used is that of the header and its TLV area, if their sum does not wrap and the TLV information of an area is
read. -/
theorem sizeToCheck_iff (f : ImageFormat) (b : CheckBuild) (h : ImageHeader) (fl : Flash) :
    (sizeToCheck f b h fl).1.toNat = h.size+tlvArea f b (content b.secondarySlot fl.mem) h.size ↔
      h.size+tlvArea f b (content b.secondarySlot fl.mem) h.size < 2^32 ∧
        (fl.verdict 0 .read = true ∨ tlvArea f b (content b.secondarySlot fl.mem) h.size = 0) := by
  by_cases hwrap : h.size < 2^32
  swap
  · have hlt := (sizeToCheck f b h fl).1.toNat_lt
    omega
  have hsize : (h.ihHdrSize.toUInt32+h.ihImgSize).toNat = h.size := by
    rw [size_toNat, Nat.mod_eq_of_lt hwrap]
  -- without TLV information nothing is added
  have hzero (tlv : ImageTlvInfo) (htot : f.isTlvInfo tlv = true → tlv.itTlvTot = 0) :
      (if f.isTlvInfo tlv = true then h.ihHdrSize.toUInt32+h.ihImgSize+tlv.itTlvTot.toUInt32
        else h.ihHdrSize.toUInt32+h.ihImgSize).toNat = h.size := by
    split
    · rename_i htlv
      rw [htot htlv, UInt32.toNat_add, hsize]
      exact Nat.mod_eq_of_lt hwrap
    · exact hsize
  by_cases hin : h.size+f.tlvInfoSize ≤ b.secondarySlot.faSize
  · cases hv : fl.verdict 0 .read with
    | false =>
      have hread : flashAreaRead b.secondarySlot h.size f.tlvInfoSize fl = (none, fl.tick) := by
        simp only [flashAreaRead, if_neg (not_lt.mpr hin), hv, Bool.false_eq_true, if_false]
      simp only [sizeToCheck, readTlvInfo, hsize, hread, hzero ⟨0, 0⟩ fun _ => rfl]
      simp only [Bool.false_eq_true, false_or]
      omega
    | true =>
      have hread : flashAreaRead b.secondarySlot h.size f.tlvInfoSize fl = _ := flashAreaRead_carried_out hin hv
      simp only [sizeToCheck, readTlvInfo, hsize, hread, tlvArea, hin, true_and, true_or, and_true]
      split_ifs with htlv
      · rw [UInt32.toNat_add, hsize, UInt16.toNat_toUInt32]
        omega
      · omega
  · have hread : flashAreaRead b.secondarySlot h.size f.tlvInfoSize fl = (none, fl) :=
      flashAreaRead_out (by omega) fl
    simp only [sizeToCheck, readTlvInfo, hsize, hread, hzero ⟨0, 0⟩ fun _ => rfl, tlvArea, hin, false_and, if_false]
    simpa using hwrap

/-- For every content of the slot, every copy of its header and all faults: a check that succeeds has checked the image
that the slot announces, for each expected value, if and only if the size it uses is the one announced or it cannot get
to its end. Where the header is read, the sizes agree exactly if their sum does not wrap and the TLV information of an
area is read. -/
theorem secondary_check_exact_iff (f : ImageFormat) (b : CheckBuild) (secondarySlotHeader : ImageHeader) (busy : Bool)
    (fl : Flash) :
    let c := content b.secondarySlot fl.mem
    ((∀ crc32, (dfuSecondaryCheck f b secondarySlotHeader busy crc32 fl).ret = .success →
        ChecksImage f b c (dfuSecondaryCheck f b secondarySlotHeader busy crc32 fl).bytes crc32) ↔
      (CanSucceed f b secondarySlotHeader busy fl → usedSize f b secondarySlotHeader fl = announcedSize f b c)) ∧
    (HeaderRead f b fl →
      (usedSize f b secondarySlotHeader fl = announcedSize f b c ↔ announcedSize f b c < 2^32 ∧
        (fl.verdict 3 .read = true ∨ tlvArea f b c (currentHeader f c).size = 0))) := by
  refine ⟨checksImage_iff f b secondarySlotHeader busy fl, fun hread => ?_⟩
  obtain ⟨hheader, hflash⟩ := dfuVersionSecondaryGet_read secondarySlotHeader hread
  simp only [usedSize, hheader, hflash]
  exact sizeToCheck_iff f b (currentHeader f (content b.secondarySlot fl.mem)) fl.tick.tick.tick

/-- A header of MCUboot with a size of its own and the bytes of the image size. -/
def headerBytes (hdrSize : UInt8) (imgSize : List UInt8) : List UInt8 :=
  [0x3d, 0xb8, 0xf3, 0x96, 0, 0, 0, 0, hdrSize, 0, 0, 0]++imgSize++[0, 0, 0, 0, 1, 0, 0, 0, 0, 0, 0, 0, 0, 0, 0, 0]

/-- Pearl's flash with these bytes in front of an erased slot. -/
def slotHolds (bytes : List UInt8) : Mem := fun a => bytes.getD (a-(CheckBuild.of .pearl).secondarySlot.faOff) 0xff

/-- An image of 4 bytes and its TLV area of 8. -/
def shortImage : List UInt8 := headerBytes 32 [4, 0, 0, 0]++[1, 2, 3, 4]++[0x07, 0x69, 8, 0, 5, 6, 7, 8]

/-- The check of Pearl's slot at power-up. -/
def pearlCheck (m : Mem) (crc32 : UInt32) : CheckResult :=
  dfuSecondaryCheck mcuboot (.of .pearl) ⟨0, 0, 0, 0, 0, 0⟩ false crc32 (.ok m)

theorem secondary_check_exact_pearl :
    (pearlCheck (slotHolds shortImage) 304867777).ret = .success ∧
      ∀ crc32, (pearlCheck (slotHolds shortImage) crc32).ret = .success →
        ChecksImage mcuboot (.of .pearl) (content (CheckBuild.of .pearl).secondarySlot (slotHolds shortImage))
          (pearlCheck (slotHolds shortImage) crc32).bytes crc32 := by
  have hexact := secondary_check_exact_iff mcuboot (.of .pearl) ⟨0, 0, 0, 0, 0, 0⟩ false (.ok (slotHolds shortImage))
  simp only [Flash.ok_mem] at hexact
  refine ⟨by decide +kernel, ?_⟩
  simp only [pearlCheck]
  refine hexact.1.mpr fun _ => (hexact.2 ⟨rfl, by decide, rfl⟩).mpr ⟨?_, .inl rfl⟩
  decide +kernel

/-- What Pearl's slot holds. -/
def pearlContent (m : Mem) : Mem := content (CheckBuild.of .pearl).secondarySlot m

/-- On Pearl, three checks that succeed over other bytes: the header of the image cannot be read and the copy of an
earlier one is used; the sum of the sizes wraps to 8; the TLV information cannot be read. -/
theorem check_of_other_bytes :
    let stale := dfuSecondaryCheck mcuboot (.of .pearl) ⟨4, 4, 1, 0, 0, 0⟩ false 2771394821
      ⟨slotHolds shortImage, fun n _ => n ≠ 1⟩
    let largeImage := headerBytes 32 [0xe8, 0xff, 0xff, 0xff]
    let wrapped := pearlCheck (slotHolds largeImage) 2771394821
    let noTlv := dfuSecondaryCheck mcuboot (.of .pearl) ⟨0, 0, 0, 0, 0, 0⟩ false 1433138567
      ⟨slotHolds shortImage, fun n _ => n ≠ 3⟩
    (stale.ret = .success ∧
      ¬ChecksImage mcuboot (.of .pearl) (pearlContent (slotHolds shortImage)) stale.bytes 2771394821) ∧
    (wrapped.ret = .success ∧
      ¬ChecksImage mcuboot (.of .pearl) (pearlContent (slotHolds largeImage)) wrapped.bytes 2771394821) ∧
    (noTlv.ret = .success ∧
      ¬ChecksImage mcuboot (.of .pearl) (pearlContent (slotHolds shortImage)) noTlv.bytes 1433138567) := by
  refine ⟨⟨by decide +kernel, fun h => ?_⟩, ⟨by decide +kernel, fun h => ?_⟩, ⟨by decide +kernel, fun h => ?_⟩⟩
  · have hlen := congrArg List.length h.bytes
    revert hlen
    decide +kernel
  · have hfits := h.fits
    revert hfits
    decide +kernel
  · have hlen := congrArg List.length h.bytes
    revert hlen
    decide +kernel

end OrbFirmware.Dfu

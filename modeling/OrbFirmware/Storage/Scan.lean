import OrbFirmware.Storage.Fifo

/-! The chunks that `init_area` reads of a record, and its scan on a fault-free device, one header at a time. -/
namespace OrbFirmware.Storage
open Nor
variable {p : Platform} {fa : FlashArea} {m : Mem} {n index rd wr : Nat} {found : Option Nat}

/-- The bytes of the chunks that are read, from `i` on; a refused chunk is missing. -/
def chunksRead (fa : FlashArea) (index size : Nat) : Nat → Nat → Flash → List UInt8
  | 0, _, _ => []
  | n+1, i, fl =>
    if i < size then
      let sizeToRead := if i+initAreaReadBufferSize < size then initAreaReadBufferSize else size-i
      let (readBuffer, fl) := flashAreaRead fa (index+sizeofStorageHeader+i) sizeToRead fl
      readBuffer.getD [] ++ chunksRead fa index size n (i+initAreaReadBufferSize) fl
    else []

theorem initAreaCrc_chunks (index size n i : Nat) (crc16 : UInt16) (fl : Flash) :
    (initAreaCrc p fa index size n i crc16 fl).1 = crc16Ccitt p crc16 (chunksRead fa index size n i fl) := by
  induction n generalizing i crc16 fl with
  | zero => rfl
  | succ n ih =>
    simp only [initAreaCrc, chunksRead]
    split
    · rw [ih, crc16Ccitt_append]
      split <;> rename_i he <;> rw [he] <;> rfl
    · rfl

/-- Where nothing is refused the chunks of a record inside the area are its payload. -/
theorem chunksRead_granted {index size n i : Nat} {fl : Flash} (hg : fl.Grants .read)
    (hb : index+8+size ≤ fa.faSize) (hn : size ≤ i+64*n) :
    chunksRead fa index size n i fl = slice (content fa fl.mem) (index+8+i) (size-i) := by
  induction n generalizing i fl with
  | zero =>
    have hz : size-i = 0 := by omega
    rw [hz]
    rfl
  | succ n ih =>
    have hread (len : Nat) (hlen : i+len ≤ size) : flashAreaRead fa (index+sizeofStorageHeader+i) len fl =
        (some (slice (content fa fl.mem) (index+8+i) len), fl.tick) :=
      flashAreaRead_carried_out (by simp only [sizeofStorageHeader]; omega) (hg 0)
    have hrest : chunksRead fa index size n (i+initAreaReadBufferSize) fl.tick =
        slice (content fa fl.mem) (index+8+(i+initAreaReadBufferSize)) (size-(i+initAreaReadBufferSize)) :=
      ih (fl.later_tick.grants hg) (by simp only [initAreaReadBufferSize]; omega)
    simp only [chunksRead]
    split
    · split <;> rename_i hi hmore
      · have hsplit : size-i = initAreaReadBufferSize+(size-(i+initAreaReadBufferSize)) := by omega
        rw [hread _ (le_of_lt hmore), hsplit, slice_add, hrest, Nat.add_assoc (index+8)]
        rfl
      · have hlast : size-(i+initAreaReadBufferSize) = 0 := by omega
        rw [hread (size-i) (by omega), hrest, hlast]
        exact List.append_nil _
    · have hz : size-i = 0 := by omega
      rw [hz]
      rfl

/-- The chunks together are the payload, as far as it is inside the area. -/
theorem initAreaCrc_ok {size i : Nat} {crc16 : UInt16} (hb : index+8+size ≤ fa.faSize)
    (hn : size ≤ i+64*n) :
    initAreaCrc p fa index size n i crc16 (.ok m) =
      (crc16Ccitt p crc16 (slice (content fa m) (index+8+i) (size-i)), .ok m) := by
  have hchunks := chunksRead_granted (Flash.grants_ok m .read) hb hn
  refine Prod.ext ?_ (initAreaCrc_sameMem p fa index size n i crc16 (.ok m)).ok
  rw [initAreaCrc_chunks, hchunks, Flash.ok_mem]

/-- The scan going on at `index`, with the loop condition tested first. -/
def scanFrom (p : Platform) (fa : FlashArea) (m : Mem) (n index : Nat) (found : Option Nat) :
    Option Nat × Option Nat :=
  if index+sizeofStorageHeader < fa.faSize then (initAreaLoop p fa n index found (.ok m)).1 else (found, none)

/-- Where the scan goes on behind a header that is not an unused one. -/
def scanNext (p : Platform) (c : Mem) (index : Nat) : Nat :=
  if (headerAt c index).magicState = recordValid then
    index+recordSpan p (headerAt c index).recordSize.toNat
  else index+p.blk

/-- The first valid record found so far, once the header at `index` is seen. -/
def scanFound (p : Platform) (fa : FlashArea) (m : Mem) (index : Nat) (found : Option Nat) : Option Nat :=
  let header := headerAt (content fa m) index
  if found = none ∧ header.magicState = recordValid ∧
      header.crc16 = (initAreaCrc p fa index header.recordSize.toNat header.recordSize.toNat 0 0xffff (.ok m)).1
  then some index else found

theorem initAreaLoop_unused (hb : index+8 ≤ fa.faSize)
    (hu : (headerAt (content fa m) index).magicState = recordUnused) :
    (initAreaLoop p fa (n+1) index found (.ok m)).1 = (found, some index) := by
  have hr := flashAreaRead_ok (show index+sizeofStorageHeader ≤ fa.faSize from hb) m
  rw [headerAt] at hu
  simp only [initAreaLoop, hr, hu, recordUnused_ne_valid, and_false, if_false, if_true]

/-- One round of the scan over a header that is not an unused one. -/
theorem initAreaLoop_round (hb : index+8 ≤ fa.faSize)
    (hu : (headerAt (content fa m) index).magicState ≠ recordUnused) :
    (initAreaLoop p fa (n+1) index found (.ok m)).1 =
      scanFrom p fa m n (scanNext p (content fa m) index) (scanFound p fa m index found) := by
  have hr := flashAreaRead_ok (show index+sizeofStorageHeader ≤ fa.faSize from hb) m
  have hhd : StorageHeader.ofBytes (slice (content fa m) index sizeofStorageHeader) =
    headerAt (content fa m) index := rfl
  have hcrc (size : Nat) : (initAreaCrc p fa index size size 0 0xffff (.ok m)).2 = .ok m :=
    (initAreaCrc_sameMem p fa index size size 0 0xffff (.ok m)).ok
  cases found with
  | none =>
    by_cases hv : (headerAt (content fa m) index).magicState = recordValid
    · simp only [initAreaLoop, hr, hhd, hv, hcrc, and_self, if_true, recordUnused_ne_valid.symm, if_false,
        scanFrom, scanNext, scanFound, true_and]
      exact apply_ite Prod.fst _ _ _
    · simp only [initAreaLoop, hr, hhd, hu, hv, and_false, false_and, if_false, scanFrom, scanNext, scanFound]
      exact apply_ite Prod.fst _ _ _
  | some x =>
    simp only [initAreaLoop, hr, hhd, hu, reduceCtorEq, false_and, if_false, scanFrom, scanNext, scanFound]
    exact apply_ite Prod.fst _ _ _

theorem initAreaLoop_hop (hb : index+8 ≤ fa.faSize)
    (hu : (headerAt (content fa m) index).magicState ≠ recordUnused)
    (hv : (headerAt (content fa m) index).magicState ≠ recordValid) :
    (initAreaLoop p fa (n+1) index found (.ok m)).1 = scanFrom p fa m n (index+p.blk) found := by
  rw [initAreaLoop_round hb hu, scanNext, if_neg hv, scanFound, if_neg (fun h => hv h.2.1)]

theorem scanNext_record {record : List UInt8} {c : Mem} (h : RecordAt p c index record) :
    scanNext p c index = index+recordSpan p record.length := by
  rw [scanNext, if_pos h.magic, h.size]

theorem initAreaLoop_record {record : List UInt8} (hb : index+8+record.length ≤ fa.faSize)
    (h : RecordAt p (content fa m) index record) :
    (initAreaLoop p fa (n+1) index found (.ok m)).1 =
      scanFrom p fa m n (index+recordSpan p record.length) (some (found.getD index)) := by
  have hu : (headerAt (content fa m) index).magicState ≠ recordUnused := by
    rw [h.magic]
    exact recordUnused_ne_valid.symm
  rw [initAreaLoop_round (by omega) hu, scanNext_record h]
  cases found with
  | none =>
    have hcrc : initAreaCrc p fa index record.length record.length 0 0xffff (.ok m) = _ :=
      initAreaCrc_ok hb (by omega)
    rw [Nat.add_zero, Nat.sub_zero, h.payload] at hcrc
    simp only [scanFound, h.magic, h.size, h.crc, hcrc, and_self, if_true, Option.getD_none]
  | some rd => simp only [scanFound, reduceCtorEq, false_and, if_false, Option.getD_some]

/-- No word that the scan can meet below `rd` reads as the header of a record or of unused flash.
What `storage_free` leaves behind is a zeroed header and the payload. -/
def NoMisread (p : Platform) (c : Mem) (rd : Nat) : Prop :=
  ∀ index < rd, p.blk ∣ index →
    (headerAt c index).magicState ≠ recordUnused ∧ (headerAt c index).magicState ≠ recordValid

instance (p : Platform) (c : Mem) (rd : Nat) : Decidable (NoMisread p c rd) :=
  inferInstanceAs (Decidable (∀ index < rd, p.blk ∣ index →
    (headerAt c index).magicState ≠ recordUnused ∧ (headerAt c index).magicState ≠ recordValid))

theorem scanFrom_freed (h : NoMisread p (content fa m) rd) (hle : index ≤ rd) (hi : p.blk ∣ index)
    (hrd : p.blk ∣ rd) (hn : fa.faSize ≤ n+index) :
    ∃ n', fa.faSize ≤ n'+rd ∧ scanFrom p fa m n index found = scanFrom p fa m n' rd found := by
  obtain ⟨k, hk⟩ := Nat.dvd_sub hrd hi
  induction k generalizing n index with
  | zero =>
    have he : index = rd := by omega
    exact ⟨n, by omega, by rw [he]⟩
  | succ k ih =>
    have hpos := blk_pos p
    have hmul : p.blk*(k+1) = p.blk*k+p.blk := by ring
    by_cases hb : index+sizeofStorageHeader < fa.faSize
    · obtain ⟨n, rfl⟩ : ∃ n', n = n'+1 := ⟨n-1, by omega⟩
      obtain ⟨hu, hv⟩ := h index (by omega) hi
      have hnext : index+p.blk ≤ rd := by omega
      obtain ⟨n', hn', hscan⟩ := ih (n := n) hnext (Nat.dvd_add hi dvd_rfl) (by omega) (by omega)
      refine ⟨n', hn', ?_⟩
      rw [← hscan, scanFrom, if_pos hb, initAreaLoop_hop (le_of_lt hb) hu hv]
    · -- the rest of the area is too short for a header, at `index` as at `rd`
      refine ⟨fa.faSize, by omega, ?_⟩
      rw [scanFrom, scanFrom, if_neg hb, if_neg (by omega)]

theorem scanFrom_queued {q : Queue} (h : Queued p (content fa m) index q wr) (hne : ∀ record ∈ q, record ≠ [])
    (hw : wr ≤ fa.faSize) (hn : fa.faSize ≤ n+index)
    (hu : wr+sizeofStorageHeader ≤ fa.faSize → (headerAt (content fa m) wr).magicState = recordUnused) :
    scanFrom p fa m n index found =
      (if q = [] then found else some (found.getD index), if wr+sizeofStorageHeader < fa.faSize then some wr else none) := by
  induction q generalizing n index found with
  | nil =>
    have hi : index = wr := h
    subst hi
    by_cases hb : index+sizeofStorageHeader < fa.faSize
    · obtain ⟨n, rfl⟩ : ∃ n', n = n'+1 := ⟨n-1, by omega⟩
      rw [scanFrom, if_pos hb, initAreaLoop_unused (le_of_lt hb) (hu (le_of_lt hb)), if_pos rfl, if_pos hb]
    · rw [scanFrom, if_neg hb, if_pos rfl, if_neg hb]
  | cons record q ih =>
    obtain ⟨hr, hq⟩ := h
    have hs := le_recordSpan p record.length
    have hl := List.length_pos_iff.mpr (hne record List.mem_cons_self)
    have hle := hq.le
    obtain ⟨n, rfl⟩ : ∃ n', n = n'+1 := ⟨n-1, by omega⟩
    have hb : index+sizeofStorageHeader < fa.faSize := by
      simp only [sizeofStorageHeader]
      omega
    rw [scanFrom, if_pos hb, initAreaLoop_record (by omega) hr,
      ih hq (fun r hr => hne r (List.mem_cons_of_mem record hr)) (by omega)]
    split <;> rfl

end OrbFirmware.Storage

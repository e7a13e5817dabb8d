import OrbFirmware.Storage.Records
import OrbFirmware.Storage.Scan

/-! `storage_init` after a reboot: the queue it recovers, unless the scan takes freed payload for a
header. -/
namespace OrbFirmware.Storage
open Nor

/-- Content in which the scan finds the queue: freed records that do not mislead it, the queue, and
an unused header where one fits. -/
structure Scannable (p : Platform) (fa : FlashArea) (m : Mem) (rd wr : Nat) (q : Queue) : Prop where
  aligned : p.blk ∣ rd
  freed : 0 < rd → 8 ≤ rd ∧ (headerAt (content fa m) 0).magicState = recordInvalid
  clean : NoMisread p (content fa m) rd
  queued : Queued p (content fa m) rd q wr
  nonempty : ∀ record ∈ q, record ≠ []
  bounded : wr ≤ fa.faSize
  unused : wr+sizeofStorageHeader ≤ fa.faSize → (headerAt (content fa m) wr).magicState = recordUnused

variable {p : Platform} {fa : FlashArea} {area : StorageArea} {s : StorageState} {m : Mem} {q : Queue}
  {size n rd wr : Nat}

theorem StorageInv.scannable (h : StorageInv p fa s q)
    (hclean : NoMisread p (content fa s.mem) s.area.rdIdx) :
    Scannable p fa s.mem s.area.rdIdx s.area.wrIdx q :=
  ⟨h.aligned, h.freed, hclean, h.queued, h.nonempty, h.bounded,
    fun hfit => headerAt_erased h.erased (by simp only [sizeofStorageHeader] at hfit; omega)⟩

theorem initArea_ok {rd wr : Option Nat} (hb : 8 ≤ fa.faSize)
    (hm : (headerAt (content fa m) 0).magicState = recordUnused ∨
      (headerAt (content fa m) 0).magicState = recordValid ∨
      (headerAt (content fa m) 0).magicState = recordInvalid)
    (hscan : (initAreaLoop p fa fa.faSize 0 none (.ok m)).1 = (rd, wr)) :
    initArea p fa area (.ok m) =
      match rd, wr with
      | none, none => (.invalidState, { area with rdIdx := 0, wrIdx := 0 }, .ok m)
      | some rd, none => (.success, { area with rdIdx := rd, wrIdx := fa.faSize }, .ok m)
      | none, some wr => (.success, { area with rdIdx := wr, wrIdx := wr }, .ok m)
      | some rd, some wr => (.success, { area with rdIdx := rd, wrIdx := wr }, .ok m) := by
  have hh := flashAreaRead_ok (show 0+sizeofStorageHeader ≤ fa.faSize from hb) m
  have hhd : StorageHeader.ofBytes (slice (content fa m) 0 sizeofStorageHeader) =
    headerAt (content fa m) 0 := rfl
  have hfl := (initAreaLoop_sameMem p fa fa.faSize 0 none (.ok m)).ok
  have hloop : initAreaLoop p fa fa.faSize 0 none (.ok m) = ((rd, wr), .ok m) := Prod.ext hscan hfl
  have hok : ¬ ((headerAt (content fa m) 0).magicState ≠ recordUnused ∧
      (headerAt (content fa m) 0).magicState ≠ recordValid ∧
      (headerAt (content fa m) 0).magicState ≠ recordInvalid) := by
    rintro ⟨h1, h2, h3⟩
    rcases hm with h | h | h <;> contradiction
  simp only [initArea, hh, Option.getD_some, hhd, reduceCtorEq, false_or, if_neg hok, hloop]
  cases rd <;> cases wr <;> rfl

/-- A first header that is none of the three kinds, or that cannot be read. -/
theorem initArea_invalid (hm : 8 ≤ fa.faSize →
      (headerAt (content fa m) 0).magicState ≠ recordUnused ∧
      (headerAt (content fa m) 0).magicState ≠ recordValid ∧
      (headerAt (content fa m) 0).magicState ≠ recordInvalid) :
    initArea p fa area (.ok m) = (.invalidState, { area with rdIdx := 0, wrIdx := 0 }, .ok m) := by
  by_cases hb : 8 ≤ fa.faSize
  · have hh := flashAreaRead_ok (show 0+sizeofStorageHeader ≤ fa.faSize from hb) m
    have hm' := hm hb
    rw [headerAt] at hm'
    simp only [initArea, hh, Option.getD_some, if_pos (Or.inr hm')]
  · have hh : flashAreaRead fa 0 sizeofStorageHeader (.ok m) = (none, .ok m) :=
      flashAreaRead_out (by simp only [sizeofStorageHeader]; omega) _
    simp only [initArea, hh, true_or, if_true]

/-- Over freed records the scan gets to `rd` without finding anything. -/
theorem initAreaLoop_freed (hclean : NoMisread p (content fa m) rd) (hrd : p.blk ∣ rd) (h0 : 0 < rd)
    (hb : 8 ≤ fa.faSize) :
    ∃ n, fa.faSize ≤ n+rd ∧
      (initAreaLoop p fa fa.faSize 0 none (.ok m)).1 = scanFrom p fa m n rd none := by
  have hblk := Nat.le_of_dvd h0 hrd
  have hpos := blk_pos p
  obtain ⟨n, hn⟩ : ∃ n, fa.faSize = n+1 := ⟨fa.faSize-1, by omega⟩
  obtain ⟨hu, hv⟩ := hclean 0 h0 (dvd_zero _)
  have hhop : (initAreaLoop p fa (n+1) 0 none (.ok m)).1 = _ := initAreaLoop_hop hb hu hv
  have hle : 0+p.blk ≤ rd := by omega
  obtain ⟨n', hn', hfreed⟩ : ∃ n', fa.faSize ≤ n'+rd ∧
      scanFrom p fa m n (0+p.blk) none = scanFrom p fa m n' rd none :=
    scanFrom_freed hclean hle (by simp) hrd (by omega)
  refine ⟨n', hn', ?_⟩
  rw [show initAreaLoop p fa fa.faSize = initAreaLoop p fa (n+1) by rw [hn], hhop, hfreed]

/-- The scan finds the head of the queue, and the unused header behind it. -/
theorem Scannable.scan (h : Scannable p fa m rd wr q) (hused : q ≠ [] ∨ 0 < rd) :
    8 ≤ fa.faSize ∧ ((headerAt (content fa m) 0).magicState = recordValid ∨
      (headerAt (content fa m) 0).magicState = recordInvalid) ∧
    (initAreaLoop p fa fa.faSize 0 none (.ok m)).1 =
      (if q = [] then none else some rd,
        if wr+sizeofStorageHeader < fa.faSize then some wr else none) := by
  have hle := h.queued.le
  have hb := h.bounded
  have hqueue (n : Nat) (hn : fa.faSize ≤ n+rd) : scanFrom p fa m n rd none = _ :=
    scanFrom_queued h.queued h.nonempty hb hn h.unused
  by_cases h0 : 0 < rd
  · obtain ⟨h8, hm⟩ := h.freed h0
    obtain ⟨n, hn, hfreed⟩ := initAreaLoop_freed h.clean h.aligned h0 (by omega)
    refine ⟨by omega, .inr hm, ?_⟩
    rw [hfreed, hqueue n hn]
    rfl
  · -- nothing freed yet: the first header is that of the oldest record
    have hrd : rd = 0 := by omega
    subst hrd
    cases q with
    | nil => exact absurd hused (by simp)
    | cons record q =>
      obtain ⟨hr, htail⟩ := h.queued
      have hs := le_recordSpan p record.length
      have hl := List.length_pos_iff.mpr (h.nonempty record List.mem_cons_self)
      have hle := htail.le
      have hfit : 0+sizeofStorageHeader < fa.faSize := by
        simp only [sizeofStorageHeader]
        omega
      have hstart : (initAreaLoop p fa fa.faSize 0 none (.ok m)).1 =
          scanFrom p fa m fa.faSize 0 none := by
        rw [scanFrom, if_pos hfit]
      refine ⟨by omega, .inl hr.magic, ?_⟩
      rw [hstart, hqueue _ le_rfl]
      rfl

/-- What the scan makes of the area: the queue, with the write index at the end of the area where no
header fits behind it. An area with neither a record nor room for a header counts as invalid. -/
theorem Scannable.initArea (h : Scannable p fa m rd wr q)
    (hused : q ≠ [] ∨ 0 < rd ∨ sizeofStorageHeader < fa.faSize) :
    initArea p fa area (.ok m) =
      if q = [] ∧ ¬ wr+sizeofStorageHeader < fa.faSize then
        (.invalidState, { area with rdIdx := 0, wrIdx := 0 }, .ok m)
      else (.success, { area with
        rdIdx := rd, wrIdx := if wr+sizeofStorageHeader < fa.faSize then wr else fa.faSize }, .ok m) := by
  by_cases hold : q ≠ [] ∨ 0 < rd
  · obtain ⟨hb, hmagic, hscan⟩ := h.scan hold
    by_cases hq : q = []
    · subst hq
      have he : rd = wr := h.queued
      by_cases hend : wr+sizeofStorageHeader < fa.faSize <;>
        simp only [if_true, hend, if_false] at hscan <;>
        rw [initArea_ok hb (.inr hmagic) hscan] <;> simp [he, hend]
    · by_cases hend : wr+sizeofStorageHeader < fa.faSize <;>
        simp only [hq, hend, if_true, if_false] at hscan <;>
        rw [initArea_ok hb (.inr hmagic) hscan] <;> simp [hq, hend]
  · -- nothing stored since the area was erased
    obtain ⟨hq, h0⟩ := not_or.mp hold
    have hq : q = [] := not_not.mp hq
    have hrd : rd = 0 := by omega
    subst hq hrd
    have he : 0 = wr := h.queued
    subst he
    have hfit : 0+sizeofStorageHeader < fa.faSize := by
      rcases hused with hq | hrd | hfit
      · exact absurd rfl hq
      · omega
      · omega
    have hu := h.unused (le_of_lt hfit)
    obtain ⟨n, hn⟩ : ∃ n, fa.faSize = n+1 := ⟨fa.faSize-1, by omega⟩
    have hscan : (initAreaLoop p fa fa.faSize 0 none (.ok m)).1 = (none, some 0) := by
      rw [hn]
      exact initAreaLoop_unused (le_of_lt hfit) hu
    rw [initArea_ok (le_of_lt hfit) (.inl hu) hscan]
    simp only [hfit, not_true_eq_false, and_false, if_false, if_true]

/-- After a reboot the queue is there; if there is none, the area may have been erased. -/
theorem Scannable.boot (h : Scannable p fa m rd wr q) :
    (storageBoot p fa m).1 = .success ∧ Readable p fa (storageBoot p fa m).2 q ∧
    (Erased (content fa m) wr fa.faSize → Erased (content fa (storageBoot p fa m).2.mem)
      (storageBoot p fa m).2.area.wrIdx fa.faSize) := by
  have hret : (storageBoot p fa m).1 = .success := by rw [storageBoot, storageInit_ok]
  refine ⟨hret, ?_⟩
  have hw := h.bounded
  have hzero : Readable p fa ⟨⟨some fa, 0, 0⟩, erase m fa.faOff fa.faSize⟩ [] ∧
      Erased (content fa (erase m fa.faOff fa.faSize)) 0 fa.faSize :=
    ⟨(laid_empty p fa _).readable, (erasedFrom_erase (fun _ _ => rfl)).erased⟩
  by_cases hused : q ≠ [] ∨ 0 < rd ∨ sizeofStorageHeader < fa.faSize
  · by_cases hdrained : q = [] ∧ ¬ wr+sizeofStorageHeader < fa.faSize
    · simp only [storageBoot, storageInit_ok, h.initArea hused, if_pos hdrained, reduceCtorEq, if_false]
      rw [hdrained.1]
      exact ⟨hzero.1, fun _ => hzero.2⟩
    · simp only [storageBoot, storageInit_ok, h.initArea hused, if_neg hdrained, if_true]
      by_cases hend : wr+sizeofStorageHeader < fa.faSize
      · simp only [if_pos hend]
        exact ⟨⟨rfl, h.aligned, hw, wr, h.queued, le_rfl, fun hne => absurd rfl hne⟩, id⟩
      · -- no header fits behind the queue: the area counts as full
        simp only [if_neg hend]
        exact ⟨⟨rfl, h.aligned, le_rfl, wr, h.queued, hw, fun _ hfit hv =>
          recordUnused_ne_valid ((h.unused hfit).symm.trans hv)⟩, fun he => he.mono hw le_rfl⟩
  · -- an area no larger than a header, with nothing in it
    obtain ⟨hq, hrest⟩ := not_or.mp hused
    obtain ⟨h0, hsize⟩ := not_or.mp hrest
    have hq : q = [] := not_not.mp hq
    have hrd : rd = 0 := by omega
    subst hq hrd
    have he : 0 = wr := h.queued
    subst he
    by_cases hb : 0+sizeofStorageHeader ≤ fa.faSize
    · have hu := h.unused hb
      obtain ⟨n, hn⟩ : ∃ n, fa.faSize = n+1 := ⟨fa.faSize-1, by
        simp only [sizeofStorageHeader] at hb
        omega⟩
      have hscan : (initAreaLoop p fa fa.faSize 0 none (.ok m)).1 = (none, some 0) := by
        rw [hn]
        exact initAreaLoop_unused hb hu
      simp only [storageBoot, storageInit_ok, initArea_ok hb (.inl hu) hscan, if_true]
      exact ⟨⟨rfl, dvd_zero _, hw, 0, rfl, le_rfl, fun hne => absurd rfl hne⟩, id⟩
    · have hinv : OrbFirmware.Storage.initArea p fa ⟨some fa, 0, 0⟩ (.ok m) = _ :=
        initArea_invalid fun hfit => absurd hfit hb
      simp only [storageBoot, storageInit_ok, hinv, reduceCtorEq, if_false]
      exact ⟨hzero.1, fun _ => hzero.2⟩

/-- Freed payload that reads as an unused header ends the scan: whatever is queued behind is gone. -/
theorem StorageInv.boot_misread {k : Nat} (h : StorageInv p fa s q) (hk : k < s.area.rdIdx)
    (hfit : k+sizeofStorageHeader < fa.faSize) (hdvd : p.blk ∣ k) (hpos : 0 < k)
    (hbelow : NoMisread p (content fa s.mem) k)
    (hmis : (headerAt (content fa s.mem) k).magicState = recordUnused) :
    storageRecords p size n (storageBoot p fa s.mem).2 = [] := by
  obtain ⟨-, hm⟩ := h.freed (by omega)
  have hsize : 8 ≤ fa.faSize := by
    simp only [sizeofStorageHeader] at hfit
    omega
  obtain ⟨n', hn', hfreed⟩ := initAreaLoop_freed hbelow hdvd hpos hsize
  have hscan : (initAreaLoop p fa fa.faSize 0 none (.ok s.mem)).1 = (none, some k) := by
    obtain ⟨n', rfl⟩ : ∃ n, n' = n+1 := ⟨n'-1, by omega⟩
    rw [hfreed, scanFrom, if_pos hfit, initAreaLoop_unused (le_of_lt hfit) hmis]
  refine storageRecords_stop ?_
  simp [storageBoot, storageInit_ok, initArea_ok hsize (.inr (.inr hm)) hscan, storagePeek]

/-- Reboot after any run of calls from erased flash: unless freed payload reads as a header,
`storage_init` finds the pending records in push order, and erased flash behind them. -/
theorem storage_init_recovers_queue (p : Platform) (fa : FlashArea) (m : Mem) (ops : List StorageOp)
    (herased : Erased (content fa m) 0 fa.faSize) (hops : ∀ op ∈ ops, FitsSizeField fa op) :
    let outs := (Machine.run (storageStep p) (storageBoot p fa m).2 ops).1
    let s := (Machine.run (storageStep p) (storageBoot p fa m).2 ops).2
    let s' := (storageBoot p fa s.mem).2
    NoMisread p (content fa s.mem) s.area.rdIdx →
      (storageBoot p fa s.mem).1 = .success ∧ Erased (content fa s'.mem) s'.area.wrIdx fa.faSize ∧
      ∃ q, (fifo fa.faSize).Run [] ops outs q ∧
        ∀ size n, (∀ record ∈ q, record.length ≤ size) → q.length < n → storageRecords p size n s' = q := by
  intro outs s s' hclean
  obtain ⟨q, hrun, hinv⟩ := Machine.run_simulates storageStep_inv (storageBoot p fa m).2 [] ops hops
    (storageBoot_erased herased)
  obtain ⟨hret, hread, hbehind⟩ := (hinv.scannable hclean).boot
  exact ⟨hret, hbehind hinv.erased, q, hrun, fun size n hsize hn => hread.records hsize hn⟩

theorem storage_init_recovers_queue_pearl :
    storageRecords (.of .pearl) 16 2 (storageBoot (.of .pearl) (storagePartition .pearl)
      (Machine.run (storageStep (.of .pearl)) (storageBoot (.of .pearl) (storagePartition .pearl)
        (fun _ => 0xff)).2 [.push [1, 2, 3], .push [4], .free]).2.mem).2 = [[4]] := by
  obtain ⟨-, -, q, hrun, hrec⟩ := storage_init_recovers_queue (.of .pearl) (storagePartition .pearl)
    (fun _ => 0xff) [.push [1, 2, 3], .push [4], .free] (fun _ _ _ => rfl) (by decide) (by decide +kernel)
  have houts : (Machine.run (storageStep (.of .pearl)) (storageBoot (.of .pearl) (storagePartition .pearl)
      (fun _ => 0xff)).2 [.push [1, 2, 3], .push [4], .free]).1 =
      [.code .success, .code .success, .code .success] := by
    decide +kernel
  rw [houts] at hrun
  obtain ⟨-, -, -, rfl⟩ := hrun
  exact hrec 16 2 (by decide) (by decide)

/-- A freed record that starts with two 0xff bytes hides the record behind it from the scan. -/
theorem freed_ones_hide_queue :
    let s := Machine.run (storageStep (.of .pearl)) (storageBoot (.of .pearl) (storagePartition .pearl)
      (fun _ => 0xff)).2 [.push [0xff, 0xff], .push [4], .free]
    s.1 = [.code .success, .code .success, .code .success] ∧
    storageRecords (.of .pearl) 16 2 s.2 = [[4]] ∧
    storageRecords (.of .pearl) 16 2 (storageBoot (.of .pearl) (storagePartition .pearl) s.2.mem).2 = [] := by
  decide +kernel

end OrbFirmware.Storage

import OrbFirmware.Storage.Fifo

/-! The sequence of records an area holds: what peek and free return in turn. -/
namespace OrbFirmware.Storage
open Nor

/-- The records that `storage_peek` and `storage_free` return in turn, until a peek fails. -/
def storageRecords (p : Platform) (size : Nat) : Nat → StorageState → Queue
  | 0, _ => []
  | n+1, s =>
    let (result, area, fl) := storagePeek p s.area size (.ok s.mem)
    if result.ret = .success then
      let (_, area, fl) := storageFree p area fl
      result.buffer :: storageRecords p size n ⟨area, fl.mem⟩
    else []

/-- An area from which the queue can be read: where the write index lies behind the queue, no valid
record follows. -/
structure Readable (p : Platform) (fa : FlashArea) (s : StorageState) (q : Queue) : Prop where
  area : s.area.fa = some fa
  aligned : p.blk ∣ s.area.rdIdx
  bounded : s.area.wrIdx ≤ fa.faSize
  queued : ∃ w, Queued p (content fa s.mem) s.area.rdIdx q w ∧ w ≤ s.area.wrIdx ∧
    (w ≠ s.area.wrIdx → w+8 ≤ fa.faSize → (headerAt (content fa s.mem) w).magicState ≠ recordValid)

variable {p : Platform} {fa : FlashArea} {area : StorageArea} {s : StorageState} {m : Mem} {q : Queue}
  {record : List UInt8} {size n w : Nat}

theorem Laid.readable (h : Laid p fa s q) : Readable p fa s q :=
  ⟨h.area, h.aligned, h.bounded, s.area.wrIdx, h.queued, le_rfl, fun hne => absurd rfl hne⟩

/-- A peek that succeeds returns the record at the read index. -/
theorem storagePeek_success (hfa : area.fa = some fa)
    (h : (storagePeek p area size (.ok m)).1.ret = .success) :
    ∃ record, area.rdIdx ≠ area.wrIdx ∧ area.rdIdx+8+record.length ≤ fa.faSize ∧
      record.length ≤ size ∧ RecordAt p (content fa m) area.rdIdx record := by
  by_cases he : area.rdIdx = area.wrIdx
  · simp [storagePeek, hfa, he] at h
  · by_cases hb : area.rdIdx+sizeofStorageHeader ≤ fa.faSize
    · have hh := flashAreaRead_ok hb m
      have hhd : StorageHeader.ofBytes (slice (content fa m) area.rdIdx sizeofStorageHeader) =
        headerAt (content fa m) area.rdIdx := rfl
      simp only [storagePeek, hfa, if_neg he, hh, hhd] at h
      by_cases hsz : size < (headerAt (content fa m) area.rdIdx).recordSize.toNat
      · simp [if_pos hsz] at h
      · rw [if_neg hsz] at h
        by_cases hp : area.rdIdx+sizeofStorageHeader+
            (headerAt (content fa m) area.rdIdx).recordSize.toNat ≤ fa.faSize
        · rw [flashAreaRead_ok hp m] at h
          simp only at h
          split at h
          · simp at h
          · rename_i hok
            obtain ⟨hmagic, hcrc⟩ := not_or.mp hok
            have hlen : (slice (content fa m) (area.rdIdx+sizeofStorageHeader)
                (headerAt (content fa m) area.rdIdx).recordSize.toNat).length =
                (headerAt (content fa m) area.rdIdx).recordSize.toNat := slice_length _ _ _
            refine ⟨_, he, by rw [hlen]; exact hp, by rw [hlen]; exact not_lt.mp hsz,
              not_not.mp hmagic, hlen.symm, not_not.mp hcrc, ?_⟩
            rw [hlen]
            rfl
        · rw [flashAreaRead_out (not_le.mp hp)] at h
          simp at h
    · simp [storagePeek, hfa, if_neg he, flashAreaRead_out (not_le.mp hb)] at h

theorem storageRecords_stop (h : (storagePeek p s.area size (.ok s.mem)).1.ret ≠ .success) :
    storageRecords p size n s = [] := by
  cases n with
  | zero => rfl
  | succ n => simp only [storageRecords, if_neg h]

theorem storageRecords_cons {area : StorageArea} (hfa : s.area.fa = some fa)
    (hne : s.area.rdIdx ≠ s.area.wrIdx) (hb : s.area.rdIdx+8+record.length ≤ fa.faSize)
    (hr : RecordAt p (content fa s.mem) s.area.rdIdx record) (hsz : record.length ≤ size)
    (hfree : storageFree p s.area (.ok s.mem) = (.success, area, .ok m)) :
    storageRecords p size (n+1) s = record :: storageRecords p size n ⟨area, m⟩ := by
  have hpeek : storagePeek p s.area size (.ok s.mem) = _ := storagePeek_ok hfa hne hb hr
  rw [if_neg (not_lt.mpr hsz)] at hpeek
  simp only [storageRecords, hpeek, hfree, if_true, Flash.ok_mem]

theorem storageRecords_empty (hfa : s.area.fa = some fa) (h : s.area.rdIdx = s.area.wrIdx) :
    storageRecords p size n s = [] :=
  storageRecords_stop (by simp [storagePeek, hfa, h])

theorem Readable.free (h : Readable p fa s (record :: q)) :
    ∃ area m, storageFree p s.area (.ok s.mem) = (.success, area, .ok m) ∧ Readable p fa ⟨area, m⟩ q := by
  obtain ⟨w, ⟨hr, htail⟩, hw, hstop⟩ := h.queued
  have hs := le_recordSpan p record.length
  have hle := htail.le
  have hb := h.bounded
  have hfree := storageFree_ok h.area h.aligned (by omega) hr.magic hr.size
  by_cases hdrain : s.area.wrIdx ≤ s.area.rdIdx+recordSpan p record.length ∧
      fa.faSize-s.area.wrIdx < minimumEmptySpace
  · have hq : q = [] := List.eq_nil_of_length_eq_zero (by omega)
    rw [hfree, if_pos hdrain, h.area, hq]
    exact ⟨_, _, rfl, (laid_empty p fa _).readable⟩
  · have hout (hi : Nat) : AgreeOn (content fa s.mem)
        (content fa (zeroHeader s.mem (fa.faOff+s.area.rdIdx))) (s.area.rdIdx+8) hi :=
      fun a h1 _ => (content_zeroHeader (.inr h1)).symm
    rw [hfree, if_neg hdrain]
    refine ⟨_, _, rfl, h.area, Nat.dvd_add h.aligned (recordSpan_dvd p record.length), hb, w,
      htail.congr ((hout w).mono (by omega) le_rfl), hw, fun hne hfit => ?_⟩
    rw [← headerAt_congr ((hout (w+8)).mono (by omega) le_rfl)]
    exact hstop hne hfit

/-- Peek and free in turn return the queue and nothing more. -/
theorem Readable.records (h : Readable p fa s q) (hsize : ∀ record ∈ q, record.length ≤ size)
    (hn : q.length < n) : storageRecords p size n s = q := by
  induction q generalizing s n with
  | nil =>
    obtain ⟨w, hq, -, hstop⟩ := h.queued
    have he : s.area.rdIdx = w := hq
    refine storageRecords_stop fun hok => ?_
    obtain ⟨record, hne, hb, -, hr⟩ := storagePeek_success h.area hok
    subst he
    exact hstop hne (by omega) hr.magic
  | cons record q ih =>
    obtain ⟨n, rfl⟩ : ∃ n', n = n'+1 := ⟨n-1, by omega⟩
    obtain ⟨w, ⟨hr, htail⟩, hw, -⟩ := h.queued
    have hs := le_recordSpan p record.length
    have hle := htail.le
    have hb := h.bounded
    obtain ⟨area, m, hfree, hrec⟩ := h.free
    rw [storageRecords_cons h.area (by omega) (by omega) hr (hsize record List.mem_cons_self) hfree,
      ih hrec (fun r hr => hsize r (List.mem_cons_of_mem record hr))
        (by simp only [List.length_cons] at hn; omega)]

/-- The sequence of records an area holds. -/
def areaRecords (p : Platform) (fa : FlashArea) (s : StorageState) : Queue :=
  storageRecords p fa.faSize (fa.faSize+1) s

theorem Queued.length_le {c : Mem} {rd wr : Nat} (h : Queued p c rd q wr) :
    ∀ record ∈ q, record.length ≤ wr := by
  induction q generalizing rd with
  | nil => exact fun _ hr => absurd hr List.not_mem_nil
  | cons r q ih =>
    obtain ⟨-, htail⟩ := h
    have hs := le_recordSpan p r.length
    have hle := htail.le
    intro record hmem
    cases List.mem_cons.mp hmem with
    | inl he =>
      rw [he]
      omega
    | inr hin => exact ih htail record hin

theorem Laid.areaRecords (h : Laid p fa s q) : areaRecords p fa s = q := by
  have hle := h.queued.le
  have hb := h.bounded
  exact h.readable.records (fun r hr => (h.queued.length_le r hr).trans hb) (by omega)

/-- Whatever the area: the records it returns lie one behind the other from the read index on. -/
theorem queued_of_records (hfa : s.area.fa = some fa) (hal : p.blk ∣ s.area.rdIdx)
    (h : storageRecords p size n s = q) :
    (∃ w, Queued p (content fa s.mem) s.area.rdIdx q w) ∧ ∀ record ∈ q, record.length ≤ size := by
  induction n generalizing s q with
  | zero =>
    have hq : q = [] := h.symm
    subst hq
    exact ⟨⟨_, rfl⟩, fun _ hr => absurd hr List.not_mem_nil⟩
  | succ n ih =>
    by_cases hok : (storagePeek p s.area size (.ok s.mem)).1.ret = .success
    · obtain ⟨record, hne, hb, hsz, hr⟩ := storagePeek_success hfa hok
      have hs := le_recordSpan p record.length
      have hfree := storageFree_ok hfa hal (by omega) hr.magic hr.size
      by_cases hdrain : s.area.wrIdx ≤ s.area.rdIdx+recordSpan p record.length ∧
          fa.faSize-s.area.wrIdx < minimumEmptySpace
      · rw [if_pos hdrain] at hfree
        have hempty : storageRecords p size n ⟨⟨s.area.fa, 0, 0⟩,
            erase (zeroHeader s.mem (fa.faOff+s.area.rdIdx)) fa.faOff fa.faSize⟩ = [] :=
          storageRecords_empty (s := ⟨⟨s.area.fa, 0, 0⟩, _⟩) hfa rfl
        rw [storageRecords_cons hfa hne hb hr hsz hfree, hempty] at h
        subst h
        refine ⟨⟨_, hr, rfl⟩, fun r hmem => ?_⟩
        rw [List.mem_singleton.mp hmem]
        exact hsz
      · rw [if_neg hdrain] at hfree
        rw [storageRecords_cons hfa hne hb hr hsz hfree] at h
        subst h
        obtain ⟨⟨w, hq⟩, hlen⟩ := ih (s := ⟨{ s.area with rdIdx := s.area.rdIdx+recordSpan p record.length },
          zeroHeader s.mem (fa.faOff+s.area.rdIdx)⟩) hfa
          (Nat.dvd_add hal (recordSpan_dvd p record.length)) rfl
        have hout : AgreeOn (content fa (zeroHeader s.mem (fa.faOff+s.area.rdIdx))) (content fa s.mem)
            (s.area.rdIdx+8) w := fun a h1 _ => content_zeroHeader (.inr h1)
        have hlo : s.area.rdIdx+8 ≤ s.area.rdIdx+recordSpan p record.length := by omega
        refine ⟨⟨w, hr, hq.congr (hout.mono hlo le_rfl)⟩, fun r hmem => ?_⟩
        cases List.mem_cons.mp hmem with
        | inl he => exact he ▸ hsz
        | inr hin => exact hlen r hin
    · rw [storageRecords_stop hok] at h
      subst h
      exact ⟨⟨_, rfl⟩, fun _ hr => absurd hr List.not_mem_nil⟩

/-- A queue that ends before the write index is read first. -/
theorem records_prefix (hfa : s.area.fa = some fa) (hal : p.blk ∣ s.area.rdIdx)
    (h : Queued p (content fa s.mem) s.area.rdIdx q w) (hw : w < s.area.wrIdx) (hb : w ≤ fa.faSize)
    (hsize : ∀ record ∈ q, record.length ≤ size) (hn : q.length ≤ n) :
    q <+: storageRecords p size n s := by
  induction q generalizing s n with
  | nil => exact List.nil_prefix
  | cons record q ih =>
    obtain ⟨n, rfl⟩ : ∃ n', n = n'+1 := ⟨n-1, by simp only [List.length_cons] at hn; omega⟩
    obtain ⟨hr, htail⟩ := h
    have hs := le_recordSpan p record.length
    have hle := htail.le
    have hfree := storageFree_ok hfa hal (by omega) hr.magic hr.size
    rw [if_neg (by omega)] at hfree
    rw [storageRecords_cons hfa (by omega) (by omega) hr (hsize record List.mem_cons_self) hfree]
    have hout : AgreeOn (content fa s.mem) (content fa (zeroHeader s.mem (fa.faOff+s.area.rdIdx)))
        (s.area.rdIdx+8) w := fun a h1 _ => (content_zeroHeader (.inr h1)).symm
    refine (List.prefix_cons_inj record).mpr (ih hfa (Nat.dvd_add hal (recordSpan_dvd p record.length))
      (htail.congr (hout.mono (by omega) le_rfl)) hw
      (fun r hr => hsize r (List.mem_cons_of_mem record hr)) ?_)
    simp only [List.length_cons] at hn
    omega

end OrbFirmware.Storage

import Fat16.Proofs.BootSector
import Fat16.Proofs.Directory.Record

/-!
# Directory listings

A listing ends where the first whole record starts with a zero (`Listing.endIndex`), and has one
entry for each record before that, which shows the fields stored there (`Listing.exists_shows`). So
it does not depend on what comes after such a record, and where there is none it goes on with the
listing of what comes next (`Listing.read_append`).

The records of a list, written one after another, are listed as they are: no entry is lost and none
shows another record (`Listing.read_encode`).
-/

namespace Fat16

namespace Listing

variable {region a b : Bytes} {i n : Nat}

/-! ## The first end mark -/

/-- The number of the first whole record that starts with a zero, or of all whole records. -/
def endIndex (region : Bytes) : Nat :=
  (List.range (recordCount region)).findIdx fun i ↦ region.byte (Record.width * i) == 0

theorem endIndex_le (region : Bytes) : endIndex region ≤ recordCount region := by
  rw [endIndex]
  exact Nat.le_trans List.findIdx_le_length (Nat.le_of_eq List.length_range)

theorem byte_ne_zero_of_lt (h : i < endIndex region) : region.byte (Record.width * i) ≠ 0 := by
  have hno := List.not_of_lt_findIdx h
  rwa [List.getElem_range, beq_eq_false_iff_ne] at hno

theorem byte_endIndex (h : endIndex region < recordCount region) :
    region.byte (Record.width * endIndex region) = 0 := by
  rw [endIndex] at h ⊢
  have hyes := List.findIdx_getElem (w := by rwa [List.length_range])
  rwa [List.getElem_range, beq_iff_eq] at hyes

theorem endIndex_eq_iff : endIndex region = n ↔ n ≤ recordCount region ∧
    (∀ i < n, region.byte (Record.width * i) ≠ 0) ∧
    (n < recordCount region → region.byte (Record.width * n) = 0) := by
  constructor
  · rintro rfl
    exact ⟨endIndex_le region, fun i ↦ byte_ne_zero_of_lt, byte_endIndex⟩
  · rintro ⟨hle, hbefore, hat⟩
    apply Nat.le_antisymm
    · refine Nat.le_of_not_lt fun hlt ↦ byte_ne_zero_of_lt hlt (hat ?_)
      exact Nat.lt_of_lt_of_le hlt (endIndex_le region)
    · refine Nat.le_of_not_lt fun hlt ↦ hbefore _ hlt (byte_endIndex ?_)
      exact Nat.lt_of_lt_of_le hlt hle

theorem isEndMark_record (region : Bytes) (i : Nat) :
    (record region i).isEndMark = (region.byte (Record.width * i) == 0) := by
  rw [Record.isEndMark, record, Record.firstByte_decode]

/-- The records before the first end mark are listed. -/
theorem slots_eq_range_endIndex (region : Bytes) : slots region = List.range (endIndex region) := by
  simp only [slots, isEndMark_record, List.takeWhile_eq_take_findIdx_not, Bool.not_not]
  rw [← endIndex, List.take_range, Nat.min_eq_left (endIndex_le region)]

/-! ## Entries and cut -/

theorem width_mul_recordCount (h : region.size % Record.width = 0) :
    Record.width * recordCount region = region.size :=
  Nat.mul_div_cancel' (Nat.dvd_of_mod_eq_zero h)

/-- A whole record has all its bytes in the region. -/
theorem add_width_le_size (h : i < recordCount region) :
    Record.width * i + Record.width ≤ region.size := by
  rw [← Nat.mul_succ]
  exact Nat.le_trans (Nat.mul_le_mul_left _ h) (Nat.mul_div_le ..)

theorem entries_read (v : Volume) (region : Bytes) : (read v region).entries =
    (List.range (endIndex region)).map fun i ↦
      .ofRecord v i (.decode (region.window (Record.width * i) Record.width) 0) := by
  rw [read, slots_eq_range_endIndex]
  refine List.map_congr_left fun i hi ↦ ?_
  have hcount := Nat.lt_of_lt_of_le (List.mem_range.1 hi) (endIndex_le region)
  rw [record, Record.decode_window (add_width_le_size hcount)]

theorem length_entries_read (v : Volume) (region : Bytes) :
    (read v region).entries.length = endIndex region := by
  rw [entries_read, List.length_map, List.length_range]

theorem getElem?_entries_read (v : Volume) (h : i < endIndex region) :
    (read v region).entries[i]? =
      some (.ofRecord v i (.decode (region.window (Record.width * i) Record.width) 0)) := by
  rw [entries_read, List.getElem?_map, List.getElem?_range h, Option.map_some]

/-- Entry number `i` shows the record that is stored in its place, whatever the bytes are. -/
theorem exists_shows (v : Volume) (h : i < endIndex region) :
    ∃ (e : DirectoryEntry) (r : Record), (read v region).entries[i]? = some e ∧
      r.encode = region.window (Record.width * i) Record.width ∧ e.Shows i r ∧
      e.startSector =
        if r.firstByte = 0xE5 then none else v.clusterStartSector r.cluster.toNat := by
  have hcount := Nat.lt_of_lt_of_le h (endIndex_le region)
  have hsize := Bytes.size_window_of_le (add_width_le_size hcount)
  exact ⟨_, _, getElem?_entries_read v h, Record.encode_decode hsize,
    DirectoryEntry.shows_ofRecord v i _, DirectoryEntry.startSector_ofRecord v i _⟩

theorem cut_read (v : Volume) (region : Bytes) : (read v region).cut =
    if endIndex region < recordCount region ∨ region.size % Record.width = 0 then none
    else some ⟨Record.width * recordCount region, region.size % Record.width⟩ := by
  rw [read, cutRecord, slots_eq_range_endIndex, List.length_range]
  by_cases h : endIndex region < recordCount region
  · rw [if_pos h, if_pos (.inl h)]
  · simp only [h, if_false, false_or]

/-! ## Regions one after another -/

theorem recordCount_le_append (a b : Bytes) : recordCount a ≤ recordCount (a ++ b) := by
  rw [recordCount, recordCount, Array.size_append]
  exact Nat.div_le_div_right (Nat.le_add_right ..)

theorem recordCount_append (h : a.size % Record.width = 0) (b : Bytes) :
    recordCount (a ++ b) = recordCount a + recordCount b := by
  rw [recordCount, Array.size_append, ← width_mul_recordCount h, Nat.mul_add_div (by decide)]
  rfl

/-- Whole records are not changed by what comes after them. -/
theorem window_append_of_lt (h : i < recordCount a) (b : Bytes) :
    (a ++ b).window (Record.width * i) Record.width =
      a.window (Record.width * i) Record.width :=
  Bytes.window_append b (Bytes.size_window_of_le (add_width_le_size h))

theorem byte_append_of_lt (h : i < recordCount a) (b : Bytes) :
    (a ++ b).byte (Record.width * i) = a.byte (Record.width * i) := by
  have hle := add_width_le_size h
  rw [Record.width] at hle
  exact Bytes.byte_append_left (by rw [Record.width]; omega) b

/-- What comes after whole records is numbered after them. -/
theorem width_mul_recordCount_add (h : a.size % Record.width = 0) (i : Nat) :
    Record.width * (recordCount a + i) = a.size + Record.width * i := by
  rw [Nat.mul_add, width_mul_recordCount h]

theorem endIndex_append_of_lt (h : endIndex a < recordCount a) (b : Bytes) :
    endIndex (a ++ b) = endIndex a := by
  have hle := recordCount_le_append a b
  refine endIndex_eq_iff.2 ⟨Nat.le_trans (endIndex_le a) hle, fun i hi ↦ ?_, fun _ ↦ ?_⟩
  · rw [byte_append_of_lt (Nat.lt_trans hi h)]
    exact byte_ne_zero_of_lt hi
  · rw [byte_append_of_lt h]
    exact byte_endIndex h

theorem endIndex_append_of_eq (hsize : a.size % Record.width = 0)
    (h : endIndex a = recordCount a) (b : Bytes) :
    endIndex (a ++ b) = recordCount a + endIndex b := by
  have hcount := recordCount_append hsize b
  have hright : ∀ i, (a ++ b).byte (Record.width * (recordCount a + i)) =
      b.byte (Record.width * i) := by
    intro i
    rw [width_mul_recordCount_add hsize, Bytes.byte_append_right]
  refine endIndex_eq_iff.2 ⟨?_, fun i hi ↦ ?_, fun hlt ↦ ?_⟩
  · rw [hcount]
    exact Nat.add_le_add_left (endIndex_le b) _
  · rcases Nat.lt_or_ge i (recordCount a) with hia | hia
    · rw [byte_append_of_lt hia]
      exact byte_ne_zero_of_lt (h ▸ hia)
    · obtain ⟨k, rfl⟩ := Nat.exists_eq_add_of_le hia
      rw [hright]
      exact byte_ne_zero_of_lt (Nat.lt_of_add_lt_add_left hi)
  · rw [hcount] at hlt
    rw [hright]
    exact byte_endIndex (Nat.lt_of_add_lt_add_left hlt)

theorem read_append_of_lt (v : Volume) (h : endIndex a < recordCount a) (b : Bytes) :
    read v (a ++ b) = read v a := by
  have hend := endIndex_append_of_lt h b
  have hlt : endIndex a < recordCount (a ++ b) :=
    Nat.lt_of_lt_of_le h (recordCount_le_append a b)
  have hentries : (read v (a ++ b)).entries = (read v a).entries := by
    rw [entries_read, entries_read, hend]
    refine List.map_congr_left fun i hi ↦ ?_
    rw [window_append_of_lt (Nat.lt_trans (List.mem_range.1 hi) h)]
  have hcut : (read v (a ++ b)).cut = (read v a).cut := by
    rw [cut_read, cut_read, hend, if_pos (.inl hlt), if_pos (.inl h)]
  rw [mk.injEq]
  exact ⟨hentries, hcut⟩

theorem read_append_of_eq (v : Volume) (hsize : a.size % Record.width = 0)
    (h : endIndex a = recordCount a) (b : Bytes) : read v (a ++ b) = {
      entries := (read v a).entries ++
        (read v b).entries.map fun e ↦ { e with index := recordCount a + e.index }
      cut := (read v b).cut.map fun cut ↦ { cut with offset := a.size + cut.offset } } := by
  have hcount := recordCount_append hsize b
  have hend := endIndex_append_of_eq hsize h b
  have hentries : (read v (a ++ b)).entries = (read v a).entries ++
      (read v b).entries.map fun e ↦ { e with index := recordCount a + e.index } := by
    rw [entries_read, entries_read, entries_read, hend, h, List.range_add, List.map_append,
      List.map_map, List.map_map]
    congr 1
    · refine List.map_congr_left fun i hi ↦ ?_
      rw [window_append_of_lt (List.mem_range.1 hi)]
    · refine List.map_congr_left fun i _ ↦ ?_
      rw [Function.comp_apply, width_mul_recordCount_add hsize, Bytes.window_append_right]
      rfl
  have hcut : (read v (a ++ b)).cut =
      (read v b).cut.map fun cut ↦ { cut with offset := a.size + cut.offset } := by
    rw [cut_read, cut_read, hend, hcount, width_mul_recordCount_add hsize, Array.size_append,
      ← width_mul_recordCount hsize, Nat.mul_add_mod]
    simp only [Nat.add_lt_add_iff_left]
    split_ifs
    · rfl
    · rfl
  rw [mk.injEq]
  exact ⟨hentries, hcut⟩

/-- **Listings.** A listing has one entry for each record before the first end mark. Entry number
`i` shows what the bytes in its place are the stored form of, and it starts where the cluster that
is named there has its place, unless it has been deleted. The listing says that the region breaks
off inside a record if and only if it does and has no end mark. So nothing after an end mark counts,
and a region of whole records without one is continued by what comes next. -/
theorem read_append (v : Volume) (a : Bytes) :
    (read v a).entries.length = endIndex a ∧
    (∀ i < endIndex a, ∃ (e : DirectoryEntry) (r : Record), (read v a).entries[i]? = some e ∧
      r.encode = a.window (Record.width * i) Record.width ∧ e.Shows i r ∧
      e.startSector =
        if r.firstByte = 0xE5 then none else v.clusterStartSector r.cluster.toNat) ∧
    (read v a).cut =
      (if endIndex a < recordCount a ∨ a.size % Record.width = 0 then none
      else some ⟨Record.width * recordCount a, a.size % Record.width⟩) ∧
    (endIndex a < recordCount a → ∀ b, read v (a ++ b) = read v a) ∧
    (a.size % Record.width = 0 → endIndex a = recordCount a → ∀ b, read v (a ++ b) = {
      entries := (read v a).entries ++
        (read v b).entries.map fun e ↦ { e with index := recordCount a + e.index }
      cut := (read v b).cut.map fun cut ↦ { cut with offset := a.size + cut.offset } }) := by
  refine ⟨length_entries_read v a, fun i hi ↦ exists_shows v hi, cut_read v a, ?_, ?_⟩
  · exact read_append_of_lt v
  · exact read_append_of_eq v

/-- A volume that the records below are taken to be from. -/
def sampleVolume : Volume := (Volume.ofBootSector Volume.sampleSector).toOption.get rfl

/-- A record of a file with attributes that have no meaning and a cluster that has no place. -/
def sampleFile : Record where
  name := ⟨.replicate 8 0x41⟩
  ext := ⟨.replicate 3 0x42⟩
  attributes := ⟨0xC1⟩
  cluster := 1
  size := 0x01020304

/-- The same record with a cluster that has a place. -/
def placedFile : Record := { sampleFile with cluster := 3 }

/-- The fields of a file are listed, behind a deleted entry that keeps its number. After an end mark
a region goes on in vain. One without is continued, by the cut record too. -/
theorem sampleVolume_read_append :
    (∃ e : DirectoryEntry,
      (read sampleVolume (.replicate 32 0xE5 ++ placedFile.encode ++ #[0])).entries[1]? = some e ∧
      e.index = 1 ∧ e.name = ⟨.replicate 8 0x41⟩ ∧ e.ext = ⟨.replicate 3 0x42⟩ ∧
      e.attributes.bits = 0xC1 ∧ e.firstCluster = 3 ∧ e.size = 0x01020304 ∧ e.kind = .file ∧
      e.startSector = some 515) ∧
    read sampleVolume (.replicate 32 0x41 ++ .replicate 32 0 ++ .replicate 32 0x41) =
      read sampleVolume (.replicate 32 0x41 ++ .replicate 32 0) ∧
    read sampleVolume (.replicate 32 0x41 ++ .replicate 33 0x42) = {
      entries := (read sampleVolume (.replicate 32 0x41)).entries ++
        (read sampleVolume (.replicate 33 0x42)).entries.map fun e ↦ { e with index := 1 + e.index }
      cut := some ⟨64, 1⟩ } := by
  have hcut : (read sampleVolume (.replicate 33 0x42)).cut = some ⟨32, 1⟩ := by decide +kernel
  obtain ⟨e, r, he, hr, hshows, hstart⟩ :=
    (read_append sampleVolume (.replicate 32 0xE5 ++ placedFile.encode ++ #[0])).2.1 1
      (by decide +kernel)
  have hmarked := (read_append sampleVolume (.replicate 32 0x41 ++ .replicate 32 0)).2.2.2.1
    (by decide +kernel) (.replicate 32 0x41)
  have hwhole := (read_append sampleVolume (.replicate 32 0x41)).2.2.2.2
    (by decide +kernel) (by decide +kernel) (.replicate 33 0x42)
  rw [hcut] at hwhole
  obtain rfl : r = placedFile := by
    rw [← Record.decode_encode r, hr]
    decide +kernel
  have hkind : placedFile.IsOfKind .file := ⟨by decide, by decide, by decide⟩
  exact ⟨⟨e, he, hshows.index_eq, hshows.name_eq, hshows.ext_eq, hshows.bits_eq,
    hshows.firstCluster_eq, hshows.size_eq, (hshows.kind_eq_iff .file).2 hkind, hstart⟩, hmarked,
    hwhole⟩

/-! ## Records one after another -/

section Encode

variable {records : List Record}

theorem size_of_mem_map_encode : ∀ part ∈ records.map Record.encode, part.size = Record.width := by
  intro part hpart
  obtain ⟨r, -, rfl⟩ := List.mem_map.1 hpart
  exact r.size_encode

theorem size_concat_encode (records : List Record) :
    (Bytes.concat (records.map Record.encode)).size = Record.width * records.length := by
  rw [Bytes.size_concat_of_size_eq size_of_mem_map_encode, List.length_map]

theorem recordCount_concat_encode (records : List Record) :
    recordCount (.concat (records.map Record.encode)) = records.length := by
  rw [recordCount, size_concat_encode, Nat.mul_div_cancel_left _ (by decide)]

theorem window_concat_encode {r : Record} (h : records[i]? = some r) :
    (Bytes.concat (records.map Record.encode)).window (Record.width * i) Record.width =
      r.encode := by
  apply Bytes.window_concat_of_size_eq size_of_mem_map_encode
  rw [List.getElem?_map, h, Option.map_some]

/-- No record is taken for an end mark. -/
theorem endIndex_concat_encode (h : ∀ r ∈ records, r.firstByte ≠ 0) :
    endIndex (.concat (records.map Record.encode)) = records.length := by
  rw [endIndex_eq_iff, recordCount_concat_encode]
  refine ⟨Nat.le_refl _, fun i hi ↦ ?_, fun hlt ↦ absurd hlt (Nat.lt_irrefl _)⟩
  have hget := List.getElem?_eq_getElem hi
  have hdecode := (Record.window_eq_encode_iff (add_width_le_size
    (by rwa [recordCount_concat_encode]))).1 (window_concat_encode hget)
  rw [← Record.firstByte_decode, hdecode]
  exact h _ (List.getElem_mem hi)

end Encode

/-- **Stored records are listed.** Written one after another, records that do not start with a zero
are listed all and in order, and each entry shows what its record holds. Conversely any bytes of the
length of a record are the stored form of what is read from them. -/
theorem read_encode (v : Volume) :
    (∀ records : List Record, (∀ r ∈ records, r.firstByte ≠ 0) →
      (read v (.concat (records.map Record.encode))).cut = none ∧
      (read v (.concat (records.map Record.encode))).entries.length = records.length ∧
      ∀ i r, records[i]? = some r →
        ∃ e : DirectoryEntry, e.Shows i r ∧
          (read v (.concat (records.map Record.encode))).entries[i]? = some e) ∧
    ∀ bytes : Bytes, bytes.size = Record.width → (Record.decode bytes 0).encode = bytes := by
  refine ⟨fun records h ↦ ⟨?_, ?_, fun i r hr ↦ ⟨.ofRecord v i r, ?_, ?_⟩⟩, fun _ ↦ ?_⟩
  · rw [cut_read, size_concat_encode, Nat.mul_mod_right, if_pos (.inr rfl)]
  · rw [length_entries_read, endIndex_concat_encode h]
  · exact DirectoryEntry.shows_ofRecord v i r
  · obtain ⟨hi, -⟩ := List.getElem?_eq_some_iff.1 hr
    rw [getElem?_entries_read v (by rwa [endIndex_concat_encode h]), window_concat_encode hr,
      Record.decode_encode]
  · exact Record.encode_decode

/-- The file of the sample is listed after its deleted form, and 32 bytes stay the same. -/
theorem sampleFile_read_encode :
    (∃ e : DirectoryEntry, e.Shows 1 sampleFile ∧
      (read sampleVolume (.concat ([{ sampleFile with name := ⟨.replicate 8 0xE5⟩ }, sampleFile].map
        Record.encode))).entries[1]? = some e) ∧
    (Record.decode (.replicate 32 7) 0).encode = .replicate 32 7 := by
  obtain ⟨hlisted, hstored⟩ := read_encode sampleVolume
  obtain ⟨-, -, hshown⟩ :=
    hlisted [{ sampleFile with name := ⟨.replicate 8 0xE5⟩ }, sampleFile] (by decide)
  exact ⟨hshown 1 sampleFile rfl, hstored _ Array.size_replicate⟩

end Listing

end Fat16

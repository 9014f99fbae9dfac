import Fat16.Proofs.Footprint
import Fat16.Proofs.Report.Lines

/-!
# Reading the summary back from a report

A report is written for people, with numbers, labels and names side by side in lines of free text.
All that it says about the table can still be read from it. The lines of the boot sector are always
as many, the lines of chains are those that begin with a numeral, up to the first that does not, and
every line is read from left to right, since a numeral ends where its digits end.

What the words for a chain leave out is known from where the chains come from: all of them have
been claimed from one table (`Table.isLegible_of_mem_chains`). So two images with the same report
have the same summary, whatever else they hold (`Report.summary_eq_of_report_eq`).
-/

namespace Fat16

namespace Report

variable {i j : Inspection}

/-! ## Reading a line -/

/-- The line on the size of the table tells its two sizes. -/
theorem sizes_eq_of_line_eq {m n m' n' : Nat} {rest rest' : String}
    (h : " FAT size: " ++ m.repr ++ " bytes / " ++ n.repr ++ " entries / " ++ rest =
      " FAT size: " ++ m'.repr ++ " bytes / " ++ n'.repr ++ " entries / " ++ rest') :
    m = m' ∧ n = n' := by
  rw [← String.toList_inj] at h
  simp only [String.toList_append, List.append_assoc, List.append_cancel_left_eq] at h
  obtain ⟨hm, h⟩ := Numeral.repr_append_inj (by simp) (by simp) h
  simp only [List.append_cancel_left_eq] at h
  exact ⟨hm, (Numeral.repr_append_inj (by simp) (by simp) h).1⟩

/-- A line that ends with a word of the table tells this word. -/
theorem word_eq_of_line_eq {front : String} {m n : UInt16}
    (h : front ++ Numeral.hex 4 m.toNat = front ++ Numeral.hex 4 n.toNat) : m = n := by
  rw [← String.toList_inj, String.toList_append, String.toList_append,
    List.append_cancel_left_eq, String.toList_inj] at h
  exact UInt16.toNat_inj.1 (Numeral.hex_injective 4 h)

/-- The line of a chain tells where the chain starts, and the words for it. -/
theorem start_eq_and_text_eq_of_chainLine_eq {chain chain' : Chain}
    (h : chainLine chain = chainLine chain') :
    chain.start = chain'.start ∧ chain.text = chain'.text := by
  rw [chainLine, chainLine, ← String.toList_inj] at h
  simp only [String.toList_append, List.append_assoc, List.append_cancel_left_eq,
    toString_text] at h
  obtain ⟨hstart, h⟩ := Numeral.repr_append_inj (by simp) (by simp) h
  exact ⟨hstart, String.toList_inj.1 (List.append_cancel_left h)⟩

theorem eq_of_map_chainLine_eq {chains chains' : List Chain}
    (hchains : ∀ chain ∈ chains, chain.IsLegible) (hchains' : ∀ chain ∈ chains', chain.IsLegible)
    (h : chains.map chainLine = chains'.map chainLine) : chains = chains' := by
  induction chains generalizing chains' with
  | nil => exact (List.map_eq_nil_iff.1 h.symm).symm
  | cons chain chains ih =>
    rcases chains' with _ | ⟨chain', chains'⟩
    · cases h
    · rw [List.forall_mem_cons] at hchains hchains'
      obtain ⟨hline, hlines⟩ := List.cons.inj h
      obtain ⟨hstart, htext⟩ := start_eq_and_text_eq_of_chainLine_eq hline
      rw [hchains.1.eq_of_text_eq hchains'.1 hstart htext, ih hchains.2 hchains'.2 hlines]

/-! ## Finding the lines on the table -/

/-- What follows the chains in a report: the findings on the volume, an empty line and the tree. -/
def afterChains (i : Inspection) : List String :=
  i.volumeFindings.map (findingLine "    ") ++ ("" :: treeLines i.volume i.tree)

/-- What follows the chains does not begin like a chain. -/
theorem isNumbered_head?_afterChains (i : Inspection) :
    ∀ line ∈ (afterChains i).head?, isNumbered line = false := by
  intro line hline
  rw [afterChains] at hline
  rcases hf : i.volumeFindings with _ | ⟨f, findings⟩
  · rw [hf] at hline
    rw [← Option.some.inj hline]
    decide
  · rw [hf] at hline
    rw [← Option.some.inj hline]
    exact isNumbered_findingLine (by decide) f

theorem tableLines_append_treeLines_eq (h : lines i = lines j) :
    tableLines i ++ treeLines i.volume i.tree = tableLines j ++ treeLines j.volume j.tree := by
  rw [lines, lines, List.append_assoc, List.append_assoc] at h
  exact (List.append_inj h rfl).2

/-- What can be read from the lines of a report on the table. -/
theorem summary_parts_eq_of_lines_eq (h : lines i = lines j) :
    i.summary.sizeBytes = j.summary.sizeBytes ∧ i.summary.entryCount = j.summary.entryCount ∧
    i.summary.mediaId = j.summary.mediaId ∧ i.summary.endMark = j.summary.endMark ∧
    i.summary.chains.map chainLine = j.summary.chains.map chainLine := by
  have hlines := tableLines_append_treeLines_eq h
  simp only [tableLines, List.append_assoc, List.cons_append, List.nil_append,
    List.cons.injEq, toString_text] at hlines
  obtain ⟨-, hsizes, hmedia, hend, -, hrest⟩ := hlines
  obtain ⟨hbytes, hentries⟩ := sizes_eq_of_line_eq hsizes
  have hnumbered : ∀ {i : Inspection}, ∀ line ∈ i.summary.chains.map chainLine,
      isNumbered line = true := by
    intro i line hline
    obtain ⟨chain, -, rfl⟩ := List.mem_map.1 hline
    exact isNumbered_chainLine chain
  refine ⟨hbytes, hentries, word_eq_of_line_eq hmedia, word_eq_of_line_eq hend, ?_⟩
  exact (append_inj_of_all hnumbered hnumbered (isNumbered_head?_afterChains i)
    (isNumbered_head?_afterChains j) hrest).1

end Report

/-- A summary lists chains that have been claimed one after another, so they can be read. -/
theorem Table.isLegible_of_mem_chains {t : Table} {chain : Chain} (h : chain ∈ t.chains) :
    chain.IsLegible := (Gives.listed chain h).isLegible

theorem Inspection.isLegible_of_read {image : Bytes} {maxDepth : Nat} {i : Inspection}
    (h : read image maxDepth = .ok i) : ∀ chain ∈ i.summary.chains, chain.IsLegible := by
  obtain ⟨v, -, rfl⟩ := read_eq_ok_iff.1 h
  exact fun _ ↦ Table.isLegible_of_mem_chains

/-- **A report tells the summary.** If two images have the same report, their summaries agree in
everything: in the sizes and the marks of the table and in all chains, with what no report shows of
them. The images may be different, and so may be the depths to which they are read. -/
theorem Report.summary_eq_of_report_eq {image image' : Bytes} {maxDepth maxDepth' : Nat}
    {i j : Inspection} (hi : Inspection.read image maxDepth = .ok i)
    (hj : Inspection.read image' maxDepth' = .ok j) (h : i.report = j.report) :
    i.summary = j.summary := by
  have hlines : lines i = lines j := by rw [← linesOf_report, h, linesOf_report]
  obtain ⟨hbytes, hentries, hmedia, hend, hlist⟩ := summary_parts_eq_of_lines_eq hlines
  have hchains : i.summary.chains = j.summary.chains :=
    eq_of_map_chainLine_eq (Inspection.isLegible_of_read hi) (Inspection.isLegible_of_read hj) hlist
  calc i.summary = ⟨i.summary.entryCount, i.summary.sizeBytes, i.summary.mediaId,
        i.summary.endMark, i.summary.chains⟩ := rfl
    _ = ⟨j.summary.entryCount, j.summary.sizeBytes, j.summary.mediaId, j.summary.endMark,
        j.summary.chains⟩ := by rw [hentries, hbytes, hmedia, hend, hchains]
    _ = j.summary := rfl

/-- A byte behind the last cluster is in no report. -/
theorem Report.sampleImage_summary_eq :
    ∃ i j, Inspection.read Inspection.sampleImage 1 = .ok i ∧
      Inspection.read (Inspection.sampleImage ++ #[1]) 1 = .ok j ∧ i.report = j.report ∧
        i.summary = j.summary := by
  have hread : (Inspection.read Inspection.sampleImage 1).toOption.map Inspection.footprint =
      some [(0, 512), (512, 32), (544, 64), (608, 32)] := by
    decide +kernel
  have hsize : Inspection.sampleImage.size = 640 := by
    decide +kernel
  have hwhole : ∀ part ∈ [(0, 512), (512, 32), (544, 64), (608, 32)],
      (Inspection.sampleImage.window part.1 part.2).size = part.2 := by
    simp [Bytes.size_window, hsize]
  obtain ⟨i, hi, hfootprint⟩ := Option.map_eq_some_iff.1 hread
  have hok := toOption_eq_some_iff.1 hi
  have hok' : Inspection.read (Inspection.sampleImage ++ #[1]) 1 = .ok i :=
    Inspection.read_of_window_eq hok fun part hpart ↦
      Bytes.window_append _ (hwhole part (hfootprint ▸ hpart))
  exact ⟨i, i, hok, hok', rfl, Report.summary_eq_of_report_eq hok hok' rfl⟩

end Fat16

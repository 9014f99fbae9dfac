import Fat16.CommandLine
import Fat16.Proofs.Text
import Fat16.Proofs.Walk.Order

/-!
# What the flags change

The flags choose how much is told beside the report. Every note asks for itself whether it is to be
told, and a run may fail between two of them. So all of a run is looked at once, for all levels
together (`CommandLine.exists_perform_of_ok`, `CommandLine.exists_perform_of_ne`): there are notes
on its progress, chosen before any level, and a level decides whether these are told first and
whether the closing note is told last.

Runs at different levels are then compared by these notes (`CommandLine.run_of_mem_invocations`).
How a level is asked for does not matter: each flag has two spellings, and it can stand before the
name of the image or after it.
-/

namespace Fat16.CommandLine

variable {image argument : String} {level : Level} {arguments : List String}

/-! ## Arguments -/

/-- Whether an argument is taken for the name of an image wherever it stands. -/
def IsOperand (argument : String) : Prop :=
  argument ≠ "" ∧ (argument = "-" ∨ argument.toList.head? ≠ some '-')

instance (argument : String) : Decidable (IsOperand argument) := inferInstanceAs (Decidable (_ ∧ _))

/-- The flags that ask for a level, in every spelling. -/
def Level.flags : Level → List (List String)
  | .normal => [[]]
  | .verbose => [["-v"], ["--verbose"]]
  | .quiet => [["-q"], ["--quiet"]]

/-- The ways to ask for an image at a level: a flag stands before or after the name, and two dashes
may stand before the name. -/
def invocations (image : String) (level : Level) : List (List String) :=
  level.flags.flatMap fun flags ↦ [flags ++ [image], image :: flags, flags ++ ["--", image]]

theorem Options.add_of_isOperand (h : IsOperand argument) (o : Options) :
    o.add argument = o.addImage argument := by
  obtain ⟨-, rfl | hhead⟩ := h
  · rfl
  · rw [add]
    split
    · next heq => exact absurd (by rw [heq]; rfl) hhead
    · next heq => exact absurd (by rw [heq]; rfl) hhead
    · rfl

theorem Options.addAll_of_isOperand (h : IsOperand argument) (o : Options) (rest : List String) :
    o.addAll (argument :: rest) = (o.addImage argument).bind fun o ↦ o.addAll rest := by
  have hne : argument ≠ "--" := by
    rintro rfl
    exact absurd h (by decide)
  rw [addAll, if_neg hne, add_of_isOperand h]

theorem Options.addAll_flags {flags : List String} (hflags : flags ∈ level.flags)
    (named : Option String) (rest : List String) :
    addAll ⟨named, false, false⟩ (flags ++ rest) =
      addAll ⟨named, decide (level = .verbose), decide (level = .quiet)⟩ rest := by
  cases level with
  | normal =>
    obtain rfl := List.mem_singleton.1 hflags
    rfl
  | verbose =>
    rcases List.mem_pair.1 hflags with rfl | rfl
    · rfl
    · rfl
  | quiet =>
    rcases List.mem_pair.1 hflags with rfl | rfl
    · rfl
    · rfl

theorem Options.addImage_none (h : argument ≠ "") (verbose quiet : Bool) :
    addImage ⟨none, verbose, quiet⟩ argument = .ok ⟨some argument, verbose, quiet⟩ := by
  simp [addImage, h]

theorem parse_of_mem_invocations (h : IsOperand image)
    (hmem : arguments ∈ invocations image level) : parse arguments = .ok ⟨image, level⟩ := by
  have hall : Options.addAll {} arguments =
      .ok ⟨some image, decide (level = .verbose), decide (level = .quiet)⟩ := by
    obtain ⟨flags, hflags, hmem⟩ := List.mem_flatMap.1 hmem
    simp only [List.mem_cons, List.not_mem_nil, or_false] at hmem
    rcases hmem with rfl | rfl | rfl
    · rw [Options.addAll_flags hflags, Options.addAll_of_isOperand h, Options.addImage_none h.1]
      rfl
    · rw [Options.addAll_of_isOperand h, Options.addImage_none h.1, Except.bind,
        ← List.append_nil flags, Options.addAll_flags hflags]
      rfl
    · rw [Options.addAll_flags hflags, Options.addAll, if_pos rfl, List.foldlM_cons,
        Options.addImage_none h.1]
      rfl
  rw [parse, hall]
  cases level <;> rfl

theorem run_of_mem_invocations_eq (files : String → Except String Bytes) (h : IsOperand image)
    (hmem : arguments ∈ invocations image level) :
    run files arguments = perform ⟨image, level⟩ (files image) := by
  rw [run, parse_of_mem_invocations h hmem]

/-! ## One run -/

theorem ofLines_append (l l' : List String) : ofLines (l ++ l') = ofLines l ++ ofLines l' := by
  rw [ofLines, List.map_append, String.join_append]
  rfl

theorem Level.progress_append (level : Level) (texts texts' : List String) :
    level.progress (texts ++ texts') = level.progress texts ++ level.progress texts' := by
  rw [progress, progress, progress]
  split
  · exact List.map_append
  · rfl

/-- The closing note says what it says by whether there are findings. -/
theorem closing_eq_ite (i : Inspection) : closing i =
    if i.findings = [] then "No anomalies found"
    else s!"Anomalies: errors={i.count .error} warns={i.count .warning}" := by
  have hcount : i.count .error + i.count .warning = i.findings.length := by
    rw [Nat.add_comm, i.count_add_count]
  simp only [closing, hcount, List.length_pos_iff, ite_not]

theorem isPlain_note_closing (i : Inspection) : IsPlain (note (closing i)) := by
  rw [closing_eq_ite]
  split <;> simp +decide [note]

/-- The run on an image that can be inspected. -/
theorem exists_perform_of_ok {bytes : Bytes} {i : Inspection} (h : Inspection.read bytes = .ok i)
    (image : String) : ∃ notes, ∀ level : Level, perform ⟨image, level⟩ (.ok bytes) =
      { code := 0
        stdout := i.report
        stderr := ofLines (level.progress notes ++ level.remark [closing i]) } := by
  refine ⟨[s!"Reading image: {image}"] ++ [s!"Loaded {Quantity.byteSize bytes.size}"] ++ [census i],
    fun level ↦ ?_⟩
  rw [perform]
  simp only [h, Level.progress_append]

/-- The run on an image that cannot be read or not be used. -/
theorem exists_perform_of_ne {contents : Except String Bytes}
    (h : ∀ bytes i, contents = .ok bytes → Inspection.read bytes ≠ .ok i) (image : String) :
    ∃ notes context cause, ∀ level : Level, perform ⟨image, level⟩ contents =
      { code := 1
        stderr := ofLines (level.progress notes ++ failureLines context cause) } := by
  cases contents with
  | error reason =>
    exact ⟨[s!"Reading image: {image}"], s!"Cannot read image {image}", [reason], fun _ ↦ rfl⟩
  | ok bytes =>
    cases hread : Inspection.read bytes with
    | ok i => exact absurd hread (h bytes i rfl)
    | error fault =>
      refine ⟨[s!"Reading image: {image}"] ++ [s!"Loaded {Quantity.byteSize bytes.size}"],
        "Not a usable FAT16 volume", fault.lines, fun level ↦ ?_⟩
      rw [perform]
      simp only [hread, Level.progress_append]

/-! ## Runs at all levels -/

/-- **Flags never touch the result.** Runs on one image at the three levels have one exit code and
one text for further use. If the image can be inspected these are zero and the report; then the
quiet run tells nothing, the plain one a single line with the numbers of findings, or that there are
none, and the verbose one ends with this line. Otherwise they are one and nothing, the quiet run and
the plain one tell the same, and the verbose one ends with this. -/
theorem run_of_mem_invocations (files : String → Except String Bytes) (h : IsOperand image)
    {plain verbose quiet : List String} (hplain : plain ∈ invocations image .normal)
    (hverbose : verbose ∈ invocations image .verbose) (hquiet : quiet ∈ invocations image .quiet) :
    (∀ bytes i, files image = .ok bytes → Inspection.read bytes = .ok i →
      ∃ line notes, '\n' ∉ line.toList ∧
        line = note (if i.findings = [] then "No anomalies found"
          else s!"Anomalies: errors={i.count .error} warns={i.count .warning}") ∧
        run files plain = { code := 0, stdout := i.report, stderr := ofLines [line] } ∧
        run files verbose = { code := 0, stdout := i.report, stderr := ofLines (notes ++ [line]) } ∧
        run files quiet = { code := 0, stdout := i.report, stderr := "" }) ∧
    ((∀ bytes i, files image = .ok bytes → Inspection.read bytes ≠ .ok i) →
      ∃ context cause notes,
        run files plain = { code := 1, stderr := ofLines (failureLines context cause) } ∧
        run files verbose =
          { code := 1, stderr := ofLines notes ++ ofLines (failureLines context cause) } ∧
        run files quiet = { code := 1, stderr := ofLines (failureLines context cause) }) := by
  rw [run_of_mem_invocations_eq files h hplain, run_of_mem_invocations_eq files h hverbose,
    run_of_mem_invocations_eq files h hquiet]
  refine ⟨fun bytes i hbytes hread ↦ ?_, fun hne ↦ ?_⟩
  · obtain ⟨notes, hperform⟩ := exists_perform_of_ok hread image
    refine ⟨note (closing i), notes.map note, (isPlain_note_closing i).newline_notMem, ?_, ?_⟩
    · rw [closing_eq_ite]
    · rw [hbytes, hperform, hperform, hperform]
      exact ⟨rfl, rfl, rfl⟩
  · obtain ⟨notes, context, cause, hperform⟩ := exists_perform_of_ne hne image
    refine ⟨context, cause, notes.map note, ?_⟩
    rw [hperform, hperform, hperform, ofLines_append, ofLines_append, ofLines_append]
    exact ⟨rfl, rfl, rfl⟩

/-- There is one file, an image of which two things are wrong. -/
def sampleFiles (name : String) : Except String Bytes :=
  if name = "disk.img" then .ok Inspection.nestedImage
  else .error "No such file or directory (os error 2)"

theorem sampleFiles_run :
    (∃ i notes, Inspection.read Inspection.nestedImage = .ok i ∧
      run sampleFiles ["disk.img"] =
        { code := 0, stdout := i.report, stderr := "[fatscope] Anomalies: errors=0 warns=2\n" } ∧
      run sampleFiles ["disk.img", "--verbose"] =
        { code := 0
          stdout := i.report
          stderr := ofLines (notes ++ ["[fatscope] Anomalies: errors=0 warns=2"]) } ∧
      run sampleFiles ["-q", "disk.img"] = { code := 0, stdout := i.report, stderr := "" }) ∧
    ∃ failure notes,
      run sampleFiles ["--", "other.img"] = { code := 1, stderr := failure } ∧
      run sampleFiles ["-v", "other.img"] = { code := 1, stderr := notes ++ failure } ∧
      run sampleFiles ["--quiet", "other.img"] = { code := 1, stderr := failure } := by
  constructor
  · have hread : (Inspection.read Inspection.nestedImage).toOption.map (fun i ↦
        (i.findings.isEmpty, i.count .warning, i.count .error)) = some (false, 2, 0) := by
      decide +kernel
    obtain ⟨i, hi, hparts⟩ := Option.map_eq_some_iff.1 hread
    simp only [Prod.mk.injEq] at hparts
    obtain ⟨hfindings, hwarnings, herrors⟩ := hparts
    have hok := toOption_eq_some_iff.1 hi
    have hplain : ["disk.img"] ∈ invocations "disk.img" .normal := by decide
    have hverbose : ["disk.img", "--verbose"] ∈ invocations "disk.img" .verbose := by decide
    have hquiet : ["-q", "disk.img"] ∈ invocations "disk.img" .quiet := by decide
    obtain ⟨hsuccess, -⟩ :=
      run_of_mem_invocations sampleFiles (by decide) hplain hverbose hquiet
    obtain ⟨line, notes, -, hline, hruns⟩ := hsuccess Inspection.nestedImage i rfl hok
    rw [if_neg (List.isEmpty_eq_false_iff.1 hfindings), hwarnings, herrors] at hline
    subst hline
    exact ⟨i, notes, hok, hruns⟩
  · have hplain : ["--", "other.img"] ∈ invocations "other.img" .normal := by decide
    have hverbose : ["-v", "other.img"] ∈ invocations "other.img" .verbose := by decide
    have hquiet : ["--quiet", "other.img"] ∈ invocations "other.img" .quiet := by decide
    obtain ⟨-, hfailure⟩ := run_of_mem_invocations sampleFiles (by decide) hplain hverbose hquiet
    obtain ⟨context, cause, notes, hruns⟩ := hfailure nofun
    exact ⟨ofLines (failureLines context cause), ofLines notes, hruns⟩

end Fat16.CommandLine

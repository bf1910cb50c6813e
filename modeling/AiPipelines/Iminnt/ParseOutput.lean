import AiPipelines.PyStd.Joined

/-!
# The text in the output of llama-cli

`LlamaCppService._parse_output` looks for the generated text in what llama-cli prints.  It goes
over the lines up to the performance section, drops those that look like a log line and those
that are blank or a row of dots, and joins the others.  If nothing is left, it drops less and
looks behind the line `generate:` only.

So what comes out has no log line in it (`parseOutput_usable`), but what goes in as a text loses
its blank lines.  `parseOutput_eq_text_iff` says which texts come out whole.
-/

namespace AiPipelines.Iminnt

open PyStd

/-! ## Patterns -/

/-- A pattern that `re.match` is called with. -/
inductive LinePattern where
  /-- `^text`. -/
  | starts (text : Str)
  /-- `^\s+text`.  The text starts with no blank. -/
  | indented (text : Str)
  /-- `^\s*text`. -/
  | behindBlanks (text : Str)
  /-- `^c+$`, on a line without a line feed. -/
  | row (c : Char)

/-- `re.match(pattern, line)`. -/
def LinePattern.hits : LinePattern → Str → Bool
  | .starts text, line => startsWith text line
  | .indented text, line => (line.take 1).any isSpace && startsWith text (lstrip line)
  | .behindBlanks text, line => startsWith text (lstrip line)
  | .row c, line => !line.isEmpty && line.all (· == c)

/-- `metadata_patterns`. -/
def metadataPatterns : List LinePattern :=
  [.starts "warning:", .starts "build:", .starts "main:", .starts "llama_model_loader:",
    .starts "llama_context_params:", .starts "system_info:", .starts "sampling:",
    .starts "llama_print_timings:", .starts "llama_load_model_from_file:",
    .starts "llama_new_context_with_model:", .starts "llama_kv_cache_init:",
    .starts "llama_kv_cache:", .starts "llama_context:", .starts "llama_batch_init:",
    .starts "llama_decode:", .starts "print_info:", .starts "load:", .starts "load_tensors:",
    .starts "common_init_from_params:", .starts "sampler seed:", .starts "sampler params:",
    .starts "sampler chain:", .indented "repeat_last_n", .indented "dry_multiplier",
    .indented "top_k", .indented "mirostat", .starts "generate:", .starts "common_perf_print:",
    .starts "llama_memory_breakdown_print:", .starts "eval time:", .starts "tokens/second:",
    .starts "prompt eval time:", .starts "sample time:", .starts "load time:",
    .starts "total time:", .starts "llama_save_session_file:", .starts "llama_load_session_file:",
    .behindBlanks "|", .row '.']

/-- `perf_start_patterns`. -/
def perfStartPatterns : List LinePattern :=
  [.starts "common_perf_print:", .starts "llama_memory_breakdown_print:"]

def isMetadata (line : Str) : Bool := metadataPatterns.any fun p => p.hits line

def isPerfStart (line : Str) : Bool := perfStartPatterns.any fun p => p.hits line

def isGenerate (line : Str) : Bool := (LinePattern.starts "generate:").hits line

/-- `re.match(r"^\.+$", line.strip())`. -/
def isDotsRow (line : Str) : Bool := (LinePattern.row '.').hits (strip line)

/-! ## The two loops -/

/-- The main loop, with the lines collected so far. -/
def collect : List Str → List Str → List Str
  | [], generated => generated
  | line :: rest, generated =>
    if isPerfStart line then generated
    else if isMetadata line then collect rest generated
    else if strip line ≠ [] ∧ ¬ isDotsRow line then collect rest (generated ++ [line])
    else collect rest generated

/-- The loop of the fallback. -/
def collectBehind : List Str → List Str → List Str
  | [], generated => generated
  | line :: rest, generated =>
    if isPerfStart line then generated
    else if strip line ≠ [] ∧ ¬ isMetadata line then collectBehind rest (generated ++ [line])
    else collectBehind rest generated

/-- The text of the fallback, from the lines that the main loop collected. -/
def fallbackText (lines generated : List Str) : Str :=
  match lines.findIdx? isGenerate with
  | some idx => strip (joinWith ['\n'] (collectBehind (lines.drop (idx + 1)) generated))
  | none => []

/-- The two outputs together. -/
def fullOutput (stdout stderr : Str) : Str :=
  if stderr ≠ [] then stdout ++ ['\n'] ++ stderr else stdout

/-- `LlamaCppService._parse_output`. -/
def parseOutput (stdout stderr : Str) : Str :=
  let full := fullOutput stdout stderr
  let lines := full.splitOn '\n'
  let generated := collect lines []
  let generatedText := strip (joinWith ['\n'] generated)
  let generatedText := if generatedText = [] then fallbackText lines generated else generatedText
  if generatedText = [] then strip full else generatedText

/-! ## What the loops collect -/

/-- The lines in front of the performance section. -/
def beforePerf (lines : List Str) : List Str := lines.takeWhile fun line => !isPerfStart line

/-- A line that the main loop keeps. -/
def isUsable (line : Str) : Bool := !isBlankLine line && !isMetadata line && !isDotsRow line

/-- A line that the fallback keeps. -/
def isContent (line : Str) : Bool := !isBlankLine line && !isMetadata line

variable {lines generated ls : List Str} {line text : Str}

theorem strip_ne_nil_iff : strip line ≠ [] ↔ isBlankLine line = false := by
  rw [ne_eq, strip_eq_nil_iff, ← isBlankLine_iff, Bool.not_eq_true]

theorem not_blank_of_usable (h : isUsable line = true) : ¬ IsBlank line := by
  unfold isUsable at h
  simp only [Bool.and_eq_true, Bool.not_eq_true'] at h
  rw [← isBlankLine_iff, h.1.1]
  decide

theorem not_blank_of_content (h : isContent line = true) : ¬ IsBlank line := by
  unfold isContent at h
  simp only [Bool.and_eq_true, Bool.not_eq_true'] at h
  rw [← isBlankLine_iff, h.1]
  decide

theorem collect_eq (lines generated : List Str) :
    collect lines generated = generated ++ (beforePerf lines).filter isUsable := by
  induction lines, generated using collect.induct with
  | case1 generated => exact (List.append_nil generated).symm
  | case2 line rest generated hperf =>
    unfold beforePerf
    rw [collect, if_pos hperf, List.takeWhile_cons_of_neg (by simp [hperf])]
    exact (List.append_nil generated).symm
  | case3 line rest generated hperf hmeta ih =>
    have hskip : ¬ isUsable line = true := by simp [isUsable, hmeta]
    unfold beforePerf at ih ⊢
    rw [collect, if_neg hperf, if_pos hmeta, ih, List.takeWhile_cons_of_pos (by simp [hperf]),
      List.filter_cons_of_neg hskip]
  | case4 line rest generated hperf hmeta hkeep ih =>
    have husable : isUsable line = true := by
      simp [isUsable, hmeta, strip_ne_nil_iff.1 hkeep.1, hkeep.2]
    unfold beforePerf at ih ⊢
    rw [collect, if_neg hperf, if_neg hmeta, if_pos hkeep, ih,
      List.takeWhile_cons_of_pos (by simp [hperf]), List.filter_cons_of_pos husable,
      List.append_assoc]
    rfl
  | case5 line rest generated hperf hmeta hskip ih =>
    have hnot : ¬ isUsable line = true := by
      intro h
      apply hskip
      simp only [isUsable, Bool.and_eq_true, Bool.not_eq_true'] at h
      exact ⟨strip_ne_nil_iff.2 h.1.1, by simp [h.2]⟩
    unfold beforePerf at ih ⊢
    rw [collect, if_neg hperf, if_neg hmeta, if_neg hskip, ih,
      List.takeWhile_cons_of_pos (by simp [hperf]), List.filter_cons_of_neg hnot]

theorem collectBehind_eq (lines generated : List Str) :
    collectBehind lines generated = generated ++ (beforePerf lines).filter isContent := by
  induction lines, generated using collectBehind.induct with
  | case1 generated => exact (List.append_nil generated).symm
  | case2 line rest generated hperf =>
    unfold beforePerf
    rw [collectBehind, if_pos hperf, List.takeWhile_cons_of_neg (by simp [hperf])]
    exact (List.append_nil generated).symm
  | case3 line rest generated hperf hkeep ih =>
    have hcontent : isContent line = true := by
      simp [isContent, strip_ne_nil_iff.1 hkeep.1, hkeep.2]
    unfold beforePerf at ih ⊢
    rw [collectBehind, if_neg hperf, if_pos hkeep, ih, List.takeWhile_cons_of_pos (by simp [hperf]),
      List.filter_cons_of_pos hcontent, List.append_assoc]
    rfl
  | case4 line rest generated hperf hskip ih =>
    have hnot : ¬ isContent line = true := by
      intro h
      apply hskip
      simp only [isContent, Bool.and_eq_true, Bool.not_eq_true'] at h
      exact ⟨strip_ne_nil_iff.2 h.1, by simp [h.2]⟩
    unfold beforePerf at ih ⊢
    rw [collectBehind, if_neg hperf, if_neg hskip, ih, List.takeWhile_cons_of_pos (by simp [hperf]),
      List.filter_cons_of_neg hnot]

/-! ## The fallback -/

/-- Up to the first line that a test holds of. -/
theorem exists_first {p : Str → Bool} (h : ∃ l ∈ ls, p l = true) :
    ∃ front l behind, ls = front ++ l :: behind ∧ p l = true ∧ ∀ x ∈ front, p x = false := by
  obtain ⟨l, hl⟩ := Option.isSome_iff_exists.1 (List.find?_isSome.2 h)
  obtain ⟨hp, front, behind, hls, hfront⟩ := List.find?_eq_some_iff_append.1 hl
  exact ⟨front, l, behind, hls, hp, fun x hx => by simpa using hfront x hx⟩

theorem fallbackText_behind {front behind : List Str} (hline : isGenerate line = true)
    (hfront : ∀ x ∈ front, isGenerate x = false) :
    fallbackText (front ++ line :: behind) generated =
      strip (joinWith ['\n'] (generated ++ (beforePerf behind).filter isContent)) := by
  have hidx : (front ++ line :: behind).findIdx? isGenerate = some front.length := by
    rw [List.findIdx?_append, List.findIdx?_eq_none_iff.2 hfront, List.findIdx?_cons, if_pos hline]
    simp
  have hdrop : (front ++ line :: behind).drop (front.length + 1) = behind := by
    rw [← List.drop_drop, List.drop_left]
    rfl
  unfold fallbackText
  rw [hidx]
  show strip
    (joinWith ['\n']
      (collectBehind ((front ++ line :: behind).drop (front.length + 1)) generated)) = _
  rw [hdrop, collectBehind_eq]

theorem fallbackText_none (h : ∀ x ∈ lines, isGenerate x = false) :
    fallbackText lines generated = [] := by
  unfold fallbackText
  rw [List.findIdx?_eq_none_iff.2 h]

/-! ## The result -/

/-- The main loop has found something. -/
theorem parseOutput_of_usable {stdout stderr : Str}
    (h : (beforePerf ((fullOutput stdout stderr).splitOn '\n')).filter isUsable ≠ []) :
    parseOutput stdout stderr =
      strip
        (joinWith ['\n']
          ((beforePerf ((fullOutput stdout stderr).splitOn '\n')).filter isUsable)) := by
  have hne : strip (joinWith ['\n']
      ((beforePerf ((fullOutput stdout stderr).splitOn '\n')).filter isUsable)) ≠ [] := by
    obtain ⟨l, hl⟩ := List.exists_mem_of_ne_nil _ h
    exact strip_joined_ne_nil ⟨l, hl, not_blank_of_usable (List.mem_filter.1 hl).2⟩
  unfold parseOutput
  simp only [collect_eq, List.nil_append]
  rw [if_neg hne, if_neg hne]

/-- The main loop has found nothing. -/
theorem parseOutput_of_not_usable {stdout stderr : Str}
    (h : (beforePerf ((fullOutput stdout stderr).splitOn '\n')).filter isUsable = []) :
    parseOutput stdout stderr =
      if fallbackText ((fullOutput stdout stderr).splitOn '\n') [] = [] then strip
        (fullOutput stdout stderr)
      else fallbackText ((fullOutput stdout stderr).splitOn '\n') [] := by
  have hnil : strip (joinWith ['\n'] []) = [] := rfl
  unfold parseOutput
  simp only [collect_eq, List.nil_append]
  rw [h, hnil, if_pos rfl]

/-- What is returned is the usable lines, or what the two fallbacks give. -/
theorem parseOutput_usable (stdout stderr : Str) :
    let lines := (fullOutput stdout stderr).splitOn '\n'
    let usable := (beforePerf lines).filter isUsable
    (usable ≠ [] → parseOutput stdout stderr = strip (joinWith ['\n'] usable)) ∧
    (usable = [] → parseOutput stdout stderr = strip (fullOutput stdout stderr) ∨
      ∃ front line behind ls, lines = front ++ line :: behind ∧ isGenerate line = true ∧
        (∀ x ∈ front, isGenerate x = false) ∧ ls.Sublist behind ∧
        ls ≠ [] ∧ (∀ l ∈ ls, ¬ IsBlank l ∧ isMetadata l = false) ∧
        parseOutput stdout stderr = strip (joinWith ['\n'] ls)) := by
  intro lines usable
  constructor
  · exact parseOutput_of_usable
  · intro hnone
    rw [parseOutput_of_not_usable hnone]
    by_cases hgen : ∃ x ∈ lines, isGenerate x = true
    · obtain ⟨front, line, behind, hlines, hline, hfront⟩ := exists_first hgen
      have hfall : fallbackText lines [] =
          strip (joinWith ['\n'] ((beforePerf behind).filter isContent)) := by
        rw [hlines, fallbackText_behind hline hfront, List.nil_append]
      split_ifs with hempty
      · exact .inl rfl
      · refine .inr
          ⟨front, line, behind, (beforePerf behind).filter isContent, hlines, hline, hfront,
            List.filter_sublist.trans (List.takeWhile_sublist _), ?_, ?_, hfall⟩
        · intro hnil
          rw [hnil] at hfall
          exact hempty hfall
        intro l hl
        have hcontent := (List.mem_filter.1 hl).2
        refine ⟨not_blank_of_content hcontent, ?_⟩
        simp only [isContent, Bool.and_eq_true, Bool.not_eq_true'] at hcontent
        exact hcontent.2
    · have hno : ∀ x ∈ lines, isGenerate x = false := by
        intro x hx
        exact Bool.eq_false_iff.2 fun h => hgen ⟨x, hx, h⟩
      rw [if_pos (fallbackText_none hno)]
      exact .inl rfl

/-! ## The documented layout -/

/-- Log lines, a line `generate:`, the lines of the text, and the performance section. -/
def PrintsText (lines : List Str) (text : Str) : Prop :=
  ∃ logs gen perf rest, lines = logs ++ gen :: (text.splitOn '\n' ++ perf :: rest) ∧
    (∀ l ∈ logs, (isMetadata l = true ∨ IsBlank l) ∧ isPerfStart l = false) ∧
    isGenerate gen = true ∧ isPerfStart perf = true ∧ ∀ l ∈ text.splitOn '\n', isMetadata l = false

/-- There is something in the text, no blank line between two lines that are not blank, and no row
of dots with blanks around it, or else only such rows. -/
def IsWhole (text : Str) : Prop :=
  ¬ IsBlank text ∧ (∀ l ∈ trimBlank (text.splitOn '\n'), ¬ IsBlank l) ∧
    ((∀ l ∈ text.splitOn '\n', isDotsRow l = false) ∨
      ∀ l ∈ text.splitOn '\n', IsBlank l ∨ isDotsRow l = true)

theorem isMetadata_of_generate (h : isGenerate line = true) : isMetadata line = true := by
  apply List.any_eq_true.2
  exact ⟨.starts "generate:", by simp [metadataPatterns], h⟩

theorem isMetadata_of_perf (h : isPerfStart line = true) : isMetadata line = true := by
  obtain ⟨p, hp, hhits⟩ := List.any_eq_true.1 h
  apply List.any_eq_true.2
  refine ⟨p, ?_, hhits⟩
  unfold perfStartPatterns at hp
  simp only [List.mem_cons, List.not_mem_nil, or_false] at hp
  rcases hp with rfl | rfl <;> simp [metadataPatterns]

/-- The line `generate:` opens no performance section. -/
theorem not_perf_of_generate (h : isGenerate line = true) : isPerfStart line = false := by
  apply Bool.eq_false_iff.2
  intro hperf
  obtain ⟨t, ht⟩ := startsWith_iff.1 (show startsWith "generate:" line = true from h)
  obtain ⟨p, hp, hhits⟩ := List.any_eq_true.1 hperf
  unfold perfStartPatterns at hp
  simp only [List.mem_cons, List.not_mem_nil, or_false] at hp
  rcases hp with rfl | rfl <;>
  · obtain ⟨r, hr⟩ := startsWith_iff.1 hhits
    rw [← ht] at hr
    exact absurd (List.cons.inj hr).1 (by decide)

theorem not_content_of_metadata (h : isMetadata line = true) : isContent line = false := by
  simp [isContent, h]

theorem content_of_usable (h : isUsable line = true) : isContent line = true := by
  simp only [isUsable, Bool.and_eq_true] at h
  simp only [isContent, Bool.and_eq_true]
  exact h.1

theorem not_dots_of_blank (h : IsBlank line) : isDotsRow line = false := by
  unfold isDotsRow
  rw [strip_eq_nil_iff.2 h]
  rfl

/-- A selection that takes nothing from log lines takes the lines of the text. -/
theorem beforePerf_filter {keep : Str → Bool} (hkeep : ∀ l, keep l = true → isContent l = true)
    {front rest : List Str} {perf : Str}
    (hfront : ∀ l ∈ front, (isMetadata l = true ∨ IsBlank l) ∧ isPerfStart l = false)
    (hls : ∀ l ∈ ls, isMetadata l = false) (hperf : isPerfStart perf = true) :
    (beforePerf (front ++ (ls ++ perf :: rest))).filter keep = ls.filter keep := by
  have hno : ∀ l ∈ front ++ ls, (!isPerfStart l) = true := by
    intro l hl
    rcases List.mem_append.1 hl with hl | hl
    · rw [(hfront l hl).2]
      rfl
    · rw [Bool.eq_false_iff.2 fun h => absurd (isMetadata_of_perf h) (by simp [hls l hl])]
      rfl
  have hnone : front.filter keep = [] := by
    apply List.filter_eq_nil_iff.2
    intro l hl hk
    rcases (hfront l hl).1 with h | h
    · have hcontent := hkeep l hk
      rw [not_content_of_metadata h] at hcontent
      exact absurd hcontent (by decide)
    · exact not_blank_of_content (hkeep l hk) h
  unfold beforePerf
  rw [← List.append_assoc, List.takeWhile_append_of_pos hno,
    List.takeWhile_cons_of_neg (by simp [hperf]), List.append_nil, List.filter_append, hnone,
    List.nil_append]

theorem usable_of_layout {logs rest : List Str} {gen perf : Str}
    (hlogs : ∀ l ∈ logs, (isMetadata l = true ∨ IsBlank l) ∧ isPerfStart l = false)
    (hgen : isGenerate gen = true) (hls : ∀ l ∈ ls, isMetadata l = false)
    (hperf : isPerfStart perf = true) :
    (beforePerf (logs ++ gen :: (ls ++ perf :: rest))).filter isUsable = ls.filter isUsable := by
  have hfront : ∀ l ∈ logs ++ [gen], (isMetadata l = true ∨ IsBlank l) ∧ isPerfStart l = false :=
    List.forall_mem_append.2 ⟨hlogs, List.forall_mem_singleton.2
      ⟨.inl (isMetadata_of_generate hgen), not_perf_of_generate hgen⟩⟩
  have hfilter : (beforePerf (logs ++ [gen] ++ (ls ++ perf :: rest))).filter isUsable =
      ls.filter isUsable :=
    beforePerf_filter (fun l => content_of_usable) hfront hls hperf
  rw [List.append_assoc] at hfilter
  exact hfilter

theorem fallbackText_of_layout {logs rest : List Str} {gen perf : Str}
    (hlogs : ∀ l ∈ logs, (isMetadata l = true ∨ IsBlank l) ∧ isPerfStart l = false)
    (hgen : isGenerate gen = true) (hls : ∀ l ∈ ls, isMetadata l = false)
    (hperf : isPerfStart perf = true) :
    fallbackText (logs ++ gen :: (ls ++ perf :: rest)) [] =
      strip (joinWith ['\n'] (ls.filter isContent)) := by
  have hfront : ∀ l ∈ logs ++ [gen], (isMetadata l = true ∨ IsBlank l) ∧ isPerfStart l = false :=
    List.forall_mem_append.2 ⟨hlogs, List.forall_mem_singleton.2
      ⟨.inl (isMetadata_of_generate hgen), not_perf_of_generate hgen⟩⟩
  obtain ⟨front, line, behind, hsplit, hline, hfirst⟩ :=
    exists_first ⟨gen, List.mem_append_right logs (List.mem_singleton_self gen), hgen⟩
  have hlines : logs ++ gen :: (ls ++ perf :: rest) =
      front ++ line :: (behind ++ (ls ++ perf :: rest)) := by
    calc logs ++ gen :: (ls ++ perf :: rest) = (logs ++ [gen]) ++ (ls ++ perf :: rest) := by simp
      _ = front ++ line :: (behind ++ (ls ++ perf :: rest)) := by rw [hsplit]; simp
  have hbehind : ∀ l ∈ behind, (isMetadata l = true ∨ IsBlank l) ∧ isPerfStart l = false := by
    intro l hl
    apply hfront l
    rw [hsplit]
    exact List.mem_append_right front (List.mem_cons_of_mem line hl)
  rw [hlines, fallbackText_behind hline hfirst, List.nil_append,
    beforePerf_filter (fun l h => h) hbehind hls hperf]

theorem isBlank_of_lines (h : ∀ l ∈ text.splitOn '\n', IsBlank l) : IsBlank text := by
  have hjoin := isBlank_joined h
  unfold joinWith at hjoin
  rw [List.intercalate_splitOn] at hjoin
  exact hjoin

/-- The lines that the loops leave out of a text. -/
theorem strip_filter_text {keep : Str → Bool} (hkeep : ∀ l, keep l = true → ¬ IsBlank l)
    (hsome : ∃ l ∈ text.splitOn '\n', keep l = true) :
    strip (joinWith ['\n'] ((text.splitOn '\n').filter keep)) = strip text ↔
      ∀ l ∈ trimBlank (text.splitOn '\n'), keep l = true := by
  have hjoin : joinWith ['\n'] (text.splitOn '\n') = text := List.intercalate_splitOn '\n'
  have hiff := strip_joined_filter (fun l hl => not_mem_splitOn hl) hkeep hsome
  rw [hjoin] at hiff
  exact hiff

theorem not_isBlank_of_line {l : Str} (hl : l ∈ text.splitOn '\n') (h : ¬ IsBlank l) :
    ¬ IsBlank text := by
  intro htext
  apply h
  intro c hc
  have hmem : c ∈ joinWith ['\n'] (text.splitOn '\n') := mem_joinWith hl hc
  unfold joinWith at hmem
  rw [List.intercalate_splitOn] at hmem
  exact htext c hmem

theorem isUsable_iff : isUsable line = true ↔
    ¬ IsBlank line ∧ isMetadata line = false ∧ isDotsRow line = false := by
  simp only [isUsable, Bool.and_eq_true, Bool.not_eq_true', ← isBlankLine_iff, Bool.not_eq_true,
    and_assoc]

theorem isContent_iff : isContent line = true ↔ ¬ IsBlank line ∧ isMetadata line = false := by
  simp only [isContent, Bool.and_eq_true, Bool.not_eq_true', ← isBlankLine_iff, Bool.not_eq_true]

/-- The main loop takes the whole text. -/
theorem forall_usable_iff (hplain : ∀ l ∈ text.splitOn '\n', isMetadata l = false)
    (hsome : ∃ l ∈ text.splitOn '\n', isUsable l = true) :
    (∀ l ∈ trimBlank (text.splitOn '\n'), isUsable l = true) ↔ IsWhole text := by
  obtain ⟨u, hu, husable⟩ := hsome
  obtain ⟨hublank, -, hudots⟩ := isUsable_iff.1 husable
  constructor
  · intro hall
    refine ⟨not_isBlank_of_line hu hublank, fun l hl => (isUsable_iff.1 (hall l hl)).1, .inl ?_⟩
    intro l hl
    rcases blank_or_inner hl with hblank | hinner
    · exact not_dots_of_blank hblank
    · exact (isUsable_iff.1 (hall l hinner)).2.2
  · rintro ⟨-, hinner, hdots⟩ l hl
    refine isUsable_iff.2 ⟨hinner l hl, hplain l (mem_of_inner hl), ?_⟩
    rcases hdots with hnone | hrows
    · exact hnone l (mem_of_inner hl)
    · rcases hrows u hu with hblank | hrow
      · exact absurd hblank hublank
      · rw [hudots] at hrow
        exact absurd hrow (by decide)

/-- The fallback takes a text of rows of dots. -/
theorem forall_content_iff (hplain : ∀ l ∈ text.splitOn '\n', isMetadata l = false)
    (hnone : ∀ l ∈ text.splitOn '\n', isUsable l = false)
    (hsome : ∃ l ∈ text.splitOn '\n', isContent l = true) :
    (∀ l ∈ trimBlank (text.splitOn '\n'), isContent l = true) ↔ IsWhole text := by
  obtain ⟨u, hu, hcontent⟩ := hsome
  constructor
  · intro hall
    refine ⟨not_isBlank_of_line hu (isContent_iff.1 hcontent).1,
      fun l hl => (isContent_iff.1 (hall l hl)).1, .inr ?_⟩
    intro l hl
    by_contra hother
    rw [not_or, Bool.not_eq_true] at hother
    have husable := isUsable_iff.2 ⟨hother.1, hplain l hl, hother.2⟩
    rw [hnone l hl] at husable
    exact absurd husable (by decide)
  · rintro ⟨-, hinner, -⟩ l hl
    exact isContent_iff.2 ⟨hinner l hl, hplain l (mem_of_inner hl)⟩

/-- The line `generate:` is left over if nothing else is. -/
theorem strip_fullOutput_ne_nil {stdout stderr gen : Str}
    (hmem : gen ∈ (fullOutput stdout stderr).splitOn '\n') (hgen : isGenerate gen = true) :
    strip (fullOutput stdout stderr) ≠ [] := by
  have hblank : ¬ IsBlank gen := by
    obtain ⟨t, ht⟩ := startsWith_iff.1 (show startsWith "generate:" gen = true from hgen)
    intro hall
    exact absurd (hall 'g' (by rw [← ht]; exact List.mem_cons_self)) (by decide)
  have hne : strip (joinWith ['\n'] ((fullOutput stdout stderr).splitOn '\n')) ≠ [] :=
    strip_joined_ne_nil ⟨gen, hmem, hblank⟩
  unfold joinWith at hne
  rwa [List.intercalate_splitOn] at hne

/-- A text in the documented layout comes out exactly if it is whole. -/
theorem parseOutput_eq_text_iff {stdout stderr text : Str}
    (h : PrintsText ((fullOutput stdout stderr).splitOn '\n') text) :
    parseOutput stdout stderr = strip text ↔ IsWhole text := by
  obtain ⟨logs, gen, perf, rest, hlines, hlogs, hgen, hperf, hplain⟩ := h
  have husable : (beforePerf ((fullOutput stdout stderr).splitOn '\n')).filter isUsable =
      (text.splitOn '\n').filter isUsable := by
    rw [hlines]
    exact usable_of_layout hlogs hgen hplain hperf
  have hfall : fallbackText ((fullOutput stdout stderr).splitOn '\n') [] =
      strip (joinWith ['\n'] ((text.splitOn '\n').filter isContent)) := by
    rw [hlines]
    exact fallbackText_of_layout hlogs hgen hplain hperf
  by_cases hsome : ∃ l ∈ text.splitOn '\n', isUsable l = true
  · have hne : (text.splitOn '\n').filter isUsable ≠ [] := by
      obtain ⟨l, hl, hu⟩ := hsome
      exact List.ne_nil_of_mem (List.mem_filter.2 ⟨hl, hu⟩)
    rw [parseOutput_of_usable (husable.symm ▸ hne), husable,
      strip_filter_text (fun l => not_blank_of_usable) hsome]
    exact forall_usable_iff hplain hsome
  · have hnone : ∀ l ∈ text.splitOn '\n', isUsable l = false :=
      fun l hl => Bool.eq_false_iff.2 fun hu => hsome ⟨l, hl, hu⟩
    have hempty : (text.splitOn '\n').filter isUsable = [] :=
      List.filter_eq_nil_iff.2 fun l hl hu => hsome ⟨l, hl, hu⟩
    rw [parseOutput_of_not_usable (husable.trans hempty), hfall]
    by_cases hcontent : ∃ l ∈ text.splitOn '\n', isContent l = true
    · have hne : strip (joinWith ['\n'] ((text.splitOn '\n').filter isContent)) ≠ [] := by
        obtain ⟨l, hl, hc⟩ := hcontent
        exact strip_joined_ne_nil ⟨l, List.mem_filter.2 ⟨hl, hc⟩, not_blank_of_content hc⟩
      rw [if_neg hne, strip_filter_text (fun l => not_blank_of_content) hcontent]
      exact forall_content_iff hplain hnone hcontent
    · -- the text is blank, and the whole output is returned
      have hblank : IsBlank text := by
        apply isBlank_of_lines
        intro l hl
        by_contra hl'
        exact hcontent ⟨l, hl, isContent_iff.2 ⟨hl', hplain l hl⟩⟩
      have hfilter : (text.splitOn '\n').filter isContent = [] :=
        List.filter_eq_nil_iff.2 fun l hl hc => hcontent ⟨l, hl, hc⟩
      have hmem : gen ∈ (fullOutput stdout stderr).splitOn '\n' := by
        rw [hlines]
        exact List.mem_append_right logs List.mem_cons_self
      have hfull := strip_fullOutput_ne_nil hmem hgen
      have hnil : strip (joinWith ['\n'] []) = [] := rfl
      rw [hfilter, if_pos hnil, strip_eq_nil_iff.2 hblank]
      exact iff_of_false hfull fun hwhole => hwhole.1 hblank

/-- A text of two lines. -/
theorem parseOutput_two_lines :
    parseOutput "build: 7034\ngenerate: n_ctx = 4096\nOne.\nTwo." "common_perf_print: total time" =
      "One.\nTwo.".toList := by
  have hlayout : PrintsText ((fullOutput "build: 7034\ngenerate: n_ctx = 4096\nOne.\nTwo."
      "common_perf_print: total time").splitOn '\n') "One.\nTwo." :=
    ⟨["build: 7034".toList], "generate: n_ctx = 4096", "common_perf_print: total time",
      [], by decide, by decide, by decide, by decide, by decide⟩
  have hstrip : strip "One.\nTwo.".toList = "One.\nTwo.".toList := by decide
  rw [← hstrip]
  exact (parseOutput_eq_text_iff hlayout).2 ⟨by decide, by decide, .inl (by decide)⟩

/-- A text of two paragraphs. -/
theorem paragraphs_lost :
    PrintsText
      ((fullOutput "generate: n_ctx = 4096\nOne.\n\nTwo.\ncommon_perf_print: total time" []).splitOn
        '\n')
      "One.\n\nTwo." ∧
    parseOutput "generate: n_ctx = 4096\nOne.\n\nTwo.\ncommon_perf_print: total time" [] ≠
      strip "One.\n\nTwo." :=
  ⟨⟨[], "generate: n_ctx = 4096", "common_perf_print: total time",
    [], by decide, by decide, by decide, by decide, by decide⟩, by decide⟩

end AiPipelines.Iminnt

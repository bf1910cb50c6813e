import AiPipelines.Iminnt.SimCfg
import AiPipelines.PyStd.Joined
import AiPipelines.PyStd.TextFile

/-!
# Reading a configuration back

`_init_sim_cfg` writes the lines of a configuration, with `\n` between them, and `get_sim_cfg`
reads them into a dictionary.  `Config` are the lines that define given options, with comments
and blank lines among them.

The reader splits a line at each `=` and puts the parts behind the first one together, without
the `=` between them.  So it changes a value that has one (`reread_eq_self_iff`), such as
`--isa=..` of `iminnt`, and `readCfg_get?_iff` says that it changes nothing else.
-/

namespace AiPipelines.Iminnt

open PyStd

/-! ## Options and their lines -/

/-- A key and a value that can stand in a line `key=value`. -/
structure Entry where
  key : Str
  value : Str
  key_ne_nil : key ≠ []
  key_equals : '=' ∉ key
  key_strip : strip key = key
  key_hash : startsWith ['#'] key = false
  value_newline : '\n' ∉ value
  value_return : '\r' ∉ value
  value_strip : strip value = value

/-- The line without its end. -/
def Entry.line (e : Entry) : Str := e.key ++ '=' :: e.value

/-- Options with different keys. -/
structure Options where
  entries : List Entry
  distinct : (entries.map Entry.key).Nodup

/-- The mapping that the options stand for. -/
def Options.mapping (o : Options) : Dict Str Str := o.entries.map fun e => (e.key, e.value)

/-- Lines that define the options in their order, with comments and blank lines anywhere.  The
last line of a file may have no newline. -/
inductive Config : List Entry → List Str → Prop where
  | nil : Config [] []
  | comment {es : List Entry} {ls : List Str} {l : Str} (h : isComment l = true)
    (rest : Config es ls) :
      Config es (l :: ls)
  | blank {es : List Entry} {ls : List Str} {l : Str} (h : IsBlank l) (rest : Config es ls) :
      Config es (l :: ls)
  | entry {es : List Entry} {ls : List Str} (e : Entry) {nl : Str} (h : nl = [] ∨ nl = ['\n'])
      (rest : Config es ls) : Config (e :: es) ((e.line ++ nl) :: ls)

/-! ## One line -/

/-- What the reader makes of a key and a value. -/
def Entry.reread (e : Entry) : Str × Str :=
  (dropNewlines e.key, dropNewlines (lstrip (e.value.filter (· ≠ '='))))

theorem readLine_of_isComment {l : Str} (h : isComment l = true) : readLine l = none := by
  unfold readLine
  split_ifs <;> rfl

theorem readLine_of_isBlank {l : Str} (h : IsBlank l) : readLine l = none := by
  unfold readLine
  rw [if_pos (strip_eq_nil_iff.2 h)]

theorem Entry.readLine_line (e : Entry) : readLine e.line = some e.reread :=
  Iminnt.readLine_line e.key_ne_nil e.key_strip e.key_equals e.key_hash e.value

/-- The reader gives no key with a newline, and no value with `=`. -/
theorem Entry.not_mem_reread (e : Entry) :
    '\n' ∉ e.reread.1 ∧ '\r' ∉ e.reread.1 ∧ '=' ∉ e.reread.2 := by
  refine ⟨fun h => ?_, fun h => ?_, fun h => ?_⟩
  · exact absurd (List.of_mem_filter h) (by decide)
  · exact absurd (List.of_mem_filter h) (by decide)
  · have hmem := (List.dropWhile_sublist _).subset (List.mem_of_mem_filter h)
    exact absurd (List.of_mem_filter hmem) (by decide)

/-- The entries that are read back as they were. -/
theorem Entry.reread_eq_self_iff (e : Entry) :
    e.reread = (e.key, e.value) ↔ '=' ∉ e.value ∧ '\n' ∉ e.key ∧ '\r' ∉ e.key := by
  constructor
  · intro h
    obtain ⟨hn, hr, heq⟩ := e.not_mem_reread
    rw [h] at hn hr heq
    exact ⟨heq, hn, hr⟩
  · rintro ⟨heq, hkey⟩
    have hfilter : e.value.filter (· ≠ '=') = e.value :=
      List.filter_eq_self.2 (all_ne_of_not_mem heq)
    have hl : lstrip e.value = e.value := by
      rw [← e.value_strip, lstrip_strip]
    unfold Entry.reread
    rw [hfilter, hl, dropNewlines_eq_self_iff.2 hkey,
      dropNewlines_eq_self_iff.2 ⟨e.value_newline, e.value_return⟩]

/-! ## All lines -/

variable {es : List Entry} {ls : List Str}

/-- The reader sees the entries, and nothing of the other lines. -/
theorem Config.filterMap_readLine (h : Config es ls) :
    ls.filterMap readLine = es.map Entry.reread := by
  induction h with
  | nil => rfl
  | comment hl _ ih => rw [List.filterMap_cons_none (readLine_of_isComment hl), ih]
  | blank hl _ ih => rw [List.filterMap_cons_none (readLine_of_isBlank hl), ih]
  | @entry _ _ e nl hnl _ ih =>
    have hline : readLine (e.line ++ nl) = some e.reread := by
      rw [readLine_append_newlines, e.readLine_line]
      rcases hnl with rfl | rfl <;> simp
    rw [List.filterMap_cons_some hline, List.map_cons, ih]

theorem readCfg_eq_update (ls : List Str) :
    readCfg ls = Dict.update [] (ls.filterMap readLine) := by
  unfold readCfg Dict.update
  rw [List.foldl_filterMap]
  congr 1
  funext d l
  unfold addLine
  cases readLine l <;> rfl

theorem Config.mem_of_get? (h : Config es ls) {k v : Str} (hget : (readCfg ls).get? k = some v) :
    ∃ e ∈ es, e.reread = (k, v) := by
  rw [readCfg_eq_update, h.filterMap_readLine] at hget
  rw [Dict.get?_update, Dict.get?_nil, Option.or_none] at hget
  exact List.mem_map.1 (List.mem_reverse.1 (Dict.mem_of_get? hget))

/-- The loop of `get_sim_cfg` gives the options back exactly when no value has `=`.  (No line of a
file has a key with a newline.) -/
theorem readCfg_get?_iff (o : Options) (h : Config o.entries ls) :
    (∀ k, (readCfg ls).get? k = o.mapping.get? k) ↔
      ∀ e ∈ o.entries, '=' ∉ e.value ∧ '\n' ∉ e.key ∧ '\r' ∉ e.key := by
  have hkeys : o.mapping.keys = o.entries.map Entry.key := by
    unfold Dict.keys Options.mapping
    rw [List.map_map]
    rfl
  have hdistinct : o.mapping.keys.Nodup := by
    rw [hkeys]
    exact o.distinct
  constructor
  · intro hall e he
    have hmem : (e.key, e.value) ∈ o.mapping := List.mem_map_of_mem he
    have hget := hall e.key
    rw [Dict.get?_of_mem hdistinct hmem] at hget
    obtain ⟨e', -, hreread⟩ := h.mem_of_get? hget
    have hnot := e'.not_mem_reread
    rw [hreread] at hnot
    exact ⟨hnot.2.2, hnot.1, hnot.2.1⟩
  · intro hplain k
    have hreread : o.entries.map Entry.reread = o.mapping :=
      List.map_congr_left fun e he => e.reread_eq_self_iff.2 (hplain e he)
    rw [readCfg_eq_update, h.filterMap_readLine, hreread, Dict.update_eq_append (d := []) hdistinct,
      List.nil_append]

/-- An option of `iminnt` without `=` in its value. -/
def demoThreads : Entry where
  key := "perf::pilos::threads"
  value := "1"
  key_ne_nil := by decide
  key_equals := by decide
  key_strip := by decide
  key_hash := by decide
  value_newline := by decide
  value_return := by decide
  value_strip := by decide

/-- The start of the command line that `iminnt` has for `spike`. -/
def demoIsa : Entry where
  key := imiSpikeKey
  value := "--isa=rv64gcv"
  key_ne_nil := by decide
  key_equals := by decide
  key_strip := by decide
  key_hash := by decide
  value_newline := by decide
  value_return := by decide
  value_strip := by decide

theorem readCfg_threads :
    Config [demoThreads] ["  # cores\n", " \n", "perf::pilos::threads=1\n"] ∧
      ∀ k, (readCfg ["  # cores\n", " \n", "perf::pilos::threads=1\n"]).get? k =
        Dict.get? ([("perf::pilos::threads", "1")] : Dict Str Str) k := by
  have hline : ("perf::pilos::threads=1\n" : Str) = demoThreads.line ++ ['\n'] := by decide
  have hcfg : Config [demoThreads] ["  # cores\n", " \n", "perf::pilos::threads=1\n"] := by
    rw [hline]
    exact .comment (by decide) (.blank (by decide) (.entry demoThreads (.inr rfl) .nil))
  refine ⟨hcfg, (readCfg_get?_iff ⟨[demoThreads], List.nodup_singleton _⟩ hcfg).2 ?_⟩
  exact List.forall_mem_singleton.2 ⟨by decide, by decide, by decide⟩

/-- The reader makes `--isarv64gcv` of the value. -/
theorem readCfg_isa :
    Config [demoIsa] ["func::imi_spike::no_args::m_pk=--isa=rv64gcv\n"] ∧
      ¬ ∀ k, (readCfg ["func::imi_spike::no_args::m_pk=--isa=rv64gcv\n"]).get? k =
        Dict.get? ([("func::imi_spike::no_args::m_pk", "--isa=rv64gcv")] : Dict Str Str) k := by
  have hline : ("func::imi_spike::no_args::m_pk=--isa=rv64gcv\n" : Str) =
      demoIsa.line ++ ['\n'] := by
    decide
  refine ⟨?_, fun hall => ?_⟩
  · rw [hline]
    exact .entry demoIsa (.inr rfl) .nil
  · exact absurd (hall imiSpikeKey) (by decide)

/-! ## The file between them -/

/-- What the reader has of the first line of a file: its end, unless it is the last one.  An empty
last line is no line. -/
theorem readlines_joined {l : Str} (ls : List Str) (hl : '\n' ∉ l) :
    (l = [] ∧ ls = [] ∧ readlines (joinWith ['\n'] (l :: ls)) = []) ∨
      ∃ nl, (nl = [] ∨ nl = ['\n']) ∧
        readlines (joinWith ['\n'] (l :: ls)) = (l ++ nl) :: readlines (joinWith ['\n'] ls) := by
  cases ls with
  | nil =>
    rw [joinWith_singleton]
    by_cases hnil : l = []
    · exact .inl ⟨hnil, rfl, by rw [hnil]; rfl⟩
    · refine .inr ⟨[], .inl rfl, ?_⟩
      rw [readlines_line hl hnil, List.append_nil]
      rfl
  | cons l' ls =>
    refine .inr ⟨['\n'], .inr rfl, ?_⟩
    rw [joinWith_cons _ _ (List.cons_ne_nil l' ls), List.append_assoc, List.singleton_append,
      readlines_append hl]

/-- The lines of a configuration stand in the file that `_init_sim_cfg` writes. -/
theorem Config.readlines_joined (h : Config es ls) (hlines : ∀ l ∈ ls, '\n' ∉ l) :
    Config es (readlines (joinWith ['\n'] ls)) := by
  induction h with
  | nil => exact .nil
  | @comment es ls l hcomment _ ih =>
    obtain ⟨hl, htail⟩ := List.forall_mem_cons.1 hlines
    rcases Iminnt.readlines_joined ls hl with ⟨rfl, -, -⟩ | ⟨nl, hnl, hread⟩
    · cases hcomment
    · rw [hread]
      refine .comment ?_ (ih htail)
      rw [isComment_append_newlines (by rcases hnl with rfl | rfl <;> simp)]
      exact hcomment
  | @blank es ls l hblank _ ih =>
    obtain ⟨hl, htail⟩ := List.forall_mem_cons.1 hlines
    rcases Iminnt.readlines_joined ls hl with ⟨-, rfl, hread⟩ | ⟨nl, hnl, hread⟩
    · rw [hread]
      exact ih htail
    · rw [hread]
      refine .blank (List.forall_mem_append.2 ⟨hblank, ?_⟩) (ih htail)
      rcases hnl with rfl | rfl <;> simp [isSpace]
  | @entry es ls e nl hnl _ ih =>
    obtain ⟨hl, htail⟩ := List.forall_mem_cons.1 hlines
    obtain rfl : nl = [] := hnl.resolve_right (by rintro rfl; simp at hl)
    rw [List.append_nil] at hl ⊢
    rcases Iminnt.readlines_joined ls hl with ⟨hnil, -, -⟩ | ⟨nl, hnl, hread⟩
    · exact absurd hnil (by simp [Entry.line])
    · rw [hread]
      exact .entry e hnl (ih htail)

/-- A file that `_init_sim_cfg` writes with lines of that kind, read by the loop of
`get_sim_cfg`. -/
theorem readCfg_written (h : Config es ls) (hlines : ∀ l ∈ ls, '\n' ∉ l ∧ '\r' ∉ l) :
    ((readText (writeText (joinWith ['\n'] ls))).map fun text => readCfg (readlines text)) =
      some (readCfg ls) := by
  have hreturn : '\r' ∉ joinWith ['\n'] ls := fun hc =>
    forall_mem_joinWith (p := fun c => c ≠ '\r') (List.forall_mem_singleton.2 (by decide))
      (fun l hl c hcl heq => (hlines l hl).2 (heq ▸ hcl)) '\r' hc rfl
  rw [readText_writeText hreturn, Option.map_some, readCfg_eq_update, readCfg_eq_update,
    h.filterMap_readLine, (h.readlines_joined fun l hl => (hlines l hl).1).filterMap_readLine]

end AiPipelines.Iminnt

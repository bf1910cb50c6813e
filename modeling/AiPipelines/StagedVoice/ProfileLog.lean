import AiPipelines.PyStd.JsonLine
import AiPipelines.PyStd.PyValue

/-!
# The log of turn profiles

`append_profile_jsonl` of `staged_voice/profiling.py` puts the profile of a turn at the end of a
file, as JSON on a line, and `experiments/summarize_profiles.py` reads the rows of the file.

A profile is a Python value: its texts may have lone surrogates, which the file cannot hold, and its
`meta` may be more than JSON.  The writer does not escape what is beyond ASCII, and `str.splitlines`
ends a line at three characters of it.  `roundTrips_iff` says that these are the only harm: the rows
are the profiles exactly when each profile is a JSON value that can be encoded and no text of it has
one of the three characters.  The proof of one direction counts rows: such a record gives two at
least (`two_le_rows`), and every record one.
-/

namespace AiPipelines.StagedVoice

open PyStd Json

/-! ## The writer -/

/-- `StageProfile`.  A float is the literal that denotes it, and `meta` holds what `asdict` makes of
its values. -/
structure StageProfile where
  audioPath : PyStr
  audioDurationS : Str
  asrS : Str
  asrRtf : Str
  llmTtftS : Str
  llmGenerationS : Str
  llmChars : Int
  llmTokensPerSEst : Str
  ttsS : Str
  transcript : PyStr
  replyText : PyStr
  outputWavPath : Option PyStr := none
  metaDict : List (PyKey × PyVal) := []
  metaDict_distinct : ∀ v, (PyVal.dict metaDict).asJson? = some v → DistinctKeys v

namespace StageProfile

/-- The fields, under their names. -/
def items (q : StageProfile) : List (PyKey × PyVal) :=
  [(.text (.ofStr "audio_path"), .str q.audioPath),
    (.text (.ofStr "audio_duration_s"), .float q.audioDurationS),
    (.text (.ofStr "asr_s"), .float q.asrS),
    (.text (.ofStr "asr_rtf"), .float q.asrRtf),
    (.text (.ofStr "llm_ttft_s"), .float q.llmTtftS),
    (.text (.ofStr "llm_generation_s"), .float q.llmGenerationS),
    (.text (.ofStr "llm_chars"), .int q.llmChars),
    (.text (.ofStr "llm_tokens_per_s_est"), .float q.llmTokensPerSEst),
    (.text (.ofStr "tts_s"), .float q.ttsS),
    (.text (.ofStr "transcript"), .str q.transcript),
    (.text (.ofStr "reply_text"), .str q.replyText),
    (.text (.ofStr "output_wav_path"), (q.outputWavPath.map PyVal.str).getD .null),
    (.text (.ofStr "meta"), .dict q.metaDict)]

/-- `to_json_dict`. -/
def toJsonDict (q : StageProfile) : PyVal := .dict q.items

end StageProfile

/-- Why a profile was not written. -/
inductive AppendError where
  /-- The encoder met a value that it refuses (`TypeError`). -/
  | type
  | dump (e : DumpError)
  /-- A text has a lone surrogate (`UnicodeEncodeError`). -/
  | unicodeEncode
  deriving Repr, DecidableEq

variable (floats : FloatPrinter) (depth : Nat)

/-- `append_profile_jsonl`, on the bytes of the file.  The encoder leaves a surrogate as it is, and
the file refuses the line. -/
def appendProfileJsonl (file : Bytes) (q : StageProfile) : Except AppendError Bytes :=
  match q.toJsonDict.toJson floats with
  | none => .error .type
  | some v =>
    match dumpsLine floats false depth v with
    | .error e => .error (.dump e)
    | .ok line =>
      if q.toJsonDict.isWritable then .ok (file ++ writeText (line ++ ['\n']))
      else .error .unicodeEncode

/-- The profiles of a run, one after the other. -/
def appendAll (file : Bytes) (profiles : List StageProfile) : Except AppendError Bytes :=
  profiles.foldlM (appendProfileJsonl floats depth) file

/-! ## The reader -/

/-- Why the reader raised. -/
inductive ReadError where
  | unicodeDecode
  | json (e : LoadError)
  deriving Repr, DecidableEq

/-- The loop of `main` that collects the rows. -/
def collectRows (lines : List Str) (rows : List Json) : Except LoadError (List Json) :=
  match lines with
  | [] => .ok rows
  | ln :: lines =>
    if strip ln = [] then collectRows lines rows
    else do
      let row ← loads depth (strip ln)
      collectRows lines (rows ++ [row])

/-- The rows of a file. -/
def readRows (file : Bytes) : Except ReadError (List Json) :=
  match readText file with
  | none => .error .unicodeDecode
  | some text => (collectRows depth (splitlines text) []).mapError .json

/-- The rows of a fresh file to which the profiles were appended are the profiles.  A row is what
the decoder returned, so a profile that the decoder could not return is not among them. -/
def RoundTrips (profiles : List StageProfile) : Prop :=
  ∃ file rows, appendAll floats depth [] profiles = .ok file ∧ readRows depth file = .ok rows ∧
    rows.map (fun row => some (canon floats row)) =
      profiles.map fun q => q.toJsonDict.asJson?.map (canon floats)

/-! ## A profile -/

variable {floats} {depth}

/-- The names of the fields. -/
def fieldNames : List Str :=
  ["audio_path", "audio_duration_s", "asr_s", "asr_rtf", "llm_ttft_s", "llm_generation_s",
    "llm_chars", "llm_tokens_per_s_est", "tts_s", "transcript", "reply_text", "output_wav_path",
    "meta"]

theorem map_asText?_items (q : StageProfile) :
    q.items.map (fun kv => kv.1.asText?) = fieldNames.map some := by
  simp [StageProfile.items, PyKey.asText?, PyStr.toStr?_ofStr, fieldNames]

/-- A value of a field has no key twice. -/
theorem distinctKeys_item {q : StageProfile} {kv : PyKey × PyVal} {v : Json} (hkv : kv ∈ q.items)
    (hv : kv.2.asJson? = some v) : DistinctKeys v := by
  have hstr (s : PyStr) (h : (PyVal.str s).asJson? = some v) : DistinctKeys v := by
    obtain ⟨t, -, rfl⟩ := Option.map_eq_some_iff.mp h
    trivial
  have hfloat (l : Str) (h : (PyVal.float l).asJson? = some v) : DistinctKeys v := by
    obtain rfl := Option.some.inj h
    trivial
  simp only [StageProfile.items, List.mem_cons, List.not_mem_nil, or_false] at hkv
  rcases hkv with rfl | rfl | rfl | rfl | rfl | rfl | rfl | rfl | rfl | rfl | rfl | rfl | rfl
  · exact hstr _ hv
  iterate 5 exact hfloat _ hv
  · obtain rfl := Option.some.inj hv
    trivial
  iterate 2 exact hfloat _ hv
  iterate 2 exact hstr _ hv
  · cases hpath : q.outputWavPath with
    | none =>
      rw [hpath] at hv
      obtain rfl := Option.some.inj hv
      trivial
    | some path =>
      rw [hpath] at hv
      exact hstr path hv
  · exact q.metaDict_distinct v hv

/-- A record of the log: an object whose keys are distinct. -/
structure IsRecord (v : Json) : Prop where
  distinct : DistinctKeys v
  object : ∃ kvs, v = .obj kvs

/-- A profile that the decoder could return is a record. -/
theorem isRecord_toJsonDict {q : StageProfile} {v : Json} (h : q.toJsonDict.asJson? = some v) :
    IsRecord v := by
  obtain ⟨kvs, hkvs, rfl⟩ := Option.map_eq_some_iff.mp h
  have hitems := PyVal.map_of_asJsonPairs? hkvs
  refine ⟨⟨?_, ?_⟩, kvs, rfl⟩
  · have hkeys : fieldNames.map some = (kvs.map Prod.fst).map some := by
      have hfirst := congrArg (List.map Prod.fst) hitems
      rw [List.map_map, List.map_map] at hfirst
      rw [← map_asText?_items q, List.map_map]
      exact hfirst
    rw [← List.map_injective_iff.mpr (Option.some_injective Str) hkeys]
    decide
  · rw [distinctKeysPairs_iff]
    intro kv hkv
    have hmem : (some kv.1, some kv.2) ∈ q.items.map fun kv => (kv.1.asText?, kv.2.asJson?) :=
      hitems ▸ List.mem_map_of_mem hkv
    obtain ⟨item, hitem, heq⟩ := List.mem_map.mp hmem
    exact distinctKeys_item hitem (congrArg Prod.snd heq)

/-! ## The file -/

/-- The text of a file with records. -/
def logText (floats : FloatPrinter) (records : List Json) : Str :=
  records.flatMap fun v => dumpLine floats false v ++ ['\n']

/-- The profiles as the decoder could return them. -/
def AreRecords (profiles : List StageProfile) (records : List Json) : Prop :=
  profiles.map (fun q => q.toJsonDict.asJson?) = records.map some

theorem AreRecords.exists_profile {profiles : List StageProfile} {records : List Json}
    (h : AreRecords profiles records) {v : Json} (hv : v ∈ records) :
    ∃ q ∈ profiles, q.toJsonDict.asJson? = some v := by
  have hmem : some v ∈ profiles.map fun q => q.toJsonDict.asJson? := h ▸ List.mem_map_of_mem hv
  exact List.mem_map.mp hmem

theorem AreRecords.isRecord {profiles : List StageProfile} {records : List Json}
    (h : AreRecords profiles records) : ∀ v ∈ records, IsRecord v := by
  intro v hv
  obtain ⟨q, -, hq⟩ := h.exists_profile hv
  exact isRecord_toJsonDict hq

theorem exists_areRecords {profiles : List StageProfile}
    (h : ∀ q ∈ profiles, ∃ v, q.toJsonDict.asJson? = some v) :
    ∃ records, AreRecords profiles records := by
  induction profiles with
  | nil => exact ⟨[], rfl⟩
  | cons q profiles ih =>
    rw [List.forall_mem_cons] at h
    obtain ⟨v, hv⟩ := h.1
    obtain ⟨records, hrecords⟩ := ih h.2
    exact ⟨v :: records, congrArg₂ List.cons hv hrecords⟩

/-- What happens to a profile that the decoder could return. -/
theorem appendProfileJsonl_eq (file : Bytes) {q : StageProfile} {v : Json}
    (h : q.toJsonDict.asJson? = some v) :
    appendProfileJsonl floats depth file q =
      match encodable depth v with
      | .error e => .error (.dump e)
      | .ok _ => .ok (file ++ writeText (dumpLine floats false v ++ ['\n'])) := by
  unfold appendProfileJsonl
  generalize q.toJsonDict = x at h
  obtain ⟨hwritten, hfile⟩ := PyVal.toJson_of_asJson? floats x h
  rw [hwritten, hfile]
  cases hv : encodable depth v <;> simp [dumpsLine, hv, bind, Except.bind, pure, Except.pure]

/-- All profiles are written if each one can be encoded. -/
theorem appendAll_eq_ok_iff {profiles : List StageProfile} {records : List Json}
    (h : AreRecords profiles records) {file file' : Bytes} :
    appendAll floats depth file profiles = .ok file' ↔
      (∀ v ∈ records, encodable depth v = .ok ()) ∧
        file ++ writeText (logText floats records) = file' := by
  induction profiles generalizing records file with
  | nil =>
    obtain rfl := List.map_eq_nil_iff.mp h.symm
    simp [appendAll, logText, writeText, utf8Encode, pure, Except.pure]
  | cons q profiles ih =>
    obtain ⟨v, records, rfl⟩ : ∃ v rest, records = v :: rest :=
      List.exists_cons_of_ne_nil (by rintro rfl; cases h)
    obtain ⟨hq, hrest⟩ := List.cons.inj h
    have hcons : appendAll floats depth file (q :: profiles) =
        (appendProfileJsonl floats depth file q >>= fun file =>
          appendAll floats depth file profiles) := rfl
    rw [hcons, List.forall_mem_cons, appendProfileJsonl_eq file hq]
    cases hv : encodable depth v with
    | error e => simp [bind, Except.bind]
    | ok u =>
      show appendAll floats depth _ profiles = .ok file' ↔ _
      rw [ih hrest, List.append_assoc, ← writeText_append]
      simp [logText]

theorem logText_no_return (records : List Json) : '\r' ∉ logText floats records := by
  intro hmem
  obtain ⟨v, -, hv⟩ := List.mem_flatMap.1 hmem
  rcases List.mem_append.1 hv with hline | hfeed
  · exact dumpLine_no_return v hline
  · exact absurd hfeed (by decide)

theorem readRows_writeText (records : List Json) :
    readRows depth (writeText (logText floats records)) =
      (collectRows depth (splitlines (logText floats records)) []).mapError .json := by
  unfold readRows
  rw [readText_writeText (logText_no_return records)]

/-! ## How many rows -/

/-- The lines that the loop does not skip. -/
def rowCount (lines : List Str) : Nat := lines.countP fun ln => strip ln ≠ []

theorem collectRows_length {lines : List Str} {rows rows' : List Json}
    (h : collectRows depth lines rows = .ok rows') :
    rows'.length = rows.length + rowCount lines := by
  induction lines generalizing rows with
  | nil =>
    cases h
    rfl
  | cons ln lines ih =>
    unfold collectRows at h
    unfold rowCount at ih ⊢
    by_cases hblank : strip ln = []
    · rw [if_pos hblank] at h
      rw [ih h, List.countP_cons_of_neg (by simp [hblank])]
    · rw [if_neg hblank] at h
      cases hload : loads depth (strip ln) with
      | error e =>
        rw [hload] at h
        cases h
      | ok row =>
        rw [hload] at h
        rw [ih h, List.countP_cons_of_pos (by simp [hblank]), List.length_append,
          List.length_singleton]
        omega

/-- A text with a character that is no blank has a row. -/
theorem one_le_rows {s : Str} {c : Char} (hc : c ∈ s) (hspace : isSpace c = false)
    (hbreak : isLineBreak c = false) : 1 ≤ rowCount (splitlines s) := by
  obtain ⟨l, hl, hcl⟩ := exists_mem_splitlines hbreak hc
  refine List.countP_pos_iff.2 ⟨l, hl, ?_⟩
  rw [decide_eq_true_eq, ne_eq, strip_eq_nil_iff]
  intro hblank
  rw [hblank c hcl] at hspace
  cases hspace

/-- A text in braces that is more than one line has a row in front of its first line break and one
behind it. -/
theorem two_le_rows {m : Str} (hcut : ∃ c ∈ '\x7b' :: m ++ ['\x7d'], isLineBreak c = true)
    (hreturn : '\r' ∉ '\x7b' :: m ++ ['\x7d']) :
    2 ≤ rowCount (splitlines ('\x7b' :: m ++ ['\x7d'] ++ ['\n'])) := by
  obtain ⟨u, c, t, hsplit, hu, hc⟩ := exists_first_break hcut
  rw [hsplit] at hreturn ⊢
  have hfirst : '\x7b' ∈ u := by
    cases u with
    | nil =>
      rw [← (List.cons.inj hsplit).1] at hc
      exact absurd hc (by decide)
    | cons d u => exact (List.cons.inj hsplit).1 ▸ List.mem_cons_self
  have hlast : '\x7d' ∈ t := by
    rcases List.eq_nil_or_concat t with rfl | ⟨t, d, rfl⟩
    · rw [(List.append_singleton_inj.1 hsplit).2.symm] at hc
      exact absurd hc (by decide)
    · have hsplit' : '\x7b' :: m ++ ['\x7d'] = (u ++ c :: t) ++ [d] := by
        rw [hsplit, List.concat_eq_append]
        simp
      rw [(List.append_singleton_inj.1 hsplit').2]
      simp
  have hpair : c = '\r' → (t ++ ['\n']).head? ≠ some '\n' := by
    rintro rfl
    exact absurd (List.mem_append_right u List.mem_cons_self) hreturn
  have hbehind : 1 ≤ rowCount (splitlines (t ++ ['\n'])) :=
    one_le_rows (List.mem_append_left _ hlast) (by decide) (by decide)
  have hfront : strip u ≠ [] := by
    rw [ne_eq, strip_eq_nil_iff]
    exact fun hblank => absurd (hblank _ hfirst) (by decide)
  rw [List.append_assoc, List.cons_append, splitlines_append_break hu hc hpair]
  unfold rowCount at hbehind ⊢
  rw [List.countP_cons_of_pos (by simp [hfront])]
  omega

/-- Every record gives a row, and one with a cut line two. -/
theorem rows_logText {records : List Json} (h : ∀ v ∈ records, IsRecord v) :
    records.length + (records.countP fun v => ∃ s ∈ texts v, CutsLine s) ≤
      rowCount (splitlines (logText floats records)) := by
  induction records with
  | nil => exact Nat.zero_le _
  | cons v records ih =>
    rw [List.forall_mem_cons] at h
    have hrest := ih h.2
    obtain ⟨kvs, hkvs⟩ := h.1.object
    obtain ⟨m, hm⟩ : ∃ m, dumpLine floats false v = '\x7b' :: m ++ ['\x7d'] :=
      hkvs ▸ exists_dumpLine_obj kvs
    have hsplit : splitlines (logText floats (v :: records)) =
        splitlines (dumpLine floats false v ++ ['\n']) ++ splitlines (logText floats records) := by
      rw [← splitlines_newline]
      simp [logText]
    rw [hsplit, List.length_cons]
    unfold rowCount at hrest ⊢
    rw [List.countP_append]
    by_cases hcut : ∃ s ∈ texts v, CutsLine s
    · have htwo : 2 ≤ rowCount (splitlines (dumpLine floats false v ++ ['\n'])) := by
        have hbreak : ∃ c ∈ dumpLine floats false v, isLineBreak c = true :=
          (exists_break_dumpLine_iff v).2 hcut
        have hreturn : '\r' ∉ dumpLine floats false v := dumpLine_no_return v
        rw [hm] at hbreak hreturn ⊢
        exact two_le_rows hbreak hreturn
      unfold rowCount at htwo
      rw [List.countP_cons_of_pos (by simpa using hcut)]
      omega
    · have hone : 1 ≤ rowCount (splitlines (dumpLine floats false v ++ ['\n'])) := by
        rw [hm]
        exact one_le_rows (c := '\x7b') (by simp) (by decide) (by decide)
      unfold rowCount at hone
      rw [List.countP_cons_of_neg (by simpa using hcut)]
      omega

/-! ## The round trip -/

/-- A record that is one line is read back. -/
theorem collectRows_record {v : Json} (hrecord : IsRecord v) (hok : encodable depth v = .ok ())
    (hcut : ∀ s ∈ texts v, ¬ CutsLine s) (text : Str) (rows : List Json) :
    collectRows depth (splitlines (dumpLine floats false v ++ '\n' :: text)) rows =
      collectRows depth (splitlines text) (rows ++ [canon floats v]) := by
  obtain ⟨kvs, hkvs⟩ := hrecord.object
  obtain ⟨m, hm⟩ : ∃ m, dumpLine floats false v = '\x7b' :: m ++ ['\x7d'] :=
    hkvs ▸ exists_dumpLine_obj kvs
  have hline : ∀ c ∈ dumpLine floats false v, isLineBreak c = false := by
    intro c hc
    rw [Bool.eq_false_iff]
    intro hbreak
    obtain ⟨s, hs, hcutting⟩ := (exists_break_dumpLine_iff (p := floats) v).1 ⟨c, hc, hbreak⟩
    exact hcut s hs hcutting
  have hstrip : strip (dumpLine floats false v) = dumpLine floats false v := by
    rw [hm]
    unfold strip
    rw [List.cons_append, lstrip, List.dropWhile_cons_of_neg (by decide), ← List.cons_append,
      rstrip_append_cons _ _ (by decide)]
    rfl
  have hne : dumpLine floats false v ≠ [] := by
    rw [hm]
    exact List.cons_ne_nil _ _
  have hload : loads depth (dumpLine floats false v) = .ok (canon floats v) :=
    loads_dumpLine hrecord.distinct hok
  rw [splitlines_append_break hline (by decide) fun hreturn => absurd hreturn (by decide)]
  conv_lhs => unfold collectRows
  rw [hstrip, if_neg hne, hload]
  rfl

theorem collectRows_logText {records : List Json} (hrecords : ∀ v ∈ records, IsRecord v)
    (hok : ∀ v ∈ records, encodable depth v = .ok ())
    (hcut : ∀ v ∈ records, ∀ s ∈ texts v, ¬ CutsLine s) (rows : List Json) :
    collectRows depth (splitlines (logText floats records)) rows =
      .ok (rows ++ records.map (canon floats)) := by
  induction records generalizing rows with
  | nil =>
    rw [List.map_nil, List.append_nil]
    rfl
  | cons v records ih =>
    rw [List.forall_mem_cons] at hrecords hok hcut
    have htext : logText floats (v :: records) =
        dumpLine floats false v ++ '\n' :: logText floats records := by
      simp [logText]
    rw [htext, collectRows_record hrecords.1 hok.1 hcut.1, ih hrecords.2 hok.2 hcut.2,
      List.append_assoc]
    rfl

/-- The profiles of a log that is read back could all be returned by the decoder. -/
theorem asJson?_of_roundTrips {profiles : List StageProfile}
    (h : RoundTrips floats depth profiles) :
    ∀ q ∈ profiles, ∃ v, q.toJsonDict.asJson? = some v := by
  obtain ⟨-, rows, -, -, hrows⟩ := h
  intro q hq
  have hmem : q.toJsonDict.asJson?.map (canon floats) ∈
      rows.map fun row => some (canon floats row) :=
    hrows ▸ List.mem_map_of_mem (f := fun q => q.toJsonDict.asJson?.map (canon floats)) hq
  obtain ⟨row, -, hrow⟩ := List.mem_map.mp hmem
  obtain ⟨v, hv, -⟩ := Option.map_eq_some_iff.mp hrow.symm
  exact ⟨v, hv⟩

/-- A log that is read back has no cut line. -/
theorem not_cutsLine_of_roundTrips {profiles : List StageProfile} {records : List Json}
    (hrecords : AreRecords profiles records) (h : RoundTrips floats depth profiles) :
    ∀ v ∈ records, ∀ s ∈ texts v, ¬ CutsLine s := by
  obtain ⟨file, rows, hwrite, hread, hrows⟩ := h
  obtain ⟨-, rfl⟩ := (appendAll_eq_ok_iff hrecords).1 hwrite
  rw [List.nil_append, readRows_writeText] at hread
  have hlength : rows.length = records.length := by
    have hprofiles := congrArg List.length hrows
    rw [List.length_map, List.length_map] at hprofiles
    have hvalues := congrArg List.length hrecords
    rw [List.length_map, List.length_map] at hvalues
    rw [hprofiles, hvalues]
  have hcollect : collectRows depth (splitlines (logText floats records)) [] = .ok rows := by
    cases hrun : collectRows depth (splitlines (logText floats records)) [] with
    | error e =>
      rw [hrun] at hread
      cases hread
    | ok rows' =>
      rw [hrun] at hread
      rw [Except.ok.inj hread]
  have hcount := collectRows_length hcollect
  have hrowCount : records.length + (records.countP fun v => ∃ s ∈ texts v, CutsLine s) ≤
      rowCount (splitlines (logText floats records)) := rows_logText hrecords.isRecord
  have hzero : (records.countP fun v => ∃ s ∈ texts v, CutsLine s) = 0 := by
    rw [List.length_nil] at hcount
    omega
  intro v hv s hs hcut
  exact List.countP_eq_zero.1 hzero v hv (decide_eq_true ⟨s, hs, hcut⟩)

/-- The rows of records that are one line each are the profiles. -/
theorem roundTrips_of_records {profiles : List StageProfile} {records : List Json}
    (hrecords : AreRecords profiles records) (hok : ∀ v ∈ records, encodable depth v = .ok ())
    (hcut : ∀ v ∈ records, ∀ s ∈ texts v, ¬ CutsLine s) : RoundTrips floats depth profiles := by
  refine ⟨writeText (logText floats records), records.map (canon floats),
    (appendAll_eq_ok_iff hrecords).2 ⟨hok, List.nil_append _⟩, ?_, ?_⟩
  · rw [readRows_writeText, collectRows_logText hrecords.isRecord hok hcut, List.nil_append]
    rfl
  · have hvalues := congrArg (List.map (Option.map (canon floats))) hrecords
    rw [List.map_map, List.map_map] at hvalues
    rw [List.map_map]
    refine Eq.trans ?_ hvalues.symm
    exact List.map_congr_left fun v _ => congrArg some (canon_canon v)

/-- The log gives the profiles back exactly when each is a value that the decoder could return, can
be encoded, and has no text with a next line, a line separator or a paragraph separator. -/
theorem roundTrips_iff (floats : FloatPrinter) (depth : Nat) (profiles : List StageProfile) :
    RoundTrips floats depth profiles ↔
      ∀ q ∈ profiles, ∃ v, q.toJsonDict.asJson? = some v ∧ encodable depth v = .ok () ∧
        ∀ s ∈ texts v, ¬ CutsLine s := by
  constructor
  · intro h q hq
    obtain ⟨records, hrecords⟩ := exists_areRecords (asJson?_of_roundTrips h)
    obtain ⟨v, hqv⟩ := asJson?_of_roundTrips h q hq
    have hv : v ∈ records := by
      have hmem : some v ∈ records.map some :=
        hrecords ▸ hqv ▸ List.mem_map_of_mem (f := fun q => q.toJsonDict.asJson?) hq
      exact (List.mem_map_of_injective (Option.some_injective Json)).mp hmem
    refine ⟨v, hqv, ?_, not_cutsLine_of_roundTrips hrecords h v hv⟩
    obtain ⟨file, rows, hwrite, -, -⟩ := h
    exact ((appendAll_eq_ok_iff hrecords).1 hwrite).1 v hv
  · intro h
    obtain ⟨records, hrecords⟩ :=
      exists_areRecords fun q hq => (h q hq).imp fun _ hv => hv.1
    have hgood : ∀ v ∈ records, encodable depth v = .ok () ∧ ∀ s ∈ texts v, ¬ CutsLine s := by
      intro v hv
      obtain ⟨q, hq, hqv⟩ := hrecords.exists_profile hv
      obtain ⟨v', hqv', hgood⟩ := h q hq
      obtain rfl : v' = v := Option.some.inj (hqv'.symm.trans hqv)
      exact hgood
    exact roundTrips_of_records hrecords (fun v hv => (hgood v hv).1) fun v hv => (hgood v hv).2

/-- A turn whose transcript has a line separator. -/
def demoProfile : StageProfile where
  audioPath := .ofStr "a.wav"
  audioDurationS := "1.5"
  asrS := "0.2"
  asrRtf := "0.1"
  llmTtftS := "0.3"
  llmGenerationS := "0.9"
  llmChars := 2
  llmTokensPerSEst := "1.0"
  ttsS := "0.0"
  transcript := .ofStr "one\u2028two"
  replyText := .ofStr "ok"
  metaDict_distinct := by
    intro v hv
    obtain rfl := Option.some.inj hv
    exact ⟨List.nodup_nil, trivial⟩

/-- It is written, and not read back. -/
theorem demoProfile_lost :
    (∃ file, appendAll FloatPrinter.verbatim 1000 [] [demoProfile] = .ok file) ∧
      ¬ RoundTrips FloatPrinter.verbatim 1000 [demoProfile] := by
  have hvalue : demoProfile.toJsonDict.asJson?.any (fun v =>
      (encodable 1000 v).isOk && (texts v).any fun s => CutsLine s) = true := by
    decide +kernel
  obtain ⟨v, hv, hgood⟩ := (Option.any_eq_true _ _).mp hvalue
  rw [Bool.and_eq_true, List.any_eq_true] at hgood
  obtain ⟨hok, s, hs, hcut⟩ := hgood
  have hrecords : AreRecords [demoProfile] [v] := congrArg (· :: []) hv
  constructor
  · refine ⟨_, (appendAll_eq_ok_iff hrecords).2 ⟨?_, rfl⟩⟩
    rw [List.forall_mem_singleton]
    cases hdump : encodable 1000 v with
    | ok u => rfl
    | error e =>
      rw [hdump] at hok
      cases hok
  · intro h
    exact not_cutsLine_of_roundTrips hrecords h v List.mem_cons_self s hs (of_decide_eq_true hcut)

end AiPipelines.StagedVoice

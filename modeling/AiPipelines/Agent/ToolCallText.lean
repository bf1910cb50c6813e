import AiPipelines.Agent.LoopSound
import AiPipelines.PyStd.JsonLex
import AiPipelines.PyStd.Lines
import AiPipelines.PyStd.Unicode

/-!
# Which tool calls are read back

`_parse_tool_call` of `server/app/agent/service.py` on a text that has one tool call in it,
written as any JSON text of the payload, with lines of prose around it.

A call on one line is found by the loop over the lines.  A call on several lines is left to
the regular expression, which stops at the first closing brace that ends a line.
`parseToolCall_iff` says when that is the last brace of the call.

The loop also sees the single lines of such a call.  The first line is no object, since an
object ends with its last brace only.  A further line reads as a call only where it starts
inside of a string, and then it has no member `name` (`fragment_no_call`).
-/

namespace AiPipelines.Agent

open PyStd

variable {depth : Nat}

/-! ## Lines without a call -/

theorem loadToolCallPayload_eq_some {s : Str} {payload : Dict Str Json}
    (h : loadToolCallPayload depth s = .ok (some payload)) :
    Json.loads depth s = .ok (.obj payload) ∧ (Dict.get? payload "name").isSome = true := by
  unfold loadToolCallPayload at h
  split at h
  · cases h
  · cases h
  · next p hloads =>
    split_ifs at h with hname
    · cases h
      exact ⟨hloads, hname⟩
    · cases h
  · cases h

theorem decodes_of_ok {s : Str} {c : Option (Dict Str Json)}
    (h : loadToolCallPayload depth s = .ok c) : Decodes depth s := by
  intro e he
  unfold loadToolCallPayload at h
  rw [he] at h
  cases e with
  | decode => rfl
  | recursion => cases h
  | intDigits => cases h

/-- None of the lines is read as a call. -/
def Silent (depth : Nat) (lines : List Str) : Prop :=
  ∀ s ∈ lineTexts lines, ∀ payload, loadToolCallPayload depth s ≠ .ok (some payload)

/-- What the lines hand to `json.loads` raises nothing but `JSONDecodeError`. -/
def LinesDecode (depth : Nat) (lines : List Str) : Prop := ∀ s ∈ lineTexts lines, Decodes depth s

theorem lineTexts_append (lines more : List Str) :
    lineTexts (lines ++ more) = lineTexts lines ++ lineTexts more := by
  unfold lineTexts
  rw [List.map_append, List.filter_append, List.map_append]

theorem lineTexts_cons_tool {line : Str} (h : isToolLine (strip line) = true) (lines : List Str) :
    lineTexts (line :: lines) = strip (afterColon (strip line)) :: lineTexts lines := by
  unfold lineTexts
  rw [List.map_cons, List.filter_cons_of_pos h, List.map_cons]

theorem lineTexts_cons_other {line : Str} (h : ¬ isToolLine (strip line) = true)
    (lines : List Str) : lineTexts (line :: lines) = lineTexts lines := by
  unfold lineTexts
  rw [List.map_cons, List.filter_cons_of_neg h]

theorem Silent.append {lines more : List Str} (h : Silent depth lines) (h' : Silent depth more) :
    Silent depth (lines ++ more) := by
  intro s hs
  rw [lineTexts_append, List.mem_append] at hs
  rcases hs with hs | hs
  · exact h s hs
  · exact h' s hs

/-- Lines without a call are passed, or one of them raises. -/
theorem lineToolCall_silent {lines : List Str} (h : Silent depth lines) (more : List Str) :
    LinesDecode depth lines ∧ lineToolCall depth (lines ++ more) = lineToolCall depth more ∨
      ¬ LinesDecode depth lines ∧ ∃ e, lineToolCall depth (lines ++ more) = .error e := by
  induction lines with
  | nil => exact .inl ⟨nofun, rfl⟩
  | cons line lines ih =>
    unfold Silent at h ih
    unfold LinesDecode at ih ⊢
    rw [List.cons_append, lineToolCall]
    by_cases htool : isToolLine (strip line) = true
    · rw [if_pos htool, lineTexts_cons_tool htool, List.forall_mem_cons]
      rw [lineTexts_cons_tool htool, List.forall_mem_cons] at h
      cases hload : loadToolCallPayload depth (strip (afterColon (strip line))) with
      | error e =>
        right
        refine ⟨?_, e, rfl⟩
        intro hdecodes
        obtain ⟨c, hc⟩ := loadToolCallPayload_ok hdecodes.1
        rw [hload] at hc
        cases hc
      | ok c =>
        cases c with
        | some payload => exact absurd hload (h.1 payload)
        | none =>
          have hfirst := decodes_of_ok hload
          rcases ih h.2 with ⟨hdecodes, heq⟩ | ⟨hnot, he⟩
          · exact .inl ⟨⟨hfirst, hdecodes⟩, heq⟩
          · exact .inr ⟨fun hdecodes => hnot hdecodes.2, he⟩
    · rw [if_neg htool, lineTexts_cons_other htool]
      rw [lineTexts_cons_other htool] at h
      exact ih h

theorem mem_lineTexts {lines : List Str} {s : Str} (h : s ∈ lineTexts lines) :
    ∃ line ∈ lines, isToolLine (strip line) = true ∧ s = strip (afterColon (strip line)) := by
  unfold lineTexts at h
  obtain ⟨candidate, hmem, rfl⟩ := List.mem_map.1 h
  obtain ⟨hmem, htool⟩ := List.mem_filter.1 hmem
  obtain ⟨line, hline, rfl⟩ := List.mem_map.1 hmem
  exact ⟨line, hline, htool, rfl⟩

theorem mem_of_mem_strip {s : Str} {c : Char} (h : c ∈ strip s) : c ∈ s :=
  List.dropWhile_subset isSpace ((List.rdropWhile_prefix isSpace (l := lstrip s)).subset h)

theorem mem_of_mem_afterColon {s : Str} {c : Char} (h : c ∈ afterColon s) : c ∈ s :=
  List.dropWhile_subset _ (List.mem_of_mem_tail h)

theorem mem_of_loads_obj {s : Str} {payload : Dict Str Json}
    (h : Json.loads depth s = .ok (.obj payload)) : '\x7b' ∈ s := by
  obtain ⟨r, hscan, -⟩ := Json.loads_eq_ok h
  obtain ⟨m, hm⟩ := Json.scanOnce_eq_obj hscan
  have hmem : '\x7b' ∈ Json.skipWs s := by
    rw [hm]
    exact List.mem_cons_self
  exact List.dropWhile_subset _ hmem

/-- Where there is no brace there is no object. -/
theorem silent_of_no_brace {text : Str} (h : '\x7b' ∉ text) : Silent depth (splitlines text) := by
  intro s hs payload hload
  obtain ⟨line, hline, -, rfl⟩ := mem_lineTexts hs
  have hmem := mem_of_loads_obj (loadToolCallPayload_eq_some hload).1
  exact h
    (mem_of_mem_splitlines hline (mem_of_mem_strip (mem_of_mem_afterColon (mem_of_mem_strip hmem))))

/-! ## The lines of a call -/

/-- A line of a call starts with its marker, in any letter case. -/
theorem isToolLine_split {candidate : Str} (h : isToolLine candidate = true) :
    ∃ q, candidate = q ++ ':' :: afterColon candidate ∧
      q.map Char.toUpper = "TOOL_CALL".toList := by
  unfold isToolLine at h
  rw [startsWith_iff] at h
  obtain ⟨r, hr⟩ := h
  obtain ⟨q, p, rfl, hq, -⟩ := List.map_eq_append_iff.1 hr.symm
  have hsplit : q.map Char.toUpper = "TOOL_CALL".toList ++ [':'] := hq
  obtain ⟨q', e, rfl, hq', he⟩ := List.map_eq_append_iff.1 hsplit
  obtain ⟨c, e', rfl, hc, he'⟩ := List.map_eq_cons_iff.1 he
  obtain rfl : e' = [] := List.map_eq_nil_iff.1 he'
  have hcolon : c = ':' := by
    by_cases hascii : c.toNat < 128
    · exact forall_ascii (P := fun c => c.toUpper = ':' → c = ':') (by decide) hascii hc
    · rw [← hc, toUpper_of_not_ascii (Nat.le_of_not_lt hascii)]
  have hother : ∀ d ∈ q', decide (d ≠ ':') = true := by
    intro d hd
    rw [decide_eq_true_eq]
    intro heq
    have hmem : d.toUpper ∈ "TOOL_CALL".toList := by
      rw [← hq']
      exact List.mem_map_of_mem hd
    rw [heq] at hmem
    exact absurd hmem (by decide)
  refine ⟨q', ?_, hq'⟩
  subst hcolon
  have hafter : afterColon (q' ++ [':'] ++ p) = p := by
    unfold afterColon
    rw [List.append_assoc, List.dropWhile_append_of_pos hother]
    rfl
  rw [hafter, List.append_assoc]
  rfl

/-- The marker has neither a quote nor a backslash. -/
theorem marker_plain {q : Str} (h : q.map Char.toUpper = "TOOL_CALL".toList) :
    ∀ c ∈ q, c ≠ '"' ∧ c ≠ '\\' := by
  intro c hc
  have hmem : c.toUpper ∈ "TOOL_CALL".toList := by
    rw [← h]
    exact List.mem_map_of_mem hc
  constructor
  · intro heq
    rw [heq] at hmem
    exact absurd hmem (by decide)
  · intro heq
    rw [heq] at hmem
    exact absurd hmem (by decide)

theorem blank_plain {s : Str} (h : IsBlank s) : ∀ c ∈ s, c ≠ '"' ∧ c ≠ '\\' := by
  intro c hc
  have hspace := h c hc
  constructor
  · intro heq
    rw [heq] at hspace
    exact absurd hspace (by decide)
  · intro heq
    rw [heq] at hspace
    exact absurd hspace (by decide)

/-- Outside of strings there is no letter O, so the marker does not stand there. -/
theorem marker_not_outside {q t : Str} (h : q.map Char.toUpper = "TOOL_CALL".toList) :
    ¬ Json.Lexes .outside (q ++ t) := by
  intro hlex
  have hplain := marker_plain h
  obtain ⟨c, q', rfl, -, hq'⟩ := List.map_eq_cons_iff.1 h
  obtain ⟨d, q'', rfl, hd, -⟩ := List.map_eq_cons_iff.1 hq'
  have hsecond := hlex.2
  rw [Json.nextPlace_outside (hplain c List.mem_cons_self).1] at hsecond
  exact hsecond.1.2 hd

variable {call : Str} {payload : Dict Str Json}

/-- A further line of a call is no call. -/
theorem fragment_no_call {line : Str} (hcall : Json.loads depth call = .ok (.obj payload))
    (hline : BehindBreak call line) (htool : isToolLine (strip line) = true) (p : Dict Str Json) :
    loadToolCallPayload depth (strip (afterColon (strip line))) ≠ .ok (some p) := by
  intro hload
  obtain ⟨hloads, hname⟩ := loadToolCallPayload_eq_some hload
  obtain ⟨a, c, b, hc, hsplit⟩ := hline
  -- the line is blanks, the marker, a colon, blanks, the object, and blanks
  obtain ⟨w₁, w₂, hstrip, hw₁, -⟩ := exists_strip line
  obtain ⟨q, hq, hmarker⟩ := isToolLine_split htool
  obtain ⟨w₃, w₄, hafter, hw₃, -⟩ := exists_strip (afterColon (strip line))
  have hparts : line ++ b = w₁ ++ (q ++ (':' :: w₃ ++ (strip (afterColon (strip line)) ++
      (w₄ ++ (w₂ ++ b))))) := by
    calc line ++ b = w₁ ++ strip line ++ w₂ ++ b := by rw [← hstrip]
      _ = w₁ ++ (q ++ ':' :: afterColon (strip line)) ++ w₂ ++ b := by rw [← hq]
      _ = w₁ ++ (q ++ ':' :: (w₃ ++ strip (afterColon (strip line)) ++ w₄)) ++ w₂ ++ b := by
        rw [← hafter]
      _ = _ := by simp only [List.append_assoc, List.cons_append]
  have hlex : Json.Lexes .outside (a ++ c :: (line ++ b)) := by
    rw [← hsplit]
    exact (Json.loads_eats hcall).lexes rfl
  rcases hlex.after_lineBreak hc with hout | hin
  · rw [hparts] at hout
    have hblank := blank_plain hw₁
    exact marker_not_outside hmarker (hout.drop_outside fun c hc => (hblank c hc).1)
  · rw [hparts] at hin
    have hobject :=
      ((hin.drop_inside (blank_plain hw₁)).drop_inside (marker_plain hmarker)).drop_inside
      (List.forall_mem_cons.2 ⟨by decide, blank_plain hw₃⟩)
    rw [Json.loads_inside hloads hobject rfl] at hname
    cases hname

/-- A proper front of a call is no object. -/
theorem front_not_object {m g t : Str} {p : Dict Str Json}
    (hcall : Json.loads depth call = .ok (.obj payload)) (hend : call = m ++ ['\x7d'])
    (hsplit : call = g ++ t) (hne : t ≠ []) : Json.loads depth g ≠ .ok (.obj p) := by
  intro hg
  rw [hsplit] at hcall
  have hblank := Json.loads_longer hg hcall
  have hlast : '\x7d' ∈ t := by
    have hgetLast : call.getLast? = some '\x7d' := by rw [hend, List.getLast?_concat]
    rw [hsplit, List.getLast?_append_of_ne_nil _ hne] at hgetLast
    exact List.mem_of_getLast? hgetLast
  unfold Json.skipWs at hblank
  exact absurd (List.dropWhile_eq_nil_iff.1 hblank _ hlast) (by decide)

/-! ## The text -/

/-- Neither a marker nor a brace. -/
def Prose (s : Str) : Prop := contains "TOOL_CALL:" s = false ∧ '\x7b' ∉ s ∧ '\x7d' ∉ s

/-- The call with its marker. -/
def withMarker (call : Str) : Str := "TOOL_CALL: " ++ call

/-- A JSON text of a payload with a name, on lines of its own between lines of prose. -/
structure CallText (depth : Nat) (pre call post : Str) (payload : Dict Str Json) : Prop where
  loads : Json.loads depth call = .ok (.obj payload)
  name : (Dict.get? payload "name").isSome = true
  braces : ∃ m, call = '\x7b' :: (m ++ ['\x7d'])
  pre_ends : pre = [] ∨ ∃ q, pre = q ++ ['\n']
  post_starts : post = [] ∨ ∃ q, post = '\n' :: q
  pre_prose : Prose pre
  post_prose : Prose post

theorem CallText.load_call {pre post : Str} (h : CallText depth pre call post payload) :
    loadToolCallPayload depth call = .ok (some payload) := by
  unfold loadToolCallPayload
  rw [h.loads]
  dsimp only
  rw [if_pos h.name]

theorem strip_text (pre m post : Str) :
    strip (pre ++ withMarker ('\x7b' :: (m ++ ['\x7d'])) ++ post) =
      lstrip pre ++ withMarker ('\x7b' :: (m ++ ['\x7d'])) ++ rstrip post := by
  have hfront : lstrip (pre ++ 'T' :: ("OOL_CALL: ".toList ++ '\x7b' :: (m ++ ['\x7d']) ++ post)) =
      lstrip pre ++ 'T' :: ("OOL_CALL: ".toList ++ '\x7b' :: (m ++ ['\x7d']) ++ post) :=
    lstrip_append_cons _ _ (by decide)
  have hmarker : ∀ c : Str, withMarker c = 'T' :: ("OOL_CALL: ".toList ++ c) := fun _ => rfl
  have hback := rstrip_append_cons (lstrip pre ++ 'T' :: ("OOL_CALL: ".toList ++ '\x7b' :: m)) post
    (c := '\x7d') (by decide)
  unfold strip
  rw [hmarker]
  simp only [List.append_assoc, List.cons_append, List.nil_append] at hfront hback ⊢
  rw [hfront, hback]

/-- The prose in front of the call ends with its line, also when blanks are taken away. -/
theorem lstrip_ends {pre : Str} (h : pre = [] ∨ ∃ q, pre = q ++ ['\n']) :
    lstrip pre = [] ∨ ∃ q, lstrip pre = q ++ ['\n'] := by
  rcases List.eq_nil_or_concat (lstrip pre) with hnil | ⟨q, c, hq⟩
  · exact .inl hnil
  · right
    obtain ⟨u, hu, -⟩ := exists_lstrip pre
    rw [List.concat_eq_append] at hq
    rcases h with rfl | ⟨q', rfl⟩
    · cases hq' : lstrip [] with
      | nil =>
        rw [hq'] at hq
        exact absurd hq.symm (by simp)
      | cons d s => cases hq'
    · rw [hq, ← List.append_assoc] at hu
      rw [hq, (List.append_inj' hu rfl).2]
      exact ⟨q, rfl⟩

theorem rstrip_starts {post : Str} (h : post = [] ∨ ∃ q, post = '\n' :: q) :
    rstrip post = [] ∨ ∃ q, rstrip post = '\n' :: q := by
  rcases h with rfl | ⟨q, rfl⟩
  · exact .inl rfl
  · cases hr : rstrip ('\n' :: q) with
    | nil => exact .inl rfl
    | cons c s =>
      have hprefix : c :: s <+: '\n' :: q := hr ▸ List.rdropWhile_prefix isSpace (l := '\n' :: q)
      right
      rw [(List.cons_prefix_cons.1 hprefix).1]
      exact ⟨s, rfl⟩

theorem splitlines_front {front : Str} (h : front = [] ∨ ∃ q, front = q ++ ['\n']) (s : Str) :
    splitlines (front ++ s) = splitlines front ++ splitlines s := by
  rcases h with rfl | ⟨q, rfl⟩
  · rfl
  · rw [List.append_assoc, List.singleton_append, splitlines_newline]

theorem splitlines_back {back : Str} (h : back = [] ∨ ∃ q, back = '\n' :: q) (s : Str) :
    splitlines (s ++ ['\x7d'] ++ back) = splitlines (s ++ ['\x7d']) ++ splitlines back.tail := by
  rcases h with rfl | ⟨q, rfl⟩
  · rw [List.append_nil]
    exact (List.append_nil _).symm
  · rw [splitlines_newline, List.append_assoc]
    show splitlines (s ++ ['\x7d', '\n']) ++ _ = _
    rw [splitlines_concat_newline (by decide)]
    rfl

/-! ## A call on one line -/

/-- The call has no line break of `str.splitlines`. -/
def OneLine (call : Str) : Prop := ∀ c ∈ call, isLineBreak c = false

theorem marker_no_break : ∀ c ∈ "TOOL_CALL: ".toList, isLineBreak c = false := by
  have h : "TOOL_CALL: ".toList.all (fun c => !isLineBreak c) = true := by decide
  simpa only [List.all_eq_true, Bool.not_eq_true'] using h

theorem splitlines_oneLine (h : OneLine call) :
    splitlines (withMarker call) = [withMarker call] := by
  refine splitlines_one (by unfold withMarker; exact List.cons_ne_nil _ _) ?_
  intro c hc
  rcases List.mem_append.1 hc with hc | hc
  · exact marker_no_break c hc
  · exact h c hc

theorem isToolLine_withMarker (s : Str) : isToolLine (withMarker s) = true := by
  unfold isToolLine withMarker
  rw [startsWith_iff, List.map_append]
  exact ⟨' ' :: s.map Char.toUpper, rfl⟩

theorem afterColon_withMarker (s : Str) : afterColon (withMarker s) = ' ' :: s := rfl

/-- What the loop hands to `json.loads` for the first line of a call. -/
theorem firstLine_text (s : Str) :
    strip (withMarker ('\x7b' :: s)) = withMarker ('\x7b' :: rstrip s) ∧
      strip (afterColon (withMarker ('\x7b' :: rstrip s))) = '\x7b' :: rstrip s := by
  constructor
  · exact rstrip_append_cons "TOOL_CALL: ".toList s (c := '\x7b') (by decide)
  · rw [afterColon_withMarker]
    have hback := rstrip_append_cons [] (rstrip s) (c := '\x7b') (by decide)
    rw [rstrip_rstrip] at hback
    exact hback

theorem rstrip_concat_brace (m : Str) : rstrip (m ++ ['\x7d']) = m ++ ['\x7d'] :=
  rstrip_append_cons m [] (by decide)

theorem lineToolCall_oneLine {pre post : Str} (h : CallText depth pre call post payload)
    (more : List Str) : lineToolCall depth (withMarker call :: more) = .ok (some payload) := by
  obtain ⟨m, hm⟩ := h.braces
  have hfirst := firstLine_text (m ++ ['\x7d'])
  rw [rstrip_concat_brace, ← hm] at hfirst
  rw [lineToolCall, hfirst.1, if_pos (isToolLine_withMarker call), hfirst.2, h.load_call]

/-! ## A call on several lines -/

/-- The first line of a call on several lines stops short of the last brace. -/
theorem firstLine_no_call {m u t : Str} {c : Char}
    (hcall : Json.loads depth call = .ok (.obj payload)) (hm : call = '\x7b' :: (m ++ ['\x7d']))
    (hsplit : call = u ++ c :: t) (hc : isLineBreak c = true) (p : Dict Str Json) :
    loadToolCallPayload depth (strip (afterColon (strip (withMarker u)))) ≠ .ok (some p) := by
  obtain ⟨u', rfl⟩ : ∃ u', u = '\x7b' :: u' := by
    cases u with
    | nil =>
      rw [hm] at hsplit
      rw [← (List.cons.inj hsplit).1] at hc
      exact absurd hc (by decide)
    | cons d u' =>
      rw [hm] at hsplit
      exact ⟨u', by rw [← (List.cons.inj hsplit).1]⟩
  obtain ⟨w, hw, -⟩ := exists_rstrip u'
  rw [(firstLine_text u').1, (firstLine_text u').2]
  intro hload
  refine front_not_object (g := '\x7b' :: rstrip u') (t := w ++ c :: t) hcall
    (m := '\x7b' :: m) hm ?_ (by simp) (loadToolCallPayload_eq_some hload).1
  calc call = '\x7b' :: (u' ++ c :: t) := hsplit
    _ = '\x7b' :: ((rstrip u' ++ w) ++ c :: t) := by rw [← hw]
    _ = _ := by simp only [List.append_assoc, List.cons_append]

theorem splitlines_withMarker_head {u t : Str} {c : Char} (hu : ∀ d ∈ u, isLineBreak d = false)
    (hc : isLineBreak c = true) :
    (splitlines (withMarker (u ++ c :: t))).head? = some (withMarker u) := by
  have hfront : ∀ d ∈ withMarker u, isLineBreak d = false := by
    intro d hd
    rcases List.mem_append.1 hd with hd | hd
    · exact marker_no_break d hd
    · exact hu d hd
  have hassoc : withMarker (u ++ c :: t) = withMarker u ++ c :: t := by
    unfold withMarker
    exact (List.append_assoc _ _ _).symm
  rw [hassoc, splitlines_head hfront hc]

theorem silent_call {pre post : Str} (h : CallText depth pre call post payload)
    (hbreak : ¬ OneLine call) : Silent depth (splitlines (withMarker call)) := by
  intro s hs p
  obtain ⟨m, hm⟩ := h.braces
  obtain ⟨line, hline, htool, rfl⟩ := mem_lineTexts hs
  have hexists : ∃ c ∈ call, isLineBreak c = true := by
    unfold OneLine at hbreak
    push Not at hbreak
    obtain ⟨c, hc, hne⟩ := hbreak
    exact ⟨c, hc, by simpa using hne⟩
  obtain ⟨u, c, t, hsplit, hu, hc⟩ := exists_first_break hexists
  have hlines := linesOf_splitlines (withMarker call)
  have hhead : (splitlines (withMarker call)).head? = some (withMarker u) := by
    rw [hsplit]
    exact splitlines_withMarker_head hu hc
  cases hls : splitlines (withMarker call) with
  | nil =>
    rw [hls] at hline
    cases hline
  | cons first rest =>
    rw [hls] at hline hhead hlines
    rcases List.mem_cons.1 hline with rfl | hline
    · rw [Option.some.inj hhead]
      exact firstLine_no_call h.loads hm hsplit hc p
    · exact fragment_no_call h.loads ((hlines.further line hline).of_append marker_no_break) htool p

/-! ## The regular expression -/

/-- A match ends with the first closing brace at the end of a line. -/
theorem closeBrace_eq_some {r g : Str} (h : closeBrace r = some g) :
    ∃ a b, r = a ++ '\x7d' :: b ∧ g = a ++ ['\x7d'] ∧ atLineEnd b = true ∧
      ∀ a₁ a₂, a = a₁ ++ '\x7d' :: a₂ → atLineEnd (a₂ ++ '\x7d' :: b) = false := by
  induction r generalizing g with
  | nil => cases h
  | cons c r ih =>
    unfold closeBrace at h
    split_ifs at h with hc
    · obtain ⟨rfl, hend⟩ := hc
      refine ⟨[], r, rfl, (Option.some.inj h).symm, hend, ?_⟩
      intro a₁ a₂ hnil
      exact absurd hnil.symm (by simp)
    · obtain ⟨g', hg', rfl⟩ := Option.map_eq_some_iff.1 h
      obtain ⟨a, b, rfl, rfl, hend, hfirst⟩ := ih hg'
      refine ⟨c :: a, b, rfl, rfl, hend, ?_⟩
      intro a₁ a₂ hsplit
      cases a₁ with
      | nil =>
        obtain ⟨rfl, rfl⟩ := List.cons.inj hsplit
        exact Bool.eq_false_iff.2 fun htrue => hc ⟨rfl, htrue⟩
      | cons d a₁ => exact hfirst a₁ a₂ (List.cons.inj hsplit).2

theorem closeBrace_isSome {a b : Str} (h : atLineEnd b = true) :
    ∃ g, closeBrace (a ++ '\x7d' :: b) = some g := by
  induction a with
  | nil => exact ⟨_, if_pos ⟨rfl, h⟩⟩
  | cons c a ih =>
    obtain ⟨g, hg⟩ := ih
    rw [List.cons_append, closeBrace]
    split_ifs
    · exact ⟨_, rfl⟩
    · exact ⟨c :: g, by rw [hg]; rfl⟩

/-- The expression does not match in the prose before the call. -/
theorem toolAt_front {u t : Str} (hend : ∃ q, u = q ++ ['\n'])
    (hprose : contains "TOOL_CALL:" u = false) : toolAt (u ++ t) = none := by
  unfold toolAt
  refine if_neg ?_
  rw [startsWith_iff]
  intro hprefix
  rcases List.prefix_or_prefix_of_prefix hprefix (List.prefix_append u t) with h | h
  · rw [contains_iff.2 h.isInfix] at hprose
    cases hprose
  · obtain ⟨q, rfl⟩ := hend
    have hmem : '\n' ∈ "TOOL_CALL:".toList := h.subset (by simp)
    exact absurd hmem (by decide)

theorem toolSearch_cons (c : Char) (s : Str) :
    toolSearch (c :: s) = (toolAt (c :: s)).or (toolSearch s) := by
  unfold toolSearch
  rw [List.tails_cons, List.findSome?_cons]
  cases toolAt (c :: s) <;> rfl

theorem toolSearch_front {front : Str} (hends : front = [] ∨ ∃ q, front = q ++ ['\n'])
    (hprose : contains "TOOL_CALL:" front = false) (t : Str) :
    toolSearch (front ++ t) = toolSearch t := by
  induction front with
  | nil => rfl
  | cons c front ih =>
    have hend : ∃ q, c :: front = q ++ ['\n'] := hends.resolve_left (List.cons_ne_nil c front)
    have hnone : toolAt (c :: front ++ t) = none := toolAt_front hend hprose
    rw [List.cons_append] at hnone ⊢
    rw [toolSearch_cons, hnone, Option.none_or]
    refine ih ?_ ?_
    · obtain ⟨q, hq⟩ := hend
      cases q with
      | nil => exact .inl (List.cons.inj hq).2
      | cons d q => exact .inr ⟨q, (List.cons.inj hq).2⟩
    · rw [← Bool.not_eq_true, contains_iff] at hprose ⊢
      exact fun h => hprose (h.trans (List.infix_cons (List.infix_refl front)))

theorem toolAt_withMarker (r : Str) :
    toolAt (withMarker ('\x7b' :: r)) = (closeBrace r).map ('\x7b' :: ·) := rfl

/-- No closing brace before the last one ends a line. -/
def NoInnerEnd (call : Str) : Prop :=
  ∀ a b, call = a ++ '\x7d' :: b → b ≠ [] → atLineEnd b = false

/-- Behind a brace in the call a line ends in the call or not at all. -/
theorem atLineEnd_append (b back : Str) :
    atLineEnd (b ++ '\x7d' :: back) = atLineEnd (b ++ ['\x7d']) := by
  have htake : ∀ t : Str, (b ++ '\x7d' :: t).takeWhile isSpace = b.takeWhile isSpace :=
    fun t => Json.takeWhile_append_stop fun c hc => by
      obtain rfl : '\x7d' = c := Option.some.inj hc
      decide
  have hdrop : ∀ t : Str, lstrip (b ++ '\x7d' :: t) ≠ [] := by
    intro t hnil
    rw [lstrip_append_cons b t (by decide)] at hnil
    exact absurd hnil (by simp)
  unfold atLineEnd
  rw [htake, htake, decide_eq_false (hdrop back), decide_eq_false (hdrop [])]

theorem atLineEnd_back {back : Str} (h : back = [] ∨ ∃ q, back = '\n' :: q) :
    atLineEnd back = true := by
  rcases h with rfl | ⟨q, rfl⟩
  · rfl
  · unfold atLineEnd
    have hmem : '\n' ∈ ('\n' :: q).takeWhile isSpace := by
      rw [List.takeWhile_cons_of_pos (by decide)]
      exact List.mem_cons_self
    simp [hmem]

/-- Two places of a character in a text are the same, or one is before the other. -/
theorem split_cases {c : Char} {a b a' b' : Str} (h : a ++ c :: b = a' ++ c :: b') :
    (a = a' ∧ b = b') ∨ (∃ x, a = a' ++ c :: x ∧ b' = x ++ c :: b) ∨
      ∃ x, a' = a ++ c :: x ∧ b = x ++ c :: b' := by
  rcases List.append_eq_append_iff.1 h with ⟨x, hx, hrest⟩ | ⟨x, hx, hrest⟩
  · cases x with
    | nil => exact .inl ⟨by rw [hx, List.append_nil], (List.cons.inj hrest).2⟩
    | cons d x =>
      rw [← (List.cons.inj hrest).1] at hx
      exact .inr (.inr ⟨x, hx, (List.cons.inj hrest).2⟩)
  · cases x with
    | nil => exact .inl ⟨by rw [hx, List.append_nil], (List.cons.inj hrest).2.symm⟩
    | cons d x =>
      rw [← (List.cons.inj hrest).1] at hx
      exact .inr (.inl ⟨x, hx, (List.cons.inj hrest).2⟩)

/-- Where the first brace at a line end is the last of the call, none before it is one. -/
theorem noInnerEnd_of_first {m back : Str}
    (h : ∀ a b, m = a ++ '\x7d' :: b → atLineEnd (b ++ '\x7d' :: back) = false) :
    NoInnerEnd ('\x7b' :: (m ++ ['\x7d'])) := by
  intro a b hcall hne
  cases a with
  | nil => exact absurd (List.cons.inj hcall).1 (by decide)
  | cons d a =>
    rcases split_cases (b := []) (List.cons.inj hcall).2 with ⟨-, rfl⟩ | ⟨x, hx, rfl⟩ | ⟨x, -, hnil⟩
    · exact absurd rfl hne
    · rw [← atLineEnd_append x back]
      exact h a x hx
    · exact absurd hnil.symm (by simp)

/-- The match is the call exactly if no inner brace ends a line, and else a front of it. -/
theorem closeBrace_call {m back : Str} (hback : back = [] ∨ ∃ q, back = '\n' :: q) :
    ∃ g, closeBrace (m ++ '\x7d' :: back) = some g ∧
      (NoInnerEnd ('\x7b' :: (m ++ ['\x7d'])) ∧ g = m ++ ['\x7d'] ∨
        ¬ NoInnerEnd ('\x7b' :: (m ++ ['\x7d'])) ∧ ∃ t, t ≠ [] ∧ m ++ ['\x7d'] = g ++ t) := by
  have hend := atLineEnd_back hback
  obtain ⟨g, hg⟩ := closeBrace_isSome (a := m) hend
  obtain ⟨a, b, hsplit, rfl, hb, hfirst⟩ := closeBrace_eq_some hg
  refine ⟨_, hg, ?_⟩
  rcases split_cases hsplit with ⟨rfl, rfl⟩ | ⟨x, rfl, rfl⟩ | ⟨x, rfl, rfl⟩
  · exact .inl ⟨noInnerEnd_of_first hfirst, rfl⟩
  · right
    refine ⟨?_, x ++ ['\x7d'], by simp, by simp⟩
    intro hno
    have hinner := hno ('\x7b' :: a) (x ++ ['\x7d']) (by simp) (by simp)
    rw [← atLineEnd_append x back, hb] at hinner
    cases hinner
  · -- a match that goes on behind the call would have stopped there
    rw [hfirst m x rfl] at hend
    cases hend

/-! ## The call is read back -/

/-- The call is on one line, or no brace before its last ends a line; and no line that is
looked at before makes `json.loads` raise anything but `JSONDecodeError`. -/
def ReadsBack (depth : Nat) (pre call post : Str) : Prop :=
  OneLine call ∧ LinesDecode depth (splitlines (lstrip pre)) ∨
    ¬ OneLine call ∧ LinesDecode depth (splitlines (strip (pre ++ withMarker call ++ post))) ∧
      NoInnerEnd call

theorem CallText.silent_pre {pre post : Str} (h : CallText depth pre call post payload) :
    Silent depth (splitlines (lstrip pre)) :=
  silent_of_no_brace fun hmem => h.pre_prose.2.1 (List.dropWhile_subset isSpace hmem)

theorem CallText.silent_post {pre post : Str} (h : CallText depth pre call post payload) :
    Silent depth (splitlines (rstrip post).tail) :=
  silent_of_no_brace fun hmem =>
    h.post_prose.2.1
      ((List.rdropWhile_prefix isSpace (l := post)).subset (List.mem_of_mem_tail hmem))

/-- The lines of the text. -/
theorem CallText.splitlines {pre post : Str} (h : CallText depth pre call post payload) :
    splitlines (strip (pre ++ withMarker call ++ post)) =
      splitlines (lstrip pre) ++
        (splitlines (withMarker call) ++ splitlines (rstrip post).tail) := by
  obtain ⟨m, rfl⟩ := h.braces
  rw [strip_text, List.append_assoc, splitlines_front (lstrip_ends h.pre_ends)]
  congr 1
  exact splitlines_back (rstrip_starts h.post_starts) ("TOOL_CALL: ".toList ++ '\x7b' :: m)

/-- What the expression finds in the text. -/
theorem CallText.toolSearch {pre post : Str} (h : CallText depth pre call post payload) :
    ∃ g, toolSearch (strip (pre ++ withMarker call ++ post)) = some g ∧
      (NoInnerEnd call ∧ g = call ∨ ¬ NoInnerEnd call ∧ ∃ t, t ≠ [] ∧ call = g ++ t) := by
  obtain ⟨m, rfl⟩ := h.braces
  obtain ⟨g, hg, hcases⟩ := closeBrace_call (m := m) (rstrip_starts h.post_starts)
  have hprose : contains "TOOL_CALL:" (lstrip pre) = false := by
    have hnot := h.pre_prose.1
    rw [← Bool.not_eq_true, contains_iff] at hnot ⊢
    exact fun hfound => hnot (hfound.trans (List.dropWhile_suffix isSpace).isInfix)
  have htool : toolAt (withMarker ('\x7b' :: (m ++ ['\x7d'])) ++ rstrip post) =
      some ('\x7b' :: g) := by
    have heq : withMarker ('\x7b' :: (m ++ ['\x7d'])) ++ rstrip post =
        withMarker ('\x7b' :: (m ++ '\x7d' :: rstrip post)) := by
      unfold withMarker
      simp
    rw [heq, toolAt_withMarker, hg]
    rfl
  refine ⟨'\x7b' :: g, ?_, ?_⟩
  · rw [strip_text, List.append_assoc, toolSearch_front (lstrip_ends h.pre_ends) hprose]
    have hcons : ∀ s t : Str, withMarker s ++ t = 'T' :: ("OOL_CALL: ".toList ++ s ++ t) :=
      fun _ _ => rfl
    rw [hcons] at htool ⊢
    rw [toolSearch_cons, htool]
    rfl
  · rcases hcases with ⟨hno, rfl⟩ | ⟨hno, t, ht, hsplit⟩
    · exact .inl ⟨hno, rfl⟩
    · exact .inr ⟨hno, t, ht, by rw [hsplit, List.cons_append]⟩

theorem parseToolCall_of_line {text : Str}
    (h : lineToolCall depth (splitlines (strip text)) ≠ .ok none) :
    parseToolCall depth text = lineToolCall depth (splitlines (strip text)) := by
  unfold parseToolCall
  cases hline : lineToolCall depth (splitlines (strip text)) with
  | error e => rfl
  | ok c =>
    cases c with
    | none => exact absurd hline h
    | some p => rfl

theorem parseToolCall_of_search {text g : Str}
    (h : lineToolCall depth (splitlines (strip text)) = .ok none)
    (hg : toolSearch (strip text) = some g) :
    parseToolCall depth text = loadToolCallPayload depth g := by
  unfold parseToolCall
  rw [h]
  dsimp only
  rw [hg]

theorem CallText.load_front {pre post g t : Str} (h : CallText depth pre call post payload)
    (ht : t ≠ []) (hsplit : call = g ++ t) (p : Dict Str Json) :
    loadToolCallPayload depth g ≠ .ok (some p) := by
  obtain ⟨m, hm⟩ := h.braces
  intro hload
  exact front_not_object h.loads (m := '\x7b' :: m) hm hsplit ht
    (loadToolCallPayload_eq_some hload).1

/-- A call between lines of prose is read back exactly under the condition. -/
theorem parseToolCall_iff {pre post : Str} (h : CallText depth pre call post payload) :
    parseToolCall depth (pre ++ withMarker call ++ post) = .ok (some payload) ↔
      ReadsBack depth pre call post := by
  have hlines := h.splitlines
  unfold ReadsBack
  generalize htext : pre ++ withMarker call ++ post = text at hlines ⊢
  by_cases hone : OneLine call
  · -- the loop over the lines finds it, if it gets there
    have hloop := lineToolCall_oneLine h (splitlines (rstrip post).tail)
    rw [splitlines_oneLine hone, List.singleton_append] at hlines
    rcases lineToolCall_silent h.silent_pre
        (withMarker call :: splitlines (rstrip post).tail) with ⟨hdec, heq⟩ | ⟨hdec, e, he⟩
    · rw [← hlines, hloop] at heq
      rw [parseToolCall_of_line (by rw [heq]; exact nofun), heq]
      exact iff_of_true rfl (.inl ⟨hone, hdec⟩)
    · rw [← hlines] at he
      rw [parseToolCall_of_line (by rw [he]; exact nofun), he]
      exact iff_of_false nofun fun hor => hor.elim (fun hl => hdec hl.2) fun hr => hr.1 hone
  · -- the loop finds nothing, and the expression comes next
    have hsilent := h.silent_pre.append ((silent_call h hone).append h.silent_post)
    rw [← hlines] at hsilent
    rcases lineToolCall_silent hsilent [] with ⟨hdec, heq⟩ | ⟨hdec, e, he⟩
    · rw [List.append_nil] at heq
      obtain ⟨g, hg, hcases⟩ := h.toolSearch
      rw [htext] at hg
      rw [parseToolCall_of_search heq hg]
      rcases hcases with ⟨hno, rfl⟩ | ⟨hno, t, ht, hsplit⟩
      · exact iff_of_true h.load_call (.inr ⟨hone, hdec, hno⟩)
      · exact iff_of_false (h.load_front ht hsplit payload)
          fun hor => hor.elim (fun hl => hone hl.1) fun hr => hno hr.2.2
    · rw [List.append_nil] at he
      rw [parseToolCall_of_line (by rw [he]; exact nofun), he]
      exact iff_of_false nofun fun hor => hor.elim (fun hl => hone hl.1) fun hr => hdec hr.2.1

/-- A payload with an argument. -/
def demoPayload : Dict Str Json :=
  [("name", .str "search"), ("arguments", .obj [("query", .str "hours")])]

/-- `json.dumps` of it. -/
def compactCall : Str := "\x7b\"name\": \"search\", \"arguments\": \x7b\"query\": \"hours\"\x7d\x7d"

theorem compactCall_callText : CallText 9 "Sure.\n" compactCall "\nOne moment." demoPayload where
  loads := rfl
  name := rfl
  braces := ⟨compactCall.tail.dropLast, by decide +kernel⟩
  pre_ends := .inr ⟨"Sure.", rfl⟩
  post_starts := .inr ⟨"One moment.", rfl⟩
  pre_prose := ⟨by decide, by decide, by decide⟩
  post_prose := ⟨by decide, by decide, by decide⟩

theorem compactCall_read :
    parseToolCall 9 ("Sure.\n".toList ++ withMarker compactCall ++ "\nOne moment.".toList) =
      .ok (some demoPayload) := by
  refine (parseToolCall_iff compactCall_callText).2 (.inl ⟨?_, ?_⟩)
  · have hall : compactCall.all (fun c => !isLineBreak c) = true := by decide
    intro c hc
    simpa using List.all_eq_true.1 hall c hc
  · have hnone : lineTexts (splitlines (lstrip "Sure.\n".toList)) = [] := by decide
    intro s hs
    rw [hnone] at hs
    cases hs

/-- `json.dumps(payload, indent=2)`. -/
def prettyCall : Str :=
  "\x7b\n  \"name\": \"search\",\n  \"arguments\": \x7b\n    \"query\": \"hours\"\n  \x7d\n\x7d"

/-- The expression stops at the brace of the arguments. -/
theorem prettyCall_lost :
    CallText 9 [] prettyCall [] demoPayload ∧ parseToolCall 9 (withMarker prettyCall) = .ok none ∧
      ¬ parseToolCall 9 ([] ++ withMarker prettyCall ++ []) = .ok (some demoPayload) := by
  have hnone : parseToolCall 9 (withMarker prettyCall) = .ok none := rfl
  refine ⟨⟨rfl, rfl, ⟨prettyCall.tail.dropLast, by decide +kernel⟩, .inl rfl, .inl rfl, ?_, ?_⟩,
    hnone, ?_⟩
  · exact ⟨by decide, by decide, by decide⟩
  · exact ⟨by decide, by decide, by decide⟩
  · rw [List.append_nil, List.nil_append, hnone]
    exact nofun

end AiPipelines.Agent

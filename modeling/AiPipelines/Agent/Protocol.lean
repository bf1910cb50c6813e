import AiPipelines.PyStd.Json

/-!
# What the model says to the agent

The agent of `server/app/agent/service.py` reads the raw output of the language
model as one of three things: a final answer, a call of a tool, or plain text.

* `parseFinal` looks for a line that starts with `FINAL:` in any letter case and
  takes everything behind it.
* `parseToolCall` looks for a line that starts with `TOOL_CALL:` and a JSON
  object with a `name` behind it, and then, over line ends, for the first braces
  behind `TOOL_CALL:` that close at the end of a line.

The three regular expressions are functions that follow a match from left to
right.  Each of them has one place where a repetition could stop early, and
the character behind it decides where it stops.

The facts at the end say that an answer is never blank and that a blank text
calls no tool.
-/

namespace AiPipelines.Agent

open PyStd

/-! ## The final answer -/

/-- A letter of `FINAL` under `re.IGNORECASE`.  The two letters I of Turkish
count as an I. -/
def ignoreCase (c : Char) : Char := if c = 'ı' ∨ c = 'İ' then 'I' else c.toUpper

/-- `\s*(.+)$` with `re.DOTALL`.  The blanks give one character back when
there is nothing behind them. -/
def capture (r : Str) : Option Str :=
  if lstrip r ≠ [] then some (lstrip r) else r.getLast?.map fun c => [c]

/-- `^\s*(?:FINAL|Final):\s*(.+)$` at the start of a line. -/
def finalAt (t : Str) : Option Str :=
  if startsWith "FINAL:" ((lstrip t).map ignoreCase) then capture ((lstrip t).drop 6) else none

/-- What stands behind a line feed, if the text starts with one. -/
def afterNewline : Str → Option Str
  | '\n' :: r => some r
  | _ => none

/-- The places where `^` matches with `re.MULTILINE`. -/
def lineStarts (t : Str) : List Str := t :: t.tails.filterMap afterNewline

/-- `_FINAL_RE.search`. -/
def finalSearch (t : Str) : Option Str := (lineStarts t).findSome? finalAt

/-- `_parse_final`.  The second expression is the first without
`re.MULTILINE`. -/
def parseFinal (text : Str) : Option Str :=
  match finalSearch (strip text) with
  | some g => some (strip g)
  | none =>
    match finalAt (strip text) with
    | some g => some (strip g)
    | none => none

/-- `sanitize_agent_reply`. -/
def sanitizeAgentReply (text : Str) : Str :=
  match parseFinal text with
  | some parsed => parsed
  | none => strip text

/-! ## The tool call -/

/-- `_load_tool_call_payload`.  Only a `JSONDecodeError` is caught. -/
def loadToolCallPayload (depth : Nat) (payloadStr : Str) :
    Except LoadError (Option (Dict Str Json)) :=
  match Json.loads depth payloadStr with
  | .error .decode => .ok none
  | .error e => .error e
  | .ok (.obj payload) => .ok (if (Dict.get? payload "name").isSome then some payload else none)
  | .ok _ => .ok none

/-- `s.split(":", 1)[1]`. -/
def afterColon (s : Str) : Str := (s.dropWhile (· ≠ ':')).tail

/-- `candidate.upper().startswith("TOOL_CALL:")`.  The upper case of no other
character is made of these letters. -/
def isToolLine (candidate : Str) : Bool := startsWith "TOOL_CALL:" (candidate.map Char.toUpper)

/-- The loop of `_parse_tool_call` over the lines. -/
def lineToolCall (depth : Nat) : List Str → Except LoadError (Option (Dict Str Json))
  | [] => .ok none
  | line :: lines =>
    if isToolLine (strip line) then
      match loadToolCallPayload depth (strip (afterColon (strip line))) with
      | .ok none => lineToolCall depth lines
      | out => out
    else lineToolCall depth lines

/-- `\s*$` with `re.MULTILINE`. -/
def atLineEnd (r : Str) : Bool := lstrip r = [] || '\n' ∈ r.takeWhile isSpace

/-- `.*?\}` up to the first closing brace at the end of a line. -/
def closeBrace : Str → Option Str
  | [] => none
  | c :: r => if c = '\x7d' ∧ atLineEnd r then some [c] else (closeBrace r).map (c :: ·)

/-- `TOOL_CALL:\s*(\{.*?\})\s*$` at one place of the text. -/
def toolAt (t : Str) : Option Str :=
  if startsWith "TOOL_CALL:" t then
    match lstrip (t.drop 10) with
    | '\x7b' :: r => (closeBrace r).map ('\x7b' :: ·)
    | _ => none
  else none

/-- `_TOOL_RE.search`. -/
def toolSearch (t : Str) : Option Str := t.tails.findSome? toolAt

/-- `_parse_tool_call`. -/
def parseToolCall (depth : Nat) (text : Str) : Except LoadError (Option (Dict Str Json)) :=
  match lineToolCall depth (splitlines (strip text)) with
  | .ok none =>
    match toolSearch (strip text) with
    | none => .ok none
    | some g => loadToolCallPayload depth g
  | out => out

/-! ## Answers are not blank -/

theorem mem_lineStarts_suffix {s t : Str} (h : s ∈ lineStarts t) : s <:+ t := by
  rcases List.mem_cons.1 h with h | h
  · rw [h]
  · obtain ⟨u, hu, hs⟩ := List.mem_filterMap.1 h
    cases u with
    | nil => cases hs
    | cons c u =>
      have hsuf : u <:+ t := (List.suffix_cons c u).trans ((List.mem_tails (c :: u) t).1 hu)
      unfold afterNewline at hs
      split at hs
      · rename_i heq
        rw [← Option.some.inj hs, ← (List.cons.inj heq).2]
        exact hsuf
      · cases hs

/-- In a text that does not end in whitespace a match has something in it. -/
theorem finalAt_not_blank {t g : Str} (ht : rstrip t = t) (h : finalAt t = some g) :
    ¬ IsBlank g := by
  unfold finalAt at h
  split_ifs at h
  have hsuf : (lstrip t).drop 6 <:+ t :=
    (List.drop_suffix 6 _).trans (List.dropWhile_suffix isSpace)
  unfold capture at h
  split_ifs at h with hne
  · rw [← Option.some.inj h, isBlank_lstrip]
    intro hblank
    exact hne (lstrip_eq_nil_iff.2 hblank)
  · -- the rest is blank, but it ends where the text ends
    rw [not_not, lstrip_eq_nil_iff, ← rstrip_eq_nil_iff, rstrip_suffix ht hsuf] at hne
    rw [hne] at h
    cases h

theorem finalSearch_not_blank {t g : Str} (ht : rstrip t = t) (h : finalSearch t = some g) :
    ¬ IsBlank g := by
  obtain ⟨s, hs, hg⟩ := List.exists_of_findSome?_eq_some h
  exact finalAt_not_blank (rstrip_suffix ht (mem_lineStarts_suffix hs)) hg

theorem parseFinal_not_blank {text g : Str} (h : parseFinal text = some g) : ¬ IsBlank g := by
  unfold parseFinal at h
  split at h
  · rename_i hs
    rw [← Option.some.inj h, isBlank_strip]
    exact finalSearch_not_blank (rstrip_strip text) hs
  · split at h
    · rename_i hs
      rw [← Option.some.inj h, isBlank_strip]
      exact finalAt_not_blank (rstrip_strip text) hs
    · cases h

theorem sanitizeAgentReply_not_blank {text : Str} (h : ¬ IsBlank text) :
    ¬ IsBlank (sanitizeAgentReply text) := by
  unfold sanitizeAgentReply
  split
  · rename_i hs
    exact parseFinal_not_blank hs
  · rw [isBlank_strip]
    exact h

/-- A text that calls a tool has something in it. -/
theorem parseToolCall_not_blank {depth : Nat} {text : Str} {payload : Dict Str Json}
    (h : parseToolCall depth text = .ok (some payload)) : ¬ IsBlank text := by
  intro hblank
  rw [← strip_eq_nil_iff] at hblank
  unfold parseToolCall at h
  rw [hblank] at h
  cases h

end AiPipelines.Agent

import AiPipelines.PyStd.Json
import AiPipelines.PyStd.Lines
import AiPipelines.PyStd.Raise
import AiPipelines.PyStd.TextFile

/-!
# The stream of a remote chat

`RemoteChatLLM.iter_chat_messages` of `staged_voice/backends/llm_remote_chat.py` posts a chat to
`/v1/chat/completions` and yields the pieces of the answer as they come in.  The answer is a
stream of server-sent events: lines `data: <json>`, between blank lines, comments and other
fields, up to `data: [DONE]`.

A generator is a list of pieces here, with the exception that ends it, if there is one.
`iterChatMessages_stream` says that the pieces of a stream put together are the contents that
the server has sent, whatever stands between them.
-/

namespace AiPipelines.RemoteChat

open PyStd

/-! ## The request -/

structure ChatMessage where
  role : Str
  content : Str

structure RemoteChatLLM where
  url : Str
  model : Str
  apiKey : Str
  timeout : Nat

structure Request where
  url : Str
  payload : Json
  headers : Dict Str Str

/-- What `urlopen` raises. -/
inductive OpenError where
  | timedOut
  | http (code : Nat) (body : Bytes)
  | unreachable (reason : Str)

/-- What the generator raises. -/
inductive StreamError where
  | runtimeError (message : Str)
  | unicodeDecodeError
  | recursionError
  | valueError
  | attributeError
  | keyError
  | typeError
  deriving DecidableEq

/-- What is taken from the interpreter: how deep JSON may be nested, which float literals denote
zero, and the text of a `JSONDecodeError`. -/
structure Interp where
  depth : Nat
  isZero : Str → Bool
  decodeErrorText : Str → Str

/-- `api_messages`: the system prompt, and the messages of the two speakers. -/
def apiMessages (systemPrompt : Str) (messages : List ChatMessage) : List Json :=
  .obj [("role", .str "system"), ("content", .str systemPrompt)] ::
    (messages.filter fun m => m.role == "user".toList || m.role == "assistant".toList).map fun m =>
      .obj [("role", .str m.role), ("content", .str m.content)]

def RemoteChatLLM.request (llm : RemoteChatLLM) (messages : List ChatMessage) (systemPrompt : Str)
    (maxTokens : Int) (temperature : Str) : Request where
  url := llm.url
  payload := .obj [("model", .str llm.model), ("stream", .bool true),
    ("messages", .arr (apiMessages systemPrompt messages)), ("max_tokens", .int maxTokens),
    ("temperature", .float temperature)]
  headers := [("Content-Type".toList, "application/json".toList)] ++
    if llm.apiKey ≠ [] then [("Authorization".toList, "Bearer ".toList ++ llm.apiKey)] else []

/-- The message of the `RuntimeError` that the generator raises instead. -/
def RemoteChatLLM.openMessage (llm : RemoteChatLLM) : OpenError → Str
  | .timedOut =>
    "Remote LLM timed out after ".toList ++ (toString llm.timeout).toList ++ "s at ".toList ++
      llm.url ++ (". The IMI-RISCV Qemu simulator is much slower than Thor — increase " ++
        "REMOTE_LLM_TIMEOUT_SEC in server/.env.local (e.g. 7200) for large agent+RAG turns.").toList
  | .http code body =>
    "Remote LLM HTTP ".toList ++ (toString code).toList ++ ": ".toList ++ utf8Replace body
  | .unreachable reason => "Remote LLM unreachable at ".toList ++ llm.url ++ ": ".toList ++ reason

/-! ## Reading the stream -/

namespace Interp

variable (x : Interp)

/-- `bool(v)`. -/
def truthy : Json → Bool
  | .null => false
  | .bool b => b
  | .int n => n ≠ 0
  | .float l => !x.isZero l
  | .str s => !s.isEmpty
  | .arr xs => !xs.isEmpty
  | .obj kvs => !kvs.isEmpty

/-- `v.get(key) or default`. -/
def getOr (v : Json) (key : Str) (default : Json) : Except StreamError Json :=
  match v with
  | .obj kvs =>
    let value := (Dict.get? kvs key).getD .null
    .ok (if x.truthy value then value else default)
  | _ => .error .attributeError

/-- `json.loads(data)`, with the exceptions as the generator raises them. -/
def loads (data : Str) : Except StreamError Json :=
  match Json.loads x.depth data with
  | .ok v => .ok v
  | .error .decode =>
    .error (.runtimeError ("Remote LLM returned invalid JSON: ".toList ++ x.decodeErrorText data))
  | .error .recursion => .error .recursionError
  | .error .intDigits => .error .valueError

end Interp

/-- `choices[0]`, of a value that is not falsy. -/
def firstChoice : Json → Except StreamError Json
  | .arr (v :: _) => .ok v
  | .str (c :: _) => .ok (.str [c])
  | .obj _ => .error .keyError
  | _ => .error .typeError

/-- The text of a chunk, or something falsy. -/
def chunkText (x : Interp) (chunk : Json) : Except StreamError Json := do
  let choices ← x.getOr chunk "choices" (.arr [])
  if x.truthy choices then
    let delta ← x.getOr (← firstChoice choices) "delta" (.obj [])
    x.getOr delta "content" (.str [])
  else return .str []

/-- What a round of the loop comes to. -/
inductive Round where
  | skip
  | stop
  | yield (text : Json)

/-- The body of the loop, on the stripped line. -/
def readText (x : Interp) (line : Str) : Except StreamError Round :=
  if line = [] ∨ ¬ startsWith "data: " line then .ok .skip
  else
    let data := line.drop 6
    if data = "[DONE]".toList then .ok .stop
    else do
      let chunk ← x.loads data
      let text ← chunkText x chunk
      return if x.truthy text then .yield text else .skip

/-- The body of the loop. -/
def readLine (x : Interp) (raw : Bytes) : Except StreamError Round :=
  match utf8Decode raw with
  | none => .error .unicodeDecodeError
  | some text => readText x (strip text)

/-- The lines of a response, with their line feeds. -/
def rawLines : Bytes → List Bytes
  | [] => []
  | b :: bs =>
    if b = 10 then [b] :: rawLines bs
    else
      match rawLines bs with
      | [] => [[b]]
      | raw :: raws => (b :: raw) :: raws

/-- A round, and what comes out of the loop behind it. -/
def follow (round : Except StreamError Round) (rest : List Json × Option StreamError) :
    List Json × Option StreamError :=
  match round with
  | .error e => ([], some e)
  | .ok .stop => ([], none)
  | .ok .skip => rest
  | .ok (.yield text) => (text :: rest.1, rest.2)

/-- The loop over the lines. -/
def readLines (x : Interp) : List Bytes → List Json × Option StreamError
  | [] => ([], none)
  | raw :: raws => follow (readLine x raw) (readLines x raws)

/-- `RemoteChatLLM.iter_chat_messages`. -/
def iterChatMessages (x : Interp) (urlopen : Request → Except OpenError Bytes) (llm : RemoteChatLLM)
    (messages : List ChatMessage) (systemPrompt : Str) (maxTokens : Int) (temperature : Str) :
    List Json × Option StreamError :=
  match urlopen (llm.request messages systemPrompt maxTokens temperature) with
  | .error e => ([], some (.runtimeError (llm.openMessage e)))
  | .ok stream => readLines x (rawLines stream)

/-! ## Streams of a server -/

/-- A line that is no data: blank, a comment, or a field with another name. -/
inductive IsSkipped : Str → Prop
  | blank {line : Str} (h : IsBlank line) : IsSkipped line
  | comment (text : Str) : IsSkipped (':' :: text)
  | name {name : Str} (h : IsWord name) (hcolon : ':' ∉ name) (hdata : name ≠ "data".toList) :
    IsSkipped name
  | field {name : Str} (h : IsWord name) (hcolon : ':' ∉ name) (hdata : name ≠ "data".toList)
      (value : Str) : IsSkipped (name ++ ':' :: value)

/-- A line `data: <json>`.  There may be blanks behind, such as a carriage return. -/
structure IsData (depth : Nat) (line : Str) (chunk : Json) : Prop where
  text : ∃ json tail, line = "data: ".toList ++ json ++ tail ∧ rstrip json = json ∧ IsBlank tail ∧
    Json.loads depth json = .ok chunk

/-- A chunk without content: no choices, or the first one without a delta or a content. -/
inductive IsEmptyChunk : Json → Prop
  | noChoices {kvs : Dict Str Json} (h : Dict.get? kvs "choices" = none ∨
      Dict.get? kvs "choices" = some .null ∨ Dict.get? kvs "choices" = some (.arr [])) :
      IsEmptyChunk (.obj kvs)
  | noDelta {kvs choice : Dict Str Json} {choices : List Json}
      (h : Dict.get? kvs "choices" = some (.arr (.obj choice :: choices)))
      (hdelta : Dict.get? choice "delta" = none ∨ Dict.get? choice "delta" = some .null) :
      IsEmptyChunk (.obj kvs)
  | noContent {kvs choice delta : Dict Str Json} {choices : List Json}
      (h : Dict.get? kvs "choices" = some (.arr (.obj choice :: choices)))
      (hdelta : Dict.get? choice "delta" = some (.obj delta))
      (hcontent : Dict.get? delta "content" = none ∨ Dict.get? delta "content" = some .null) :
      IsEmptyChunk (.obj kvs)

/-- A chunk with content, in its first choice. -/
inductive HasContent : Json → Str → Prop
  | mk {kvs choice delta : Dict Str Json} {choices : List Json} {content : Str}
      (h : Dict.get? kvs "choices" = some (.arr (.obj choice :: choices)))
      (hdelta : Dict.get? choice "delta" = some (.obj delta))
      (hcontent : Dict.get? delta "content" = some (.str content)) : HasContent (.obj kvs) content

/-- The lines carry these contents, with anything that is skipped in between. -/
inductive Encodes (depth : Nat) : List Str → List Str → Prop
  | nil : Encodes depth [] []
  | skipped {line : Str} {lines contents : List Str} (h : IsSkipped line) (hfeed : '\n' ∉ line)
      (hrest : Encodes depth lines contents) : Encodes depth (line :: lines) contents
  | empty {line : Str} {chunk : Json} {lines contents : List Str} (h : IsData depth line chunk)
      (hchunk : IsEmptyChunk chunk) (hfeed : '\n' ∉ line) (hrest : Encodes depth lines contents) :
      Encodes depth (line :: lines) contents
  | content {line content : Str} {chunk : Json} {lines contents : List Str}
      (h : IsData depth line chunk) (hchunk : HasContent chunk content) (hfeed : '\n' ∉ line)
      (hrest : Encodes depth lines contents) :
      Encodes depth (line :: lines) (content :: contents)

/-- The lines, each with its line feed. -/
def fed (lines : List Str) : Str := lines.flatMap fun line => line ++ ['\n']

/-- How a stream of lines goes on: up to `data: [DONE]`, and then anything, or to the end, with or
without the last line feed. -/
inductive IsStream (lines : List Str) : Bytes → Prop
  | done {tail : Str} {rest : Bytes} (htail : IsBlank tail) (hfeed : '\n' ∉ tail)
      (hrest : rest = [] ∨ ∃ more, rest = 10 :: more) :
      IsStream lines (utf8Encode (fed lines ++ "data: [DONE]".toList ++ tail) ++ rest)
  | ended : IsStream lines (utf8Encode (fed lines))
  | cut {front : List Str} {last : Str} (h : lines = front ++ [last]) :
      IsStream lines (utf8Encode (fed front ++ last))

/-! ## Bytes and lines -/

variable {x : Interp} {line text content : Str} {chunk : Json} {lines contents : List Str}
  {bs rest : Bytes}

/-- Only a line feed is encoded with the byte 10. -/
theorem not_mem_utf8EncodeChar {c : Char} (h : c ≠ '\n') : 10 ∉ String.utf8EncodeChar c := by
  have hval : c.val.toNat ≠ 10 := by
    intro heq
    apply h
    apply Char.ext
    apply UInt32.toNat_inj.1
    exact heq
  have hbyte : ∀ n : Nat, 10 = UInt8.ofNat n → n % 256 = 10 := by
    intro n hn
    have hnat := congrArg UInt8.toNat hn
    rw [UInt8.toNat_ofNat'] at hnat
    exact hnat.symm
  unfold String.utf8EncodeChar
  dsimp only
  intro hmem
  split_ifs at hmem <;> simp only [List.mem_cons, List.not_mem_nil, or_false] at hmem
  · have hn := hbyte _ hmem
    omega
  · rcases hmem with hmem | hmem <;>
    · have hn := hbyte _ hmem
      omega
  · rcases hmem with hmem | hmem | hmem <;>
    · have hn := hbyte _ hmem
      omega
  · rcases hmem with hmem | hmem | hmem | hmem <;>
    · have hn := hbyte _ hmem
      omega

theorem not_mem_utf8Encode (h : '\n' ∉ text) : 10 ∉ utf8Encode text := by
  intro hmem
  obtain ⟨c, hc, hbyte⟩ := List.mem_flatMap.1 hmem
  exact not_mem_utf8EncodeChar (fun heq => h (heq ▸ hc)) hbyte

theorem rawLines_feed (h : 10 ∉ bs) (rest : Bytes) :
    rawLines (bs ++ 10 :: rest) = (bs ++ [10]) :: rawLines rest := by
  induction bs with
  | nil =>
    rw [List.nil_append, rawLines, if_pos rfl]
    rfl
  | cons b bs ih =>
    rw [List.mem_cons, not_or] at h
    rw [List.cons_append, rawLines, if_neg (Ne.symm h.1), ih h.2]
    rfl

theorem rawLines_last (hne : bs ≠ []) (h : 10 ∉ bs) : rawLines bs = [bs] := by
  induction bs with
  | nil => exact absurd rfl hne
  | cons b bs ih =>
    rw [List.mem_cons, not_or] at h
    rw [rawLines, if_neg (Ne.symm h.1)]
    by_cases hnil : bs = []
    · rw [hnil]
      rfl
    · rw [ih hnil h.2]

theorem utf8Encode_feed : utf8Encode ['\n'] = [10] := by decide

/-- A line of the text is a line of the stream. -/
theorem rawLines_line (h : '\n' ∉ line) (rest : Bytes) :
    rawLines (utf8Encode (line ++ ['\n']) ++ rest) =
      utf8Encode (line ++ ['\n']) :: rawLines rest := by
  rw [utf8Encode_append, utf8Encode_feed, List.append_assoc]
  exact rawLines_feed (not_mem_utf8Encode h) rest

/-! ## One line -/

theorem readLine_encode (x : Interp) (text : Str) :
    readLine x (utf8Encode text) = readText x (strip text) := by
  unfold readLine
  rw [utf8Decode_encode]

/-- The line feed of a line does not count. -/
theorem readLine_feed (x : Interp) (line : Str) :
    readLine x (utf8Encode (line ++ ['\n'])) = readText x (strip line) := by
  have hblank : IsBlank ['\n'] := by decide
  have hnil : IsBlank [] := List.forall_mem_nil _
  have hstrip := strip_append_of_blank hnil hblank line
  rw [List.nil_append] at hstrip
  rw [readLine_encode, hstrip]

theorem readText_skip (h : ¬ startsWith "data: " line = true) : readText x line = .ok .skip :=
  if_pos (.inr h)

/-- The strip keeps a word at the front. -/
theorem strip_word {name : Str} (h : IsWord name) (text : Str) :
    strip (name ++ text) = name ++ rstrip text := by
  obtain ⟨c, w, hhead⟩ := List.exists_cons_of_ne_nil h.1
  have hc : isSpace c = false := h.2 c (hhead ▸ List.mem_cons_self)
  have hlast : isSpace (name.getLast h.1) = false := h.2 _ (List.getLast_mem h.1)
  have hlstrip : lstrip (name ++ text) = name ++ text := by
    rw [hhead, List.cons_append]
    exact lstrip_append_cons [] (w ++ text) hc
  have hrstrip := rstrip_append_cons name.dropLast text hlast
  have hname : ∀ t : Str, name.dropLast ++ name.getLast h.1 :: t = name ++ t := by
    intro t
    rw [List.append_cons, List.dropLast_append_getLast]
  rw [hname, hname] at hrstrip
  unfold strip
  rw [hlstrip, hrstrip]

/-- A field that starts a line is not `data` unless its name is. -/
theorem not_data_field {name text : Str} (hcolon : ':' ∉ name) (hdata : name ≠ "data".toList)
    (htext : text = [] ∨ ∃ value, text = ':' :: value) :
    ¬ startsWith "data: " (name ++ text) = true := by
  have hfield : (name ++ text).takeWhile (· ≠ ':') = name := by
    have hname : ∀ c ∈ name, decide (c ≠ ':') = true := by
      intro c hc
      exact decide_eq_true fun heq => hcolon (heq ▸ hc)
    rw [List.takeWhile_append_of_pos hname]
    rcases htext with htext | ⟨value, htext⟩
    · rw [htext]
      exact List.append_nil name
    · rw [htext, List.takeWhile_cons_of_neg (by decide), List.append_nil]
  rw [startsWith_iff]
  rintro ⟨t, ht⟩
  apply hdata
  rw [← hfield, ← ht]
  rfl

theorem rstrip_colon (value : Str) : rstrip (':' :: value) = ':' :: rstrip value :=
  rstrip_append_cons [] value (by decide)

theorem readText_skipped (h : IsSkipped line) : readText x (strip line) = .ok .skip := by
  cases h with
  | blank h =>
    rw [strip_eq_nil_iff.2 h]
    exact if_pos (.inl rfl)
  | comment text =>
    have hstrip : strip (':' :: text) = ':' :: rstrip text :=
      strip_word (by decide : IsWord [':']) text
    rw [hstrip]
    apply readText_skip
    rw [startsWith_iff]
    exact fun hprefix => absurd (List.cons_prefix_cons.1 hprefix).1 (by decide)
  | name h hcolon hdata =>
    rw [strip_eq_self h.2]
    apply readText_skip
    have hnot := not_data_field hcolon hdata (.inl rfl : ([] : Str) = [] ∨ _)
    rw [List.append_nil] at hnot
    exact hnot
  | field h hcolon hdata value =>
    rw [strip_word h, rstrip_colon]
    exact readText_skip (not_data_field hcolon hdata (.inr ⟨_, rfl⟩))

/-- The end mark is no JSON. -/
theorem loads_done (depth : Nat) : Json.loads depth "[DONE]" ≠ .ok chunk := by
  rcases depth with _ | _ | depth <;> exact fun h => by cases h

theorem strip_data {json tail : Str} (hjson : rstrip json = json) (hne : json ≠ [])
    (htail : IsBlank tail) :
    strip ("data: ".toList ++ json ++ tail) = "data: ".toList ++ json := by
  have hlast : isSpace (json.getLast hne) = false := by
    have hstripped : rstrip json ≠ [] := by
      rw [hjson]
      exact hne
    have hspace := rstrip_getLast_not_space hstripped
    simpa only [hjson] using hspace
  have hrstrip : rstrip (' ' :: json) = ' ' :: json := by
    have happend := rstrip_append_cons (' ' :: json.dropLast) [] hlast
    have hnil : rstrip [] = [] := rfl
    rw [hnil, List.cons_append, List.dropLast_append_getLast] at happend
    exact happend
  have hword : IsWord "data:".toList := by decide
  have hsplit : "data: ".toList ++ json ++ tail = "data:".toList ++ ((' ' :: json) ++ tail) := rfl
  rw [hsplit, strip_word hword, rstrip_append_of_blank htail, hrstrip]
  rfl

theorem readText_data (h : IsData x.depth line chunk) : readText x (strip line) =
    (chunkText x chunk).map fun text => if x.truthy text then .yield text else .skip := by
  obtain ⟨json, tail, rfl, hjson, htail, hloads⟩ := h.text
  have hne : json ≠ [] := by
    rintro rfl
    rcases hdepth : x.depth with _ | depth <;> rw [hdepth] at hloads <;> cases hloads
  have hdone : json ≠ "[DONE]".toList := fun heq => loads_done x.depth (heq ▸ hloads)
  have hstart :
      ¬ ("data: ".toList ++ json = [] ∨ ¬ startsWith "data: " ("data: ".toList ++ json) =
        true) := by
    rw [not_or, not_not]
    exact ⟨List.cons_ne_nil 'd' _, startsWith_iff.2 (List.prefix_append _ json)⟩
  have hdrop : ("data: ".toList ++ json).drop 6 = json := rfl
  have hread : x.loads json = .ok chunk := by
    unfold Interp.loads
    rw [hloads]
  rw [strip_data hjson hne htail]
  unfold readText
  rw [if_neg hstart]
  dsimp only
  rw [hdrop, if_neg hdone, hread]
  show (chunkText x chunk >>= fun text =>
    pure (if x.truthy text then Round.yield text else Round.skip)) = _
  cases chunkText x chunk <;> rfl

theorem readText_done {tail : Str} (htail : IsBlank tail) :
    readText x (strip ("data: [DONE]".toList ++ tail)) = .ok .stop := by
  have hnil : IsBlank [] := List.forall_mem_nil _
  have hstrip := strip_append_of_blank hnil htail "data: [DONE]"
  rw [List.nil_append] at hstrip
  rw [hstrip]
  rfl

/-! ## One chunk -/

theorem getOr_falsy {kvs : Dict Str Json} {key : Str} {default : Json}
    (h : x.truthy ((Dict.get? kvs key).getD .null) = false) :
    x.getOr (.obj kvs) key default = .ok default := by
  show Except.ok (if x.truthy ((Dict.get? kvs key).getD .null) then _ else default) = _
  rw [if_neg (by simp [h])]

theorem getOr_truthy {kvs : Dict Str Json} {key : Str} {value default : Json}
    (h : Dict.get? kvs key = some value) (htruthy : x.truthy value = true) :
    x.getOr (.obj kvs) key default = .ok value := by
  show Except.ok (if x.truthy ((Dict.get? kvs key).getD .null) then (Dict.get? kvs key).getD .null
    else default) = _
  rw [h]
  exact congrArg Except.ok (if_pos htruthy)

/-- A delta, or the empty one for want of it. -/
theorem getOr_obj {kvs : Dict Str Json} {key : Str} {value : Dict Str Json}
    (h : Dict.get? kvs key = some (.obj value)) :
    x.getOr (.obj kvs) key (.obj []) = .ok (.obj value) := by
  cases value with
  | nil => exact getOr_falsy (by rw [h]; rfl)
  | cons entry value => exact getOr_truthy h rfl

theorem chunkText_choice {kvs choice : Dict Str Json} {choices : List Json}
    (h : Dict.get? kvs "choices" = some (.arr (.obj choice :: choices))) :
    chunkText x (.obj kvs) = x.getOr (.obj choice) "delta" (.obj []) >>= fun delta =>
      x.getOr delta "content" (.str []) := by
  unfold chunkText
  rw [getOr_truthy h rfl]
  rfl

theorem chunkText_empty (h : IsEmptyChunk chunk) : chunkText x chunk = .ok (.str []) := by
  cases h with
  | noChoices h =>
    have hfalsy : ∀ kvs : Dict Str Json, (Dict.get? kvs "choices" = none ∨
        Dict.get? kvs "choices" = some .null ∨ Dict.get? kvs "choices" = some (.arr [])) →
        x.truthy ((Dict.get? kvs "choices").getD .null) = false := by
      intro kvs h
      rcases h with h | h | h <;> rw [h] <;> rfl
    unfold chunkText
    rw [getOr_falsy (hfalsy _ h)]
    rfl
  | noDelta h hdelta =>
    rw [chunkText_choice h, getOr_falsy (by rcases hdelta with h | h <;> rw [h] <;> rfl)]
    rfl
  | noContent h hdelta hcontent =>
    rw [chunkText_choice h, getOr_obj hdelta]
    exact getOr_falsy (by rcases hcontent with h | h <;> rw [h] <;> rfl)

theorem chunkText_content (h : HasContent chunk content) :
    chunkText x chunk = .ok (.str content) := by
  obtain ⟨h, hdelta, hcontent⟩ := h
  rw [chunkText_choice h, getOr_obj hdelta]
  cases content with
  | nil => exact getOr_falsy (by rw [hcontent]; rfl)
  | cons c content => exact getOr_truthy hcontent rfl

/-! ## The whole stream -/

theorem Encodes.no_feed {depth : Nat} (h : Encodes depth lines contents) :
    ∀ line ∈ lines, '\n' ∉ line := by
  induction h with
  | nil => exact List.forall_mem_nil _
  | skipped h hfeed hrest ih => exact List.forall_mem_cons.2 ⟨hfeed, ih⟩
  | empty h hchunk hfeed hrest ih => exact List.forall_mem_cons.2 ⟨hfeed, ih⟩
  | content h hchunk hfeed hrest ih => exact List.forall_mem_cons.2 ⟨hfeed, ih⟩

theorem encode_fed_cons (line : Str) (lines : List Str) (rest : Bytes) :
    utf8Encode (fed (line :: lines)) ++ rest =
      utf8Encode (line ++ ['\n']) ++ (utf8Encode (fed lines) ++ rest) := by
  unfold fed
  rw [List.flatMap_cons, utf8Encode_append, List.append_assoc]

/-- What a line adds to the pieces. -/
theorem readLines_line (hfeed : '\n' ∉ line) (rest : Bytes) :
    readLines x (rawLines (utf8Encode (line ++ ['\n']) ++ rest)) =
      follow (readText x (strip line)) (readLines x (rawLines rest)) := by
  rw [rawLines_line hfeed, readLines, readLine_feed]

theorem readText_content (h : IsData x.depth line chunk) (hchunk : HasContent chunk content) :
    readText x (strip line) = .ok (if content = [] then .skip else .yield (.str content)) := by
  rw [readText_data h, chunkText_content hchunk]
  cases content <;> rfl

theorem readText_empty (h : IsData x.depth line chunk) (hchunk : IsEmptyChunk chunk) :
    readText x (strip line) = .ok .skip := by
  rw [readText_data h, chunkText_empty hchunk]
  rfl

/-- The contents that are yielded. -/
def pieces (contents : List Str) : List Str := contents.filter fun content => !content.isEmpty

/-- The contents come in front of what the rest of the stream gives. -/
theorem readLines_encoded (h : Encodes x.depth lines contents) (rest : Bytes) :
    readLines x (rawLines (utf8Encode (fed lines) ++ rest)) =
      ((pieces contents).map Json.str ++ (readLines x (rawLines rest)).1,
        (readLines x (rawLines rest)).2) := by
  induction h with
  | nil => rfl
  | skipped h hfeed hrest ih =>
    rw [encode_fed_cons, readLines_line hfeed, readText_skipped h]
    exact ih
  | empty h hchunk hfeed hrest ih =>
    rw [encode_fed_cons, readLines_line hfeed, readText_empty h hchunk]
    exact ih
  | content h hchunk hfeed hrest ih =>
    rw [encode_fed_cons, readLines_line hfeed, readText_content h hchunk, ih]
    split_ifs with hnil
    · rw [hnil]
      rfl
    · have hpiece : ∀ {content : Str} (contents : List Str), content ≠ [] →
          pieces (content :: contents) = content :: pieces contents := by
        intro content contents hne
        exact List.filter_cons_of_pos (by simpa using hne)
      rw [hpiece _ hnil]
      rfl

/-- The last line feed does not count. -/
theorem readLines_cut {front : List Str} {last : Str} (hfront : ∀ line ∈ front, '\n' ∉ line)
    (hlast : '\n' ∉ last) : readLines x (rawLines (utf8Encode (fed front ++ last))) =
      readLines x (rawLines (utf8Encode (fed (front ++ [last])))) := by
  induction front with
  | nil =>
    have hline := readLines_line (x := x) hlast []
    rw [List.append_nil] at hline
    show readLines x (rawLines (utf8Encode last)) =
      readLines x (rawLines (utf8Encode (last ++ ['\n'] ++ [])))
    rw [List.append_nil, hline]
    by_cases hnil : last = []
    · rw [hnil]
      rfl
    · have hne : utf8Encode last ≠ [] := by
        intro hempty
        have hdecode := utf8Decode_encode last
        rw [hempty] at hdecode
        exact hnil (Option.some.inj hdecode).symm
      rw [rawLines_last hne (not_mem_utf8Encode hlast), readLines, readLine_encode]
      rfl
  | cons line front ih =>
    rw [List.forall_mem_cons] at hfront
    have hsplit : ∀ (lines : List Str) (t : Str), utf8Encode (fed (line :: lines) ++ t) =
        utf8Encode (line ++ ['\n']) ++ utf8Encode (fed lines ++ t) := by
      intro lines t
      rw [utf8Encode_append, encode_fed_cons, ← utf8Encode_append]
    have hall := hsplit (front ++ [last]) []
    rw [List.append_nil, List.append_nil] at hall
    rw [hsplit, readLines_line hfront.1, ih hfront.2, List.cons_append, hall,
      readLines_line hfront.1]

/-- The loop ends at the end mark. -/
theorem readLines_done {tail : Str} (htail : IsBlank tail) (hfeed : '\n' ∉ tail)
    (hrest : rest = [] ∨ ∃ more, rest = 10 :: more) :
    readLines x (rawLines (utf8Encode ("data: [DONE]".toList ++ tail) ++ rest)) = ([], none) := by
  have hline : '\n' ∉ "data: [DONE]".toList ++ tail := by
    rw [List.mem_append, not_or]
    exact ⟨by decide, hfeed⟩
  rcases hrest with hnil | ⟨more, hmore⟩
  · have hne : utf8Encode ("data: [DONE]".toList ++ tail) ≠ [] := by
      rw [utf8Encode_append]
      exact List.append_ne_nil_of_left_ne_nil (by decide) _
    rw [hnil, List.append_nil, rawLines_last hne (not_mem_utf8Encode hline), readLines,
      readLine_encode, readText_done htail]
    rfl
  · have hsplit : utf8Encode ("data: [DONE]".toList ++ tail) ++ rest =
        utf8Encode ("data: [DONE]".toList ++ tail ++ ['\n']) ++ more := by
      rw [hmore, utf8Encode_append _ ['\n'], utf8Encode_feed, List.append_assoc]
      rfl
    rw [hsplit, readLines_line hline, readText_done htail]
    rfl

theorem flatten_pieces (contents : List Str) : (pieces contents).flatten = contents.flatten := by
  induction contents with
  | nil => rfl
  | cons content contents ih =>
    cases content with
    | nil => exact ih
    | cons c content => exact congrArg (c :: content ++ ·) ih

/-- The pieces of a stream are the contents that it encodes. -/
theorem iterChatMessages_stream (x : Interp) (urlopen : Request → Except OpenError Bytes)
    (llm : RemoteChatLLM) (messages : List ChatMessage) (systemPrompt : Str) (maxTokens : Int)
    (temperature : Str) {lines contents : List Str} {stream : Bytes}
    (hopen : urlopen (llm.request messages systemPrompt maxTokens temperature) = .ok stream)
    (hencodes : Encodes x.depth lines contents) (hstream : IsStream lines stream) :
    ∃ pieces : List Str,
      iterChatMessages x urlopen llm messages systemPrompt maxTokens temperature =
        (pieces.map Json.str, none) ∧
      pieces.flatten = contents.flatten ∧ ∀ piece ∈ pieces, piece ≠ [] := by
  refine ⟨pieces contents, ?_, flatten_pieces contents, ?_⟩
  · unfold iterChatMessages
    rw [hopen]
    dsimp only
    cases hstream with
    | done htail hfeed hrest =>
      rw [List.append_assoc, utf8Encode_append, List.append_assoc, readLines_encoded hencodes,
        readLines_done htail hfeed hrest]
      exact congrArg (·, none) (List.append_nil _)
    | ended =>
      have hread := readLines_encoded hencodes []
      rw [List.append_nil] at hread
      rw [hread]
      exact congrArg (·, none) (List.append_nil _)
    | cut h =>
      have hfeed := hencodes.no_feed
      rw [h, List.forall_mem_append, List.forall_mem_singleton] at hfeed
      have hread := readLines_encoded hencodes []
      rw [List.append_nil, h] at hread
      rw [readLines_cut hfeed.1 hfeed.2, hread]
      exact congrArg (·, none) (List.append_nil _)
  · intro piece hpiece
    have hne := (List.mem_filter.1 hpiece).2
    simpa using hne

/-- A comment, no choices, and a content that looks like the end mark. -/
theorem iterChatMessages_mark : ∃ pieces : List Str,
    iterChatMessages ⟨8, fun _ => false, fun _ => []⟩
      (fun _ => .ok (utf8Encode (fed [": ping", "data: \x7b\"choices\": []\x7d\r",
        "data: \x7b\"choices\": [\x7b\"delta\": \x7b\"content\": \"[DONE]\"\x7d\x7d]\x7d"] ++
          "data: [DONE]".toList ++ []) ++ []))
      ⟨"http://sim/v1/chat/completions", "m", [], 3600⟩ [⟨"user", "Hi"⟩] "Be brief." 32 "0.7" =
        (pieces.map Json.str, none) ∧
    pieces.flatten = ["[DONE]".toList].flatten ∧ ∀ piece ∈ pieces, piece ≠ [] := by
  have hempty : IsData 8 "data: \x7b\"choices\": []\x7d\r" (.obj [("choices", .arr [])]) :=
    ⟨"\x7b\"choices\": []\x7d", ['\r'], rfl, by decide, by decide, rfl⟩
  have hmark :
      IsData 8 "data: \x7b\"choices\": [\x7b\"delta\": \x7b\"content\": \"[DONE]\"\x7d\x7d]\x7d"
      (.obj [("choices", .arr [.obj [("delta", .obj [("content", .str "[DONE]")])]])]) :=
    ⟨"\x7b\"choices\": [\x7b\"delta\": \x7b\"content\": \"[DONE]\"\x7d\x7d]\x7d", [],
      rfl, by decide, by decide, rfl⟩
  refine iterChatMessages_stream ⟨8, fun _ => false, fun _ => []⟩ _ _ _ _ _ _ rfl
    (.skipped (.comment " ping") (by decide)
      (.empty hempty (.noChoices (.inr (.inr rfl))) (by decide)
        (.content hmark (.mk rfl rfl rfl) (by decide) .nil)))
    (.done (by decide) (by decide) (.inl rfl))

end AiPipelines.RemoteChat

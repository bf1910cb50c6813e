import AiPipelines.SessionStore.Codec
import AiPipelines.SessionStore.Paths
import AiPipelines.Turn.Pipeline

/-!
# The turn routes

`post_turn` and `post_text_turn` of `server/app/main.py`: get the session, run
the pipeline on it, append the turn and save.  Both are `async` functions
without an `await`, so a turn runs from its first line to its last.

A route ends with an answer or with an HTTP error (`HttpError`).  The exceptions
of the pipeline become errors by kind, and those outside of the `try` block
become the framework's own 500.  The state stays as it is in either case, also
when the turn has been appended and `_save` raises.
-/

namespace AiPipelines.Turn

open PyStd SessionStore Agent

/-- An error response. -/
structure HttpError where
  status : Nat
  detail : Str
  deriving Repr, DecidableEq

/-- A route over the store. -/
abbrev HandlerProg := Eff Store LlmCall HttpError

/-- What the framework answers for an exception that a route lets through. -/
def internalError : HttpError := ⟨500, "Internal Server Error"⟩

/-- `"timed out" in msg.lower() or "unreachable" in msg.lower()`.  Only ASCII
letters have a lower case that matters here. -/
def saysTimeout (msg : Str) : Bool :=
  contains "timed out" (msg.map Char.toLower) || contains "unreachable" (msg.map Char.toLower)

/-- The `except` clauses of the two routes. -/
def httpError (e : Exc) : HttpError :=
  match e.kind with
  | .value => ⟨400, e.text⟩
  | .runtime => if saysTimeout e.text then ⟨504, e.text⟩ else ⟨400, e.text⟩
  | .timeout =>
    ⟨504, ("LLM request timed out. Try the local Qwen model or increase " : Str) ++
      ("REMOTE_LLM_TIMEOUT_SEC." : Str)⟩
  | .other => ⟨500, ("Pipeline error: " : Str) ++ e.text⟩

/-! ## The session -/

/-- `sessions.get` from the given step on. -/
def getFrom (id : Str) : Nat → Store.GetPc → Store → Except HttpError (Option Ref) × Store
  | 0, _, st => (.error internalError, st)
  | n + 1, pc, st =>
    match st.getStep id pc with
    | (st', .next pc') => getFrom id n pc' st'
    | (st', .ret r) => (.ok r, st')
    | (st', .raised) => (.error internalError, st')

/-- `sessions.get`, which has four steps. -/
def getSession (id : Str) (st : Store) : Except HttpError (Option Ref) × Store :=
  getFrom id 4 .start st

/-- `_require_session`. -/
def requireSession (id : Str) : HandlerProg Ref := do
  let found ← Eff.act (getSession id)
  match found with
  | some r => return r
  | none => Eff.raise ⟨404, "Session not found"⟩

/-- The session behind the reference. -/
def sessionAt (r : Ref) : HandlerProg Session := do
  let st ← Eff.read
  match st.deref r with
  | some s => return s
  | none => Eff.raise internalError

/-- `sessions.session_audio_dir`. -/
def sessionAudioDir (w : TurnWorld) (id : Str) : HandlerProg Unit := do
  Eff.ofExcept (w.makeDir.mapError fun _ => internalError)
  Eff.modify fun st => st.mkdir id

theorem sessionAudioDir_triple {w : TurnWorld} {id : Str} {E : LlmCall → Prop} {P Q : Store → Prop}
    {X : HttpError → Store → Prop}
    (hmkdir : w.makeDir.isOk = true → ∀ st, P st → Q (st.mkdir id))
    (herror : ∀ e, w.makeDir = .error e → ∀ st, P st → X internalError st) :
    Eff.Triple P (sessionAudioDir w id) E (fun _ => Q) X := by
  unfold sessionAudioDir
  cases hdir : w.makeDir with
  | ok _ =>
    refine Eff.Triple.ofExcept_bind (fun _ _ => Eff.Triple.modify (hmkdir ?_)) nofun
    rw [hdir]
    rfl
  | error e => exact Eff.Triple.raise_bind (herror e hdir)

/-- `if not pipeline.ready: raise HTTPException(503, ...)`. -/
def requireReady (v : PipelineService) : Except HttpError Unit :=
  if v.ready then .ok ()
  else .error ⟨503, if v.error = [] then "Pipeline not ready" else v.error⟩

/-! ## The answer -/

/-- `TurnResponse`. -/
structure TurnResponse where
  turnIndex : Nat
  transcript : Str
  replyText : Str
  replyAudioUrl : Str
  userAudioUrl : Str
  inputMode : Str
  timings : Dict Str Json
  contextMessages : Nat
  turnCount : Nat
  ragSources : Option Json
  toolCalls : Option Json
  agentEnabled : Bool
  llmModel : Str
  llmModelLabel : Str
  toolsEnabled : Bool
  llmUsage : LlmUsage

/-- What `_save_turn_and_respond` gets from the two routes. -/
structure TurnInfo where
  sessionId : Str
  turnIndex : Nat
  profile : StageProfile
  contextMessages : Nat
  useTools : Bool
  llmModelId : Str
  modelLabel : Str
  inputMode : Str
  userAudio : Str
  replyAudio : Str

/-- The four measured times. -/
def timings (w : TurnWorld) : Dict Str Json :=
  [("asr_s", .float (w.seconds "asr_s")), ("llm_ttft_s", .float (w.seconds "llm_ttft_s")),
    ("llm_generation_s", .float (w.seconds "llm_generation_s")),
    ("tts_s", .float (w.seconds "tts_s"))]

/-- The `TurnRecord` of a turn. -/
def TurnInfo.record (w : TurnWorld) (i : TurnInfo) : TurnRecord where
  turnIndex := i.turnIndex
  createdAt := w.createdAt
  userTranscript := i.profile.transcript
  assistantReply := i.profile.replyText
  userAudio := i.userAudio
  replyAudio := i.replyAudio
  inputMode := i.inputMode
  timings := timings w
  agent := i.profile.agentMeta.update
    [("llm_model", .str i.llmModelId), ("llm_model_label", .str i.modelLabel),
      ("tools_enabled", .bool i.useTools), ("llm_usage", llmUsageJson i.profile.usage),
      ("input_mode", .str i.inputMode)]

/-- The address of an audio file, if there is one. -/
def audioUrl (id audio : Str) : Str :=
  if audio = [] then [] else ("/api/sessions/" : Str) ++ id ++ ("/audio/" : Str) ++ audio

/-- `_resolve_model_label`. -/
def PipelineService.modelLabel (v : PipelineService) (llmModelId : Str) : Str :=
  ((v.models.get? llmModelId).map LlmModel.label).getD llmModelId

/-- How `_save` ends. -/
inductive SaveEnd where
  | saved
  /-- the file may have been open, and is then empty -/
  | raised (opened : Bool)
  deriving Repr, DecidableEq

/-- `_save` dumps the session before it opens the file. -/
def saveEnd (w : TurnWorld) (s : Session) : SaveEnd :=
  match Json.encodable w.dumpDepth s.toDict, w.save with
  | .ok _, .ok _ => .saved
  | .ok _, .error _ => .raised w.saveWrites
  | .error _, _ => .raised false

/-- The disk when `_save` raises: the directory is there. -/
def brokenSave (st : Store) (id : Str) (opened : Bool) : Dict Str Dir :=
  let d := (st.disk.get? id).getD []
  st.disk.set id (if opened then d.set sessionJson .raw else d)

/-- A save that raises can only lose the session. -/
theorem saved_brokenSave {st st' : Store} {id id' : Str} {opened : Bool} {s : Session}
    (hs : Store.saved { st' with disk := brokenSave st id opened } id' = some s) :
    st.saved id' = some s := by
  unfold Store.saved Store.entry brokenSave at hs
  dsimp only at hs
  rw [Dict.get?_set] at hs
  unfold Store.saved Store.entry
  split_ifs at hs with hid hopened
  · rw [Option.bind_some, Dict.get?_set_self] at hs
    cases hs
  · rw [← hid]
    cases hd : st.disk.get? id with
    | none =>
      rw [hd] at hs
      cases hs
    | some d =>
      rw [hd] at hs
      exact hs
  · exact hs

/-- `sessions.update`.  When `_save` raises, the object has been stamped and
cached. -/
def updateSession (w : TurnWorld) (r : Ref) : HandlerProg Session :=
  Eff.act fun st =>
    match st.update r w.updatedAt with
    | none => (.error internalError, st)
    | some (st', s) =>
      match saveEnd w s with
      | .saved => (.ok s, st')
      | .raised opened =>
        (.error internalError, { st' with disk := brokenSave st s.sessionId opened })

/-- `_save_turn_and_respond`. -/
def saveTurnAndRespond (v : PipelineService) (w : TurnWorld) (r : Ref) (i : TurnInfo) :
    HandlerProg TurnResponse := do
  Eff.modify fun st => st.mutate r fun s => { s with turns := s.turns ++ [i.record w] }
  let s ← updateSession w r
  Eff.ofExcept (w.respond.mapError fun _ => internalError)
  return {
    turnIndex := i.turnIndex
    transcript := i.profile.transcript
    replyText := i.profile.replyText
    replyAudioUrl := audioUrl i.sessionId i.replyAudio
    userAudioUrl := audioUrl i.sessionId i.userAudio
    inputMode := i.inputMode
    timings := timings w
    contextMessages := i.contextMessages
    turnCount := s.turns.length
    ragSources := i.profile.agentMeta.get? "rag_sources"
    toolCalls := i.profile.agentMeta.get? "tool_calls"
    agentEnabled := v.agent.isSome
    llmModel := i.llmModelId
    llmModelLabel := i.modelLabel
    toolsEnabled := i.useTools
    llmUsage := i.profile.usage }

/-- `str(llm_meta.get("model_id") or llm_model or "")`. -/
def llmModelId (profile : StageProfile) (llmModel : Option Str) : Str :=
  if profile.modelId = [] then llmModel.getD [] else profile.modelId

/-! ## The routes -/

/-- `_parse_form_bool`. -/
def parseFormBool (value : Option Str) (default : Bool) : Bool :=
  if value.getD [] = [] then default
  else (["1", "true", "yes", "on"] : List Str).contains ((strip (value.getD [])).map Char.toLower)

/-- A request for a turn. -/
inductive TurnRequest where
  | voice (id : Str) (upload llmModel toolsEnabled : Option Str)
  | text (id text : Str) (llmModel : Option Str) (toolsEnabled speakReply : Bool)
  deriving Repr, DecidableEq

/-- The session that the request is about. -/
def TurnRequest.id : TurnRequest → Str
  | .voice id _ _ _ => id
  | .text id _ _ _ _ => id

/-- The `try` block of `post_turn`. -/
def voiceTurn (v : PipelineService) (w : TurnWorld) (r : Ref) (id suffix : Str) (s : Session)
    (llmModel : Option Str) (useTools : Bool) : TurnProg StageProfile := do
  let turnIndex := s.turns.length + 1
  writeStage w.copyWrites w.copy id ((AudioFile.upload suffix).name turnIndex)
  writeStage w.prepareWrites w.prepare id (AudioFile.userWav.name turnIndex)
  v.runTurn w r id .voice s.historyMessages (some (AudioFile.reply.name turnIndex)) llmModel
    useTools

/-- `post_turn`. -/
def postTurn (v : PipelineService) (w : TurnWorld) (id : Str)
    (upload llmModel toolsEnabled : Option Str) : HandlerProg TurnResponse := do
  let r ← requireSession id
  Eff.ofExcept (requireReady v)
  sessionAudioDir w id
  let s ← sessionAt r
  let turnIndex := s.turns.length + 1
  Eff.ofExcept (w.spool.mapError fun _ => internalError)
  let useTools := parseFormBool toolsEnabled true
  let profile ← Eff.withCleanup (w.unlink.mapError fun _ => internalError)
    (Eff.reraise httpError
      (voiceTurn v w r id (Server.uploadSuffix upload) s llmModel useTools))
  let mid := llmModelId profile llmModel
  saveTurnAndRespond v w r {
    sessionId := id
    turnIndex := turnIndex
    profile := profile
    contextMessages := s.historyMessages.length
    useTools := useTools
    llmModelId := mid
    modelLabel := v.modelLabel mid
    inputMode := "voice"
    userAudio := AudioFile.userWav.name turnIndex
    replyAudio := AudioFile.reply.name turnIndex }

/-- `if not text: raise HTTPException(400, ...)`. -/
def requireText (text : Str) : Except HttpError Unit :=
  if strip text = [] then .error ⟨400, "Message text is required"⟩ else .ok ()

/-- `post_text_turn`. -/
def postTextTurn (v : PipelineService) (w : TurnWorld) (id text : Str) (llmModel : Option Str)
    (toolsEnabled speakReply : Bool) : HandlerProg TurnResponse := do
  let r ← requireSession id
  Eff.ofExcept (requireReady v)
  Eff.ofExcept (requireText text)
  sessionAudioDir w id
  let s ← sessionAt r
  let turnIndex := s.turns.length + 1
  let outWav := if speakReply then some (AudioFile.reply.name turnIndex) else none
  let profile ← Eff.reraise httpError
    (v.runTurn w r id (.text (strip text)) s.historyMessages outWav llmModel toolsEnabled)
  let mid := llmModelId profile llmModel
  saveTurnAndRespond v w r {
    sessionId := id
    turnIndex := turnIndex
    profile := profile
    contextMessages := s.historyMessages.length
    useTools := toolsEnabled && v.agent.isSome
    llmModelId := mid
    modelLabel := v.modelLabel mid
    inputMode := "text"
    userAudio := []
    replyAudio := profile.outputWav.getD [] }

/-- The route of a request. -/
def handle (v : PipelineService) (w : TurnWorld) : TurnRequest → HandlerProg TurnResponse
  | .voice id upload llmModel toolsEnabled => postTurn v w id upload llmModel toolsEnabled
  | .text id text llmModel toolsEnabled speakReply =>
    postTextTurn v w id text llmModel toolsEnabled speakReply

/-! ## The file of the reply

The reply is never spoken into the session file. -/

theorem replyName_ne (n : Nat) : ∀ name ∈ some (AudioFile.reply.name n), name ≠ sessionJson := by
  intro name hname
  rw [← Option.some.inj hname]
  exact AudioFile.name_ne_sessionJson n .reply

theorem spokenName_ne (n : Nat) (speakReply : Bool) :
    ∀ name ∈ (if speakReply then some (AudioFile.reply.name n) else none), name ≠ sessionJson := by
  cases speakReply with
  | true => exact replyName_ne n
  | false => exact fun _ hname => absurd hname (Option.not_mem_none _)

theorem spokenName_isSome (n : Nat) (speakReply : Bool) :
    (if speakReply then some (AudioFile.reply.name n) else none).isSome = speakReply := by
  cases speakReply <;> rfl

/-! ## A small service -/

/-- A service with one model and the tools that need nothing from outside. -/
def localService : PipelineService where
  agent := some {
    tools := ⟨false, false⟩
    injectRag := false
    shouldAutoWebSearch := fun _ => false }
  models := [("local", ⟨"Local model", "You are a helpful assistant."⟩)]
  defaultId := "local"

/-- A request in which all stages but the language model work. -/
def localWorld (said : Str) (llm : Nat → Except Exc (List Str)) : TurnWorld where
  llm := llm
  kbSearch := fun _ => .ok []
  tools := fun _ => ⟨⟨fun s => '\'' :: s ++ ['\''], fun s => s⟩, fun _ _ => .ok [], fun _ _ => []⟩
  jsonDepth := 100
  loadText := fun _ => []
  asr := .ok said
  dumpDepth := 100
  createdAt := []
  updatedAt := []
  seconds := fun _ => "0.0"

end AiPipelines.Turn

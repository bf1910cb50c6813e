import AiPipelines.Agent.Service

/-!
# The pipeline of one turn

`StagedVoicePipeline.run_turn` of `staged_voice/pipeline.py` and
`PipelineService` of `server/app/pipeline_service.py` in front of it: a turn is
heard or read, answered by the agent or by the language model alone, and spoken.

The pipeline runs on the session object that the route got from the store.  The
agent changes the memory of that object in place, stages before the turn is
saved; `onMemory` is the memory program of the agent at this object.  Speech
synthesis writes an audio file into the directory of the session.

`TurnWorld` adds to the world of the agent what the other stages meet.
-/

namespace AiPipelines.Turn

open PyStd SessionStore Agent

/-- One request, seen from outside. -/
structure TurnWorld extends AgentWorld where
  /-- the directory of the session is there or is made -/
  makeDir : Except Exc Unit := .ok ()
  /-- the upload is stored in a temporary file -/
  spool : Except Exc Unit := .ok ()
  /-- the upload is copied, and the copy had begun to write its file -/
  copy : Except Exc Unit := .ok ()
  copyWrites : Bool := true
  /-- the upload is converted, and the conversion had begun to write its file -/
  prepare : Except Exc Unit := .ok ()
  prepareWrites : Bool := true
  /-- the temporary file is removed -/
  unlink : Except Exc Unit := .ok ()
  /-- the language model is there or can be loaded -/
  makeLlm : Except Exc Unit := .ok ()
  asr : Except Exc Str
  /-- the reply is spoken, and synthesis had begun to write its file -/
  tts : Except Exc Unit := .ok ()
  ttsWrites : Bool := true
  /-- how deep the JSON of a session may nest when it is saved -/
  dumpDepth : Nat
  /-- the text of the session is written, and the file was open by then -/
  save : Except Exc Unit := .ok ()
  saveWrites : Bool := true
  /-- the answer is rendered -/
  respond : Except Exc Unit := .ok ()
  /-- the clock for `created_at` and for `updated_at` -/
  createdAt : Str
  updatedAt : Str
  /-- the measured times, as float literals -/
  seconds : Str → Str

/-- A program over the store. -/
abbrev TurnProg := Eff Store LlmCall Exc

/-! ## The memory of the session object -/

def memoryOf (r : Ref) (st : Store) : Memory := ((st.deref r).map Session.agentMemory).getD []

def putMemory (r : Ref) (mem : Memory) (st : Store) : Store :=
  st.mutate r fun s => { s with agentMemory := mem }

/-- A program over the memory, run on the memory of the object. -/
def onMemory {α : Type} (r : Ref) (m : AgentProg α) : TurnProg α :=
  Eff.zoom (memoryOf r) (putMemory r) m

/-! ## What is recorded of an answer -/

/-- The literal of `n / 4.0`. -/
def quarters (n : Nat) : Str :=
  (toString (n / 4)).toList ++ '.' :: (match n % 4 with
    | 0 => "0"
    | 1 => "25"
    | 2 => "5"
    | _ => "75" : String).toList

/-- `estimate_tokens`. -/
def estimateTokens (chars : Nat) : Json := .float (quarters (max chars 1))

def llmCallJson (c : LlmCallRecord) : Json :=
  .obj [("call_index", .int c.callIndex), ("system_chars", .int c.systemChars),
    ("messages_chars", .int c.messagesChars), ("prompt_chars", .int c.promptChars),
    ("prompt_tokens_est", estimateTokens c.promptChars), ("output_chars", .int c.outputChars),
    ("output_tokens_est", estimateTokens c.outputChars)]

def llmUsageJson (u : LlmUsage) : Json :=
  .obj [("llm_calls", .int u.llmCalls), ("prompt_chars", .int u.promptChars),
    ("prompt_tokens_est", estimateTokens u.promptChars), ("system_chars", .int u.systemChars),
    ("messages_chars", .int u.messagesChars), ("output_chars", .int u.outputChars),
    ("output_tokens_est", estimateTokens u.outputChars), ("calls", .arr (u.calls.map llmCallJson))]

def toolCallJson (c : ToolCall) : Json :=
  let row : Dict Str Json :=
    [("name", .str c.name), ("arguments", .obj c.arguments), ("result", .str c.result)]
  .obj (if c.auto then row.set "auto" (.bool true) else row)

/-- An answer and `agent_meta`, with the parts of it that are read again. -/
structure Answered where
  reply : Str
  agentMeta : Dict Str Json
  llmUsage : LlmUsage

/-- The `meta` of `_agent_runner`, with the copy of the memory in it. -/
def runnerMeta (w : TurnWorld) (result : AgentResult) (mem : Memory) : Dict Str Json :=
  [("rag_sources", .arr (result.ragSources.map .str)),
    ("tool_calls", .arr (result.toolCalls.map toolCallJson)),
    ("agent_steps", .int result.agentSteps), ("agent_s", .float (w.seconds "agent_s")),
    ("session_memory", .obj (mem.map fun kv => (kv.1, .str kv.2))),
    ("llm_usage", llmUsageJson result.llmUsage)]

/-! ## The stages -/

/-- What the user said. -/
inductive TurnInput where
  | text (transcript : Str)
  | voice
  deriving Repr, DecidableEq

/-- The transcript.  Only a text is stripped and checked. -/
def hear (w : TurnWorld) : TurnInput → Except Exc Str
  | .text transcript =>
    if strip transcript = [] then .error ⟨.value, "Empty message"⟩ else .ok (strip transcript)
  | .voice => w.asr

/-- The answer of the agent.  Its memory was changed in place; merging the copy
back changes nothing more. -/
def agentAnswer (w : TurnWorld) (r : Ref) (a : AgentService) (systemPrompt transcript : Str)
    (history : List ChatMessage) : TurnProg Answered := do
  let result ← onMemory r (a.run w.toAgentWorld systemPrompt transcript history)
  let st ← Eff.read
  let copy := memoryOf r st
  Eff.modify fun st => putMemory r ((memoryOf r st).update copy) st
  return ⟨result.replyText, runnerMeta w result copy, result.llmUsage⟩

/-- The answer of the language model alone. -/
def plainAnswer (w : TurnWorld) (systemPrompt transcript : Str) (history : List ChatMessage) :
    TurnProg Answered := do
  let messages := history ++ [⟨.user, transcript⟩]
  Eff.emit ⟨systemPrompt, messages⟩
  let pieces ← Eff.ofExcept (w.llm 0)
  let usage := summarizeLlmCalls [measureCall 1 systemPrompt messages pieces.flatten]
  return ⟨strip pieces.flatten, [("llm_usage", llmUsageJson usage)], usage⟩

def answer (w : TurnWorld) (r : Ref) (agent : Option AgentService) (systemPrompt transcript : Str)
    (history : List ChatMessage) : TurnProg Answered :=
  match agent with
  | some a => agentAnswer w r a systemPrompt transcript history
  | none => plainAnswer w systemPrompt transcript history

/-- A file of the session directory is created or replaced. -/
def writeAudio (id name : Str) : TurnProg Unit :=
  Eff.act fun st =>
    match st.writeFile id name .raw with
    | some st' => (.ok (), st')
    | none => (.error ⟨.other, "No such file or directory"⟩, st)

/-- A stage that writes a file, also if it raises then. -/
def writeStage (writes : Bool) (outcome : Except Exc Unit) (id name : Str) : TurnProg Unit := do
  if writes then writeAudio id name
  Eff.ofExcept outcome

/-- `synthesize_file` into the session directory. -/
def synthesize (w : TurnWorld) (id name : Str) : TurnProg Unit := do
  Eff.modify fun st => st.mkdir id
  writeStage w.ttsWrites w.tts id name

/-- The speech stage: nothing, or a file under the given name. -/
def speak (w : TurnWorld) (id : Str) : Option Str → TurnProg Unit
  | none => return ()
  | some name => synthesize w id name

/-- `StageProfile`, as far as the routes read it. -/
structure StageProfile where
  transcript : Str
  replyText : Str
  outputWav : Option Str
  modelId : Str
  usage : LlmUsage
  agentMeta : Dict Str Json

/-- `StagedVoicePipeline.run_turn`.  The reply is spoken if there is a name for
its file. -/
def stagedTurn (w : TurnWorld) (r : Ref) (id : Str) (input : TurnInput)
    (history : List ChatMessage) (outWav : Option Str) (agent : Option AgentService)
    (systemPrompt modelId : Str) : TurnProg StageProfile := do
  let transcript ← Eff.ofExcept (hear w input)
  let a ← answer w r agent systemPrompt transcript history
  speak w id outWav
  return ⟨transcript, a.reply, outWav, modelId, a.llmUsage, a.agentMeta⟩

/-! ## The service -/

/-- A model of the registry: its label and the system prompt of its
configuration. -/
structure LlmModel where
  label : Str
  systemPrompt : Str

/-- `PipelineService`. -/
structure PipelineService where
  ready : Bool := true
  error : Str := []
  agent : Option AgentService
  models : Dict Str LlmModel
  defaultId : Str

namespace PipelineService

/-- The id that a request means. -/
def modelId (v : PipelineService) (llmModel : Option Str) : Str :=
  if strip (llmModel.getD []) = [] then v.defaultId else strip (llmModel.getD [])

/-- `LlmRegistry.resolve`. -/
def resolve (v : PipelineService) (w : TurnWorld) (llmModel : Option Str) :
    Except Exc (Str × LlmModel) :=
  let mid := v.modelId llmModel
  match v.models.get? mid with
  | none =>
    .error ⟨.value, ("Unknown llm model " : Str) ++ (w.tools 0).printer.reprStr mid ++
      (". Available: " : Str) ++
      joinWith (", " : Str) (v.models.keys.insertionSort fun x y => x ≤ y)⟩
  | some m => w.makeLlm.map fun _ => (mid, m)

/-- The agent, if the request wants tools. -/
def agentFor (v : PipelineService) (toolsEnabled : Bool) : Option AgentService :=
  if toolsEnabled then v.agent else none

/-- `if not self._ready: raise RuntimeError(...)`. -/
def requireLoaded (v : PipelineService) : Except Exc Unit :=
  if v.ready then .ok ()
  else .error ⟨.runtime, if v.error = [] then "Pipeline not loaded" else v.error⟩

/-- `run_turn` and `run_text_turn`, which differ in what they hand on. -/
def runTurn (v : PipelineService) (w : TurnWorld) (r : Ref) (id : Str) (input : TurnInput)
    (history : List ChatMessage) (outWav : Option Str) (llmModel : Option Str)
    (toolsEnabled : Bool) : TurnProg StageProfile := do
  Eff.ofExcept v.requireLoaded
  let (mid, m) ← Eff.ofExcept (v.resolve w llmModel)
  stagedTurn w r id input history outWav (v.agentFor toolsEnabled) m.systemPrompt mid

end PipelineService

end AiPipelines.Turn

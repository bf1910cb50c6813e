import AiPipelines.Agent.Tools
import AiPipelines.Effect
import AiPipelines.SessionStore.Store

/-!
# The agent loop

`AgentService.run` of `server/app/agent/service.py`.  The loop gives the
language model a list of messages, reads its output with
`AiPipelines.Agent.Protocol`, runs the tool that it asks for, and puts the
output and the answer of the tool behind the list, until there is a final answer
or the rounds are used up.

The loop is a program over the memory of the session, which its tools change in
place: `AgentProg`.  Its trace are the calls of the language model.  What comes
from outside is `AgentWorld`: the output of each call or its exception, the hits
of the knowledge base, and the answers of the other tools.

`remembered` reads off the outputs alone what the loop stores, and `agentLoop_memory`
and `run_memory_spec` prove it: the memory is that, however the loop ends.
-/

namespace AiPipelines.Agent

open PyStd SessionStore

/-! ## What comes from outside -/

/-- The kinds of exceptions that the routes tell apart. -/
inductive ExcKind where
  | value
  | runtime
  | timeout
  | other
  deriving Repr, DecidableEq

/-- An exception and its text. -/
structure Exc where
  kind : ExcKind
  text : Str
  deriving Repr, DecidableEq

/-- `RetrievedChunk`, with the score as it is printed. -/
structure RetrievedChunk where
  source : Str
  text : Str
  score : Str
  deriving Repr, DecidableEq

/-- One run of the agent, seen from outside. -/
structure AgentWorld where
  /-- the pieces that a call of the language model yields, or what it raises -/
  llm : Nat → Except Exc (List Str)
  kbSearch : Str → Except Exc (List RetrievedChunk)
  /-- what the tools meet: in the automatic search, and after each call -/
  tools : Nat → ToolWorld
  /-- how deep the interpreter lets JSON nest -/
  jsonDepth : Nat
  /-- the texts of the exceptions of `json.loads` that are not caught -/
  loadText : LoadError → Str

/-- A call of the language model. -/
structure LlmCall where
  system : Str
  messages : List ChatMessage
  deriving Repr, DecidableEq

/-- A program over the memory of the session. -/
abbrev AgentProg := Eff Memory LlmCall Exc

/-! ## Statistics -/

/-- What is counted of one call. -/
structure LlmCallRecord where
  callIndex : Nat
  systemChars : Nat
  messagesChars : Nat
  promptChars : Nat
  outputChars : Nat
  deriving Repr, DecidableEq

/-- `sum(xs)`. -/
def total (xs : List Nat) : Nat := xs.foldl (· + ·) 0

/-- `measure_prompt` and `measure_text`. -/
def measureCall (callIndex : Nat) (system : Str) (messages : List ChatMessage) (raw : Str) :
    LlmCallRecord :=
  let messagesChars := total (messages.map fun m => m.content.length)
  { callIndex := callIndex
    systemChars := system.length
    messagesChars := messagesChars
    promptChars := system.length + messagesChars
    outputChars := raw.length }

/-- The result of `summarize_llm_calls`. -/
structure LlmUsage where
  llmCalls : Nat
  promptChars : Nat
  systemChars : Nat
  messagesChars : Nat
  outputChars : Nat
  calls : List LlmCallRecord
  deriving Repr, DecidableEq

/-- `summarize_llm_calls`. -/
def summarizeLlmCalls (calls : List LlmCallRecord) : LlmUsage where
  llmCalls := calls.length
  promptChars := total (calls.map LlmCallRecord.promptChars)
  systemChars := total (calls.map LlmCallRecord.systemChars)
  messagesChars := total (calls.map LlmCallRecord.messagesChars)
  outputChars := total (calls.map LlmCallRecord.outputChars)
  calls := calls

/-! ## The service -/

/-- A row of `tool_calls`. -/
structure ToolCall where
  name : Str
  arguments : Dict Str Json
  result : Str
  auto : Bool := false

/-- `AgentResult`. -/
structure AgentResult where
  replyText : Str
  ragSources : List Str
  toolCalls : List ToolCall
  agentSteps : Nat
  llmUsage : LlmUsage

/-- `AgentService` and what it reads of its configuration. -/
structure AgentService where
  tools : ToolRegistry
  maxToolSteps : Int := 3
  injectRag : Bool := true
  autoSearch : Bool := true
  /-- `should_auto_web_search`, a search for key words -/
  shouldAutoWebSearch : Str → Bool

/-- `format_chunks_for_prompt`. -/
def formatChunksForPrompt (chunks : List RetrievedChunk) : Str :=
  if chunks = [] then "(no matching knowledge base passages)"
  else joinWith (['\n', '\n']) (chunks.mapIdx fun i hit =>
    '[' :: (toString (i + 1)).toList ++ ("] source=" : Str) ++ hit.source ++ (" score=" : Str) ++
      hit.score ++ '\n' :: hit.text)

/-- The part of the system prompt that does not depend on the turn. -/
def promptRules (base tools : Str) : List Str :=
  [strip base,
    [],
    "You are an agent with tools and a customer-service knowledge base.",
    "For voice output, FINAL answers must be one or two short spoken sentences.",
    [],
    "Available tools:",
    tools,
    [],
    "To call a tool, output exactly one line (no other text on that line):",
    "TOOL_CALL: \x7b\"name\": \"<tool_name>\", \"arguments\": \x7b<json>\x7d\x7d",
    [],
    "When you can answer the user, output exactly one line:",
    "FINAL: <your short spoken answer>",
    [],
    "Routing rules:",
    ("- Orders, shipping, billing, returns, licenses, subscriptions: " : Str) ++
      ("use lookup_customer, " : Str) ++
      ("lookup_order, lookup_invoice, lookup_payment_status, list_open_orders, " : Str) ++
      ("list_delayed_orders, lookup_licenses, lookup_subscription, get_active_order, " : Str) ++
      ("compare_support_plans, search_knowledge_base, and/or knowledge passages below." : Str),
    ("- If the caller gives only a name or vague account request, use lookup_customer or " : Str) ++
      ("ask for customer ID / email, then remember it for follow-up turns." : Str),
    ("- Spoken order numbers (e.g. 784921) and customer IDs " : Str) ++
      ("(e.g. C zero zero one two five " : Str) ++
      ("seven) should be passed as-is to lookup tools — normalization is handled server-side." :
        Str)]

/-- What the system prompt adds when there is a web search. -/
def promptWebRules : List Str :=
  [("- Weather, news, stocks, exchange rates, and other live public facts: " : Str) ++
      ("use search_web and/or the web search results below. " : Str) ++
      ("Do not use the knowledge base for these." : Str),
    ("- If the user asks for live public data and no web results are below yet, " : Str) ++
      ("your next line must be a search_web TOOL_CALL (do not guess)." : Str),
    ("- Never say you cannot access the internet or real-time data when " : Str) ++
      ("search_web is available or web results are provided below." : Str),
    [],
    "Example (weather):",
    ("TOOL_CALL: \x7b\"name\": \"search_web\", " : Str) ++
      ("\"arguments\": \x7b\"query\": \"Seattle weather forecast today\"\x7d\x7d" : Str)]

/-- `_build_agent_system_prompt`. -/
def buildAgentSystemPrompt (base tools ragBlock webBlock : Str) (webSearchEnabled : Bool) : Str :=
  joinWith ['\n'] (promptRules base tools ++ (if webSearchEnabled then promptWebRules else []) ++
    [("Do not invent facts. Prefer tool results and the passages below." : Str)] ++
    (if webBlock ≠ [] ∧ ¬ startsWith "Error:" webBlock then
      [[], ("Web search results (live public data — use these for the user's question):" : Str),
        webBlock]
    else if webBlock ≠ [] then [[], ("Web search note:" : Str), webBlock] else []) ++
    (if ragBlock ≠ [] then
      [[], ("Knowledge passages (Alex / Horizon Store — not for weather/news):" : Str), ragBlock]
    else []))

/-! ## The loop -/

/-- `_llm_complete`. -/
def llmComplete (w : AgentWorld) (step : Nat) (system : Str) (messages : List ChatMessage) :
    AgentProg Str := do
  Eff.emit ⟨system, messages⟩
  let pieces ← Eff.ofExcept (w.llm step)
  return pieces.flatten

/-- The exception of a call of `json.loads`. -/
def loadExc (w : AgentWorld) (e : LoadError) : Exc where
  kind := if e = .recursion then .runtime else .value
  text := w.loadText e

/-- `_parse_tool_call` in the loop. -/
def readToolCall (w : AgentWorld) (raw : Str) : AgentProg (Option (Dict Str Json)) :=
  Eff.ofExcept ((parseToolCall w.jsonDepth raw).mapError (loadExc w))

/-- `str(tool_call.get("name", ""))`. -/
def toolName (w : ToolWorld) (toolCall : Dict Str Json) : Str :=
  ((toolCall.get? "name").getD (.str [])).toStr w.printer

/-- The arguments of the call, or none if they are no object. -/
def toolArguments (toolCall : Dict Str Json) : Dict Str Json :=
  match toolCall.get? "arguments" with
  | some (.obj arguments) => arguments
  | _ => []

/-- `self._tools.run`. -/
def runTool (a : AgentService) (w : ToolWorld) (name : Str) (arguments : Dict Str Json) :
    AgentProg Str := do
  let mem ← Eff.read
  Eff.modify fun mem => (a.tools.run w mem name arguments).2
  return (a.tools.run w mem name arguments).1

/-- The local variables of the loop. -/
structure Progress where
  messages : List ChatMessage
  toolCalls : List ToolCall
  records : List LlmCallRecord

/-- The message with the answer of a tool. -/
def toolResultMessage (name result : Str) : Str :=
  ("Tool result for " : Str) ++ name ++ (":\n" : Str) ++ result ++ ("\n\n" : Str) ++
    ("Continue. Use another TOOL_CALL or reply with FINAL: <short spoken answer>." : Str)

/-- What the loop appends after a tool call. -/
def Progress.afterTool (p : Progress) (raw name : Str) (arguments : Dict Str Json) (result : Str) :
    Progress where
  messages := p.messages ++ [⟨.assistant, strip raw⟩, ⟨.user, toolResultMessage name result⟩]
  toolCalls := p.toolCalls ++ [{ name := name, arguments := arguments, result := result.take 500 }]
  records := p.records

/-- How the loop ends. -/
inductive LoopEnd where
  /-- with a final answer in the given step -/
  | final (step : Nat) (reply : Str) (p : Progress)
  /-- by `break` -/
  | text (reply : Str) (p : Progress)
  /-- with all rounds used up -/
  | exhausted (p : Progress)

/-- `raw.strip() or "I could not produce an answer."` -/
def plainReply (raw : Str) : Str :=
  if strip raw = [] then "I could not produce an answer." else strip raw

/-- The loop of `run`, with the rounds that are left. -/
def agentLoop (a : AgentService) (w : AgentWorld) (system : Str) :
    Nat → Nat → Progress → AgentProg LoopEnd
  | 0, _, p => return .exhausted p
  | rounds + 1, step, p => do
    let raw ← llmComplete w step system p.messages
    let p := { p with records := p.records ++ [measureCall (step + 1) system p.messages raw] }
    match parseFinal raw with
    | some final => return .final step (sanitizeAgentReply final) p
    | none =>
      let toolCall ← readToolCall w raw
      match toolCall with
      | none => return .text (sanitizeAgentReply (plainReply raw)) p
      | some call =>
        let name := toolName (w.tools (step + 1)) call
        let arguments := toolArguments call
        let result ← runTool a (w.tools (step + 1)) name arguments
        agentLoop a w system rounds (step + 1) (p.afterTool raw name arguments result)

/-- `reply_text or "..."` behind the loop. -/
def finishReply (reply : Str) : Str :=
  sanitizeAgentReply
    (if reply = [] then "I could not find an answer in time. Please try again." else reply)

/-- What `run` returns after the loop. -/
def LoopEnd.result (ragSources : List Str) : LoopEnd → AgentResult
  | .final step reply p =>
    ⟨reply, ragSources, p.toolCalls, step + 1, summarizeLlmCalls p.records⟩
  | .text reply p =>
    ⟨finishReply reply, ragSources, p.toolCalls, p.toolCalls.length + 1,
      summarizeLlmCalls p.records⟩
  | .exhausted p =>
    ⟨finishReply [], ragSources, p.toolCalls, p.toolCalls.length + 1,
      summarizeLlmCalls p.records⟩

/-! ## Before the loop -/

/-- Whether the web is searched before the first call. -/
def AgentService.autoWeb (a : AgentService) (transcript : Str) : Bool :=
  a.tools.webSearchEnabled && a.autoSearch && a.shouldAutoWebSearch transcript

/-- The hits of the knowledge base. -/
def ragSearch (a : AgentService) (w : AgentWorld) (transcript : Str) :
    Except Exc (List RetrievedChunk) :=
  if a.injectRag && !a.autoWeb transcript then w.kbSearch transcript else .ok []

/-- The arguments of the automatic web search. -/
def autoArguments (transcript : Str) : Dict Str Json := [("query", .str (strip transcript))]

/-- The automatic web search and its row in `tool_calls`. -/
def autoWebSearch (a : AgentService) (w : AgentWorld) (transcript : Str) :
    AgentProg (Str × List ToolCall) :=
  if a.autoWeb transcript then do
    let result ← runTool a (w.tools 0) "search_web" (autoArguments transcript)
    return (result, [⟨"search_web", autoArguments transcript, result.take 500, true⟩])
  else return ([], [])

/-- `AgentService.run`. -/
def AgentService.run (a : AgentService) (w : AgentWorld) (systemPrompt transcript : Str)
    (history : List ChatMessage) : AgentProg AgentResult := do
  let ragHits ← Eff.ofExcept (ragSearch a w transcript)
  let ragSources := (ragHits.map RetrievedChunk.source).dedup
  let (webBlock, toolCalls) ← autoWebSearch a w transcript
  let ragBlock := if ragHits ≠ [] then formatChunksForPrompt ragHits else []
  let system := buildAgentSystemPrompt systemPrompt a.tools.describeForPrompt
    (if a.injectRag then ragBlock else []) webBlock a.tools.webSearchEnabled
  let start : Progress := ⟨history ++ [⟨.user, transcript⟩], toolCalls, []⟩
  let ended ← agentLoop a w system (a.maxToolSteps + 1).toNat 0 start
  return ended.result ragSources

/-! ## What the loop stores -/

/-- What the loop stores, read off the outputs of the language model. -/
def remembered (a : AgentService) (w : AgentWorld) : Nat → Nat → List (Str × Str)
  | 0, _ => []
  | rounds + 1, step =>
    match w.llm step with
    | .error _ => []
    | .ok pieces =>
      match parseFinal pieces.flatten with
      | some _ => []
      | none =>
        match parseToolCall w.jsonDepth pieces.flatten with
        | .ok (some call) =>
          (stores a.tools (toolName (w.tools (step + 1)) call) (toolArguments call)).toList ++
            remembered a w rounds (step + 1)
        | _ => []

variable {a : AgentService} {w : AgentWorld} {E : LlmCall → Prop}

/-- A call of the language model is visible, and its output is what the world
gives. -/
theorem llmComplete_spec {step : Nat} {system : Str} {messages : List ChatMessage}
    {P : Memory → Prop} {X : Exc → Memory → Prop} (hE : E ⟨system, messages⟩)
    (hX : ∀ e, w.llm step = .error e → ∀ m, P m → X e m) :
    Eff.Triple P (llmComplete w step system messages) E
      (fun raw m => P m ∧ ∃ pieces, w.llm step = .ok pieces ∧ raw = pieces.flatten) X := by
  unfold llmComplete
  refine Eff.Triple.bind (Eff.Triple.emit hE) fun _ => ?_
  apply Eff.Triple.ofExcept_bind
  · intro pieces hp
    apply Eff.Triple.pure
    intro m hm
    exact ⟨hm, pieces, hp, rfl⟩
  · exact hX

theorem mapError_eq_ok {α : Type} {r : Except LoadError α} {c : α}
    (h : r.mapError (loadExc w) = .ok c) : r = .ok c := by
  cases r with
  | ok d => exact congrArg Except.ok (Except.ok.inj h)
  | error e => cases h

theorem mapError_eq_error {α : Type} {r : Except LoadError α} {x : Exc}
    (h : r.mapError (loadExc w) = .error x) : ∃ e, r = .error e := by
  cases r with
  | ok d => cases h
  | error e => exact ⟨e, rfl⟩

theorem runTool_spec {tw : ToolWorld} {name : Str} {arguments : Dict Str Json} {mem : Memory}
    {X : Exc → Memory → Prop} :
    Eff.Triple (fun m => m = mem) (runTool a tw name arguments) E
      (fun _ m => m = mem.update (stores a.tools name arguments).toList) X := by
  unfold runTool
  refine Eff.Triple.bind Eff.Triple.read fun m => ?_
  refine Eff.Triple.bind (R := fun _ m => m = mem.update (stores a.tools name arguments).toList)
    ?_ fun _ => Eff.Triple.pure fun _ h => h
  apply Eff.Triple.modify
  intro m' hm'
  rw [hm'.2, Agent.run_memory]

/-- A tool that raises has a result too. -/
theorem runTool_total {tw : ToolWorld} {name : Str} {arguments : Dict Str Json}
    {P : Memory → Prop} {X : Exc → Memory → Prop} :
    Eff.Triple P (runTool a tw name arguments) E (fun _ _ => True) X := by
  unfold runTool
  refine Eff.Triple.bind Eff.Triple.read fun m => ?_
  refine Eff.Triple.bind (R := fun _ _ => True) ?_ fun _ => Eff.Triple.pure fun _ h => h
  exact Eff.Triple.modify fun _ _ => trivial

theorem agentLoop_memory (system : Str) (rounds step : Nat) (p : Progress) (mem : Memory) :
    Eff.Triple (fun m => m = mem) (agentLoop a w system rounds step p) (fun _ => True)
      (fun _ m => m = mem.update (remembered a w rounds step))
      (fun _ m => m = mem.update (remembered a w rounds step)) := by
  induction rounds generalizing step p mem with
  | zero => exact Eff.Triple.pure fun m h => h
  | succ rounds ih =>
    unfold agentLoop
    refine Eff.Triple.bind (llmComplete_spec trivial ?_) fun raw => ?_
    · intro e he m hm
      rw [hm, remembered, he]
      rfl
    · refine Eff.Triple.assume (fun _ h => h.2) ?_
      rintro ⟨pieces, hllm, rfl⟩
      -- in every way out of the loop nothing more is stored
      have hstop : remembered a w (rounds + 1) step = [] → ∀ m, m = mem →
          m = mem.update (remembered a w (rounds + 1) step) := by
        intro hnil m hm
        rw [hnil]
        exact hm
      refine Eff.Triple.conseq (P := fun m => m = mem) ?_ (fun _ h => h.1) fun _ _ h => h
      cases hfinal : parseFinal pieces.flatten with
      | some final => exact Eff.Triple.pure (hstop (by simp only [remembered, hllm, hfinal]))
      | none =>
        apply Eff.Triple.ofExcept_bind
        · intro toolCall htool
          have hcall := mapError_eq_ok htool
          cases toolCall with
          | none => exact Eff.Triple.pure (hstop (by simp only [remembered, hllm, hfinal, hcall]))
          | some call =>
            have hrem : remembered a w (rounds + 1) step =
                (stores a.tools (toolName (w.tools (step + 1)) call)
                  (toolArguments call)).toList ++ remembered a w rounds (step + 1) := by
              simp only [remembered, hllm, hfinal, hcall]
            refine Eff.Triple.bind runTool_spec fun result => ?_
            rw [hrem, Dict.update_append]
            exact ih _ _ _
        · intro x hx
          obtain ⟨e, hcall⟩ := mapError_eq_error hx
          exact hstop (by simp only [remembered, hllm, hfinal, hcall])

/-- Whether the loop comes to an end without raising, read off the outputs of the
language model. -/
def loopReturns (a : AgentService) (w : AgentWorld) : Nat → Nat → Bool
  | 0, _ => true
  | rounds + 1, step =>
    match w.llm step with
    | .error _ => false
    | .ok pieces =>
      match parseFinal pieces.flatten with
      | some _ => true
      | none =>
        match parseToolCall w.jsonDepth pieces.flatten with
        | .ok (some _) => loopReturns a w rounds (step + 1)
        | .ok none => true
        | .error _ => false

theorem agentLoop_returns (system : Str) (rounds step : Nat) (p : Progress) :
    Eff.Triple (fun _ => True) (agentLoop a w system rounds step p) (fun _ => True)
      (fun _ _ => loopReturns a w rounds step = true)
      (fun _ _ => loopReturns a w rounds step = false) := by
  induction rounds generalizing step p with
  | zero => exact Eff.Triple.pure fun _ _ => rfl
  | succ rounds ih =>
    unfold agentLoop
    refine Eff.Triple.bind (llmComplete_spec (P := fun _ => True) trivial ?_) fun raw => ?_
    · intro e he _ _
      rw [loopReturns, he]
    · refine Eff.Triple.assume (fun _ h => h.2) ?_
      rintro ⟨pieces, hllm, rfl⟩
      cases hfinal : parseFinal pieces.flatten with
      | some final => exact Eff.Triple.pure fun _ _ => by simp only [loopReturns, hllm, hfinal]
      | none =>
        apply Eff.Triple.ofExcept_bind
        · intro toolCall htool
          have hcall := mapError_eq_ok htool
          cases toolCall with
          | none =>
            exact Eff.Triple.pure fun _ _ => by simp only [loopReturns, hllm, hfinal, hcall]
          | some call =>
            have hret : loopReturns a w (rounds + 1) step = loopReturns a w rounds (step + 1) := by
              simp only [loopReturns, hllm, hfinal, hcall]
            rw [hret]
            exact Eff.Triple.bind runTool_total fun result => ih _ _
        · intro x hx _ _
          obtain ⟨e, hcall⟩ := mapError_eq_error hx
          simp only [loopReturns, hllm, hfinal, hcall]

/-- What `run` stores: nothing if the search of the knowledge base raises. -/
def AgentService.remembers (a : AgentService) (w : AgentWorld) (transcript : Str) :
    List (Str × Str) :=
  match ragSearch a w transcript with
  | .error _ => []
  | .ok _ => remembered a w (a.maxToolSteps + 1).toNat 0

/-- The automatic web search stores nothing. -/
theorem stores_searchWeb (g : ToolRegistry) (arguments : Dict Str Json) :
    stores g "search_web" arguments = none := by
  have hspec : (g.spec "search_web").map ToolSpec.handler = none ∨
      (g.spec "search_web").map ToolSpec.handler = some .external := by
    obtain ⟨commerce, web⟩ := g
    cases commerce <;> cases web <;> decide
  unfold stores
  cases hs : g.spec "search_web" with
  | none => rfl
  | some t =>
    rw [hs] at hspec
    have ht : t.handler ≠ .rememberFact := by
      intro h
      rw [Option.map_some, h] at hspec
      exact absurd hspec (by decide)
    exact if_neg fun h => ht h.1

theorem autoWebSearch_memory (transcript : Str) (mem : Memory) {X : Exc → Memory → Prop} :
    Eff.Triple (fun m => m = mem) (autoWebSearch a w transcript) E (fun _ m => m = mem) X := by
  unfold autoWebSearch
  split_ifs
  · refine Eff.Triple.bind runTool_spec fun result => ?_
    rw [stores_searchWeb]
    exact Eff.Triple.pure fun _ h => h
  · exact Eff.Triple.pure fun _ h => h

/-- However `run` ends, the memory is the old one with what it stores. -/
theorem run_memory_spec (systemPrompt transcript : Str) (history : List ChatMessage)
    (mem : Memory) :
    Eff.Triple (fun m => m = mem) (a.run w systemPrompt transcript history) (fun _ => True)
      (fun _ m => m = mem.update (a.remembers w transcript))
      (fun _ m => m = mem.update (a.remembers w transcript)) := by
  unfold AgentService.run
  apply Eff.Triple.ofExcept_bind
  · intro ragHits hrag
    have hrem : a.remembers w transcript = remembered a w (a.maxToolSteps + 1).toNat 0 := by
      simp only [AgentService.remembers, hrag]
    rw [hrem]
    refine Eff.Triple.bind (autoWebSearch_memory transcript mem) fun web => ?_
    refine Eff.Triple.bind (agentLoop_memory _ _ _ _ mem) fun ended => ?_
    exact Eff.Triple.pure fun _ h => h
  · intro x hx m hm
    have hrem : a.remembers w transcript = [] := by
      simp only [AgentService.remembers, hx]
    rw [hrem]
    exact hm

/-- Whether `run` returns. -/
def AgentService.returns (a : AgentService) (w : AgentWorld) (transcript : Str) : Bool :=
  match ragSearch a w transcript with
  | .error _ => false
  | .ok _ => loopReturns a w (a.maxToolSteps + 1).toNat 0

theorem run_returns_spec (systemPrompt transcript : Str) (history : List ChatMessage) :
    Eff.Triple (fun _ => True) (a.run w systemPrompt transcript history) (fun _ => True)
      (fun _ _ => a.returns w transcript = true) (fun _ _ => a.returns w transcript = false) := by
  unfold AgentService.run
  apply Eff.Triple.ofExcept_bind
  · intro ragHits hrag
    have hret : a.returns w transcript = loopReturns a w (a.maxToolSteps + 1).toNat 0 := by
      simp only [AgentService.returns, hrag]
    rw [hret]
    refine Eff.Triple.bind (R := fun _ _ => True) ?_ fun web => ?_
    · unfold autoWebSearch
      split_ifs
      · exact Eff.Triple.bind runTool_total fun _ => Eff.Triple.pure fun _ h => h
      · exact Eff.Triple.pure fun _ h => h
    · exact Eff.Triple.bind (agentLoop_returns _ _ _ _) fun ended => Eff.Triple.pure fun _ h => h
  · intro x hx _ _
    simp only [AgentService.returns, hx]

end AiPipelines.Agent

import AiPipelines.Agent.Service
import Mathlib.Data.List.GetD

/-!
# The registry that all sessions share

There is one `AgentService` and one `ToolRegistry` in the server.  The registry
has a pointer to a memory, `_session_memory`, and `AgentService.run` sets it to
the dictionary of its caller before it does anything else.  A tool call uses
the dictionary that the pointer names at that moment.

`AiPipelines.Agent.Service` runs the agent on one memory.  Here it runs on
the heap of all of them: `runShared` is the same loop with the pointer in its
state, and its trace has the tool calls too.

* `runShared_frame` says that it does to the heap what `run` does to the one
  memory, and asks the language model the same.
* `Isolated` is what the calls of one session look like when nobody else uses
  its memory, and `runShared_confined` says that a run is isolated and leaves the
  other memories alone.
-/

namespace AiPipelines.Agent

open PyStd SessionStore

/-! ## The heap of memories -/

/-- The dictionaries, and the one that the registry points to. -/
structure Memories where
  heap : List Memory
  bound : Ref

namespace Memories

/-- The dictionary behind a reference. -/
def deref (ms : Memories) (r : Ref) : Memory := ms.heap.getD r []

/-- Change a dictionary in place. -/
def put (ms : Memories) (r : Ref) (mem : Memory) : Memories := { ms with heap := ms.heap.set r mem }

/-- A new dictionary. -/
def alloc (ms : Memories) (mem : Memory) : Memories × Ref :=
  (⟨ms.heap ++ [mem], ms.bound⟩, ms.heap.length)

@[simp] theorem put_bound (ms : Memories) (r : Ref) (mem : Memory) :
    (ms.put r mem).bound = ms.bound :=
  rfl

@[simp] theorem length_put (ms : Memories) (r : Ref) (mem : Memory) :
    (ms.put r mem).heap.length = ms.heap.length := List.length_set

theorem deref_put_self {ms : Memories} {r : Ref} (hr : r < ms.heap.length) (mem : Memory) :
    (ms.put r mem).deref r = mem := by
  show (ms.heap.set r mem).getD r [] = mem
  rw [List.getD_eq_getElem?_getD, List.getElem?_set_self hr]
  rfl

theorem deref_put_of_ne (ms : Memories) {r r' : Ref} (h : r ≠ r') (mem : Memory) :
    (ms.put r mem).deref r' = ms.deref r' := by
  show (ms.heap.set r mem).getD r' [] = ms.heap.getD r' []
  rw [List.getD_eq_getElem?_getD, List.getElem?_set_ne h, List.getD_eq_getElem?_getD]

/-- Writing back what is there changes nothing. -/
theorem put_deref (ms : Memories) (r : Ref) : ms.put r (ms.deref r) = ms := by
  have hheap : ms.heap.set r (ms.heap.getD r []) = ms.heap := by
    apply List.ext_getElem?
    intro i
    by_cases h : r = i
    · rw [← h]
      by_cases hr : r < ms.heap.length
      · rw [List.getElem?_set_self hr, List.getD_eq_getElem _ _ hr, List.getElem?_eq_getElem hr]
      · have hlen : ms.heap.length ≤ r := Nat.le_of_not_lt hr
        rw [List.getElem?_eq_none hlen, List.getElem?_eq_none (by rw [List.length_set]; exact hlen)]
    · rw [List.getElem?_set_ne h]
  show (⟨ms.heap.set r (ms.heap.getD r []), ms.bound⟩ : Memories) = ms
  rw [hheap]

theorem put_put (ms : Memories) (r : Ref) (mem mem' : Memory) :
    (ms.put r mem).put r mem' = ms.put r mem' := by
  show (⟨(ms.heap.set r mem).set r mem', ms.bound⟩ : Memories) = _
  rw [List.set_set]
  rfl

theorem length_alloc (ms : Memories) (mem : Memory) :
    (ms.alloc mem).1.heap.length = ms.heap.length + 1 := List.length_append

theorem deref_alloc {ms : Memories} {r : Ref} (hr : r < ms.heap.length) (mem : Memory) :
    (ms.alloc mem).1.deref r = ms.deref r :=
  List.getD_append _ _ _ _ hr

end Memories

/-! ## The agent on the heap -/

/-- A tool call: the dictionary it was run on, what it met, and its answer. -/
structure ToolEvent where
  memory : Ref
  world : ToolWorld
  name : Str
  arguments : Dict Str Json
  answer : Str

/-- What the agent does that can be seen. -/
inductive AgentEvent where
  | llm (call : LlmCall)
  | tool (call : ToolEvent)

def AgentEvent.llm? : AgentEvent → Option LlmCall
  | .llm call => some call
  | .tool _ => none

def AgentEvent.tool? : AgentEvent → Option ToolEvent
  | .llm _ => none
  | .tool call => some call

/-- A program over the memories of all sessions. -/
abbrev SharedProg := Eff Memories AgentEvent Exc

/-- `bind_session_memory`. -/
def bindSessionMemory (r : Ref) : SharedProg Unit := Eff.modify fun ms => { ms with bound := r }

/-- `_llm_complete`. -/
def llmCompleteShared (w : AgentWorld) (step : Nat) (system : Str) (messages : List ChatMessage) :
    SharedProg Str := do
  Eff.emit (.llm ⟨system, messages⟩)
  let pieces ← Eff.ofExcept (w.llm step)
  return pieces.flatten

/-- `_parse_tool_call` in the loop. -/
def readToolCallShared (w : AgentWorld) (raw : Str) : SharedProg (Option (Dict Str Json)) :=
  Eff.ofExcept ((parseToolCall w.jsonDepth raw).mapError (loadExc w))

/-- `self._tools.run`, on the dictionary that the registry points to now. -/
def runToolShared (g : ToolRegistry) (w : ToolWorld) (name : Str) (arguments : Dict Str Json) :
    SharedProg Str := fun ms =>
  let out := g.run w (ms.deref ms.bound) name arguments
  (.ok out.1, ms.put ms.bound out.2, [.tool ⟨ms.bound, w, name, arguments, out.1⟩])

/-- The loop of `run`, with the rounds that are left. -/
def agentLoopShared (a : AgentService) (w : AgentWorld) (system : Str) :
    Nat → Nat → Progress → SharedProg LoopEnd
  | 0, _, p => return .exhausted p
  | rounds + 1, step, p => do
    let raw ← llmCompleteShared w step system p.messages
    let p := { p with records := p.records ++ [measureCall (step + 1) system p.messages raw] }
    match parseFinal raw with
    | some final => return .final step (sanitizeAgentReply final) p
    | none =>
      let toolCall ← readToolCallShared w raw
      match toolCall with
      | none => return .text (sanitizeAgentReply (plainReply raw)) p
      | some call =>
        let name := toolName (w.tools (step + 1)) call
        let arguments := toolArguments call
        let result ← runToolShared a.tools (w.tools (step + 1)) name arguments
        agentLoopShared a w system rounds (step + 1) (p.afterTool raw name arguments result)

/-- The automatic web search and its row in `tool_calls`. -/
def autoWebSearchShared (a : AgentService) (w : AgentWorld) (transcript : Str) :
    SharedProg (Str × List ToolCall) :=
  if a.autoWeb transcript then do
    let result ← runToolShared a.tools (w.tools 0) "search_web" (autoArguments transcript)
    return (result, [⟨"search_web", autoArguments transcript, result.take 500, true⟩])
  else return ([], [])

/-- `AgentService.run` behind `bind_session_memory`. -/
def AgentService.runBound (a : AgentService) (w : AgentWorld) (systemPrompt transcript : Str)
    (history : List ChatMessage) : SharedProg AgentResult := do
  let ragHits ← Eff.ofExcept (ragSearch a w transcript)
  let ragSources := (ragHits.map RetrievedChunk.source).dedup
  let (webBlock, toolCalls) ← autoWebSearchShared a w transcript
  let ragBlock := if ragHits ≠ [] then formatChunksForPrompt ragHits else []
  let system := buildAgentSystemPrompt systemPrompt a.tools.describeForPrompt
    (if a.injectRag then ragBlock else []) webBlock a.tools.webSearchEnabled
  let start : Progress := ⟨history ++ [⟨.user, transcript⟩], toolCalls, []⟩
  let ended ← agentLoopShared a w system (a.maxToolSteps + 1).toNat 0 start
  return ended.result ragSources

/-- `AgentService.run` on the dictionary `r`. -/
def AgentService.runShared (a : AgentService) (w : AgentWorld) (r : Ref)
    (systemPrompt transcript : Str) (history : List ChatMessage) : SharedProg AgentResult := do
  bindSessionMemory r
  a.runBound w systemPrompt transcript history

/-! ## The loop on one memory

`m` follows `m'` if it does to the memory that the registry points to what `m'`
does to its only one. -/

/-- The two programs end alike, the memories differ in one place, and the calls
of the language model are the same. -/
def Follows {α : Type} (m : SharedProg α) (m' : AgentProg α) : Prop :=
  ∀ ms : Memories, ms.bound < ms.heap.length →
    (m ms).1 = (m' (ms.deref ms.bound)).1 ∧
    (m ms).2.1 = ms.put ms.bound (m' (ms.deref ms.bound)).2.1 ∧
    (m ms).2.2.filterMap AgentEvent.llm? = (m' (ms.deref ms.bound)).2.2

namespace Follows

variable {α β : Type}

theorem pure (a : α) : Follows (Pure.pure a) (Pure.pure a) := by
  intro ms _
  exact ⟨rfl, (ms.put_deref ms.bound).symm, rfl⟩

theorem ofExcept (r : Except Exc α) : Follows (Eff.ofExcept r) (Eff.ofExcept r) := by
  intro ms _
  cases r with
  | ok a => exact ⟨rfl, (ms.put_deref ms.bound).symm, rfl⟩
  | error x => exact ⟨rfl, (ms.put_deref ms.bound).symm, rfl⟩

theorem emit (call : LlmCall) : Follows (Eff.emit (.llm call)) (Eff.emit call) := by
  intro ms _
  exact ⟨rfl, (ms.put_deref ms.bound).symm, rfl⟩

theorem bind {m : SharedProg α} {m' : AgentProg α} {f : α → SharedProg β} {f' : α → AgentProg β}
    (hm : Follows m m') (hf : ∀ a, Follows (f a) (f' a)) : Follows (m >>= f) (m' >>= f') := by
  intro ms hbound
  obtain ⟨hres, hmem, hllm⟩ := hm ms hbound
  show (Eff.andThen m f ms).1 = (Eff.andThen m' f' (ms.deref ms.bound)).1 ∧
    (Eff.andThen m f ms).2.1 = ms.put ms.bound (Eff.andThen m' f' (ms.deref ms.bound)).2.1 ∧
    (Eff.andThen m f ms).2.2.filterMap AgentEvent.llm? =
      (Eff.andThen m' f' (ms.deref ms.bound)).2.2
  unfold Eff.andThen
  rcases hms : m ms with ⟨r, ms₁, es⟩
  rcases hmem' : m' (ms.deref ms.bound) with ⟨r', mem₁, es'⟩
  rw [hms, hmem'] at hres hmem hllm
  obtain rfl : r = r' := hres
  obtain rfl : ms₁ = ms.put ms.bound mem₁ := hmem
  cases r with
  | error x => exact ⟨rfl, rfl, hllm⟩
  | ok a =>
    have hderef : (ms.put ms.bound mem₁).deref ms.bound = mem₁ :=
      Memories.deref_put_self hbound mem₁
    have h := hf a (ms.put ms.bound mem₁) (by rw [Memories.length_put]; exact hbound)
    rw [Memories.put_bound, hderef, Memories.put_put] at h
    refine ⟨h.1, h.2.1, ?_⟩
    rw [List.filterMap_append, h.2.2]
    exact congrArg (· ++ _) hllm

end Follows

variable {a : AgentService} {w : AgentWorld}

theorem runToolShared_follows (tw : ToolWorld) (name : Str) (arguments : Dict Str Json) :
    Follows (runToolShared a.tools tw name arguments) (runTool a tw name arguments) := by
  intro ms _
  exact ⟨rfl, rfl, rfl⟩

theorem llmCompleteShared_follows (step : Nat) (system : Str) (messages : List ChatMessage) :
    Follows (llmCompleteShared w step system messages) (llmComplete w step system messages) := by
  refine Follows.bind (Follows.emit _) fun _ => ?_
  exact Follows.bind (Follows.ofExcept _) fun pieces => Follows.pure _

theorem agentLoopShared_follows (system : Str) (rounds step : Nat) (p : Progress) :
    Follows (agentLoopShared a w system rounds step p) (agentLoop a w system rounds step p) := by
  induction rounds generalizing step p with
  | zero => exact Follows.pure _
  | succ rounds ih =>
    refine Follows.bind (llmCompleteShared_follows step system p.messages) fun raw => ?_
    cases parseFinal raw with
    | some final => exact Follows.pure _
    | none =>
      refine Follows.bind (Follows.ofExcept _) fun toolCall => ?_
      cases toolCall with
      | none => exact Follows.pure _
      | some call =>
        refine Follows.bind (runToolShared_follows _ _ _) fun result => ?_
        exact ih _ _

theorem autoWebSearchShared_follows (transcript : Str) :
    Follows (autoWebSearchShared a w transcript) (autoWebSearch a w transcript) := by
  unfold autoWebSearchShared autoWebSearch
  split_ifs
  · refine Follows.bind (runToolShared_follows _ _ _) fun result => ?_
    exact Follows.pure _
  · exact Follows.pure _

theorem runBound_follows (systemPrompt transcript : Str) (history : List ChatMessage) :
    Follows (a.runBound w systemPrompt transcript history)
      (a.run w systemPrompt transcript history) := by
  refine Follows.bind (Follows.ofExcept _) fun ragHits => ?_
  refine Follows.bind (autoWebSearchShared_follows transcript) fun web => ?_
  refine Follows.bind (agentLoopShared_follows _ _ _ _) fun ended => ?_
  exact Follows.pure _

/-- The agent on the heap is the agent on the memory that it was given. -/
theorem runShared_frame (r : Ref) (systemPrompt transcript : Str) (history : List ChatMessage)
    {ms : Memories} (hr : r < ms.heap.length) :
    let out := a.runShared w r systemPrompt transcript history ms
    let one := a.run w systemPrompt transcript history (ms.deref r)
    out.1 = one.1 ∧ out.2.1 = { ms with bound := r }.put r one.2.1 ∧
      out.2.2.filterMap AgentEvent.llm? = one.2.2 :=
  runBound_follows systemPrompt transcript history { ms with bound := r } hr

/-! ## The calls of one session -/

/-- What the calls store, in order. -/
def remembers (g : ToolRegistry) (calls : List ToolEvent) : List (Str × Str) :=
  calls.filterMap fun c => stores g c.name c.arguments

/-- The calls of a session that has its memory for itself.  At the end it is the
old memory with what the calls stored, and each of them was run on this
dictionary and answered from what the calls before it stored. -/
structure Isolated (g : ToolRegistry) (r : Ref) (start : Memory) (calls : List ToolEvent)
    (mem : Memory) : Prop where
  memory : mem = start.update (remembers g calls)
  reads : ∀ before c after, calls = before ++ c :: after → c.memory = r ∧
    c.answer = (g.run c.world (start.update (remembers g before)) c.name c.arguments).1

namespace Isolated

variable {g : ToolRegistry} {r : Ref}

/-- Without calls the memory stays. -/
theorem refl (g : ToolRegistry) (r : Ref) (mem : Memory) : Isolated g r mem [] mem where
  memory := rfl
  reads := by
    intro before c after h
    exact absurd h.symm (List.append_ne_nil_of_right_ne_nil before (List.cons_ne_nil c after))

/-- A call on the dictionary. -/
theorem call (g : ToolRegistry) (r : Ref) (tw : ToolWorld) (mem : Memory) (name : Str)
    (arguments : Dict Str Json) :
    Isolated g r mem [⟨r, tw, name, arguments, (g.run tw mem name arguments).1⟩]
      (g.run tw mem name arguments).2 where
  memory := by
    rw [run_memory, remembers, List.filterMap_cons]
    cases stores g name arguments with
    | none => rfl
    | some kv => rfl
  reads := by
    intro before c after h
    cases before with
    | nil =>
      obtain ⟨rfl, -⟩ := List.cons.inj h
      exact ⟨rfl, rfl⟩
    | cons b before =>
      exact absurd (List.cons.inj h).2.symm
        (List.append_ne_nil_of_right_ne_nil before (List.cons_ne_nil _ _))

/-- The calls of two stretches. -/
theorem trans {start mid mem : Memory} {calls calls' : List ToolEvent}
    (h : Isolated g r start calls mid) (h' : Isolated g r mid calls' mem) :
    Isolated g r start (calls ++ calls') mem where
  memory := by
    rw [h'.memory, h.memory, remembers, remembers, remembers, List.filterMap_append,
      Dict.update_append]
  reads := by
    intro before c after heq
    rcases List.append_eq_append_iff.mp heq with ⟨late, hbefore, hcalls'⟩ | ⟨late, hcalls, hafter⟩
    · -- the call is one of the second stretch
      have hread := h'.reads late c after hcalls'
      rw [h.memory, ← Dict.update_append] at hread
      rw [hbefore, remembers, List.filterMap_append]
      exact hread
    · cases late with
      | nil =>
        rw [List.append_nil] at hcalls
        have hread := h'.reads [] c after hafter.symm
        rw [h.memory, hcalls] at hread
        exact hread
      | cons c' late =>
        obtain ⟨rfl, -⟩ := List.cons.inj hafter
        exact h.reads before c late hcalls

/-- The memory at the end depends on what was called only. -/
theorem congr {r' : Ref} {start mem mem' : Memory} {calls calls' : List ToolEvent}
    (h : Isolated g r start calls mem) (h' : Isolated g r' start calls' mem')
    (hcalls : calls.map (fun c => (c.name, c.arguments)) =
      calls'.map fun c => (c.name, c.arguments)) : mem = mem' := by
  have hrem : ∀ cs : List ToolEvent, remembers g cs =
      (cs.map fun c => (c.name, c.arguments)).filterMap fun p => stores g p.1 p.2 := by
    intro cs
    rw [List.filterMap_map]
    rfl
  rw [h.memory, h'.memory, hrem, hrem, hcalls]

end Isolated

/-- From `start` on only the dictionary `r` was used, and by the calls in `es`. -/
structure Confined (g : ToolRegistry) (r : Ref) (start : Memories) (ms : Memories)
    (es : List AgentEvent) : Prop where
  length : ms.heap.length = start.heap.length
  others : ∀ r', r' ≠ r → ms.deref r' = start.deref r'
  own : Isolated g r (start.deref r) (es.filterMap AgentEvent.tool?) (ms.deref r)

namespace Confined

variable {g : ToolRegistry} {r : Ref} {start : Memories}

theorem refl (g : ToolRegistry) (r : Ref) (start : Memories) : Confined g r start start [] where
  length := rfl
  others := fun _ _ => rfl
  own := Isolated.refl g r _

/-- A call of the language model uses no memory. -/
theorem llm {ms : Memories} {es : List AgentEvent} (h : Confined g r start ms es)
    (call : LlmCall) : Confined g r start ms (es ++ [.llm call]) where
  length := h.length
  others := h.others
  own := by
    rw [List.filterMap_append]
    exact h.own.trans (Isolated.refl g r _)

end Confined

/-- While the registry points to `r`. -/
def Bound (g : ToolRegistry) (r : Ref) (start : Memories) (ms : Memories) (es : List AgentEvent) :
    Prop :=
  ms.bound = r ∧ Confined g r start ms es

section Confinement

variable {r : Ref} {start : Memories}

theorem llmCompleteShared_keeps (step : Nat) (system : Str) (messages : List ChatMessage) :
    Eff.Keeps (Bound a.tools r start) (llmCompleteShared w step system messages) := by
  refine Eff.Keeps.bind (Eff.Keeps.emit ?_) fun _ => ?_
  · intro ms es h
    exact ⟨h.1, h.2.llm _⟩
  · exact Eff.Keeps.bind (Eff.Keeps.ofExcept _) fun pieces => Eff.Keeps.pure _

theorem runToolShared_keeps (hr : r < start.heap.length) (tw : ToolWorld) (name : Str)
    (arguments : Dict Str Json) :
    Eff.Keeps (Bound a.tools r start) (runToolShared a.tools tw name arguments) := by
  intro ms es h
  obtain ⟨rfl, hconf⟩ := h
  have hbound : ms.bound < ms.heap.length := hconf.length ▸ hr
  refine ⟨rfl, ?_, ?_, ?_⟩
  · exact (Memories.length_put _ _ _).trans hconf.length
  · intro r' hr'
    exact (Memories.deref_put_of_ne ms hr'.symm _).trans (hconf.others r' hr')
  · show Isolated a.tools ms.bound (start.deref ms.bound)
      (List.filterMap AgentEvent.tool? (es ++ _))
      ((ms.put ms.bound _).deref ms.bound)
    rw [Memories.deref_put_self hbound, List.filterMap_append]
    exact hconf.own.trans (Isolated.call a.tools ms.bound tw _ name arguments)

theorem agentLoopShared_keeps (hr : r < start.heap.length) (system : Str) (rounds step : Nat)
    (p : Progress) :
    Eff.Keeps (Bound a.tools r start) (agentLoopShared a w system rounds step p) := by
  induction rounds generalizing step p with
  | zero => exact Eff.Keeps.pure _
  | succ rounds ih =>
    refine Eff.Keeps.bind (llmCompleteShared_keeps step system p.messages) fun raw => ?_
    cases parseFinal raw with
    | some final => exact Eff.Keeps.pure _
    | none =>
      refine Eff.Keeps.bind (Eff.Keeps.ofExcept _) fun toolCall => ?_
      cases toolCall with
      | none => exact Eff.Keeps.pure _
      | some call =>
        refine Eff.Keeps.bind (runToolShared_keeps hr _ _ _) fun result => ?_
        exact ih _ _

theorem autoWebSearchShared_keeps (hr : r < start.heap.length) (transcript : Str) :
    Eff.Keeps (Bound a.tools r start) (autoWebSearchShared a w transcript) := by
  unfold autoWebSearchShared
  split_ifs
  · refine Eff.Keeps.bind (runToolShared_keeps hr _ _ _) fun result => ?_
    exact Eff.Keeps.pure _
  · exact Eff.Keeps.pure _

theorem runBound_keeps (hr : r < start.heap.length) (systemPrompt transcript : Str)
    (history : List ChatMessage) :
    Eff.Keeps (Bound a.tools r start) (a.runBound w systemPrompt transcript history) := by
  refine Eff.Keeps.bind (Eff.Keeps.ofExcept _) fun ragHits => ?_
  refine Eff.Keeps.bind (autoWebSearchShared_keeps hr transcript) fun web => ?_
  refine Eff.Keeps.bind (agentLoopShared_keeps hr _ _ _ _) fun ended => ?_
  exact Eff.Keeps.pure _

/-- Whatever the registry pointed to before, a run uses the dictionary that it
was given, and no other. -/
theorem runShared_confined (hr : r < start.heap.length) (systemPrompt transcript : Str)
    (history : List ChatMessage) :
    Eff.Keeps (Confined a.tools r start) (a.runShared w r systemPrompt transcript history) := by
  intro ms es h
  have hbound : Bound a.tools r start { ms with bound := r } es := ⟨rfl, h.length, h.others, h.own⟩
  exact (runBound_keeps hr systemPrompt transcript history _ es hbound).2

end Confinement

end AiPipelines.Agent

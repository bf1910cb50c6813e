import AiPipelines.PyStd.Dict
import AiPipelines.PyStd.Json
import AiPipelines.Transition
import Mathlib.Data.List.Sort
import Mathlib.Logic.Function.Basic

/-!
# The registry of language models

`LlmRegistry` of `llm_registry.py`, used by any number of threads.  A thread that
resolves a model goes through the points of `LlmRegistry.resolve` one at a time,
and between two of its steps the others may take theirs.  The lock of an entry is
the number of the thread that holds it.

An action starts a call in an idle thread, or lets a thread take its next step.
Whether `make_llm` succeeds is part of the action.  The objects it returns are
numbered in the order of their construction.  The log lines of `resolve` read the
entry and do nothing to it, and they are left out.
-/

namespace AiPipelines.LlmRegistry

open PyStd

/-! ## The registry -/

/-- `LlmModelInfo`. -/
structure LlmModelInfo where
  id : Str
  label : Str
  backend : Str
  loaded : Bool := false
  deriving Repr, DecidableEq

/-- `_LlmModelEntry`. -/
structure LlmModelEntry (Cfg : Type) where
  info : LlmModelInfo
  cfg : Cfg
  llm : Option Nat := none
  lock : Option Nat := none
  deriving DecidableEq

/-- What `parse_llm_registry` has read of a model. -/
structure ModelSpec (Cfg : Type) where
  id : Str
  label : Str
  backend : Str
  cfg : Cfg

/-- The new entry. -/
def ModelSpec.entry {Cfg : Type} (m : ModelSpec Cfg) : LlmModelEntry Cfg :=
  { info := ⟨m.id, m.label, m.backend, false⟩, cfg := m.cfg }

/-- The entries that `parse_llm_registry` makes. -/
def entries {Cfg : Type} (specs : List (ModelSpec Cfg)) : Dict Str (LlmModelEntry Cfg) :=
  Dict.update [] (specs.map fun m => (m.id, m.entry))

/-- `LlmRegistry`.  The default is one of the models. -/
structure Registry (Cfg : Type) where
  models : Dict Str (LlmModelEntry Cfg)
  defaultId : Str
  default_mem : defaultId ∈ models.keys

namespace Registry

variable {Cfg : Type}

/-- `LlmRegistry.__init__`. -/
def init (p : Json.Printer) (models : Dict Str (LlmModelEntry Cfg)) (defaultId : Str) :
    Except Str (Registry Cfg) :=
  if h : models.keys.contains defaultId then .ok ⟨models, defaultId, List.contains_iff_mem.1 h⟩
  else .error (("Default llm model " : Str) ++ p.reprStr defaultId ++ (" not in registry" : Str))

/-- `(model_id or "").strip() or self._default_id`. -/
def modelId (g : Registry Cfg) (id : Option Str) : Str :=
  if strip (id.getD []) = [] then g.defaultId else strip (id.getD [])

/-- The text of the error for a model that is not there. -/
def unknownModel (p : Json.Printer) (g : Registry Cfg) (mid : Str) : Str :=
  ("Unknown llm model " : Str) ++ p.reprStr mid ++ (". Available: " : Str) ++
    joinWith (", " : Str) (g.models.keys.insertionSort fun x y => x ≤ y)

/-- An entry is changed in place. -/
def setEntry (g : Registry Cfg) (mid : Str) (e : LlmModelEntry Cfg) : Registry Cfg where
  models := g.models.set mid e
  defaultId := g.defaultId
  default_mem := Dict.mem_keys_set g.default_mem

end Registry

/-! ## Threads -/

/-- Where a thread is in `resolve`. -/
inductive Point where
  /-- at `with entry._lock` -/
  | lock
  /-- at `if entry._llm is None` -/
  | check
  | make
  | assign (llm : Nat)
  | markLoaded
  /-- at the end of the `with` block, reached normally or by an exception -/
  | unlock (ok : Bool)
  /-- at the `return`, which reads `entry._llm` first -/
  | readLlm
  | readInfo (llm : Option Nat)
  deriving Repr, DecidableEq

/-- The lock is held there. -/
def Point.inside : Point → Bool
  | .check | .make | .assign _ | .markLoaded | .unlock _ => true
  | .lock | .readLlm | .readInfo _ => false

inductive Call where
  | resolve (modelId : Option Str)
  | preload (modelId : Str)
  | listModels
  deriving Repr, DecidableEq

inductive Thread where
  | idle
  /-- in `resolve`, called by itself or from `preload` -/
  | resolving (mid : Str) (preload : Bool) (point : Point)
  /-- in `list_models`, with the copies so far and the models that are left -/
  | listing (copies : List LlmModelInfo) (rest : List Str)
  deriving Repr, DecidableEq

/-- What the callers and `make_llm` see. -/
inductive Event (Cfg : Type) where
  | constructed (mid : Str) (llm : Nat)
  | failed (mid : Str)
  | unknown (message : Str)
  | resolved (mid : Str) (llm : Option Nat) (cfg : Cfg) (info : LlmModelInfo)
  | preloaded (mid : Str)
  | listed (infos : List LlmModelInfo)
  deriving DecidableEq

structure State (Cfg : Type) where
  registry : Registry Cfg
  threads : Nat → Thread
  /-- the number of the next object -/
  next : Nat

namespace State

variable {Cfg : Type}

def initial (g : Registry Cfg) : State Cfg := ⟨g, fun _ => .idle, 0⟩

/-- The entry of a model. -/
def entry (s : State Cfg) (mid : Str) : Option (LlmModelEntry Cfg) := s.registry.models.get? mid

def setThread (s : State Cfg) (t : Nat) (th : Thread) : State Cfg :=
  { s with threads := Function.update s.threads t th }

def setEntry (s : State Cfg) (mid : Str) (e : LlmModelEntry Cfg) : State Cfg :=
  { s with registry := s.registry.setEntry mid e }

/-- `resolve` up to the lock. -/
def startResolve (p : Json.Printer) (s : State Cfg) (t : Nat) (id : Option Str) (preload : Bool) :
    State Cfg × List (Event Cfg) :=
  let mid := s.registry.modelId id
  match s.entry mid with
  | none => (s, [.unknown (s.registry.unknownModel p mid)])
  | some _ => (s.setThread t (.resolving mid preload .lock), [])

def startCall (p : Json.Printer) (s : State Cfg) (t : Nat) : Call → State Cfg × List (Event Cfg)
  | .resolve id => s.startResolve p t id false
  | .preload id => s.startResolve p t (some id) true
  | .listModels => (s.setThread t (.listing [] s.registry.models.keys), [])

/-- One step of `resolve`, on the entry `e` of the model.  A thread at a lock that
is taken has to wait. -/
def advanceResolve (s : State Cfg) (t : Nat) (mid : Str) (preload : Bool) (e : LlmModelEntry Cfg)
    (makeOk : Bool) : Point → Option (State Cfg × List (Event Cfg))
  | .lock =>
    if e.lock.isSome then none
    else
      some
        ((s.setEntry mid { e with lock := some t }).setThread t (.resolving mid preload .check), [])
  | .check =>
    if e.llm.isNone then some (s.setThread t (.resolving mid preload .make), [])
    else some (s.setThread t (.resolving mid preload (.unlock true)), [])
  | .make =>
    if makeOk then
      some ({ s with next := s.next + 1 }.setThread t (.resolving mid preload (.assign s.next)),
        [.constructed mid s.next])
    else some (s.setThread t (.resolving mid preload (.unlock false)), [])
  | .assign llm =>
    some ((s.setEntry mid { e with llm := some llm }).setThread t
      (.resolving mid preload .markLoaded), [])
  | .markLoaded =>
    some ((s.setEntry mid { e with info := { e.info with loaded := true } }).setThread t
      (.resolving mid preload (.unlock true)), [])
  | .unlock ok =>
    let s₁ := s.setEntry mid { e with lock := none }
    if ok then some (s₁.setThread t (.resolving mid preload .readLlm), [])
    else some (s₁.setThread t .idle, [.failed mid])
  | .readLlm => some (s.setThread t (.resolving mid preload (.readInfo e.llm)), [])
  | .readInfo llm =>
    some (s.setThread t .idle, [if preload then .preloaded mid else .resolved mid llm e.cfg e.info])

/-- One step of `list_models`. -/
def advanceListing (s : State Cfg) (t : Nat) (copies : List LlmModelInfo) :
    List Str → Option (State Cfg × List (Event Cfg))
  | [] => some (s.setThread t .idle, [.listed copies])
  | mid :: rest =>
    (s.entry mid).map fun e => (s.setThread t (.listing (copies ++ [e.info]) rest), [])

end State

/-- A thread starts a call, or takes its next step. -/
inductive Action where
  | call (t : Nat) (c : Call)
  | advance (t : Nat) (makeOk : Bool)
  deriving Repr, DecidableEq

/-- One action, if it can happen. -/
def step {Cfg : Type} (p : Json.Printer) (s : State Cfg) :
    Action → Option (State Cfg × List (Event Cfg))
  | .call t c => if s.threads t = .idle then some (s.startCall p t c) else none
  | .advance t makeOk =>
    match s.threads t with
    | .idle => none
    | .resolving mid preload point =>
      match s.entry mid with
      | none => none
      | some e => s.advanceResolve t mid preload e makeOk point
    | .listing copies rest => s.advanceListing t copies rest

end AiPipelines.LlmRegistry

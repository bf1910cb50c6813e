import AiPipelines.Agent.Protocol

/-!
# The tools of the agent

`ToolRegistry` of `server/app/agent/tools.py`: which tools there are, how
their arguments are bound, and what `run` makes of the ways they fail.

Two tools use the memory of the session.  `remember` writes to it and `recall`
reads it; the other ones ask the knowledge base, the shop's database, the web or
the clock, and their answers come from outside (`ToolWorld`).

`run_memory` is the one fact about memory that the rest needs: after a call it
is the old memory with what `stores` reads off the call.
-/

namespace AiPipelines.Agent

open PyStd

/-- `_session_memory`. -/
abbrev Memory := Dict Str Str

/-- The method behind a tool. -/
inductive Handler where
  /-- it asks something outside of the session -/
  | external
  | rememberFact
  | recallFact
  deriving Repr, DecidableEq

/-- The parameters of the method that have no default. -/
def Handler.required : Handler → List Str
  | .external => []
  | .rememberFact => ["key", "value"]
  | .recallFact => ["key"]

/-- `ToolSpec`.  In place of the JSON schema, which nothing reads, it has the
parameters of the method that have a default. -/
structure ToolSpec where
  name : Str
  description : Str
  handler : Handler := .external
  optional : List Str := []

/-- Why a handler raised. -/
structure ToolError where
  isTypeError : Bool
  text : Str

/-- What the tools meet outside. -/
structure ToolWorld where
  printer : Json.Printer
  /-- the answer of an external tool to its arguments -/
  external : Str → Dict Str Json → Except ToolError Str
  /-- the text of the `TypeError` for arguments that do not fit -/
  bindText : Str → Dict Str Json → Str

/-! ## The registry -/

/-- `ToolRegistry`, as far as it decides what is registered. -/
structure ToolRegistry where
  commerceEnabled : Bool
  webSearchEnabled : Bool

def lookupCustomer : ToolSpec where
  name := "lookup_customer"
  description :=
    "Look up a customer profile by customer_id (e.g. C-001257, C-19382), email, or name."
  optional := ["customer_id", "email", "name"]

def lookupOrder : ToolSpec where
  name := "lookup_order"
  description :=
    ("Look up order by order ID or spoken order number (e.g. 784921, 918273, " : Str) ++
    ("ORD-784921). Returns status, shipments, and ETA." : Str)
  optional := ["order_id"]

def getActiveOrder : ToolSpec where
  name := "get_active_order"
  description :=
    ("Return the customer's current active order. Use when caller asks about " : Str) ++
      ("'my order' without a number. Pass customer_id, email, or name from context." : Str)
  optional := ["customer_id", "email", "name"]

def listCustomerOrders : ToolSpec where
  name := "list_customer_orders"
  description := "List recent orders for a customer."
  optional := ["customer_id", "email", "name", "limit"]

def lookupInvoice : ToolSpec where
  name := "lookup_invoice"
  description :=
    "Look up latest or specific invoice by customer ID, email, or invoice ID."
  optional := ["customer_id", "email", "invoice_id", "latest"]

def lookupPaymentStatus : ToolSpec where
  name := "lookup_payment_status"
  description := "Check whether payment was captured for a customer email or order."
  optional := ["email", "customer_id", "order_id"]

def listOpenOrders : ToolSpec where
  name := "list_open_orders"
  description := "List open/in-progress orders for a customer."
  optional := ["customer_id", "email", "name"]

def listDelayedOrders : ToolSpec where
  name := "list_delayed_orders"
  description := "List delayed orders for a customer."
  optional := ["customer_id", "email", "name"]

def lookupLicenses : ToolSpec where
  name := "lookup_licenses"
  description := "List software licenses and count how many are active."
  optional := ["customer_id", "email"]

def lookupSubscription : ToolSpec where
  name := "lookup_subscription"
  description := "Subscription renewal date, amount, and downgrade impact."
  optional := ["customer_id", "email"]

def compareSupportPlans : ToolSpec where
  name := "compare_support_plans"
  description := "Compare Premium vs Enterprise support plans."

def searchKnowledgeBase : ToolSpec where
  name := "search_knowledge_base"
  description :=
    ("Semantic search over product docs, policies, troubleshooting, error codes, " : Str) ++
      ("compliance (GDPR), and support workflows. Use for product features, returns, " : Str) ++
      ("refunds, warranty, error codes, and plan comparisons." : Str)
  optional := ["query"]

def searchWeb : ToolSpec where
  name := "search_web"
  description := ("Search the public web for current weather, news, stock prices, " : Str) ++
    ("and other live facts not in the internal knowledge base. " : Str) ++
    ("Required for weather and news questions." : Str)
  optional := ["query"]

def getCurrentTime : ToolSpec where
  name := "get_current_time"
  description := "Return the current UTC date and time."

def rememberTool : ToolSpec where
  name := "remember"
  description := "Store a short fact for this conversation session."
  handler := .rememberFact

def recallTool : ToolSpec where
  name := "recall"
  description := "Recall a fact stored earlier in this session."
  handler := .recallFact

namespace ToolRegistry

/-- `_register_defaults` and `list_specs`. -/
def listSpecs (g : ToolRegistry) : List ToolSpec :=
  (if g.commerceEnabled then
    [lookupCustomer, lookupOrder, getActiveOrder, listCustomerOrders, lookupInvoice,
      lookupPaymentStatus, listOpenOrders, listDelayedOrders, lookupLicenses, lookupSubscription,
      compareSupportPlans]
  else []) ++ [searchKnowledgeBase] ++ (if g.webSearchEnabled then [searchWeb] else []) ++
    [getCurrentTime, rememberTool, recallTool]

/-- `self._tools.get(name)`. -/
def spec (g : ToolRegistry) (name : Str) : Option ToolSpec :=
  g.listSpecs.find? fun t => t.name = name

/-- `describe_for_prompt`. -/
def describeForPrompt (g : ToolRegistry) : Str :=
  joinWith ['\n'] (g.listSpecs.map fun t => ("- " : Str) ++ t.name ++ (": " : Str) ++ t.description)

end ToolRegistry

/-! ## Calling a tool -/

/-- The keyword arguments fit the parameters of the method. -/
def ToolSpec.binds (t : ToolSpec) (arguments : Dict Str Json) : Bool :=
  t.handler.required.all arguments.keys.contains &&
    arguments.keys.all fun k => t.handler.required.contains k || t.optional.contains k

/-- The `AttributeError` for the method `strip` of something that is no text. -/
def noStrip (v : Json) : ToolError where
  isTypeError := false
  text := '\'' :: v.typeName ++ ("' object has no attribute 'strip'" : Str)

/-- What a call of `remember` stores, if its arguments are texts. -/
def storedPair (arguments : Dict Str Json) : Option (Str × Str) :=
  match arguments.get? "key", arguments.get? "value" with
  | some (.str key), some (.str value) => some (strip key, strip value)
  | _, _ => none

/-- `_remember`.  The value is stripped before the key. -/
def rememberFact (w : ToolWorld) (mem : Memory) (arguments : Dict Str Json) :
    Except ToolError Str × Memory :=
  match (arguments.get? "key").getD .null, (arguments.get? "value").getD .null with
  | .str key, .str value =>
    (.ok (("Stored " : Str) ++ w.printer.reprStr key ++ (" for this session." : Str)),
      mem.set (strip key) (strip value))
  | key, .str _ => (.error (noStrip key), mem)
  | _, value => (.error (noStrip value), mem)

/-- `_recall`. -/
def recallFact (w : ToolWorld) (mem : Memory) (arguments : Dict Str Json) : Except ToolError Str :=
  match (arguments.get? "key").getD .null with
  | .str key =>
    match mem.get? (strip key) with
    | none => .ok (("No value stored for key " : Str) ++ w.printer.reprStr key ++ ['.'])
    | some val => .ok val
  | key => .error (noStrip key)

/-- `spec.handler(**arguments)`. -/
def ToolSpec.call (t : ToolSpec) (w : ToolWorld) (mem : Memory) (arguments : Dict Str Json) :
    Except ToolError Str × Memory :=
  if t.binds arguments then
    match t.handler with
    | .external => (w.external t.name arguments, mem)
    | .rememberFact => rememberFact w mem arguments
    | .recallFact => (recallFact w mem arguments, mem)
  else (.error ⟨true, w.bindText t.name arguments⟩, mem)

/-- What `run` returns for an exception of the handler. -/
def toolFailure (name : Str) (e : ToolError) : Str :=
  if e.isTypeError then ("Error: bad arguments for " : Str) ++ name ++ (": " : Str) ++ e.text
  else ("Error running " : Str) ++ name ++ (": " : Str) ++ e.text

/-- `ToolRegistry.run`: the answer and the memory after it. -/
def ToolRegistry.run (g : ToolRegistry) (w : ToolWorld) (mem : Memory) (name : Str)
    (arguments : Dict Str Json) : Str × Memory :=
  match g.spec name with
  | none => (("Error: unknown tool " : Str) ++ w.printer.reprStr name, mem)
  | some t =>
    match t.call w mem arguments with
    | (.ok result, mem') => (result, mem')
    | (.error e, mem') => (toolFailure name e, mem')

/-! ## The memory -/

/-- What a tool call stores: only `remember` stores anything, and only if its
arguments are the two texts that it wants. -/
def stores (g : ToolRegistry) (name : Str) (arguments : Dict Str Json) : Option (Str × Str) :=
  match g.spec name with
  | none => none
  | some t =>
    if t.handler = .rememberFact ∧ t.binds arguments then storedPair arguments else none

theorem required_of_binds {t : ToolSpec} {arguments : Dict Str Json} {k : Str}
    (h : t.binds arguments = true) (hk : k ∈ t.handler.required) :
    ∃ v, arguments.get? k = some v := by
  unfold ToolSpec.binds at h
  rw [Bool.and_eq_true, List.all_eq_true] at h
  have hmem : k ∈ arguments.keys := List.contains_iff_mem.1 (h.1 k hk)
  exact Option.isSome_iff_exists.1 (Dict.get?_isSome.2 hmem)

theorem rememberFact_memory {w : ToolWorld} {mem : Memory} {arguments : Dict Str Json}
    {key value : Json} (hkey : arguments.get? "key" = some key)
    (hvalue : arguments.get? "value" = some value) :
    (rememberFact w mem arguments).2 = mem.update (storedPair arguments).toList := by
  unfold rememberFact storedPair
  rw [hkey, hvalue]
  cases key <;> cases value <;> rfl

theorem call_memory (t : ToolSpec) (w : ToolWorld) (mem : Memory) (arguments : Dict Str Json) :
    (t.call w mem arguments).2 = mem.update
      (if t.handler = .rememberFact ∧ t.binds arguments then storedPair arguments
        else none).toList := by
  unfold ToolSpec.call
  by_cases hbinds : t.binds arguments = true
  · rw [if_pos hbinds]
    cases hh : t.handler with
    | external => rfl
    | recallFact => rfl
    | rememberFact =>
      obtain ⟨key, hkey⟩ := required_of_binds hbinds (k := "key") (by rw [hh]; decide)
      obtain ⟨value, hvalue⟩ := required_of_binds hbinds (k := "value") (by rw [hh]; decide)
      rw [if_pos ⟨rfl, hbinds⟩]
      exact rememberFact_memory hkey hvalue
  · rw [if_neg hbinds, if_neg fun h => hbinds h.2]
    rfl

theorem run_memory (g : ToolRegistry) (w : ToolWorld) (mem : Memory) (name : Str)
    (arguments : Dict Str Json) :
    (g.run w mem name arguments).2 = mem.update (stores g name arguments).toList := by
  unfold ToolRegistry.run stores
  cases g.spec name with
  | none => rfl
  | some t =>
    show (match t.call w mem arguments with
      | (.ok result, mem') => (result, mem')
      | (.error e, mem') => (toolFailure name e, mem')).2 = _
    rw [← call_memory t w mem arguments]
    rcases t.call w mem arguments with ⟨r, mem'⟩
    cases r with
    | ok result => rfl
    | error e => rfl

end AiPipelines.Agent

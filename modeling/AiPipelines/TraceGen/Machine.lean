import AiPipelines.TraceGen.Instruction

/-!
# The tracer

`TraceGen` of `iminnt/trace_gen.py`: `process_instr` turns one retired
instruction into a change of two stacks and perhaps an event, and `run_trace`
feeds it the log and switches tracing on and off around `fn_target`.

The tracer keeps two stacks.  `callStack` holds the call instructions that
are still open, and `callStarts` the first instruction of each function that is
running.  Python appends to a list and pops from its end; here the top of a
stack is the head of the list, and `stackStr` reverses.

`run_trace` and `process_instr` share the `Instruction` object: the category
that `process_instr` writes at its end is read again as `prev_instr.cat` on the
next line, and nowhere else.
-/

namespace AiPipelines.TraceGen

open PyStd

/-- A complete event of the Chrome trace format. -/
structure Event where
  name : Str
  cat : Str := "function"
  ph : Str := "X"
  ts : Int
  dur : Int
  pid : Int
  tid : Int
  callStack : Str
  fnAddr : Int
  callerAddr : Int
  deriving Repr, DecidableEq

/-- What `TraceGen.__init__` is given. -/
structure Config where
  syms : SymResolver
  fnTarget : Option Str := none
  debug : Bool := false

/-- The state of `TraceGen`. -/
structure State where
  events : List Event
  callStack : List Instruction
  callStarts : List Instruction
  prevFn : Option Str
  prevInstr : Instruction
  traceActive : Bool
  deriving Repr, DecidableEq

/-- The state that `TraceGen.__init__` sets up. -/
def State.init (cfg : Config) : State where
  events := []
  callStack := []
  callStarts := []
  prevFn := none
  prevInstr := noneInstr
  traceActive := cfg.fnTarget.isNone

/-- `stack_str`. -/
def stackStr (stack : List Instruction) : Str := joinWith ['/'] (stack.reverse.map (·.fn))

/-- The event of a function that started at `start` and that `instr` ends. -/
def mkEvent (stack : List Instruction) (start instr : Instruction) (fn : Str) : Event where
  name := fn
  ts := start.cycle
  dur := instr.cycle - start.cycle
  pid := instr.pid
  tid := instr.tid
  callStack := stackStr stack
  fnAddr := start.pc
  callerAddr := (stack.head?.map (·.pc)).getD (-1)

/-- The previous instruction was a call or a tail call. -/
def State.afterCall (st : State) : Bool := st.prevInstr.cat = .call || st.prevInstr.cat = .tail

/-- `call_starts` with the entry of a new function. -/
def State.pushStart (st : State) (instr : Instruction) (fn : Str) : List Instruction :=
  if st.prevFn ≠ some fn ∧ st.afterCall then instr :: st.callStarts else st.callStarts

/-- The end of `process_instr`: the instruction becomes the previous one. -/
def State.finish (st : State) (instr : Instruction) (fn : Str) (cat : Cat) : State :=
  { st with prevInstr := { instr with cat := cat }, prevFn := some fn }

/-- `process_instr`. -/
def processInstr (cfg : Config) (st : State) (instr : Instruction) (fn : Str) :
    Except TraceError State := do
  let starts := st.pushStart instr fn
  if ← instr.isCall then
    return { st with callStarts := starts, callStack := instr :: st.callStack }.finish instr fn
      .call
  else if ← instr.isTailCall cfg.syms then
    match starts with
    | [] => .error .assertionError
    | start :: rest =>
      -- A tail call is a return from the previous function.
      return { st with
        callStarts := rest
        events := st.events ++ [mkEvent st.callStack start instr fn] }.finish instr fn .tail
  else if ← instr.isReturn then
    match starts with
    | [] => .error .assertionError
    | start :: rest =>
      return { st with
        callStarts := rest
        events := st.events ++ [mkEvent st.callStack start instr fn]
        callStack := st.callStack.tail
        traceActive := if some fn = cfg.fnTarget then false else st.traceActive }.finish instr
          fn .ret
  else
    -- In debug mode the two complaints are printed and tracing goes on.
    if !cfg.debug && (st.prevFn ≠ some fn && st.prevInstr.cat = .instr) then
      .error (.unidentifiedCall instr fn (stackStr st.callStack))
    else if !cfg.debug && (st.afterCall && st.prevFn = some fn && fn ≠ nosymName) then
      .error (.incorrectCall instr fn (stackStr st.callStack))
    else return { st with callStarts := starts }.finish instr fn .instr

/-- The body of the loop of `run_trace`, for a line that was parsed. -/
def traceLine (cfg : Config) (st : State) (parsed : Instruction) : Except TraceError State :=
  let fn := cfg.syms.lookupSym parsed.pc
  let instr := { parsed with fn := fn }
  if st.traceActive then processInstr cfg st instr fn
  else if some fn = cfg.fnTarget then
    -- Emulate a function call to trigger a start event.
    let instr := { instr with cat := .call }
    processInstr cfg { st with traceActive := true, prevFn := none, prevInstr := instr } instr fn
  else .ok { st with prevInstr := instr }

/-- The loop of `run_trace` over what `Instruction.from_str` made of the lines;
lines that it could not read are skipped. -/
def runTrace (cfg : Config) : State → List (Option Instruction) → Except TraceError State
  | st, [] => .ok st
  | st, none :: lines => runTrace cfg st lines
  | st, some instr :: lines => do
    let st' ← traceLine cfg st instr
    runTrace cfg st' lines

end AiPipelines.TraceGen

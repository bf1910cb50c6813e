import AiPipelines.TraceGen.Machine

/-!
# Call trees

A properly nested execution, as the retire log shows it.  An activation of a
function is a list of items followed by the instruction that leaves the
function.  An item is an instruction that stays in the function, or a call
together with everything that the callee executes until it is back.

* `Items` is the part of an activation before its last instruction.
* `Body` is a complete activation.  It ends in a return, or in a tail call, and
  then it goes on with the activation that returns for it.
* `log` lists the instructions in the order in which they retire, and notes
  beside each one the activation that it completes.
* `Runs` says that the tree fits the instructions: each program counter
  resolves to the function that it stands in, and `kind` takes each instruction
  for what the tree has it do.

A tree says nothing about the tracer.  The tracer sees the instructions only,
and `Activation` is what it should find out.
-/

namespace AiPipelines.TraceGen

open PyStd

mutual

/-- A complete activation of a function.  `ret` returns to the caller;
`tail` jumps to `g`, which returns to the caller in its place. -/
inductive Body where
  | ret (items : Items) (i : Instruction)
  | tail (items : Items) (i : Instruction) (g : Str) (next : Body)

/-- The instructions of an activation before its last one. -/
inductive Items where
  | nil
  | plain (i : Instruction) (rest : Items)
  | call (i : Instruction) (g : Str) (callee : Body) (rest : Items)

end

/-- A completed activation: its function, the functions that called it from the
outermost one inwards, and the cycles of its first and last instruction. -/
structure Activation where
  fn : Str
  callers : List Str
  start : Int
  stop : Int
  deriving Repr, DecidableEq

/-- A retired instruction and the activation that it completes. -/
structure Step where
  instr : Instruction
  done : Option Activation := none

/-- The cycle at which the items start, where `c` is the cycle of the
instruction after them. -/
def Items.start : Items → Int → Int
  | .nil, c => c
  | .plain i _, _ => i.cycle
  | .call i _ _ _, _ => i.cycle

mutual

/-- The instructions of an activation of `f`. -/
def Body.log (callers : List Str) (f : Str) : Body → List Step
  | .ret items i => items.log callers f ++ [⟨i, some ⟨f, callers, items.start i.cycle, i.cycle⟩⟩]
  | .tail items i g next =>
    items.log callers f ++
      ⟨i, some ⟨f, callers, items.start i.cycle, i.cycle⟩⟩ :: next.log callers g

/-- The instructions of a part of an activation of `f`. -/
def Items.log (callers : List Str) (f : Str) : Items → List Step
  | .nil => []
  | .plain i rest => ⟨i, none⟩ :: rest.log callers f
  | .call i g callee rest => ⟨i, none⟩ :: (callee.log (callers ++ [f]) g ++ rest.log callers f)

end

/-- The instructions of a log. -/
def instrs (steps : List Step) : List Instruction := steps.map (·.instr)

/-- The activations that a log completes, in the order of their ends. -/
def completed (steps : List Step) : List Activation := steps.filterMap (·.done)

@[simp] theorem instrs_nil : instrs [] = [] := rfl

@[simp] theorem instrs_cons (s : Step) (steps : List Step) :
    instrs (s :: steps) = s.instr :: instrs steps := rfl

@[simp] theorem instrs_append (a b : List Step) : instrs (a ++ b) = instrs a ++ instrs b :=
  List.map_append

/-- The instruction stands in `f` and `process_instr` takes it for `k`. -/
def Instruction.RunsAs (syms : SymResolver) (f : Str) (k : Cat) (i : Instruction) : Prop :=
  syms.lookupSym i.pc = f ∧ i.kind syms = .ok k

instance (syms : SymResolver) (f : Str) (k : Cat) (i : Instruction) :
    Decidable (i.RunsAs syms f k) :=
  inferInstanceAs (Decidable (_ ∧ _))

mutual

/-- The tree is an activation of `f` under the symbol table. -/
def Body.Runs (syms : SymResolver) (f : Str) : Body → Prop
  | .ret items i => items.Runs syms f ∧ i.RunsAs syms f .ret
  | .tail items i g next => items.Runs syms f ∧ i.RunsAs syms f .tail ∧ next.Runs syms g

/-- The items are part of an activation of `f` under the symbol table. -/
def Items.Runs (syms : SymResolver) (f : Str) : Items → Prop
  | .nil => True
  | .plain i rest => i.RunsAs syms f .instr ∧ rest.Runs syms f
  | .call i g callee rest => i.RunsAs syms f .call ∧ callee.Runs syms g ∧ rest.Runs syms f

end

mutual

/-- The number of calls and tail calls from a function to itself. -/
def Body.selfCalls (f : Str) : Body → Nat
  | .ret items _ => items.selfCalls f
  | .tail items _ g next => items.selfCalls f + (if g = f then 1 else 0) + next.selfCalls g

/-- The number of calls and tail calls from a function to itself. -/
def Items.selfCalls (f : Str) : Items → Nat
  | .nil => 0
  | .plain _ rest => rest.selfCalls f
  | .call _ g callee rest =>
    (if g = f then 1 else 0) + callee.selfCalls g + rest.selfCalls f

end

/-- No instruction of the list is a return in `f`. -/
def NoReturnIn (syms : SymResolver) (f : Str) (l : List Instruction) : Prop :=
  ∀ i ∈ l, ¬ i.RunsAs syms f .ret

end AiPipelines.TraceGen

import AiPipelines.PyStd.Str

/-!
# Retired instructions

The records of `iminnt/trace_gen.py`: an instruction of the retire log, the
symbol table, and the three tests that tell calls, tail calls and returns
apart.

The tests index `operands` without looking at its length, so each of them may
raise `IndexError`, and each returns an `Except`.  `Instruction.kind` puts them
in the order in which `process_instr` asks them.
-/

namespace AiPipelines.TraceGen

open PyStd

/-- The category that `process_instr` leaves on an instruction. -/
inductive Cat where
  | instr
  | call
  | tail
  | ret
  deriving Repr, DecidableEq

/-- An operand is a register name or a number.  The parser hands some texts to
`eval`, which may return any other object too; it stands here by its text. -/
inductive Operand where
  | name (s : Str)
  | num (n : Int)
  | other (text : Str)
  deriving Repr, DecidableEq

/-- `Instruction`. -/
structure Instruction where
  mnem : Str
  operands : List Operand
  cycle : Int
  pc : Int
  tid : Int := 0
  pid : Int := 0
  cat : Cat := .instr
  fn : Str := "none"
  deriving Repr, DecidableEq

/-- `Instruction.none_instr`. -/
def noneInstr : Instruction := { mnem := "none", operands := [], cycle := -1, pc := -1 }

/-- What the tracer raises. -/
inductive TraceError where
  /-- `IndexError`: an operand is missing. -/
  | indexError
  /-- `assert self.call_starts` -/
  | assertionError
  /-- `RuntimeError`: the function changed without a call. -/
  | unidentifiedCall (instr : Instruction) (fn stack : Str)
  /-- `RuntimeError`: a call stayed in its function. -/
  | incorrectCall (instr : Instruction) (fn stack : Str)
  deriving Repr, DecidableEq

/-! ## The symbol table -/

/-- `NOSYM_NAME`. -/
def nosymName : Str := "nosym"

/-- `SymResolver`: the function symbols by start address, each with its name
and its range. -/
structure SymResolver where
  syms : List (Str × Int × Int)
  fnStarts : List Int
  deriving Repr, DecidableEq

/-- The loop of `bisect.bisect_right` between `lo` and `hi`.  The interval
shrinks in every round, so its length is enough fuel. -/
def bisectLoop (a : List Int) (x : Int) : Nat → Nat → Nat → Nat
  | 0, lo, _ => lo
  | fuel + 1, lo, hi =>
    if lo < hi then
      let mid := (lo + hi) / 2
      if x < a.getD mid 0 then bisectLoop a x fuel lo mid
      else bisectLoop a x fuel (mid + 1) hi
    else lo

/-- `bisect.bisect_right`. -/
def bisectRight (a : List Int) (x : Int) : Nat := bisectLoop a x a.length 0 a.length

/-- `SymResolver.lookup_sym`. -/
def SymResolver.lookupSym (r : SymResolver) (addr : Int) : Str :=
  let idx : Int := (bisectRight r.fnStarts addr : Int) - 1
  if 0 ≤ idx ∧ idx < r.syms.length then
    match r.syms[idx.toNat]? with
    | some (fn, start, stop) => if start ≤ addr ∧ addr < stop then fn else nosymName
    | none => nosymName
  else nosymName

/-! ## Calls, tail calls and returns -/

namespace Instruction

/-- `self.operands[k]`. -/
def op (i : Instruction) (k : Nat) : Except TraceError Operand :=
  match i.operands[k]? with
  | some o => .ok o
  | none => .error .indexError

/-- The registers that hold a return address. -/
def isLink (o : Operand) : Bool := o = .name "x1" || o = .name "x5"

/-- The operand is a number and a function starts there. -/
def isStart (syms : SymResolver) : Operand → Bool
  | .num n => n ∈ syms.fnStarts
  | .name _ => false
  | .other _ => false

/-- `is_call`. -/
def isCall (i : Instruction) : Except TraceError Bool :=
  if i.mnem = "jal" then do
    return isLink (← i.op 0)
  else if i.mnem = "jalr" then do
    let rd ← i.op 0
    if isLink rd then
      let rs ← i.op 1
      return !(rd = .name "x1" && rs = .name "x5" || rd = .name "x5" && rs = .name "x1")
    else return false
  else if i.mnem = "c.jalr" then .ok (.name "x5" ∉ i.operands)
  else .ok (i.mnem = "c.jal")

/-- `is_tail_call`. -/
def isTailCall (i : Instruction) (syms : SymResolver) : Except TraceError Bool :=
  if i.mnem = "jal" then do
    if (← i.op 0) = .name "x0" then return isStart syms (← i.op 1) else return false
  else if i.mnem = "c.j" then do
    return isStart syms (← i.op 0)
  else if i.mnem = "jalr" then do
    let rd ← i.op 0
    if rd = .name "x0" then return !isLink (← i.op 1)
    else if rd = .name "x6" then
      return (← i.op 1) = .name "x28" && syms.lookupSym i.pc = nosymName
    else return false
  else if i.mnem = "c.jr" then do
    let rs ← i.op 0
    return !isLink rs && isStart syms rs
  else .ok false

/-- `is_return`. -/
def isReturn (i : Instruction) : Except TraceError Bool :=
  if i.mnem = "ret" then .ok true
  else if i.mnem = "jalr" then do
    if isLink (← i.op 1) then return !isLink (← i.op 0) else return false
  else if i.mnem = "c.jr" then do
    return (← i.op 0) = .name "x1"
  else .ok false

/-- What `process_instr` takes the instruction for. -/
def kind (i : Instruction) (syms : SymResolver) : Except TraceError Cat := do
  if ← i.isCall then return .call
  else if ← i.isTailCall syms then return .tail
  else if ← i.isReturn then return .ret
  else return .instr

end Instruction

end AiPipelines.TraceGen

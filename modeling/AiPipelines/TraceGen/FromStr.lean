import AiPipelines.PyStd.IntOf
import AiPipelines.PyStd.Dict
import AiPipelines.PyStd.Raise
import AiPipelines.TraceGen.Machine

/-!
# Lines of the retire log

`Instruction.from_str` of `iminnt/trace_gen.py`.  A line has fields between
bars, a field has a name and a value around a colon, and the last field holds
the instruction.

The function has three ways out.  It returns an instruction, it returns `None`
where the cycle or the program counter is no number, and it raises where a
field, a colon, the instruction or an operand is missing: nothing of this is a
`ValueError`.  Below three fields the two numbers are not even assigned, and
whatever comes first raises, `UnboundLocalError` at the latest.

* `readHeader` is the `try` block and `instrWords` the instruction in words.
* `readOperand` is the body of the loop over the operands.
* `canonical` is the pair of rewrite rules at the end.

An operand with `pc+1` somewhere in it goes to `eval`.  What `eval` makes of
`pc` plus or minus a literal is `evalPc?`; on other texts it is a parameter.
-/

namespace AiPipelines.TraceGen

open PyStd

/-- What `from_str` raises. -/
inductive ParseError where
  /-- `IndexError`: a field, a colon or the instruction is missing. -/
  | indexError
  /-- `UnboundLocalError`: `cycle` and `pc` were not assigned. -/
  | unboundLocal
  /-- What `eval` raises. -/
  | evalError (text : Str)
  deriving Repr, DecidableEq

/-- The items of `REG_NAME_MAP`, as they are written down. -/
def regNames : List (Str × Str) :=
  List.map (fun e => (e.1.toList, e.2.toList)) [
    ("s0", "fp"), ("zero", "x0"), ("ra", "x1"), ("sp", "x2"), ("gp", "x3"), ("tp", "x4"),
    ("t0", "x5"), ("t1", "x6"), ("t2", "x7"), ("s0", "x8"), ("s1", "x9"),
    ("a0", "x10"), ("a1", "x11"), ("a2", "x12"), ("a3", "x13"), ("a4", "x14"), ("a5", "x15"),
    ("a6", "x16"), ("a7", "x17"),
    ("s2", "x18"), ("s3", "x19"), ("s4", "x20"), ("s5", "x21"), ("s6", "x22"), ("s7", "x23"),
    ("s8", "x24"), ("s9", "x25"), ("s10", "x26"), ("s11", "x27"),
    ("t3", "x28"), ("t4", "x29"), ("t5", "x30"), ("t6", "x31"),
    ("ft0", "f0"), ("ft1", "f1"), ("ft2", "f2"), ("ft3", "f3"), ("ft4", "f4"), ("ft5", "f5"),
    ("ft6", "f6"), ("ft7", "f7"), ("fs0", "f8"), ("fs1", "f9"),
    ("fa0", "f10"), ("fa1", "f11"), ("fa2", "f12"), ("fa3", "f13"), ("fa4", "f14"),
    ("fa5", "f15"), ("fa6", "f16"), ("fa7", "f17"),
    ("fs2", "f18"), ("fs3", "f19"), ("fs4", "f20"), ("fs5", "f21"), ("fs6", "f22"),
    ("fs7", "f23"), ("fs8", "f24"), ("fs9", "f25"), ("fs10", "f26"), ("fs11", "f27"),
    ("ft8", "f28"), ("ft9", "f29"), ("ft10", "f30"), ("ft11", "f31")]

/-- `REG_NAME_MAP`.  The key `s0` is there twice, and the last one counts. -/
def regNameMap : Dict Str Str := Dict.update [] regNames

theorem regNameMap_get? (a : Str) : regNameMap.get? a = Dict.get? regNames.reverse a := by
  rw [regNameMap, Dict.get?_update, Dict.get?_nil, Option.or_none]

/-! ## Operands -/

/-- `is_int`. -/
def isInt (d : Decimals) (s : Str) : Bool := (intOf d 10 s).isSome

/-- `is_hex`. -/
def isHex (d : Decimals) (s : Str) : Bool := (intOf d 16 s).isSome

/-- `PC_INT_EXPR` at the start of the text. -/
def startsPcInt (d : Decimals) : Str → Bool
  | 'p' :: 'c' :: sign :: c :: _ => (sign == '+' || sign == '-') && isDecimal d c
  | _ => false

/-- `PC_HEX_EXPR` at the start of the text. -/
def startsPcHex : Str → Bool
  | 'p' :: 'c' :: sign :: '0' :: 'x' :: c :: _ =>
    (sign == '+' || sign == '-') && (digit? 16 c).isSome
  | _ => false

/-- `PC_INT_EXPR.search(a) or PC_HEX_EXPR.search(a)`. -/
def isPcExpr (d : Decimals) (a : Str) : Bool :=
  a.tails.any (startsPcInt d) || a.tails.any startsPcHex

/-- The value of `pc` plus or minus a literal. -/
def evalPc? : Str → Int → Option Int
  | 'p' :: 'c' :: '+' :: s, pc => (literal? s).map fun n : Nat => pc + n
  | 'p' :: 'c' :: '-' :: s, pc => (literal? s).map fun n : Nat => pc - n
  | _, _ => none

/-- The interpreter: its decimal digits, and `eval(a, {"pc": pc})` on texts that
are not `pc` plus or minus a literal. -/
structure Interp where
  decimals : Decimals
  evalOther : Str → Int → Except ParseError Operand

namespace Interp

variable (py : Interp)

/-- `eval(a, {"pc": pc})`. -/
def eval (a : Str) (pc : Int) : Except ParseError Operand :=
  match evalPc? a pc with
  | some v => .ok (.num v)
  | none => py.evalOther a pc

end Interp

/-- An interpreter with the ASCII digits that raises on other expressions. -/
def plainInterp : Interp where
  decimals := fun _ => none
  evalOther := fun a _ => .error (.evalError a)

/-- The two numbers of a line. -/
structure Header where
  cycle : Int
  pc : Int
  deriving Repr, DecidableEq

/-- Reading a local variable that may not have been assigned. -/
def bound (header : Option Header) : Except ParseError Header :=
  match header with
  | some h => .ok h
  | none => .error .unboundLocal

/-- The body of the loop over the operands. -/
def readOperand (py : Interp) (header : Option Header) (a : Str) : Except ParseError Operand :=
  if isPcExpr py.decimals a then do
    let h ← bound header
    py.eval a h.pc
  else
    match intOf py.decimals 10 a with
    | some n => .ok (.num n)
    | none =>
      match intOf py.decimals 16 a with
      | some n => .ok (.num n)
      | none => .ok (.name ((regNameMap.get? a).getD a))

/-! ## The rewrite rules -/

/-- `isinstance(o, str)`. -/
def Operand.isStr : Operand → Bool
  | .name _ => true
  | .num _ => false
  | .other _ => false

/-- `isinstance(o, int)`. -/
def Operand.isNum : Operand → Bool
  | .name _ => false
  | .num _ => true
  | .other _ => false

/-- The first rule: `j` and `jr` get `x0`. -/
def insertX0 (mnem : Str) (operands : List Operand) : Str × List Operand :=
  if (mnem = "j" && operands.head?.any (·.isNum)) || (mnem = "jr" && operands.head?.any (·.isStr))
  then (if mnem = "j" then "jal" else "jalr", .name "x0" :: operands)
  else (mnem, operands)

/-- The second rule: `jal` and `jalr` get `x1`. -/
def insertX1 (mnem : Str) (operands : List Operand) : Str × List Operand :=
  if (mnem = "jal" && operands.head?.any (·.isNum)) ||
      (mnem = "jalr" && operands.head?.any (·.isStr))
  then (mnem, .name "x1" :: operands)
  else (mnem, operands)

/-- The canonical form of an instruction.  The length is tested once: the second
rule sees what the first one made. -/
def canonical (mnem : Str) (operands : List Operand) : Str × List Operand :=
  if operands.length = 1 && (["j", "jal", "jr", "jalr"] : List Str).contains mnem then
    let r := insertX0 mnem operands
    insertX1 r.1 r.2
  else (mnem, operands)

/-! ## Lines -/

/-- `xs[k]`. -/
def item {α : Type} (xs : List α) (k : Nat) : Except ParseError α :=
  match xs[k]? with
  | some x => .ok x
  | none => .error .indexError

/-- `field.split(":")[1]`. -/
def fieldValue (field : Str) : Except ParseError Str := item (field.splitOn ':') 1

/-- `line.strip().split("|")`. -/
def lineParts (line : Str) : List Str := (strip line).splitOn '|'

/-- The `try` block; `none` is `return None`. -/
def readHeader (d : Decimals) (parts : List Str) : Except ParseError (Option Header) := do
  let cycle ← fieldValue (← item parts 0)
  match intOf d 10 cycle with
  | none => return none
  | some cycle =>
    let pc ← fieldValue (← item parts 3)
    match intOf d 16 pc with
    | none => return none
    | some pc => return some ⟨cycle, pc⟩

/-- `parts[-1].split(":")[1].split()`. -/
def instrWords (parts : List Str) : Except ParseError (List Str) := do
  return split (← fieldValue (parts.getLastD []))

/-- The texts of the operands, stripped. -/
def operandTexts (words : List Str) : List Str :=
  if words.length = 1 then [] else (words.tail.flatten.splitOn ',').map strip

/-- `from_str` after the `try` block. -/
def readInstr (py : Interp) (header : Option Header) (parts : List Str) :
    Except ParseError Instruction := do
  let words ← instrWords parts
  let mnem := strip (← item words 0)
  if words.length = 1 then
    let h ← bound header
    return { mnem := mnem, operands := [], cycle := h.cycle, pc := h.pc }
  else
    let operands ← (operandTexts words).mapM (readOperand py header)
    let r := canonical mnem operands
    let h ← bound header
    return { mnem := remove ' ' (remove '\t' r.1), operands := r.2, cycle := h.cycle, pc := h.pc }

/-- `Instruction.from_str`. -/
def fromStr (py : Interp) (line : Str) : Except ParseError (Option Instruction) := do
  let parts := lineParts line
  if 3 ≤ parts.length then
    match ← readHeader py.decimals parts with
    | none => return none
    | some h => return some (← readInstr py (some h) parts)
  else return some (← readInstr py none parts)

/-! ## The log -/

/-- What aborts `run_trace`. -/
inductive RunError where
  | parse (e : ParseError)
  | trace (e : TraceError)
  deriving Repr, DecidableEq

/-- The loop of `run_trace` over the lines of the file. -/
def runLog (py : Interp) (cfg : Config) : State → List Str → Except RunError State
  | st, [] => .ok st
  | st, line :: lines =>
    match fromStr py line with
    | .error e => .error (.parse e)
    | .ok none => runLog py cfg st lines
    | .ok (some instr) =>
      match traceLine cfg st instr with
      | .error e => .error (.trace e)
      | .ok st' => runLog py cfg st' lines

/-- On lines that the parser gets through, the loop does what it does on the
parsed lines. -/
theorem runLog_eq {py : Interp} {cfg : Config} {st : State} {lines : List Str}
    {parsed : List (Option Instruction)} (h : lines.mapM (fromStr py) = .ok parsed) :
    runLog py cfg st lines = (runTrace cfg st parsed).mapError .trace := by
  have hread := mapM_eq_ok_iff.1 h
  clear h
  induction hread generalizing st with
  | nil => rfl
  | @cons line r lines parsed hline _ ih =>
    rw [runLog, hline]
    cases r with
    | none => exact ih
    | some instr =>
      simp only [runTrace, bind, Except.bind]
      cases traceLine cfg st instr with
      | error e => rfl
      | ok st' => exact ih

/-! ## A line that is read -/

/-- The numbers and the instruction of the line are there. -/
structure Retires (d : Decimals) (line : Str) (h : Header) (words : List Str) : Prop where
  fields : 3 ≤ (lineParts line).length
  header : readHeader d (lineParts line) = .ok (some h)
  words : instrWords (lineParts line) = .ok words

/-- The instruction with this mnemonic and these operands. -/
def Header.instr (h : Header) (r : Str × List Operand) : Instruction :=
  { mnem := r.1, operands := r.2, cycle := h.cycle, pc := h.pc }

theorem mem_instrWords {parts words : List Str} (h : instrWords parts = .ok words) {w : Str}
    (hw : w ∈ words) : IsWord w := by
  obtain ⟨text, -, htext⟩ := bind_eq_ok_iff.1 h
  rw [← Except.ok.inj htext] at hw
  exact mem_split hw

theorem insertX0_cases (mnem : Str) (operands : List Operand) :
    ((insertX0 mnem operands).1 = mnem ∨ (insertX0 mnem operands).1 = "jal" ∨
      (insertX0 mnem operands).1 = "jalr") ∧ operands <:+ (insertX0 mnem operands).2 := by
  unfold insertX0
  split
  · refine ⟨.inr ?_, List.suffix_cons _ _⟩
    by_cases hj : mnem = "j"
    · exact .inl (if_pos hj)
    · exact .inr (if_neg hj)
  · exact ⟨.inl rfl, List.suffix_rfl⟩

theorem insertX1_cases (mnem : Str) (operands : List Operand) :
    (insertX1 mnem operands).1 = mnem ∧ operands <:+ (insertX1 mnem operands).2 := by
  unfold insertX1
  split <;> simp

/-- The rules replace a mnemonic by `jal` or `jalr`, and put registers in front
of the operands. -/
theorem canonical_cases (mnem : Str) (operands : List Operand) :
    ((canonical mnem operands).1 = mnem ∨ (canonical mnem operands).1 = "jal" ∨
      (canonical mnem operands).1 = "jalr") ∧ operands <:+ (canonical mnem operands).2 := by
  unfold canonical
  split
  · obtain ⟨hmnem, hops⟩ := insertX0_cases mnem operands
    obtain ⟨hmnem', hops'⟩ :=
      insertX1_cases (insertX0 mnem operands).1 (insertX0 mnem operands).2
    exact ⟨hmnem' ▸ hmnem, hops.trans hops'⟩
  · simp

/-- Blanks in the mnemonic are removed where there are none. -/
theorem canonical_word {mnem : Str} (hm : IsWord mnem) (operands : List Operand) :
    remove ' ' (remove '\t' (canonical mnem operands).1) = (canonical mnem operands).1 := by
  have hword : ∀ c ∈ (canonical mnem operands).1, isSpace c = false := by
    rcases (canonical_cases mnem operands).1 with h | h | h
    · rw [h]
      exact hm.2
    · rw [h]
      exact not_isSpace_of_all rfl
    · rw [h]
      exact not_isSpace_of_all rfl
  have htab : '\t' ∉ (canonical mnem operands).1 := fun h => absurd (hword _ h) (by decide)
  have hblank : ' ' ∉ (canonical mnem operands).1 := fun h => absurd (hword _ h) (by decide)
  rw [remove_eq_self htab, remove_eq_self hblank]

/-- An instruction without operands is read like one with operands. -/
theorem readInstr_eq {py : Interp} {hd : Header} {parts args : List Str} {m : Str}
    (h : instrWords parts = .ok (m :: args)) :
    readInstr py (some hd) parts = do
      return hd.instr
        (canonical m (← (operandTexts (m :: args)).mapM (readOperand py (some hd)))) := by
  have hm : IsWord m := mem_instrWords h List.mem_cons_self
  simp only [readInstr, h, bind, Except.bind, item, List.getElem?_cons_zero, bound]
  rw [strip_eq_self hm.2]
  split
  · next hlen =>
    rw [operandTexts, if_pos hlen]
    rfl
  · cases (operandTexts (m :: args)).mapM (readOperand py (some hd)) with
    | error e => rfl
    | ok operands =>
      simp only [canonical_word hm]
      rfl

theorem fromStr_eq {py : Interp} {line : Str} {hd : Header} {m : Str} {args : List Str}
    (h : Retires py.decimals line hd (m :: args)) :
    fromStr py line = do
      return some (hd.instr (canonical m
        (← (operandTexts (m :: args)).mapM (readOperand py (some hd))))) := by
  simp only [fromStr, h.fields, if_true, h.header, bind, Except.bind, readInstr_eq h.words]
  cases (operandTexts (m :: args)).mapM (readOperand py (some hd)) <;> rfl

theorem fromStr_of_operands {py : Interp} {line : Str} {hd : Header} {m : Str} {args : List Str}
    (h : Retires py.decimals line hd (m :: args)) {operands : List Operand}
    (hops : List.Forall₂ (fun a o => readOperand py (some hd) a = .ok o)
      (operandTexts (m :: args)) operands) :
    fromStr py line = .ok (some (hd.instr (canonical m operands))) := by
  rw [fromStr_eq h, mapM_eq_ok_iff.2 hops]
  rfl

/-- Without the two numbers nothing is read. -/
theorem readInstr_unbound (py : Interp) (parts : List Str) (i : Instruction) :
    readInstr py none parts ≠ .ok i := by
  intro h
  obtain ⟨words, -, h⟩ := bind_eq_ok_iff.1 h
  obtain ⟨m, -, h⟩ := bind_eq_ok_iff.1 h
  split at h
  · cases h
  · obtain ⟨operands, -, h⟩ := bind_eq_ok_iff.1 h
    cases h

/-- An instruction is read only from a line that has everything. -/
theorem fromStr_eq_some {py : Interp} {line : Str} {i : Instruction}
    (h : fromStr py line = .ok (some i)) :
    ∃ hd m args, Retires py.decimals line hd (m :: args) := by
  unfold fromStr at h
  simp only at h
  split at h
  · next hfields =>
    obtain ⟨header, hheader, h⟩ := bind_eq_ok_iff.1 h
    cases header with
    | none => cases h
    | some hd =>
      obtain ⟨i', hi', -⟩ := bind_eq_ok_iff.1 h
      obtain ⟨words, hwords, hi'⟩ := bind_eq_ok_iff.1 hi'
      cases words with
      | nil => cases hi'
      | cons m args => exact ⟨hd, m, args, hfields, hheader, hwords⟩
  · obtain ⟨i', hi', -⟩ := bind_eq_ok_iff.1 h
    exact absurd hi' (readInstr_unbound py _ i')

end AiPipelines.TraceGen

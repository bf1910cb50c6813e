import AiPipelines.TraceGen.FromStr

/-!
# Lines that abort the trace

Which lines `from_str` gets through, and with an instruction that the three
tests of `process_instr` get through.

The parser catches `ValueError` only, that is, a cycle or a program counter that
is no number.  Whatever else is missing raises, and the tests index the operands
of jumps without counting them.  `Readable` lists what has to be there.

* `classifies_iff` says which instructions the tests get through.
* `suffices_iff` says it of the operands before they are rewritten.
* `robust_iff` puts it together with the parser, for every line.
-/

namespace AiPipelines.TraceGen

open PyStd

/-! ## The tests -/

namespace Instruction

/-- None of the three tests raises, whatever the symbol table. -/
def Classifies (i : Instruction) : Prop :=
  Returns i.isCall ∧ (∀ syms, Returns (i.isTailCall syms)) ∧ Returns i.isReturn

/-- The operands that the tests look at are there. -/
def HasOperands (i : Instruction) : Prop :=
  (i.mnem = "jal" → i.operands ≠ [] ∧ i.operands ≠ [.name "x0"]) ∧
    (i.mnem = "jalr" → 2 ≤ i.operands.length) ∧
    (i.mnem = "c.j" ∨ i.mnem = "c.jr" → i.operands ≠ [])

theorem op_eq_ok_iff {i : Instruction} {k : Nat} {o : Operand} :
    i.op k = .ok o ↔ i.operands[k]? = some o := by
  unfold op
  cases i.operands[k]? <;> simp

theorem returns_isCall (i : Instruction) :
    Returns i.isCall ↔ (i.mnem = "jal" → ∃ o, i.operands[0]? = some o) ∧
      (i.mnem = "jalr" → ∃ o, i.operands[0]? = some o ∧
        (isLink o = true → ∃ o', i.operands[1]? = some o')) := by
  have hne : i.mnem = "jalr" → ¬ i.mnem = "jal" := fun h => h ▸ by decide
  simp only [isCall, returns_ite, returns_bind, returns_pure, returns_ok, op_eq_ok_iff, and_true,
    implies_true]
  grind

theorem returns_isTailCall (i : Instruction) (syms : SymResolver) :
    Returns (i.isTailCall syms) ↔
      (i.mnem = "jal" → ∃ o, i.operands[0]? = some o ∧
        (o = .name "x0" → ∃ o', i.operands[1]? = some o')) ∧
      (i.mnem = "jalr" → ∃ o, i.operands[0]? = some o ∧
        (o = .name "x0" → ∃ o', i.operands[1]? = some o') ∧
        (¬ o = .name "x0" → o = .name "x6" → ∃ o', i.operands[1]? = some o')) ∧
      (i.mnem = "c.j" → ∃ o, i.operands[0]? = some o) ∧
      (i.mnem = "c.jr" → ∃ o, i.operands[0]? = some o) := by
  have hjalr : i.mnem = "jalr" → ¬ i.mnem = "jal" ∧ ¬ i.mnem = "c.j" := fun h => h ▸ by decide
  have hcj : i.mnem = "c.j" → ¬ i.mnem = "jal" := fun h => h ▸ by decide
  have hcjr : i.mnem = "c.jr" → ¬ i.mnem = "jal" ∧ ¬ i.mnem = "c.j" ∧ ¬ i.mnem = "jalr" :=
    fun h => h ▸ by decide
  simp only [isTailCall, returns_ite, returns_bind, returns_pure, returns_ok, op_eq_ok_iff,
    and_true, implies_true]
  grind

theorem returns_isReturn (i : Instruction) :
    Returns i.isReturn ↔ (i.mnem = "jalr" → ∃ o, i.operands[1]? = some o ∧
        (isLink o = true → ∃ o', i.operands[0]? = some o')) ∧
      (i.mnem = "c.jr" → ∃ o, i.operands[0]? = some o) := by
  have hjalr : i.mnem = "jalr" → ¬ i.mnem = "ret" := fun h => h ▸ by decide
  have hcjr : i.mnem = "c.jr" → ¬ i.mnem = "ret" ∧ ¬ i.mnem = "jalr" := fun h => h ▸ by decide
  simp only [isReturn, returns_ite, returns_bind, returns_pure, returns_ok, op_eq_ok_iff, and_true,
    implies_true]
  grind

theorem classifies_iff (i : Instruction) : i.Classifies ↔ i.HasOperands := by
  have hsyms : (∀ syms, Returns (i.isTailCall syms)) ↔ Returns (i.isTailCall ⟨[], []⟩) := by
    simp only [returns_isTailCall]
    exact ⟨fun h => h ⟨[], []⟩, fun h _ => h⟩
  rw [Classifies, hsyms, returns_isCall, returns_isTailCall, returns_isReturn, HasOperands]
  match i.operands with
  | [] => simp; grind
  | [o] => simp; grind
  | o :: o' :: os => simp

end Instruction

/-! ## The operands as they are read -/

/-- The operands of the line suffice for the tests, after the rules have put in
front what is left out. -/
def Suffices (mnem : Str) (operands : List Operand) : Prop :=
  (mnem = "jal" → operands ≠ [] ∧ operands ≠ [.name "x0"]) ∧
    (mnem = "jalr" → operands ≠ [] ∧ ∀ o, operands = [o] → o.isStr = true) ∧
    (mnem = "c.j" ∨ mnem = "c.jr" → operands ≠ [])

/-- The rules are for these four mnemonics. -/
theorem canonical_of_not_mem {mnem : Str} {operands : List Operand}
    (h : mnem ∉ (["j", "jal", "jr", "jalr"] : List Str)) :
    canonical mnem operands = (mnem, operands) := by
  have hnot : (["j", "jal", "jr", "jalr"] : List Str).contains mnem = false := by simpa using h
  rw [canonical, hnot, Bool.and_false, if_neg (by decide)]

theorem suffices_iff (hd : Header) (mnem : Str) (operands : List Operand) :
    (hd.instr (canonical mnem operands)).HasOperands ↔ Suffices mnem operands := by
  match operands with
  | [] =>
    have hcanon : canonical mnem [] = (mnem, []) := by simp [canonical]
    rw [hcanon]
    simp [Instruction.HasOperands, Header.instr, Suffices]
  | o :: o' :: os =>
    have hcanon : canonical mnem (o :: o' :: os) = (mnem, o :: o' :: os) := by simp [canonical]
    rw [hcanon]
    simp [Instruction.HasOperands, Header.instr, Suffices]
  | [o] =>
    by_cases hmem : mnem ∈ (["j", "jal", "jr", "jalr"] : List Str)
    · simp only [List.mem_cons, List.not_mem_nil, or_false] at hmem
      rcases hmem with rfl | rfl | rfl | rfl <;> cases o <;>
        simp [canonical, insertX0, insertX1, Operand.isNum, Operand.isStr,
          Instruction.HasOperands, Header.instr, Suffices]
    · rw [canonical_of_not_mem hmem]
      have hjalr : ¬ mnem = "jalr" := fun h => hmem (by simp [h])
      have hjal : ¬ mnem = "jal" := fun h => hmem (by simp [h])
      simp only [Instruction.HasOperands, Header.instr, Suffices, hjal, hjalr, false_implies,
        true_and]

/-! ## The operands as they are written -/

/-- The text of an operand is kept or replaced by a register. -/
def ReadsName (py : Interp) (pc : Int) (a : Str) : Prop :=
  if isPcExpr py.decimals a then ∃ s, py.eval a pc = .ok (.name s)
  else isInt py.decimals a = false ∧ isHex py.decimals a = false

/-- The text of an operand stands for `x0`. -/
def ReadsX0 (py : Interp) (pc : Int) (a : Str) : Prop :=
  if isPcExpr py.decimals a then py.eval a pc = .ok (.name "x0") else a = "x0" ∨ a = "zero"

/-- `Suffices`, said of the texts of the operands. -/
def TextsSuffice (py : Interp) (pc : Int) (mnem : Str) (texts : List Str) : Prop :=
  (mnem = "jal" → texts ≠ [] ∧ ∀ a, texts = [a] → ¬ ReadsX0 py pc a) ∧
    (mnem = "jalr" → texts ≠ [] ∧ ∀ a, texts = [a] → ReadsName py pc a) ∧
    (mnem = "c.j" ∨ mnem = "c.jr" → texts ≠ [])

theorem returns_readOperand (py : Interp) (hd : Header) (a : Str) :
    Returns (readOperand py (some hd) a) ↔
      (isPcExpr py.decimals a = true → Returns (py.eval a hd.pc)) := by
  rw [readOperand, returns_ite]
  refine ⟨fun h => h.1, fun h => ⟨h, fun _ => ?_⟩⟩
  -- what is not evaluated is a decimal number, a hexadecimal one, or a name
  cases intOf py.decimals 10 a with
  | some n => exact returns_ok _
  | none =>
    cases intOf py.decimals 16 a with
    | some n => exact returns_ok _
    | none => exact returns_ok _

/-- An operand that is no expression is a number, or a name. -/
theorem readOperand_of_not_pc {py : Interp} {hd : Option Header} {a : Str} {o : Operand}
    (hpc : ¬ isPcExpr py.decimals a = true) (h : readOperand py hd a = .ok o) :
    (∃ n, o = .num n ∧ ¬ (isInt py.decimals a = false ∧ isHex py.decimals a = false)) ∨
      (o = .name ((regNameMap.get? a).getD a) ∧ isInt py.decimals a = false ∧
        isHex py.decimals a = false) := by
  rw [readOperand, if_neg hpc] at h
  unfold isInt isHex
  cases h10 : intOf py.decimals 10 a with
  | some n =>
    rw [h10] at h
    exact .inl ⟨n, (Except.ok.inj h).symm, by simp⟩
  | none =>
    rw [h10] at h
    cases h16 : intOf py.decimals 16 a with
    | some n =>
      rw [h16] at h
      exact .inl ⟨n, (Except.ok.inj h).symm, by simp⟩
    | none =>
      rw [h16] at h
      exact .inr ⟨(Except.ok.inj h).symm, rfl, rfl⟩

theorem isStr_iff {py : Interp} {hd : Header} {a : Str} {o : Operand}
    (h : readOperand py (some hd) a = .ok o) : o.isStr = true ↔ ReadsName py hd.pc a := by
  unfold ReadsName
  split
  · next hpc =>
    have heval : py.eval a hd.pc = .ok o := by rwa [readOperand, if_pos hpc] at h
    rw [heval]
    cases o <;> simp [Operand.isStr]
  · next hpc =>
    rcases readOperand_of_not_pc hpc h with ⟨n, rfl, hno⟩ | ⟨rfl, hname⟩
    · exact iff_of_false (by simp [Operand.isStr]) hno
    · exact iff_of_true rfl hname

/-- Only `zero` is mapped to `x0`. -/
theorem regNameMap_eq_x0 (a : Str) : (regNameMap.get? a).getD a = "x0" ↔ a = "x0" ∨ a = "zero" := by
  have honly : ∀ e ∈ regNames.reverse, e.2 = "x0" → e.1 = "zero" := by decide +kernel
  rw [regNameMap_get?]
  constructor
  · intro h
    cases hget : Dict.get? regNames.reverse a with
    | none =>
      rw [hget] at h
      exact .inl h
    | some r =>
      rw [hget] at h
      exact .inr (honly _ (Dict.mem_of_get? hget) h)
  · intro h
    rcases h with rfl | rfl <;> decide +kernel

/-- Neither name is a number. -/
theorem isInt_isHex_x0 (d : Decimals) {a : Str} (h : a = "x0" ∨ a = "zero") :
    isInt d a = false ∧ isHex d a = false := by
  have hascii : isAscii a = true := by
    rcases h with rfl | rfl <;> rfl
  rw [isInt, isHex, intOf_ascii d 10 hascii, intOf_ascii d 16 hascii]
  rcases h with rfl | rfl <;> decide

theorem eq_x0_iff {py : Interp} {hd : Header} {a : Str} {o : Operand}
    (h : readOperand py (some hd) a = .ok o) : o = .name "x0" ↔ ReadsX0 py hd.pc a := by
  unfold ReadsX0
  split
  · next hpc =>
    have heval : py.eval a hd.pc = .ok o := by rwa [readOperand, if_pos hpc] at h
    rw [heval, Except.ok.injEq]
  · next hpc =>
    rcases readOperand_of_not_pc hpc h with ⟨n, rfl, hno⟩ | ⟨rfl, -⟩
    · exact iff_of_false (by simp) fun hx0 => hno (isInt_isHex_x0 py.decimals hx0)
    · rw [Operand.name.injEq, regNameMap_eq_x0]

theorem suffices_iff_texts {py : Interp} {hd : Header} {texts : List Str}
    {operands : List Operand} (mnem : Str)
    (h : List.Forall₂ (fun a o => readOperand py (some hd) a = .ok o) texts operands) :
    Suffices mnem operands ↔ TextsSuffice py hd.pc mnem texts := by
  unfold Suffices TextsSuffice
  cases h with
  | nil => simp
  | @cons a o texts operands ho hrest =>
    cases hrest with
    | nil =>
      simp only [ne_eq, reduceCtorEq, not_false_eq_true, true_and, List.cons.injEq, and_true,
        forall_eq', isStr_iff ho, eq_x0_iff ho]
    | cons _ _ => simp

/-! ## The line -/

/-- `field.split(":")[1]`, if it is there. -/
def value? (field : Str) : Option Str := (field.splitOn ':')[1]?

/-- The parser and the three tests get through. -/
def Robust (py : Interp) (line : Str) : Prop :=
  ∃ r, fromStr py line = .ok r ∧ ∀ i, r = some i → i.Classifies

/-- The last field has an instruction whose operands can be read, and they are
enough for the tests. -/
def InstrReadable (py : Interp) (pc : Int) (field : Str) : Prop :=
  ∃ text m args, value? field = some text ∧ split text = m :: args ∧
    (∀ a ∈ operandTexts (m :: args), isPcExpr py.decimals a = true → Returns (py.eval a pc)) ∧
    TextsSuffice py pc m (operandTexts (m :: args))

/-- There are three fields and the first one has a value.  If it is a number,
the fourth one has a value, and if that is a number, the last field has an
instruction with its operands. -/
def Readable (py : Interp) (line : Str) : Prop :=
  3 ≤ (lineParts line).length ∧
    ∃ c, (lineParts line)[0]?.bind value? = some c ∧
      (isInt py.decimals c = true →
        ∃ p, (lineParts line)[3]?.bind value? = some p ∧
          ∀ pc, intOf py.decimals 16 p = some pc →
            InstrReadable py pc ((lineParts line).getLastD []))

theorem fieldValue_eq_ok_iff {field text : Str} :
    fieldValue field = .ok text ↔ value? field = some text := by
  unfold fieldValue item value?
  cases (field.splitOn ':')[1]? <;> simp

/-- What is left when the two numbers are read. -/
theorem readInstr_classifies_iff (py : Interp) (hd : Header) (parts : List Str) :
    (∃ i, readInstr py (some hd) parts = .ok i ∧ i.Classifies) ↔
      InstrReadable py hd.pc (parts.getLastD []) := by
  constructor
  · intro h
    obtain ⟨i, hi, hclass⟩ := h
    obtain ⟨words, hwords, hread⟩ := bind_eq_ok_iff.1 hi
    obtain ⟨text, htext, hsplit⟩ := bind_eq_ok_iff.1 hwords
    cases words with
    | nil => cases hread
    | cons m args =>
      rw [readInstr_eq hwords] at hi
      obtain ⟨operands, hops, hi⟩ := bind_eq_ok_iff.1 hi
      rw [← Except.ok.inj hi, Instruction.classifies_iff, suffices_iff,
        suffices_iff_texts m (mapM_eq_ok_iff.1 hops)] at hclass
      refine ⟨text, m, args, fieldValue_eq_ok_iff.1 htext, Except.ok.inj hsplit, ?_, hclass⟩
      intro a ha
      exact (returns_readOperand py hd a).1 (returns_mapM.1 ⟨operands, hops⟩ a ha)
  · intro h
    obtain ⟨text, m, args, htext, hsplit, heval, hsuff⟩ := h
    have hwords : instrWords parts = .ok (m :: args) :=
      bind_eq_ok_iff.2 ⟨text, fieldValue_eq_ok_iff.2 htext, by rw [hsplit]; rfl⟩
    obtain ⟨operands, hops⟩ := returns_mapM.2 fun a ha =>
      (returns_readOperand py hd a).2 (heval a ha)
    refine ⟨hd.instr (canonical m operands), ?_, ?_⟩
    · rw [readInstr_eq hwords, hops]
      rfl
    · rw [Instruction.classifies_iff, suffices_iff, suffices_iff_texts m (mapM_eq_ok_iff.1 hops)]
      exact hsuff

/-- Going through a field to its value. -/
theorem readField_iff {β : Type} {parts : List Str} {k : Nat} {f : Str → Except ParseError β}
    {b : β} :
    (do f (← fieldValue (← item parts k))) = .ok b ↔
      ∃ text, parts[k]?.bind value? = some text ∧ f text = .ok b := by
  rw [bind_eq_ok_iff]
  simp only [bind_eq_ok_iff, fieldValue_eq_ok_iff, Option.bind_eq_some_iff]
  unfold item
  cases parts[k]? with
  | none => simp
  | some field => simp

/-- The `try` block comes to an end unless a field is missing. -/
theorem readHeader_eq_ok_iff {d : Decimals} {parts : List Str} {r : Option Header} :
    readHeader d parts = .ok r ↔ ∃ c, parts[0]?.bind value? = some c ∧
      match intOf d 10 c with
      | none => r = none
      | some cycle => ∃ p, parts[3]?.bind value? = some p ∧
        r = (intOf d 16 p).map fun pc => ⟨cycle, pc⟩ := by
  refine readField_iff.trans (exists_congr fun c => and_congr_right fun _ => ?_)
  cases intOf d 10 c with
  | none => exact ⟨fun h => (Except.ok.inj h).symm, fun h => h ▸ rfl⟩
  | some cycle =>
    refine readField_iff.trans (exists_congr fun p => and_congr_right fun _ => ?_)
    cases intOf d 16 p with
    | none => exact ⟨fun h => (Except.ok.inj h).symm, fun h => h ▸ rfl⟩
    | some pc => exact ⟨fun h => (Except.ok.inj h).symm, fun h => h ▸ rfl⟩

/-- A line with three fields gets through if its header does, and its
instruction if there is a header. -/
theorem robust_of_fields {py : Interp} {line : Str} (h : 3 ≤ (lineParts line).length) :
    Robust py line ↔ ∃ r, readHeader py.decimals (lineParts line) = .ok r ∧
      ∀ hd, r = some hd → InstrReadable py hd.pc ((lineParts line).getLastD []) := by
  simp only [Robust, fromStr, h, if_true, bind_eq_ok_iff]
  constructor
  · intro hrobust
    obtain ⟨r, ⟨header, hheader, hr⟩, hclass⟩ := hrobust
    refine ⟨header, hheader, fun hd hhd => ?_⟩
    subst hhd
    obtain ⟨i, hi, hret⟩ := bind_eq_ok_iff.1 hr
    exact (readInstr_classifies_iff py hd _).1 ⟨i, hi, hclass i (Except.ok.inj hret).symm⟩
  · intro hread
    obtain ⟨header, hheader, hinstr⟩ := hread
    cases header with
    | none => exact ⟨none, ⟨none, hheader, rfl⟩, by simp⟩
    | some hd =>
      obtain ⟨i, hi, hclass⟩ := (readInstr_classifies_iff py hd _).2 (hinstr hd rfl)
      refine ⟨some i, ⟨some hd, hheader, bind_eq_ok_iff.2 ⟨i, hi, rfl⟩⟩, ?_⟩
      intro i' hi'
      exact Option.some.inj hi' ▸ hclass

/-- Below three fields nothing gets through. -/
theorem not_robust_of_fields {py : Interp} {line : Str} (h : ¬ 3 ≤ (lineParts line).length) :
    ¬ Robust py line := by
  intro hrobust
  obtain ⟨r, hr, -⟩ := hrobust
  simp only [fromStr, h, if_false] at hr
  obtain ⟨i, hi, -⟩ := bind_eq_ok_iff.1 hr
  exact readInstr_unbound py _ i hi

theorem readable_of_robust {py : Interp} {line : Str} (h : Robust py line) : Readable py line := by
  have hfields : 3 ≤ (lineParts line).length := by
    by_contra hfew
    exact not_robust_of_fields hfew h
  obtain ⟨r, hheader, hinstr⟩ := (robust_of_fields hfields).1 h
  obtain ⟨c, hc, hr⟩ := readHeader_eq_ok_iff.1 hheader
  refine ⟨hfields, c, hc, fun hint => ?_⟩
  obtain ⟨cycle, hcycle⟩ := Option.isSome_iff_exists.1 hint
  rw [hcycle] at hr
  obtain ⟨p, hp, hr⟩ := hr
  refine ⟨p, hp, fun pc hpc => ?_⟩
  exact hinstr ⟨cycle, pc⟩ (by rw [hr, hpc]; rfl)

theorem robust_of_readable {py : Interp} {line : Str} (h : Readable py line) : Robust py line := by
  obtain ⟨hfields, c, hc, hread⟩ := h
  rw [robust_of_fields hfields]
  cases hcycle : intOf py.decimals 10 c with
  | none => exact ⟨none, readHeader_eq_ok_iff.2 ⟨c, hc, by rw [hcycle]⟩, by simp⟩
  | some cycle =>
    obtain ⟨p, hp, hinstr⟩ := hread (by rw [isInt, hcycle]; rfl)
    refine ⟨_, readHeader_eq_ok_iff.2 ⟨c, hc, by rw [hcycle]; exact ⟨p, hp, rfl⟩⟩, ?_⟩
    intro hd hhd
    obtain ⟨pc, hpc, rfl⟩ := Option.map_eq_some_iff.1 hhd
    exact hinstr pc hpc

/-- A log of readable lines is not aborted by the parser: the tracer works on
what was parsed, and lines without numbers are skipped. -/
theorem runLog_of_readable {py : Interp} {cfg : Config} {st : State} {lines : List Str}
    (h : ∀ line ∈ lines, Readable py line) :
    ∃ parsed, lines.mapM (fromStr py) = .ok parsed ∧
      runLog py cfg st lines = (runTrace cfg st parsed).mapError .trace := by
  obtain ⟨parsed, hparsed⟩ := returns_mapM.2 fun line hline =>
    (robust_of_readable (h line hline)).imp fun _ hr => hr.1
  exact ⟨parsed, hparsed, runLog_eq hparsed⟩

/-- `from_str` and the three tests get through a line if and only if it is
readable. -/
theorem robust_iff (py : Interp) (line : Str) : Robust py line ↔ Readable py line :=
  ⟨readable_of_robust, robust_of_readable⟩

/-- A blank line raises, and so do a line that is cut off before the program
counter and a jump that is cut off before its operand. -/
theorem truncated_raises :
    ¬ Robust plainInterp "\n" ∧ fromStr plainInterp "\n" = .error .indexError ∧
      fromStr plainInterp "cycle: 10|core: 0|priv: 3" = .error .indexError ∧
      ∃ i, fromStr plainInterp "cycle: 10|core: 0|priv: 3|pc: 0x80|instr: jal" = .ok (some i) ∧
        i.isCall = .error .indexError := by
  have hblank : fromStr plainInterp "\n" = .error .indexError := by decide +kernel
  have hjal : fromStr plainInterp "cycle: 10|core: 0|priv: 3|pc: 0x80|instr: jal" =
      .ok (some (Header.instr ⟨10, 128⟩ ("jal", []))) := by
    decide +kernel
  refine ⟨?_, hblank, by decide +kernel, _, hjal, rfl⟩
  intro hrobust
  obtain ⟨r, hr, -⟩ := hrobust
  rw [hblank] at hr
  cases hr

end AiPipelines.TraceGen

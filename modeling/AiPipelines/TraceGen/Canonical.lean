import AiPipelines.TraceGen.FromStr

/-!
# Short jumps and register names

`from_str` writes the short forms `j`, `jr`, `jal` and `jalr` out and replaces
the names of registers by their numbers, so that the tests of `Instruction`
need to know one form only.

Both have gaps.  An operand is tried as a number before it is looked up, and
`a0` to `a7` and `fa0` to `fa7` are numbers in base 16; `fp` is not in the table
at all.  And the rule for `jalr` sees what the rule for `jr` has just made, and
adds a second register.

* `readOperand_offset` and `readOperand_plain` say what becomes of an operand.
* `canonical_iff` says for which of the short forms the tests come out as for
  the long ones, and for which register names the register is found.
-/

namespace AiPipelines.TraceGen

open PyStd

/-! ## Registers -/

/-- The integer registers by their names in the ABI, in the order of their
numbers. -/
def intRegs : List Str :=
  List.map String.toList
    ["zero", "ra", "sp", "gp", "tp", "t0", "t1", "t2", "s0", "s1",
      "a0", "a1", "a2", "a3", "a4", "a5", "a6", "a7",
      "s2", "s3", "s4", "s5", "s6", "s7", "s8", "s9", "s10", "s11", "t3", "t4", "t5", "t6"]

/-- The floating-point registers, in the order of their numbers. -/
def floatRegs : List Str :=
  List.map String.toList
    ["ft0", "ft1", "ft2", "ft3", "ft4", "ft5", "ft6", "ft7", "fs0", "fs1",
      "fa0", "fa1", "fa2", "fa3", "fa4", "fa5", "fa6", "fa7",
      "fs2", "fs3", "fs4", "fs5", "fs6", "fs7", "fs8", "fs9", "fs10", "fs11",
      "ft8", "ft9", "ft10", "ft11"]

/-- The names of the ABI with the registers that they stand for.  The frame
pointer is a second name of `s0`. -/
def abiRegs : List (Str × Str) :=
  (intRegs.zipIdx.map fun r => (r.1, 'x' :: Nat.toDigits 10 r.2)) ++
    (floatRegs.zipIdx.map fun r => (r.1, 'f' :: Nat.toDigits 10 r.2)) ++
    [(("fp" : Str), ("x8" : Str))]

/-- The names that are numbers in base 16. -/
def hexRegs : List Str :=
  List.map String.toList
    ["a0", "a1", "a2", "a3", "a4", "a5", "a6", "a7",
      "fa0", "fa1", "fa2", "fa3", "fa4", "fa5", "fa6", "fa7"]

/-! ## What becomes of an operand -/

theorem isPcExpr_mem {d : Decimals} {a : Str} (h : isPcExpr d a = true) : 'p' ∈ a ∧ 'c' ∈ a := by
  have hstart : ∃ t, 'p' :: 'c' :: t <:+ a := by
    rw [isPcExpr, Bool.or_eq_true, List.any_eq_true, List.any_eq_true] at h
    rcases h with ⟨t, ht, hpc⟩ | ⟨t, ht, hpc⟩
    · rw [List.mem_tails] at ht
      unfold startsPcInt at hpc
      split at hpc
      · exact ⟨_, ht⟩
      · cases hpc
    · rw [List.mem_tails] at ht
      unfold startsPcHex at hpc
      split at hpc
      · exact ⟨_, ht⟩
      · cases hpc
  obtain ⟨t, ht⟩ := hstart
  exact ⟨ht.subset (by simp), ht.subset (by simp)⟩

/-- A number has no `p` in it, so it never goes to `eval`. -/
theorem isPcExpr_of_intOf {d : Decimals} {base : Nat} {a : Str} {n : Int}
    (hbase : base = 10 ∨ base = 16) (h : intOf d base a = some n) : isPcExpr d a = false := by
  rw [← Bool.not_eq_true]
  intro hpc
  have hp : asciiChar d 'p' = 'p' := rfl
  rcases hbase with rfl | rfl
  · have hchar := intOf_chars h (by decide) 'p' (isPcExpr_mem hpc).1
    rw [hp] at hchar
    exact absurd hchar (by decide)
  · have hchar := intOf_chars h (by decide) 'p' (isPcExpr_mem hpc).1
    rw [hp] at hchar
    exact absurd hchar (by decide)

/-- A jump target: `pc` plus or minus a literal, or a number. -/
def IsOffset (d : Decimals) (a : Str) : Prop :=
  (∃ s n, (a = 'p' :: 'c' :: '+' :: s ∨ a = 'p' :: 'c' :: '-' :: s) ∧ literal? s = some n) ∨
    isInt d a = true ∨ isHex d a = true

theorem isPcExpr_of_literal {d : Decimals} {sign : Char} {s : Str} {n : Nat}
    (hsign : sign = '+' ∨ sign = '-') (h : literal? s = some n) :
    isPcExpr d ('p' :: 'c' :: sign :: s) = true := by
  obtain ⟨c, r, rfl, hc⟩ := literal?_head h
  have hascii : c.toNat < 128 := by
    simp only [Char.isDigit, Bool.and_eq_true, decide_eq_true_eq] at hc
    have hle : c.val.toNat ≤ 57 := hc.2
    show c.val.toNat < 128
    omega
  have hdec : isDecimal d c = true := by rw [isDecimal, if_pos hascii, hc]
  rw [isPcExpr, Bool.or_eq_true, List.any_eq_true]
  refine .inl ⟨_, (List.mem_tails _ _).2 List.suffix_rfl, ?_⟩
  rcases hsign with rfl | rfl <;> simp [startsPcInt, hdec]

/-- A jump target becomes a number. -/
theorem readOperand_offset (py : Interp) (hd : Header) {a : Str} (h : IsOffset py.decimals a) :
    ∃ v, readOperand py (some hd) a = .ok (.num v) := by
  rcases h with ⟨s, n, rfl | rfl, hs⟩ | h | h
  · refine ⟨hd.pc + n, ?_⟩
    rw [readOperand, if_pos (isPcExpr_of_literal (.inl rfl) hs)]
    simp [bound, Interp.eval, evalPc?, hs, bind, Except.bind]
  · refine ⟨hd.pc - n, ?_⟩
    rw [readOperand, if_pos (isPcExpr_of_literal (.inr rfl) hs)]
    simp [bound, Interp.eval, evalPc?, hs, bind, Except.bind]
  · obtain ⟨n, hn⟩ := Option.isSome_iff_exists.1 h
    refine ⟨n, ?_⟩
    rw [readOperand, isPcExpr_of_intOf (.inl rfl) hn, if_neg (by decide), hn]
  · obtain ⟨n, hn⟩ := Option.isSome_iff_exists.1 h
    rw [readOperand, isPcExpr_of_intOf (.inr rfl) hn, if_neg (by decide), hn]
    cases intOf py.decimals 10 a with
    | none => exact ⟨n, rfl⟩
    | some k => exact ⟨k, rfl⟩

/-- What an ASCII text without `c` is read as, whatever the interpreter. -/
def plainOperand (a : Str) : Operand :=
  let s := (a.dropWhile isAsciiSpace).rdropWhile isAsciiSpace
  match signedOf 10 s with
  | some n => .num n
  | none =>
    match signedOf 16 s with
    | some n => .num n
    | none => .name ((Dict.get? regNames.reverse a).getD a)

theorem readOperand_plain (py : Interp) (hd : Option Header) {a : Str}
    (hascii : isAscii a = true) (hc : 'c' ∉ a) :
    readOperand py hd a = .ok (plainOperand a) := by
  have hpc : ¬ isPcExpr py.decimals a = true := fun h => hc (isPcExpr_mem h).2
  rw [readOperand, if_neg hpc, intOf_ascii _ _ hascii, intOf_ascii _ _ hascii, plainOperand,
    regNameMap_get?]
  cases signedOf 10 ((a.dropWhile isAsciiSpace).rdropWhile isAsciiSpace) with
  | some n => rfl
  | none => cases signedOf 16 ((a.dropWhile isAsciiSpace).rdropWhile isAsciiSpace) <;> rfl

theorem abiRegs_plain : ∀ r ∈ abiRegs, isAscii r.1 = true ∧ 'c' ∉ r.1 := by
  decide +kernel

/-- Every integer register has a name of the ABI. -/
theorem abiRegs_intReg {a : Str} (h : a ∈ intRegs ∨ a = "fp") : ∃ r, (a, r) ∈ abiRegs := by
  rcases h with h | rfl
  · obtain ⟨k, hk, rfl⟩ := List.getElem_of_mem h
    refine ⟨'x' :: Nat.toDigits 10 k, ?_⟩
    refine List.mem_append_left _
      (List.mem_append_left _ (List.mem_map.2 ⟨(intRegs[k], k), ?_, rfl⟩))
    exact List.mk_mem_zipIdx_iff_getElem?.2 (List.getElem?_eq_getElem hk)
  · exact ⟨"x8", List.mem_append_right _ List.mem_cons_self⟩

/-- The table of the source finds a register unless the name is a number, or
`fp`. -/
theorem plainOperand_abi :
    ∀ r ∈ abiRegs, plainOperand r.1 = .name r.2 ↔ r.1 ∉ hexRegs ∧ r.1 ≠ "fp" := by
  decide +kernel

theorem hexRegs_isNum : ∀ a ∈ hexRegs, (plainOperand a).isNum = true := by
  decide +kernel

/-- A name that is not a number stays a name. -/
theorem plainOperand_kind {r : Str × Str} (hr : r ∈ abiRegs) :
    (r.1 ∈ hexRegs ∧ (plainOperand r.1).isNum = true) ∨
      (r.1 ∉ hexRegs ∧ (plainOperand r.1).isStr = true) := by
  by_cases hhex : r.1 ∈ hexRegs
  · exact .inl ⟨hhex, hexRegs_isNum r.1 hhex⟩
  · right
    refine ⟨hhex, ?_⟩
    by_cases hfp : r.1 = "fp"
    · rw [hfp]
      decide
    · rw [(plainOperand_abi r hr).2 ⟨hhex, hfp⟩]
      rfl

/-! ## Short jumps -/

/-- The jumps that leave out the register of the return address. -/
inductive ShortJump where
  | j
  | jr
  | jal
  | jalr
  deriving Repr, DecidableEq

namespace ShortJump

def mnem : ShortJump → Str
  | .j => "j"
  | .jr => "jr"
  | .jal => "jal"
  | .jalr => "jalr"

/-- The mnemonic of the jump in full. -/
def longMnem : ShortJump → Str
  | .j => "jal"
  | .jr => "jalr"
  | .jal => "jal"
  | .jalr => "jalr"

/-- The register that the jump leaves out. -/
def link : ShortJump → Str
  | .j => "x0"
  | .jr => "x0"
  | .jal => "x1"
  | .jalr => "x1"

/-- `j` and `jal` go to an offset, `jr` and `jalr` to where an integer register
points. -/
def Takes (d : Decimals) (a : Str) : ShortJump → Prop
  | .j => IsOffset d a
  | .jal => IsOffset d a
  | .jr => a ∈ intRegs ∨ a = "fp"
  | .jalr => a ∈ intRegs ∨ a = "fp"

end ShortJump

/-- The tests of `process_instr` come out the same, also where they raise. -/
def SameClass (i i' : Instruction) : Prop :=
  i.isCall = i'.isCall ∧ (∀ syms, i.isTailCall syms = i'.isTailCall syms) ∧ i.isReturn = i'.isReturn

theorem SameClass.refl (i : Instruction) : SameClass i i := ⟨rfl, fun _ => rfl, rfl⟩

/-- After the second rule `jr` is a call. -/
theorem jr_name_not_same (h : Header) (r : Str) :
    ¬ SameClass (h.instr ("jalr", [.name "x1", .name "x0", .name r]))
      (h.instr ("jalr", [.name "x0", .name r])) :=
  fun hsame => nomatch hsame.1

/-- `jr` with a number is no jump at all. -/
theorem jr_num_not_same (h : Header) (n : Int) :
    ¬ SameClass (h.instr ("jr", [.num n])) (h.instr ("jalr", [.name "x0", .num n])) := by
  intro hsame
  have htail := hsame.2.1 ⟨[], []⟩
  cases htail

/-- `jalr` with a number is not even a call. -/
theorem jalr_num_not_same (h : Header) (n : Int) :
    ¬ SameClass (h.instr ("jalr", [.num n])) (h.instr ("jalr", [.name "x1", .num n])) := by
  intro hsame
  cases hsame.1

theorem readOperand_link (py : Interp) (hd : Option Header) (p : ShortJump) :
    readOperand py hd p.link = .ok (.name p.link) := by
  have hplain : isAscii p.link = true ∧ 'c' ∉ p.link ∧
      plainOperand p.link = .name p.link := by
    cases p <;> decide +kernel
  rw [readOperand_plain py hd hplain.1 hplain.2.1, hplain.2.2]

/-- An integer register is read as a number or as a name. -/
theorem readOperand_intReg (py : Interp) (hd : Option Header) {a : Str}
    (h : a ∈ intRegs ∨ a = "fp") :
    (a ∈ hexRegs ∧ ∃ n, readOperand py hd a = .ok (.num n)) ∨
      (a ∉ hexRegs ∧ ∃ r, readOperand py hd a = .ok (.name r)) := by
  obtain ⟨r, hr⟩ := abiRegs_intReg h
  have hplain := abiRegs_plain _ hr
  rw [readOperand_plain py hd hplain.1 hplain.2]
  have hkind := plainOperand_kind hr
  cases hop : plainOperand a with
  | name r => simpa [hop, Operand.isNum, Operand.isStr] using hkind
  | num n => simpa [hop, Operand.isNum, Operand.isStr] using hkind
  | other t => simp [hop, Operand.isNum, Operand.isStr] at hkind

/-- A short jump and the jump in full are taken for the same, except for `jr`,
and for `jalr` with a register whose name is a number. -/
theorem shortJump_iff {py : Interp} {p : ShortJump} {hd : Header} {line line' a : Str}
    {args args' : List Str} (hline : Retires py.decimals line hd (p.mnem :: args))
    (hargs : operandTexts (p.mnem :: args) = [a])
    (hline' : Retires py.decimals line' hd (p.longMnem :: args'))
    (hargs' : operandTexts (p.longMnem :: args') = [p.link, a])
    (ha : p.Takes py.decimals a) :
    ∃ i i', fromStr py line = .ok (some i) ∧ fromStr py line' = .ok (some i') ∧
      (SameClass i i' ↔ p ≠ .jr ∧ (p = .jalr → a ∉ hexRegs)) := by
  have hread : ∀ o, readOperand py (some hd) a = .ok o →
      fromStr py line = .ok (some (hd.instr (canonical p.mnem [o]))) ∧
        fromStr py line' = .ok (some (hd.instr (canonical p.longMnem [.name p.link, o]))) := by
    intro o ho
    refine ⟨fromStr_of_operands hline ?_, fromStr_of_operands hline' ?_⟩
    · rw [hargs]
      exact .cons ho .nil
    · rw [hargs']
      exact .cons (readOperand_link py _ p) (.cons ho .nil)
  cases p with
  | j =>
    obtain ⟨v, hv⟩ := readOperand_offset py hd ha
    obtain ⟨hi, hi'⟩ := hread _ hv
    exact ⟨_, _, hi, hi', iff_of_true (SameClass.refl _) (by simp)⟩
  | jal =>
    obtain ⟨v, hv⟩ := readOperand_offset py hd ha
    obtain ⟨hi, hi'⟩ := hread _ hv
    exact ⟨_, _, hi, hi', iff_of_true (SameClass.refl _) (by simp)⟩
  | jr =>
    rcases readOperand_intReg py (some hd) ha with ⟨-, n, hn⟩ | ⟨-, r, hr⟩
    · obtain ⟨hi, hi'⟩ := hread _ hn
      exact ⟨_, _, hi, hi', iff_of_false (jr_num_not_same hd n) (by simp)⟩
    · obtain ⟨hi, hi'⟩ := hread _ hr
      exact ⟨_, _, hi, hi', iff_of_false (jr_name_not_same hd r) (by simp)⟩
  | jalr =>
    rcases readOperand_intReg py (some hd) ha with ⟨hhex, n, hn⟩ | ⟨hhex, r, hr⟩
    · obtain ⟨hi, hi'⟩ := hread _ hn
      exact ⟨_, _, hi, hi', iff_of_false (jalr_num_not_same hd n) (by simp [hhex])⟩
    · obtain ⟨hi, hi'⟩ := hread _ hr
      exact ⟨_, _, hi, hi', iff_of_true (SameClass.refl _) (by simp [hhex])⟩

/-! ## Register names -/

/-- The texts of the operands of a line. -/
def lineOperands (line : Str) : List Str :=
  match instrWords (lineParts line) with
  | .ok words => operandTexts words
  | .error _ => []

/-- Each text that is a name of the ABI has become its register.  Registers that
the rules have put in front are skipped. -/
def FindsRegisters (texts : List Str) (i : Instruction) : Prop :=
  ∀ k a r, texts[k]? = some a → (a, r) ∈ abiRegs →
    i.operands[i.operands.length - texts.length + k]? = some (.name r)

theorem readOperand_abi (py : Interp) (hd : Option Header) {a r : Str} (h : (a, r) ∈ abiRegs) :
    readOperand py hd a = .ok (.name r) ↔ a ∉ hexRegs ∧ a ≠ "fp" := by
  have hplain := abiRegs_plain _ h
  rw [readOperand_plain py hd hplain.1 hplain.2, Except.ok.injEq]
  exact plainOperand_abi _ h

theorem abiRegs_of_lost {a : Str} (h : a ∈ hexRegs ∨ a = "fp") : ∃ r, (a, r) ∈ abiRegs := by
  have hhex : ∀ b ∈ hexRegs, b ∈ abiRegs.map Prod.fst := by decide +kernel
  rcases h with h | rfl
  · obtain ⟨r, hr, rfl⟩ := List.mem_map.1 (hhex a h)
    exact ⟨r.2, hr⟩
  · exact abiRegs_intReg (.inr rfl)

/-- The operands of an instruction are what its texts are read as, behind the
registers that the rules have added. -/
theorem fromStr_operands {py : Interp} {line : Str} {i : Instruction}
    (h : fromStr py line = .ok (some i)) :
    ∃ hd, ∀ k a, (lineOperands line)[k]? = some a →
      ∃ o, i.operands[i.operands.length - (lineOperands line).length + k]? = some o ∧
        readOperand py (some hd) a = .ok o := by
  obtain ⟨hd, m, args, hline⟩ := fromStr_eq_some h
  have htexts : lineOperands line = operandTexts (m :: args) := by
    rw [lineOperands, hline.words]
  rw [fromStr_eq hline] at h
  obtain ⟨operands, hops, hi⟩ := bind_eq_ok_iff.1 h
  have hread := mapM_eq_ok_iff.1 hops
  cases hi
  obtain ⟨front, hfront⟩ := (canonical_cases m operands).2
  refine ⟨hd, fun k a hk => ?_⟩
  rw [htexts] at hk ⊢
  obtain ⟨hlt, rfl⟩ := List.getElem?_eq_some_iff.1 hk
  have hlen := hread.length_eq
  have hlt' : k < operands.length := hlen ▸ hlt
  refine ⟨operands[k], ?_, hread.get hlt hlt'⟩
  have hlength : (hd.instr (canonical m operands)).operands.length -
      (operandTexts (m :: args)).length = front.length := by
    show (canonical m operands).2.length - _ = _
    rw [← hfront, List.length_append, hlen]
    omega
  rw [hlength]
  show (canonical m operands).2[front.length + k]? = _
  rw [← hfront, List.getElem?_append_right (by omega), Nat.add_sub_cancel_left]
  exact List.getElem?_eq_getElem hlt'

/-- The registers of a line are found unless one of them has a name that is a
number, or is `fp`. -/
theorem registers_iff {py : Interp} {line : Str} {i : Instruction}
    (h : fromStr py line = .ok (some i)) :
    FindsRegisters (lineOperands line) i ↔
      ∀ a ∈ lineOperands line, a ∉ hexRegs ∧ a ≠ "fp" := by
  obtain ⟨hd, hops⟩ := fromStr_operands h
  constructor
  · intro hfinds a ha
    by_contra hlost
    have habi : ∃ r, (a, r) ∈ abiRegs := abiRegs_of_lost (by tauto)
    obtain ⟨r, hr⟩ := habi
    obtain ⟨k, hk⟩ := List.getElem?_of_mem ha
    obtain ⟨o, ho, hread⟩ := hops k a hk
    rw [hfinds k a r hk hr, Option.some.injEq] at ho
    exact hlost ((readOperand_abi py (some hd) hr).1 (ho ▸ hread))
  · intro hfound k a r hk hr
    obtain ⟨o, ho, hread⟩ := hops k a hk
    have hname := (readOperand_abi py (some hd) hr).2 (hfound a (List.mem_of_getElem? hk))
    rw [hread, Except.ok.injEq] at hname
    rw [ho, hname]

/-- The short jumps and the register names, for every interpreter and every
line. -/
theorem canonical_iff (py : Interp) :
    (∀ (p : ShortJump) (a line line' : Str) (hd : Header) (args args' : List Str),
      Retires py.decimals line hd (p.mnem :: args) → operandTexts (p.mnem :: args) = [a] →
      Retires py.decimals line' hd (p.longMnem :: args') →
      operandTexts (p.longMnem :: args') = [p.link, a] → p.Takes py.decimals a →
      ∃ i i', fromStr py line = .ok (some i) ∧ fromStr py line' = .ok (some i') ∧
        (SameClass i i' ↔ p ≠ .jr ∧ (p = .jalr → a ∉ hexRegs))) ∧
    ∀ (line : Str) (i : Instruction), fromStr py line = .ok (some i) →
      (FindsRegisters (lineOperands line) i ↔
        ∀ a ∈ lineOperands line, a ∉ hexRegs ∧ a ≠ "fp") := by
  refine ⟨?_, fun line i h => registers_iff h⟩
  intro p a line line' hd args args' hline hargs hline' hargs' ha
  exact shortJump_iff hline hargs hline' hargs' ha

/-- A line of the log with this instruction. -/
def demoLine (instr : Str) : Str := ("cycle: 10|core: 0|priv: 3|pc: 0x80|instr: " : Str) ++ instr

/-- A call in short and in full, and a line whose registers are found. -/
theorem demoLine_jal_same :
    (∃ i i', fromStr plainInterp (demoLine "jal pc+0x10\n") = .ok (some i) ∧
      fromStr plainInterp (demoLine "jal x1, pc+0x10\n") = .ok (some i') ∧ SameClass i i') ∧
    ∃ i, fromStr plainInterp (demoLine "addi sp,sp,-16\n") = .ok (some i) ∧
      FindsRegisters (lineOperands (demoLine "addi sp,sp,-16\n")) i := by
  obtain ⟨hjumps, hregs⟩ := canonical_iff plainInterp
  constructor
  · obtain ⟨i, i', hi, hi', hiff⟩ := hjumps .jal "pc+0x10" (demoLine "jal pc+0x10\n")
      (demoLine "jal x1, pc+0x10\n") ⟨10, 128⟩ ["pc+0x10"] ["x1,", "pc+0x10"]
      ⟨by decide +kernel, by decide +kernel, by decide +kernel⟩ (by decide +kernel)
      ⟨by decide +kernel, by decide +kernel, by decide +kernel⟩ (by decide +kernel)
      (.inl ⟨"0x10", 16, .inl rfl, by decide⟩)
    exact ⟨i, i', hi, hi', hiff.2 ⟨by decide, by decide⟩⟩
  · have hi : fromStr plainInterp (demoLine "addi sp,sp,-16\n") =
        .ok (some (Header.instr ⟨10, 128⟩ ("addi", [.name "x2", .name "x2", .num (-16)]))) := by
      decide +kernel
    exact ⟨_, hi, (hregs _ _ hi).2 (by decide +kernel)⟩

/-- `jr ra`, a return, is taken for a call, and `a0` becomes the number 160. -/
theorem demoLine_jr_call :
    (∃ i i', fromStr plainInterp (demoLine "jr ra\n") = .ok (some i) ∧
      fromStr plainInterp (demoLine "jalr x0,ra\n") = .ok (some i') ∧
      i.isCall = .ok true ∧ i'.isCall = .ok false ∧
      i.isReturn = .ok false ∧ i'.isReturn = .ok true) ∧
    ∃ i, fromStr plainInterp (demoLine "addi a0,sp,16\n") = .ok (some i) ∧
      i.operands = [.num 160, .name "x2", .num 16] := by
  have hshort : fromStr plainInterp (demoLine "jr ra\n") =
      .ok (some (Header.instr ⟨10, 128⟩ ("jalr", [.name "x1", .name "x0", .name "x1"]))) := by
    decide +kernel
  have hlong : fromStr plainInterp (demoLine "jalr x0,ra\n") =
      .ok (some (Header.instr ⟨10, 128⟩ ("jalr", [.name "x0", .name "x1"]))) := by
    decide +kernel
  have harg : fromStr plainInterp (demoLine "addi a0,sp,16\n") =
      .ok (some (Header.instr ⟨10, 128⟩ ("addi", [.num 160, .name "x2", .num 16]))) := by
    decide +kernel
  exact ⟨⟨_, _, hshort, hlong, by decide, by decide, by decide, by decide⟩, _, harg, rfl⟩

end AiPipelines.TraceGen

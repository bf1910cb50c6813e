import AiPipelines.PyStd.JsonRoundTrip
import AiPipelines.PyStd.Lines

/-!
# JSON on one line

`json.dumps(v)` without an indent, for files with one value on each line.

`loads_dumpLine` reads the value back.  `mem_dumpLine_iff` says which characters beyond printable
ASCII stand in the text: those of the strings and keys of the value (`texts`) that the encoder
leaves as they are.  Without `ensure_ascii` three of them end a line for `str.splitlines`, so the
text may be more than one line (`exists_break_dumpLine_iff`).

The module names nothing of the repository.
-/

namespace AiPipelines.PyStd.Json

/-! ## The encoder -/

variable (p : FloatPrinter) (ensureAscii : Bool)

mutual

/-- The text of a value on one line. -/
def dumpLine : Json → Str
  | null => "null"
  | bool b => if b then "true" else "false"
  | int n => intLiteral n
  | float l => p.literal l
  | str s => quote ensureAscii s
  | arr [] => "[]"
  | arr (x :: xs) => '[' :: dumpLine x ++ dumpLineItems xs ++ [']']
  | obj [] => "\x7b\x7d"
  | obj ((k, v) :: kvs) =>
    '\x7b' :: quote ensureAscii k ++ [':', ' '] ++ dumpLine v ++ dumpLinePairs kvs ++ ['\x7d']

/-- The further items of an array. -/
def dumpLineItems : List Json → Str
  | [] => []
  | x :: xs => [',', ' '] ++ dumpLine x ++ dumpLineItems xs

/-- The further items of an object. -/
def dumpLinePairs : List (Str × Json) → Str
  | [] => []
  | (k, v) :: kvs =>
    [',', ' '] ++ quote ensureAscii k ++ [':', ' '] ++ dumpLine v ++ dumpLinePairs kvs

end

/-- `json.dumps(v, ensure_ascii=ensureAscii)`. -/
def dumpsLine (depth : Nat) (v : Json) : Except DumpError Str := do
  encodable depth v
  return dumpLine p ensureAscii v

mutual

/-- The strings and keys of a value. -/
def texts : Json → List Str
  | str s => [s]
  | arr xs => textsItems xs
  | obj kvs => textsPairs kvs
  | _ => []

def textsItems : List Json → List Str
  | [] => []
  | x :: xs => texts x ++ textsItems xs

def textsPairs : List (Str × Json) → List Str
  | [] => []
  | (k, v) :: kvs => k :: texts v ++ textsPairs kvs

end

/-! ## Reading back -/

variable {p} {ensureAscii}

theorem dumpLineItems_eq (xs : List Json) :
    dumpLineItems p ensureAscii xs = further [' '] (xs.map (dumpLine p ensureAscii)) := by
  induction xs with
  | nil => rfl
  | cons x xs ih =>
    rw [dumpLineItems, ih]
    simp [further]

theorem dumpLinePairs_eq (kvs : List (Str × Json)) :
    dumpLinePairs p ensureAscii kvs =
      further [' '] (kvs.map (member ensureAscii (dumpLine p ensureAscii))) := by
  induction kvs with
  | nil => rfl
  | cons kv kvs ih =>
    obtain ⟨k, v⟩ := kv
    rw [dumpLinePairs, ih]
    simp [further, member]

theorem readsAs_dumpLine (v : Json) : ReadsAs p v (dumpLine p ensureAscii v) := by
  have hblank : IsGap [' '] := List.forall_mem_singleton.mpr (by decide)
  have hnone : IsGap [] := List.forall_mem_nil _
  induction v using induct with
  | hnull => exact .null
  | hbool b => exact .bool b
  | hint n => exact .int n
  | hfloat l => exact .float l
  | hstr s => exact .str ensureAscii s
  | harr xs ih =>
    cases xs with
    | nil => exact .arr_nil
    | cons x xs =>
      have hline := ReadsAs.arr ih hnone hblank hnone
      simpa [dumpLine, dumpLineItems_eq] using hline
  | hobj kvs ih =>
    cases kvs with
    | nil => exact .obj_nil
    | cons kv kvs =>
      have hline := ReadsAs.obj ensureAscii ih hnone hblank hnone
      simpa [dumpLine, dumpLinePairs_eq, member] using hline

/-- `json.loads(json.dumps(v))` is `v`. -/
theorem loads_dumpLine {depth : Nat} {v : Json} (hkeys : DistinctKeys v)
    (hok : encodable depth v = .ok ()) :
    loads depth (dumpLine p ensureAscii v) = .ok (canon p v) := by
  have hreads : ReadsAs p v (dumpLine p ensureAscii v) := readsAs_dumpLine v
  have hread := hreads.scan depth [] hok hkeys EndsNumber.nil
  rw [List.append_nil] at hread
  exact loads_of_scanOnce hreads.starts hread

/-- An object stands in braces. -/
theorem exists_dumpLine_obj (kvs : List (Str × Json)) :
    ∃ m, dumpLine p ensureAscii (obj kvs) = '\x7b' :: m ++ ['\x7d'] := by
  cases kvs with
  | nil => exact ⟨[], rfl⟩
  | cons kv kvs => exact ⟨_, rfl⟩

/-! ## The characters -/

variable {c : Char}

theorem escapeChar_plain (hc : ¬ IsPrintable c) (hplain : isPlain ensureAscii c = true) :
    escapeChar ensureAscii c = [c] := by
  have hprintable : ∀ d : Char, IsPrintable d → c ≠ d := by
    rintro d hd rfl
    exact hc hd
  have hcontrol : ∀ d : Char, d.toNat < 0x20 → c ≠ d := by
    rintro d hd rfl
    simp only [isPlain, Bool.and_eq_true, decide_eq_true_eq] at hplain
    omega
  unfold escapeChar
  rw [if_neg (hprintable '"' (by decide)), if_neg (hprintable '\\' (by decide)),
    if_neg (hcontrol '\n' (by decide)), if_neg (hcontrol '\r' (by decide)),
    if_neg (hcontrol '\t' (by decide)), if_neg (hcontrol '\x0c' (by decide)),
    if_neg (hcontrol '\x08' (by decide)), if_pos hplain]

theorem mem_quote_iff (hc : ¬ IsPrintable c) {s : Str} :
    c ∈ quote ensureAscii s ↔ isPlain ensureAscii c = true ∧ c ∈ s := by
  have hquote : c ≠ '"' := by
    rintro rfl
    exact hc (by decide)
  rw [quote, List.cons_append, List.mem_cons, List.mem_append, List.mem_flatMap, List.mem_singleton]
  constructor
  · rintro (rfl | ⟨d, hd, hmem⟩ | rfl)
    · exact absurd rfl hquote
    · rcases escapeChar_printable ensureAscii d with hall | ⟨hself, hplain⟩
      · exact absurd (hall c hmem) hc
      · rw [hself, List.mem_singleton] at hmem
        subst hmem
        exact ⟨hplain, hd⟩
    · exact absurd rfl hquote
  · rintro ⟨hplain, hmem⟩
    refine .inr (.inl ⟨c, hmem, ?_⟩)
    rw [escapeChar_plain hc hplain]
    exact List.mem_singleton_self c

theorem mem_further_iff (hc : ¬ IsPrintable c) {gap : Str} (hgap : c ∉ gap) {ts : List Str} :
    c ∈ further gap ts ↔ ∃ t ∈ ts, c ∈ t := by
  have hcomma : c ≠ ',' := by
    rintro rfl
    exact hc (by decide)
  simp [further, hcomma, hgap]

theorem mem_dumpLine_arr (hc : ¬ IsPrintable c) {xs : List Json} :
    c ∈ dumpLine p ensureAscii (arr xs) ↔ ∃ x ∈ xs, c ∈ dumpLine p ensureAscii x := by
  have hnot : ∀ d : Char, IsPrintable d → c ≠ d := by
    rintro d hd rfl
    exact hc hd
  cases xs with
  | nil => simp [dumpLine, hnot '[' (by decide), hnot ']' (by decide)]
  | cons x xs =>
    have hgap : c ∉ [' '] := by simpa using hnot ' ' (by decide)
    simp [dumpLine, dumpLineItems_eq, mem_further_iff hc hgap, hnot '[' (by decide),
      hnot ']' (by decide)]

theorem mem_dumpLine_obj (hc : ¬ IsPrintable c) {kvs : List (Str × Json)} :
    c ∈ dumpLine p ensureAscii (obj kvs) ↔
      ∃ kv ∈ kvs, c ∈ quote ensureAscii kv.1 ∨ c ∈ dumpLine p ensureAscii kv.2 := by
  have hnot : ∀ d : Char, IsPrintable d → c ≠ d := by
    rintro d hd rfl
    exact hc hd
  cases kvs with
  | nil => simp [dumpLine, hnot '\x7b' (by decide), hnot '\x7d' (by decide)]
  | cons kv kvs =>
    have hgap : c ∉ [' '] := by simpa using hnot ' ' (by decide)
    simp [dumpLine, dumpLinePairs_eq, mem_further_iff hc hgap, member, hnot '\x7b' (by decide),
      hnot '\x7d' (by decide), hnot ':' (by decide), hnot ' ' (by decide), or_assoc]

theorem textsItems_eq (xs : List Json) : textsItems xs = xs.flatMap texts := by
  induction xs with
  | nil => rfl
  | cons x xs ih => rw [textsItems, ih, List.flatMap_cons]

theorem textsPairs_eq (kvs : List (Str × Json)) :
    textsPairs kvs = kvs.flatMap fun kv => kv.1 :: texts kv.2 := by
  induction kvs with
  | nil => rfl
  | cons kv kvs ih => rw [textsPairs, ih, List.flatMap_cons]

/-- Beyond printable ASCII the text has what the encoder leaves of the strings and keys. -/
theorem mem_dumpLine_iff (hc : ¬ IsPrintable c) (v : Json) :
    c ∈ dumpLine p ensureAscii v ↔ isPlain ensureAscii c = true ∧ ∃ s ∈ texts v, c ∈ s := by
  have hprintable : ∀ {t : Str}, (∀ d ∈ t, IsPrintable d) → c ∉ t := fun h hmem => hc (h c hmem)
  induction v using induct with
  | hnull =>
    have hword : c ∉ ("null" : Str) := hprintable (isPrintable_of_all (by decide))
    simpa [texts, dumpLine] using hword
  | hbool b =>
    have htrue : c ∉ ("true" : Str) := hprintable (isPrintable_of_all (by decide))
    have hfalse : c ∉ ("false" : Str) := hprintable (isPrintable_of_all (by decide))
    cases b
    · simpa [texts, dumpLine] using hfalse
    · simpa [texts, dumpLine] using htrue
  | hint n =>
    have hnumber := hprintable (intLiteral_printable n)
    simpa [texts, dumpLine] using hnumber
  | hfloat l =>
    have hnumber := hprintable (isFloat_printable (p.literal_isFloat l))
    simpa [texts, dumpLine] using hnumber
  | hstr s =>
    show c ∈ quote ensureAscii s ↔ _
    rw [mem_quote_iff hc]
    simp [texts]
  | harr xs ih =>
    rw [mem_dumpLine_arr hc, texts, textsItems_eq]
    constructor
    · rintro ⟨x, hx, hmem⟩
      obtain ⟨hplain, s, hs, hcs⟩ := (ih x hx).mp hmem
      exact ⟨hplain, s, List.mem_flatMap.mpr ⟨x, hx, hs⟩, hcs⟩
    · rintro ⟨hplain, s, hs, hcs⟩
      obtain ⟨x, hx, hs⟩ := List.mem_flatMap.mp hs
      exact ⟨x, hx, (ih x hx).mpr ⟨hplain, s, hs, hcs⟩⟩
  | hobj kvs ih =>
    rw [mem_dumpLine_obj hc, texts, textsPairs_eq]
    constructor
    · rintro ⟨kv, hkv, hmem | hmem⟩
      · obtain ⟨hplain, hcs⟩ := (mem_quote_iff hc).mp hmem
        exact ⟨hplain, kv.1, List.mem_flatMap.mpr ⟨kv, hkv, List.mem_cons_self⟩, hcs⟩
      · obtain ⟨hplain, s, hs, hcs⟩ := (ih kv hkv).mp hmem
        exact ⟨hplain, s, List.mem_flatMap.mpr ⟨kv, hkv, List.mem_cons_of_mem _ hs⟩, hcs⟩
    · rintro ⟨hplain, s, hs, hcs⟩
      obtain ⟨kv, hkv, hs⟩ := List.mem_flatMap.mp hs
      refine ⟨kv, hkv, ?_⟩
      rcases List.mem_cons.mp hs with rfl | hs
      · exact .inl ((mem_quote_iff hc).mpr ⟨hplain, hcs⟩)
      · exact .inr ((ih kv hkv).mpr ⟨hplain, s, hs, hcs⟩)

/-- The text has a line end of `str.splitlines` that JSON need not escape: next line, line
separator or paragraph separator. -/
def CutsLine (s : Str) : Prop := '\u0085' ∈ s ∨ '\u2028' ∈ s ∨ '\u2029' ∈ s

instance (s : Str) : Decidable (CutsLine s) := inferInstanceAs (Decidable (_ ∨ _))

theorem cutsLine_iff {s : Str} :
    CutsLine s ↔ ∃ c ∈ s, isLineBreak c = true ∧ isPlain false c = true := by
  constructor
  · rintro (h | h | h) <;> exact ⟨_, h, by decide⟩
  · rintro ⟨c, hc, hbreak, hplain⟩
    have hcases : c.toNat = 0x85 ∨ c.toNat = 0x2028 ∨ c.toNat = 0x2029 := by
      simp only [isLineBreak, isPlain, Bool.and_eq_true, Bool.or_eq_true, decide_eq_true_eq,
        beq_iff_eq] at hbreak hplain
      omega
    rcases hcases with h | h | h
    · obtain rfl : c = '\u0085' := Char.toNat_inj.mp h
      exact .inl hc
    · obtain rfl : c = '\u2028' := Char.toNat_inj.mp h
      exact .inr (.inl hc)
    · obtain rfl : c = '\u2029' := Char.toNat_inj.mp h
      exact .inr (.inr hc)

theorem isLineBreak_not_printable (h : isLineBreak c = true) : ¬ IsPrintable c := by
  rintro ⟨hlow, hhigh⟩
  simp only [isLineBreak, Bool.and_eq_true, Bool.or_eq_true, decide_eq_true_eq, beq_iff_eq] at h
  omega

/-- When the text of a value is more than one line. -/
theorem exists_break_dumpLine_iff (v : Json) :
    (∃ c ∈ dumpLine p false v, isLineBreak c = true) ↔ ∃ s ∈ texts v, CutsLine s := by
  constructor
  · rintro ⟨c, hc, hbreak⟩
    obtain ⟨hplain, s, hs, hcs⟩ := (mem_dumpLine_iff (isLineBreak_not_printable hbreak) v).mp hc
    exact ⟨s, hs, cutsLine_iff.mpr ⟨c, hcs, hbreak, hplain⟩⟩
  · rintro ⟨s, hs, hcut⟩
    obtain ⟨c, hcs, hbreak, hplain⟩ := cutsLine_iff.mp hcut
    exact ⟨c, (mem_dumpLine_iff (isLineBreak_not_printable hbreak) v).mpr ⟨hplain, s, hs, hcs⟩,
      hbreak⟩

/-- A carriage return is always escaped. -/
theorem dumpLine_no_return (v : Json) : '\r' ∉ dumpLine p ensureAscii v := by
  intro hmem
  have hplain := ((mem_dumpLine_iff (by decide) v).mp hmem).1
  cases ensureAscii <;> exact absurd hplain (by decide)

end AiPipelines.PyStd.Json

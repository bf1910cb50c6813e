import AiPipelines.PyStd.JsonDump
import AiPipelines.PyStd.TextFile
import Mathlib.Tactic.IntervalCases

/-!
# What is dumped is loaded

`loads_dumps`: the decoder reads from a dumped text the value that was dumped,
with every float as its printed literal.  `loads_readText` is the same through a
file.

A scanner takes the front of a text and hands the rest on, so each lemma is
about a text with something behind it.  `ReadsAs` says that a text is read as a
value wherever what stands behind it ends a number.  `ReadsAs.arr` and
`ReadsAs.obj` build such texts, with any blanks between the items, and
`readsAs_dump` is the layout of `dump`.
-/

namespace AiPipelines.PyStd.Json

/-! ## Strings -/

theorem hexDigit?_digitChar {n : Nat} (h : n < 16) : hexDigit? n.digitChar = some n := by
  have hall : ∀ m < 16, hexDigit? (Nat.digitChar m) = some m := by decide
  exact hall n h

theorem hex4?_digits {n : Nat} (h : n < 65536) :
    hex4? (Nat.digitChar (n / 4096)) (Nat.digitChar (n / 256 % 16)) (Nat.digitChar (n / 16 % 16))
      (Nat.digitChar (n % 16)) = some n := by
  rw [hex4?, hexDigit?_digitChar (by omega), hexDigit?_digitChar (by omega),
    hexDigit?_digitChar (by omega), hexDigit?_digitChar (by omega)]
  show some (4096 * (n / 4096) + 256 * (n / 256 % 16) + 16 * (n / 16 % 16) + n % 16) = some n
  congr 1
  omega

/-- Put a unit in front of what the scanner read. -/
def consUnit (n : Nat) (r : Except LoadError (List Nat × Str)) :
    Except LoadError (List Nat × Str) :=
  r.map fun q => (n :: q.1, q.2)

theorem scanUnits_escapeUnit {n : Nat} (h : n < 65536) (rest : Str) :
    scanUnits (escapeUnit n ++ rest) = consUnit n (scanUnits rest) := by
  show scanUnits ('\\' :: 'u' :: _ :: _ :: _ :: _ :: rest) = _
  rw [scanUnits, hex4?_digits h]
  rfl

theorem scanUnits_escape {c d : Char} (h : escape? c = some d) (hu : c ≠ 'u') (rest : Str) :
    scanUnits ('\\' :: c :: rest) = consUnit d.toNat (scanUnits rest) := by
  rw [scanUnits]
  · rw [h]
    rfl
  · intro a b c' d' rest' hc _
    exact hu hc

theorem scanUnits_plain {c : Char} (hquote : c ≠ '"') (hslash : c ≠ '\\') (hlow : 0x20 ≤ c.toNat)
    (rest : Str) : scanUnits (c :: rest) = consUnit c.toNat (scanUnits rest) := by
  rw [scanUnits]
  · rw [if_neg]
    · rfl
    · intro hbad
      rcases hbad with hbad | hbad
      · omega
      · exact hslash hbad
  · exact fun hc => hquote hc
  · exact fun a b c' d' rest' hc _ => hslash hc
  · exact fun c' rest' hc _ => hslash hc

/-- The code units of one character as it is dumped. -/
def charUnits (ensureAscii : Bool) (c : Char) : List Nat :=
  if isPlain ensureAscii c ∨ c.toNat < 0x10000 then [c.toNat] else surrogates c.toNat

/-- Put units in front of what the scanner read. -/
def consUnits (ns : List Nat) (r : Except LoadError (List Nat × Str)) :
    Except LoadError (List Nat × Str) :=
  ns.foldr consUnit r

/-- No character is a surrogate. -/
theorem toNat_valid (c : Char) : c.toNat < 0xd800 ∨ 0xdfff < c.toNat ∧ c.toNat < 0x110000 := c.valid

theorem surrogates_lt (c : Char) : ∀ n ∈ surrogates c.toNat, n < 65536 := by
  have hvalid := toNat_valid c
  intro n hn
  simp only [surrogates, List.mem_cons, List.not_mem_nil, or_false] at hn
  rcases hn with hn | hn <;> omega

/-- A character is written with a letter, as it is, or as one or two units. -/
theorem escapeChar_cases (ensureAscii : Bool) (c : Char) :
    (∃ e, escape? e = some c ∧ e ≠ 'u' ∧ escapeChar ensureAscii c = ['\\', e]) ∨
      (c ≠ '"' ∧ c ≠ '\\' ∧ isPlain ensureAscii c = true ∧ escapeChar ensureAscii c = [c]) ∨
      (isPlain ensureAscii c = false ∧ c.toNat < 0x10000 ∧
        escapeChar ensureAscii c = escapeUnit c.toNat) ∨
      (isPlain ensureAscii c = false ∧ ¬ c.toNat < 0x10000 ∧
        escapeChar ensureAscii c = (surrogates c.toNat).flatMap escapeUnit) := by
  by_cases hquote : c = '"'
  · subst hquote
    exact .inl ⟨'"', rfl, by decide, rfl⟩
  by_cases hslash : c = '\\'
  · subst hslash
    exact .inl ⟨'\\', rfl, by decide, rfl⟩
  by_cases hn : c = '\n'
  · subst hn
    exact .inl ⟨'n', rfl, by decide, rfl⟩
  by_cases hr : c = '\r'
  · subst hr
    exact .inl ⟨'r', rfl, by decide, rfl⟩
  by_cases ht : c = '\t'
  · subst ht
    exact .inl ⟨'t', rfl, by decide, rfl⟩
  by_cases hf : c = '\x0c'
  · subst hf
    exact .inl ⟨'f', rfl, by decide, rfl⟩
  by_cases hb : c = '\x08'
  · subst hb
    exact .inl ⟨'b', rfl, by decide, rfl⟩
  have hother : escapeChar ensureAscii c =
      if isPlain ensureAscii c then [c]
      else if c.toNat < 0x10000 then escapeUnit c.toNat
      else (surrogates c.toNat).flatMap escapeUnit := by
    unfold escapeChar
    rw [if_neg hquote, if_neg hslash, if_neg hn, if_neg hr, if_neg ht, if_neg hf, if_neg hb]
  rw [hother]
  by_cases hplain : isPlain ensureAscii c = true
  · exact .inr (.inl ⟨hquote, hslash, hplain, if_pos hplain⟩)
  rw [if_neg hplain]
  rw [Bool.not_eq_true] at hplain
  by_cases hlow : c.toNat < 0x10000
  · exact .inr (.inr (.inl ⟨hplain, hlow, if_pos hlow⟩))
  · exact .inr (.inr (.inr ⟨hplain, hlow, if_neg hlow⟩))

theorem escape?_lt {c e : Char} (h : escape? e = some c) : c.toNat < 0x10000 := by
  unfold escape? at h
  split at h <;> cases h <;> decide

theorem scanUnits_escapeChar (ensureAscii : Bool) (c : Char) (rest : Str) :
    scanUnits (escapeChar ensureAscii c ++ rest) =
      consUnits (charUnits ensureAscii c) (scanUnits rest) := by
  have hsmall : c.toNat < 0x10000 →
      consUnits (charUnits ensureAscii c) (scanUnits rest) = consUnit c.toNat (scanUnits rest) := by
    intro hc
    rw [charUnits, if_pos (Or.inr hc)]
    rfl
  rcases escapeChar_cases ensureAscii c with
    ⟨e, he, hu, hesc⟩ | ⟨hquote, hslash, hplain, hesc⟩ | ⟨-, hlow, hesc⟩ | ⟨hplain, hhigh, hesc⟩
  · rw [hesc, hsmall (escape?_lt he)]
    exact scanUnits_escape he hu rest
  · have hlow : 0x20 ≤ c.toNat := by
      simp only [isPlain, Bool.and_eq_true, decide_eq_true_eq] at hplain
      exact hplain.1
    rw [hesc, charUnits, if_pos (Or.inl hplain)]
    exact scanUnits_plain hquote hslash hlow rest
  · rw [hesc, hsmall hlow]
    exact scanUnits_escapeUnit hlow rest
  · have hpair := surrogates_lt c
    rw [hesc, charUnits, if_neg fun h => h.elim (Bool.eq_false_iff.mp hplain) hhigh]
    simp only [surrogates, List.mem_cons, List.not_mem_nil, or_false, forall_eq_or_imp,
      forall_eq] at hpair
    simp only [surrogates, List.flatMap_cons, List.flatMap_nil, List.append_nil, List.append_assoc]
    rw [scanUnits_escapeUnit hpair.1, scanUnits_escapeUnit hpair.2]
    rfl

theorem unicodeChar_toNat (c : Char) : unicodeChar c.toNat = c := by
  have hvalid : c.toNat.isValidChar := c.valid
  rw [unicodeChar, dif_pos hvalid]
  rfl

/-- A unit that is no surrogate is a character of its own. -/
theorem joinSurrogates_cons {n : Nat} (h : ¬ (0xd800 ≤ n ∧ n ≤ 0xdbff)) (ns : List Nat) :
    joinSurrogates (n :: ns) = unicodeChar n :: joinSurrogates ns := by
  cases ns with
  | nil => rfl
  | cons lo ns =>
    rw [joinSurrogates, if_neg]
    exact fun hpair => h ⟨hpair.1, hpair.2.1⟩

theorem joinSurrogates_charUnits (ensureAscii : Bool) (c : Char) (ns : List Nat) :
    joinSurrogates (charUnits ensureAscii c ++ ns) = c :: joinSurrogates ns := by
  have hvalid := toNat_valid c
  unfold charUnits
  split_ifs with hone
  · rw [List.singleton_append, joinSurrogates_cons (by omega), unicodeChar_toNat]
  · have hhigh : 0x10000 ≤ c.toNat := Nat.le_of_not_lt fun h => hone (Or.inr h)
    have hjoin : 0x10000 + 1024 * (0xd800 + (c.toNat - 0x10000) / 1024 - 0xd800) +
        (0xdc00 + (c.toNat - 0x10000) % 1024 - 0xdc00) = c.toNat := by omega
    rw [surrogates, List.cons_append, List.singleton_append, joinSurrogates, if_pos (by omega),
      hjoin, unicodeChar_toNat]

theorem scanUnits_escaped (ensureAscii : Bool) (s rest : Str) :
    scanUnits (s.flatMap (escapeChar ensureAscii) ++ '"' :: rest) =
      .ok (s.flatMap (charUnits ensureAscii), rest) := by
  induction s with
  | nil =>
    rw [List.flatMap_nil, List.nil_append, scanUnits]
    rfl
  | cons c s ih =>
    rw [List.flatMap_cons, List.append_assoc, scanUnits_escapeChar, ih, List.flatMap_cons]
    generalize charUnits ensureAscii c = ns
    induction ns with
    | nil => rfl
    | cons n ns ihn =>
      show consUnit n (consUnits ns _) = _
      rw [ihn]
      rfl

theorem joinSurrogates_units (ensureAscii : Bool) (s : Str) :
    joinSurrogates (s.flatMap (charUnits ensureAscii)) = s := by
  induction s with
  | nil => rfl
  | cons c s ih => rw [List.flatMap_cons, joinSurrogates_charUnits, ih]

/-- A dumped string is read back. -/
theorem scanString_escaped (ensureAscii : Bool) (s rest : Str) :
    scanString (s.flatMap (escapeChar ensureAscii) ++ '"' :: rest) = .ok (s, rest) := by
  rw [scanString, scanUnits_escaped]
  show Except.ok (joinSurrogates (s.flatMap (charUnits ensureAscii)), rest) = _
  rw [joinSurrogates_units]

/-! ## Numbers -/

/-- What stands behind a value in an indented text: nothing, a comma or a line
feed. -/
def Delimited (rest : Str) : Prop := ∀ c ∈ rest.head?, c = ',' ∨ c = '\n'

theorem Delimited.nil : Delimited [] := by
  intro c hc
  cases hc

/-- The text ends a number: it is empty or goes on with a character that no
number has. -/
def EndsNumber (rest : Str) : Prop :=
  ∀ c ∈ rest.head?, isDigit c = false ∧ c ≠ '.' ∧ c ≠ 'e' ∧ c ≠ 'E' ∧ c ≠ '+' ∧ c ≠ '-'

theorem EndsNumber.nil : EndsNumber [] := by
  intro c hc
  cases hc

variable {rest : Str}

theorem Delimited.endsNumber (h : Delimited rest) : EndsNumber rest := by
  intro c hc
  rcases h c hc with rfl | rfl <;> decide

theorem EndsNumber.not_digit (h : EndsNumber rest) : ∀ c ∈ rest.head?, isDigit c = false :=
  fun c hc => (h c hc).1

theorem takeWhile_append_stop {q : Char → Bool} {s : Str} (h : ∀ c ∈ rest.head?, q c = false) :
    (s ++ rest).takeWhile q = s.takeWhile q := by
  induction s with
  | nil =>
    cases rest with
    | nil => rfl
    | cons c rest => simp [h c rfl]
  | cons a s ih => by_cases ha : q a = true <;> simp [ha, ih]

theorem dropWhile_append_stop {q : Char → Bool} {s : Str} (h : ∀ c ∈ rest.head?, q c = false) :
    (s ++ rest).dropWhile q = s.dropWhile q ++ rest := by
  induction s with
  | nil =>
    cases rest with
    | nil => rfl
    | cons c rest => simp [h c rfl]
  | cons a s ih => by_cases ha : q a = true <;> simp [ha, ih]

theorem scanIntPart_append {s ip r : Str} (h : EndsNumber rest)
    (hs : scanIntPart s = some (ip, r)) :
    scanIntPart (s ++ rest) = some (ip, r ++ rest) := by
  have hstop := h.not_digit
  cases s with
  | nil => cases hs
  | cons c s =>
    rw [List.cons_append]
    by_cases hzero : c = '0'
    · subst hzero
      obtain ⟨rfl, rfl⟩ := Prod.mk.inj (Option.some.inj hs)
      rfl
    · rw [scanIntPart] at hs ⊢
      · split_ifs at hs ⊢ with hdigit
        obtain ⟨rfl, rfl⟩ := Prod.mk.inj (Option.some.inj hs)
        rw [takeWhile_append_stop hstop, dropWhile_append_stop hstop]
      · exact hzero
      · exact hzero

theorem scanFrac_of_ne {c : Char} (h : c ≠ '.') (s : Str) : scanFrac (c :: s) = ([], c :: s) := by
  rw [scanFrac]
  exact fun _ _ hc => h (List.cons.inj hc).1

theorem scanFrac_append (h : EndsNumber rest) (s : Str) :
    scanFrac (s ++ rest) = ((scanFrac s).1, (scanFrac s).2 ++ rest) := by
  have hstop := h.not_digit
  cases s with
  | nil =>
    cases rest with
    | nil => rfl
    | cons c rest => exact scanFrac_of_ne (h c rfl).2.1 rest
  | cons c s =>
    by_cases hc : c = '.'
    · subst hc
      cases s with
      | nil =>
        cases rest with
        | nil => rfl
        | cons d rest => simp [scanFrac, hstop d rfl]
      | cons d s =>
        simp only [List.cons_append, scanFrac]
        split_ifs with hdigit
        · rw [takeWhile_append_stop hstop, dropWhile_append_stop hstop]
        · rfl
    · rw [List.cons_append, scanFrac_of_ne hc, scanFrac_of_ne hc, List.cons_append]

theorem scanExp_of_ne {c : Char} (h : ¬ (c = 'e' ∨ c = 'E')) (s : Str) :
    scanExp (c :: s) = ([], c :: s) := by
  match s with
  | [] => rfl
  | [d] => simp [scanExp, h]
  | d :: d' :: s => simp [scanExp, h]

theorem scanExp_append (h : EndsNumber rest) (s : Str) :
    scanExp (s ++ rest) = ((scanExp s).1, (scanExp s).2 ++ rest) := by
  have hstop := h.not_digit
  have hsign : ∀ c ∈ rest.head?, ¬ (c = '+' ∨ c = '-') := by
    intro c hc hsgn
    obtain ⟨-, -, -, -, hplus, hminus⟩ := h c hc
    exact hsgn.elim hplus hminus
  cases s with
  | nil =>
    cases rest with
    | nil => rfl
    | cons c rest =>
      obtain ⟨-, -, he, hE, -, -⟩ := h c rfl
      exact scanExp_of_ne (fun hc => hc.elim he hE) rest
  | cons e s =>
    by_cases he : e = 'e' ∨ e = 'E'
    · match s, rest with
      | [], [] => rfl
      | [], [d] => simp [scanExp, hstop d rfl]
      | [], d :: d' :: rest =>
        have hd : ¬ (d = '+' ∨ d = '-') := hsign d rfl
        simp [scanExp, hstop d rfl, hd]
      | [c], [] => simp
      | [c], d :: rest =>
        simp only [List.cons_append, List.nil_append, scanExp, hstop d rfl, he]
        by_cases hc : isDigit c = true <;> simp [hc, hstop d rfl]
      | sgn :: c :: s, rest =>
        simp only [List.cons_append, scanExp]
        split_ifs with h₁ h₂
        · rw [takeWhile_append_stop hstop, dropWhile_append_stop hstop]
        · rw [← List.cons_append, takeWhile_append_stop hstop, dropWhile_append_stop hstop]
        · rfl
    · rw [List.cons_append, scanExp_of_ne he, scanExp_of_ne he, List.cons_append]

/-- A number ends where it ends alone. -/
theorem scanNumber_append {neg : Bool} {s r : Str} {v : Json} (h : EndsNumber rest)
    (hs : scanNumber neg s = .ok (v, r)) : scanNumber neg (s ++ rest) = .ok (v, r ++ rest) := by
  unfold scanNumber at hs ⊢
  cases hint : scanIntPart s with
  | none =>
    rw [hint] at hs
    cases hs
  | some q =>
    obtain ⟨ip, r₀⟩ := q
    rw [hint] at hs
    rw [scanIntPart_append h hint]
    simp only [scanFrac_append h, scanExp_append h] at hs ⊢
    by_cases hnone : (scanFrac r₀).1 = [] ∧ (scanExp (scanFrac r₀).2).1 = []
    · rw [if_pos hnone] at hs ⊢
      split_ifs at hs ⊢ with hdigits
      all_goals
        obtain ⟨rfl, rfl⟩ := Prod.mk.inj (Except.ok.inj hs)
        rfl
    · rw [if_neg hnone] at hs ⊢
      obtain ⟨rfl, rfl⟩ := Prod.mk.inj (Except.ok.inj hs)
      rfl

theorem isDigit_iff {c : Char} : isDigit c = true ↔ 48 ≤ c.toNat ∧ c.toNat ≤ 57 := by
  rw [isDigit, Bool.and_eq_true, decide_eq_true_eq, decide_eq_true_eq]
  exact Iff.rfl

/-- A digit is one of ten characters. -/
theorem isDigit_cases {P : Char → Prop} (h : ∀ n < 10, P (Nat.digitChar n)) {c : Char}
    (hc : isDigit c = true) : P c := by
  rw [isDigit_iff] at hc
  have hchar : Nat.digitChar (c.toNat - 48) = c := by
    apply Char.toNat_inj.mp
    rw [Nat.toNat_digitChar_of_lt_ten (by omega)]
    omega
  exact hchar ▸ h (c.toNat - 48) (by omega)

/-- The value scanner reads a number from its first digit on. -/
theorem scanOnce_digit (depth : Nat) {c : Char} (h : isDigit c = true) (s : Str) :
    scanOnce depth (c :: s) = scanNumber false (c :: s) := by
  refine isDigit_cases (P := fun c => scanOnce depth (c :: s) = scanNumber false (c :: s)) ?_ h
  intro n hn
  interval_cases n <;> cases depth <;> rfl

theorem scanOnce_minus (depth : Nat) {c : Char} (h : isDigit c = true) (s : Str) :
    scanOnce depth ('-' :: c :: s) = scanNumber true (c :: s) := by
  refine isDigit_cases
    (P := fun c => scanOnce depth ('-' :: c :: s) = scanNumber true (c :: s)) ?_ h
  intro n hn
  interval_cases n <;> cases depth <;> rfl

theorem isDigit_of_mem_toDigits {n : Nat} {c : Char} (h : c ∈ Nat.toDigits 10 n) :
    isDigit c = true := by
  have hc : c.isDigit = true := Nat.isDigit_of_mem_toDigits (by omega) (by omega) h
  rw [Char.isDigit, Bool.and_eq_true, decide_eq_true_eq, decide_eq_true_eq] at hc
  exact isDigit_iff.mpr hc

/-- Only the number 0 is printed with a leading zero. -/
theorem head_toDigits_ne_zero {n : Nat} (h : 0 < n) : (Nat.toDigits 10 n).head? ≠ some '0' := by
  induction n using Nat.strongRecOn with
  | ind n ih =>
    by_cases hlt : n < 10
    · rw [Nat.toDigits_of_lt_base hlt]
      intro hzero
      have hn := Nat.digitChar_eq_zero.mp (Option.some.inj hzero)
      omega
    · have hrest := ih (n / 10) (by omega) (by omega)
      rw [Nat.toDigits_of_base_le (by omega) (by omega),
        List.head?_append_of_ne_nil _ Nat.toDigits_ne_nil]
      exact hrest

theorem scanIntPart_toDigits (n : Nat) :
    scanIntPart (Nat.toDigits 10 n) = some (Nat.toDigits 10 n, []) := by
  rcases Nat.eq_zero_or_pos n with rfl | hpos
  · rfl
  · have hhead := head_toDigits_ne_zero hpos
    have hall : ∀ c ∈ Nat.toDigits 10 n, isDigit c = true := fun c => isDigit_of_mem_toDigits
    cases hds : Nat.toDigits 10 n with
    | nil => exact absurd hds Nat.toDigits_ne_nil
    | cons c ds =>
      rw [hds] at hhead hall
      have hds' : ∀ d ∈ ds, isDigit d = true := fun d hd => hall d (List.mem_cons_of_mem c hd)
      rw [scanIntPart]
      · rw [if_pos (hall c List.mem_cons_self), List.takeWhile_eq_self_iff.mpr hds',
          List.dropWhile_eq_nil_iff.mpr hds']
      · intro hc
        exact hhead (congrArg some hc)

theorem scanNumber_toDigits (neg : Bool) {n : Nat}
    (h : (Nat.toDigits 10 n).length ≤ intMaxStrDigits) :
    scanNumber neg (Nat.toDigits 10 n) = .ok (.int (if neg then -(n : Int) else n), []) := by
  have hvalue : digitsToNat (Nat.toDigits 10 n) = n := Nat.ofDigitChars_ten_toDigits
  rw [scanNumber, scanIntPart_toDigits]
  simp only [scanFrac, scanExp, hvalue, and_self, if_true]
  rw [if_neg (Nat.not_lt.mpr h)]

/-- A dumped integer is read back. -/
theorem scanOnce_intLiteral (depth : Nat) {n : Int} (hrest : EndsNumber rest)
    (h : (Nat.toDigits 10 n.natAbs).length ≤ intMaxStrDigits) :
    scanOnce depth (intLiteral n ++ rest) = .ok (.int n, rest) := by
  have hdigits : ∀ m : Nat, ∃ c ds, Nat.toDigits 10 m = c :: ds ∧ isDigit c = true := by
    intro m
    cases hds : Nat.toDigits 10 m with
    | nil => exact absurd hds Nat.toDigits_ne_nil
    | cons c ds => exact ⟨c, ds, rfl, isDigit_of_mem_toDigits (hds ▸ List.mem_cons_self)⟩
  cases n with
  | ofNat m =>
    obtain ⟨c, ds, hds, hc⟩ := hdigits m
    have hscan := scanNumber_append hrest (scanNumber_toDigits false h)
    rw [intLiteral, hds, List.cons_append, scanOnce_digit depth hc, ← List.cons_append, ← hds]
    exact hscan
  | negSucc m =>
    obtain ⟨c, ds, hds, hc⟩ := hdigits (m + 1)
    have hscan := scanNumber_append hrest (scanNumber_toDigits true h)
    rw [intLiteral, hds, List.cons_append, List.cons_append, scanOnce_minus depth hc,
      ← List.cons_append, ← hds]
    exact hscan

/-- What the number scanner reads starts with a digit. -/
theorem scanNumber_ok_head {neg : Bool} {s r : Str} {v : Json} (h : scanNumber neg s = .ok (v, r)) :
    ∃ c s', s = c :: s' ∧ isDigit c = true := by
  cases s with
  | nil => cases h
  | cons c s =>
    refine ⟨c, s, rfl, ?_⟩
    by_contra hc
    have hzero : c ≠ '0' := by
      intro hz
      subst hz
      exact hc (by decide)
    have hint : scanIntPart (c :: s) = none := by
      rw [scanIntPart]
      · exact if_neg hc
      · exact hzero
    rw [scanNumber, hint] at h
    cases h

theorem scansFloat_iff {neg : Bool} {s l : Str} :
    scansFloat neg s l = true ↔ scanNumber neg s = .ok (.float l, []) := by
  unfold scansFloat
  constructor
  · intro h
    split at h
    · next l' heq => rw [heq, beq_iff_eq.mp h]
    · cases h
  · intro h
    rw [h]
    exact beq_self_eq_true l

/-- The literals of floats: three names, and the numbers that are no integers. -/
theorem isFloat_cases {l : Str} (h : isFloat l = true) :
    (l = ("NaN" : Str) ∨ l = ("Infinity" : Str) ∨ l = ("-Infinity" : Str)) ∨
      (∃ s, l = '-' :: s ∧ scanNumber true s = .ok (.float l, [])) ∨
      scanNumber false l = .ok (.float l, []) := by
  unfold isFloat at h
  rw [Bool.or_eq_true, Bool.or_eq_true, Bool.or_eq_true, beq_iff_eq, beq_iff_eq, beq_iff_eq] at h
  rcases h with ((h | h) | h) | h
  · exact Or.inl (Or.inl h)
  · exact Or.inl (Or.inr (Or.inl h))
  · exact Or.inl (Or.inr (Or.inr h))
  · split at h
    · next s => exact Or.inr (Or.inl ⟨s, rfl, scansFloat_iff.mp h⟩)
    · exact Or.inr (Or.inr (scansFloat_iff.mp h))

/-- A dumped float is read back. -/
theorem scanOnce_float (depth : Nat) {l : Str} (hrest : EndsNumber rest) (h : isFloat l = true) :
    scanOnce depth (l ++ rest) = .ok (.float l, rest) := by
  rcases isFloat_cases h with hname | ⟨s, rfl, hscan⟩ | hscan
  · rcases hname with rfl | rfl | rfl <;> cases depth <;> rfl
  · obtain ⟨c, s', rfl, hc⟩ := scanNumber_ok_head hscan
    have hnumber := scanNumber_append hrest hscan
    rw [List.cons_append, List.cons_append, scanOnce_minus depth hc]
    exact hnumber
  · obtain ⟨c, s', rfl, hc⟩ := scanNumber_ok_head hscan
    have hnumber := scanNumber_append hrest hscan
    rw [List.cons_append, scanOnce_digit depth hc]
    exact hnumber

/-! ## Values -/

variable {p : FloatPrinter} {ensureAscii : Bool}

/-- The character is none of the blanks between tokens. -/
def IsToken (c : Char) : Prop := (c == ' ' || c == '\t' || c == '\n' || c == '\r') = false

instance (c : Char) : Decidable (IsToken c) := inferInstanceAs (Decidable (_ = false))

/-- A text that starts neither with a blank nor with a closing bracket or a byte
order mark. -/
def StartsValue (s : Str) : Prop := ∃ c s', s = c :: s' ∧ c ≠ ']' ∧ c ≠ '\ufeff' ∧ IsToken c

theorem StartsValue.append {s : Str} (h : StartsValue s) (rest : Str) :
    StartsValue (s ++ rest) := by
  obtain ⟨c, s', rfl, hc⟩ := h
  exact ⟨c, s' ++ rest, rfl, hc⟩

theorem StartsValue.of_digit {c : Char} (h : isDigit c = true) (s : Str) :
    StartsValue (c :: s) := by
  refine isDigit_cases (P := fun c => StartsValue (c :: s)) ?_ h
  intro n hn
  refine ⟨_, s, rfl, ?_⟩
  interval_cases n <;> decide

theorem startsValue_float {l : Str} (h : isFloat l = true) : StartsValue l := by
  rcases isFloat_cases h with hname | ⟨s, rfl, hscan⟩ | hscan
  · rcases hname with rfl | rfl | rfl <;> exact ⟨_, _, rfl, by decide⟩
  · exact ⟨_, _, rfl, by decide⟩
  · obtain ⟨c, s', rfl, hc⟩ := scanNumber_ok_head hscan
    exact StartsValue.of_digit hc s'

theorem startsValue_int (n : Int) : StartsValue (intLiteral n) := by
  cases n with
  | ofNat m =>
    show StartsValue (Nat.toDigits 10 m)
    cases hds : Nat.toDigits 10 m with
    | nil => exact absurd hds Nat.toDigits_ne_nil
    | cons c ds =>
      exact StartsValue.of_digit (isDigit_of_mem_toDigits (hds ▸ List.mem_cons_self)) ds
  | negSucc m => exact ⟨_, _, rfl, by decide⟩

theorem skipWs_token {c : Char} (h : IsToken c) (s : Str) : skipWs (c :: s) = c :: s := by
  unfold skipWs
  rw [List.dropWhile_cons_of_neg]
  exact Bool.eq_false_iff.mp h

/-- A text of blanks between tokens. -/
def IsGap (gap : Str) : Prop := ∀ c ∈ gap, ¬ IsToken c

theorem isGap_newline (level : Nat) : IsGap (newline level) := by
  refine List.forall_mem_cons.mpr ⟨by decide, fun c hc => ?_⟩
  rw [List.eq_of_mem_replicate hc]
  decide

theorem skipWs_gap {gap : Str} (h : IsGap gap) (s : Str) : skipWs (gap ++ s) = skipWs s :=
  List.dropWhile_append_of_pos fun c hc => Bool.not_eq_false _ ▸ h c hc

theorem EndsNumber.gap {gap : Str} (hgap : IsGap gap) (h : EndsNumber rest) :
    EndsNumber (gap ++ rest) := by
  cases gap with
  | nil => exact h
  | cons c gap =>
    have hc := hgap c List.mem_cons_self
    intro d hd
    obtain rfl : c = d := Option.some.inj hd
    simp only [IsToken, Bool.not_eq_false, Bool.or_eq_true, beq_iff_eq] at hc
    rcases hc with ((rfl | rfl) | rfl) | rfl <;> decide

theorem StartsValue.skipWs {s : Str} (h : StartsValue s) : skipWs s = s := by
  obtain ⟨c, s', rfl, -, -, hc⟩ := h
  exact skipWs_token hc s'

theorem skipWs_blank (s : Str) : skipWs (' ' :: s) = skipWs s := rfl

/-- The decoder reads a text as a value, at every place where one may stand. -/
structure ReadsAs (p : FloatPrinter) (v : Json) (t : Str) : Prop where
  starts : StartsValue t
  scan : ∀ depth rest, encodable depth v = .ok () → DistinctKeys v → EndsNumber rest →
    scanOnce depth (t ++ rest) = .ok (canon p v, rest)

/-- The texts of an array or object behind the first one. -/
def further (gap : Str) (ts : List Str) : Str := ts.flatMap fun t => ',' :: (gap ++ t)

/-- What is behind a value: the further ones, blanks and a bracket. -/
theorem endsNumber_further (gap : Str) (ts : List Str) {close : Str} (hclose : IsGap close)
    (hrest : EndsNumber rest) : EndsNumber (further gap ts ++ (close ++ rest)) := by
  cases ts with
  | nil =>
    show EndsNumber (close ++ rest)
    exact hrest.gap hclose
  | cons t ts =>
    intro c hc
    obtain rfl : ',' = c := Option.some.inj hc
    decide

theorem endsNumber_bracket (rest : Str) : EndsNumber (']' :: rest) := by
  intro c hc
  obtain rfl : ']' = c := Option.some.inj hc
  decide

theorem endsNumber_brace (rest : Str) : EndsNumber ('\x7d' :: rest) := by
  intro c hc
  obtain rfl : '\x7d' = c := Option.some.inj hc
  decide

theorem length_le_further (gap : Str) (ts : List Str) : ts.length ≤ (further gap ts).length := by
  induction ts with
  | nil => exact Nat.le_refl 0
  | cons t ts ih =>
    simp only [further, List.flatMap_cons, List.length_cons, List.length_append] at ih ⊢
    omega

section Rounds

variable {scan : Str → Except LoadError (Json × Str)} {s s₁ s₂ s₃ r r' k : Str} {v : Json}

theorem scanItems_last (fuel : Nat) (hscan : scan s = .ok (v, s₁)) (hs : skipWs s₁ = ']' :: r) :
    scanItems scan (fuel + 1) s = .ok ([v], r) := by
  simp only [scanItems, hscan, bind, Except.bind, hs]
  rfl

theorem scanItems_more (fuel : Nat) (hscan : scan s = .ok (v, s₁)) (hs : skipWs s₁ = ',' :: r) :
    scanItems scan (fuel + 1) s =
      (scanItems scan fuel (skipWs r)).map fun q => (v :: q.1, q.2) := by
  simp only [scanItems, hscan, bind, Except.bind, hs]
  cases scanItems scan fuel (skipWs r) <;> rfl

theorem scanPairs_last (fuel : Nat) (d : Dict Str Json) (hkey : scanString s = .ok (k, s₁))
    (hcolon : skipWs s₁ = ':' :: s₂) (hscan : scan (skipWs s₂) = .ok (v, s₃))
    (hs : skipWs s₃ = '\x7d' :: r) : scanPairs scan (fuel + 1) d s = .ok (d.set k v, r) := by
  simp only [scanPairs, hkey, bind, Except.bind, hcolon, hscan, hs]
  rfl

theorem scanPairs_more (fuel : Nat) (d : Dict Str Json) (hkey : scanString s = .ok (k, s₁))
    (hcolon : skipWs s₁ = ':' :: s₂) (hscan : scan (skipWs s₂) = .ok (v, s₃))
    (hs : skipWs s₃ = ',' :: r) (hquote : skipWs r = '"' :: r') :
    scanPairs scan (fuel + 1) d s = scanPairs scan fuel (d.set k v) r' := by
  simp only [scanPairs, hkey, bind, Except.bind, hcolon, hscan, hs, hquote]

end Rounds

section Layout

variable {text : Json → Str} {start gap close : Str} {depth fuel : Nat}

/-- The items of an array are read back, given enough rounds. -/
theorem scanItems_further {x : Json} {xs : List Json} (hreads : ∀ v ∈ x :: xs, ReadsAs p v (text v))
    (hgap : IsGap gap) (hclose : IsGap close) (rest : Str)
    (hok : ∀ v ∈ x :: xs, encodable depth v = .ok ()) (hkeys : ∀ v ∈ x :: xs, DistinctKeys v)
    (hfuel : xs.length < fuel) :
    scanItems (scanOnce depth) fuel
        (text x ++ (further gap (xs.map text) ++ (close ++ ']' :: rest))) =
      .ok ((x :: xs).map (canon p), rest) := by
  obtain ⟨fuel, rfl⟩ : ∃ f, fuel = f + 1 := ⟨fuel - 1, by omega⟩
  induction xs generalizing x fuel with
  | nil =>
    have hx := (hreads x List.mem_cons_self).scan depth _ (hok x List.mem_cons_self)
      (hkeys x List.mem_cons_self) (endsNumber_further gap [] hclose (endsNumber_bracket rest))
    refine scanItems_last fuel hx ?_
    show skipWs (close ++ ']' :: rest) = _
    rw [skipWs_gap hclose, skipWs_token (by decide)]
  | cons y ys ih =>
    obtain ⟨fuel, rfl⟩ : ∃ f, fuel = f + 1 := ⟨fuel - 1, by rw [List.length_cons] at hfuel; omega⟩
    have hx := (hreads x List.mem_cons_self).scan depth _ (hok x List.mem_cons_self)
      (hkeys x List.mem_cons_self)
      (endsNumber_further gap ((y :: ys).map text) hclose (endsNumber_bracket rest))
    have hys := ih (fun v hv => hreads v (List.mem_cons_of_mem x hv))
      (fun v hv => hok v (List.mem_cons_of_mem x hv))
      (fun v hv => hkeys v (List.mem_cons_of_mem x hv)) fuel (Nat.lt_of_succ_lt_succ hfuel)
    have hy : StartsValue (text y) := (hreads y (List.mem_cons_of_mem x List.mem_cons_self)).starts
    simp only [further, List.map_cons, List.flatMap_cons, List.cons_append, List.append_assoc]
      at hx hys ⊢
    rw [scanItems_more (fuel + 1) hx (skipWs_token (by decide) _), skipWs_gap hgap,
      (hy.append _).skipWs, hys]
    rfl

/-- A member of an object. -/
def member (ensureAscii : Bool) (text : Json → Str) (kv : Str × Json) : Str :=
  quote ensureAscii kv.1 ++ ':' :: ' ' :: text kv.2

/-- The members of an object are read back behind what was read before them. -/
theorem scanPairs_further {k : Str} {v : Json} {kvs : List (Str × Json)} {d : Dict Str Json}
    (hreads : ∀ kv ∈ (k, v) :: kvs, ReadsAs p kv.2 (text kv.2)) (hgap : IsGap gap)
    (hclose : IsGap close) (rest : Str) (hok : ∀ kv ∈ (k, v) :: kvs, encodable depth kv.2 = .ok ())
    (hkeys : ∀ kv ∈ (k, v) :: kvs, DistinctKeys kv.2)
    (hnodup : (d.keys ++ ((k, v) :: kvs).map Prod.fst).Nodup) (hfuel : kvs.length < fuel) :
    scanPairs (scanOnce depth) fuel d
        (k.flatMap (escapeChar ensureAscii) ++ '"' :: ':' :: ' ' ::
          (text v ++
            (further gap (kvs.map (member ensureAscii text)) ++ (close ++ '\x7d' :: rest)))) =
      .ok (d ++ ((k, v) :: kvs).map fun kv => (kv.1, canon p kv.2), rest) := by
  have hcolon : ∀ s, skipWs (':' :: s) = ':' :: s := fun s => skipWs_token (by decide) s
  have hset : ∀ {k : Str} {v : Json} {kvs : List (Str × Json)} {d : Dict Str Json},
      (d.keys ++ ((k, v) :: kvs).map Prod.fst).Nodup →
        d.set k (canon p v) = d ++ [(k, canon p v)] := by
    intro k v kvs d hnodup
    apply Dict.set_of_not_mem
    intro hk
    exact (List.nodup_append.mp hnodup).2.2 k hk k List.mem_cons_self rfl
  have hvalue : ∀ {k : Str} {v : Json} {kvs : List (Str × Json)},
      (∀ kv ∈ (k, v) :: kvs, ReadsAs p kv.2 (text kv.2)) →
      (∀ kv ∈ (k, v) :: kvs, encodable depth kv.2 = .ok ()) →
      (∀ kv ∈ (k, v) :: kvs, DistinctKeys kv.2) →
      scanOnce depth (skipWs (' ' :: (text v ++
        (further gap (kvs.map (member ensureAscii text)) ++ (close ++ '\x7d' :: rest))))) =
          .ok (canon p v,
            further gap (kvs.map (member ensureAscii text)) ++ (close ++ '\x7d' :: rest)) := by
    intro k v kvs hreads hok hkeys
    have hv : ReadsAs p v (text v) := hreads (k, v) List.mem_cons_self
    rw [skipWs_blank, (hv.starts.append _).skipWs]
    exact hv.scan depth _ (hok (k, v) List.mem_cons_self) (hkeys (k, v) List.mem_cons_self)
      (endsNumber_further gap _ hclose (endsNumber_brace rest))
  obtain ⟨fuel, rfl⟩ : ∃ f, fuel = f + 1 := ⟨fuel - 1, by omega⟩
  induction kvs generalizing k v d fuel with
  | nil =>
    rw [scanPairs_last fuel d (scanString_escaped ensureAscii k _) (hcolon _)
      (hvalue hreads hok hkeys), hset hnodup]
    · rfl
    · show skipWs (close ++ '\x7d' :: rest) = _
      rw [skipWs_gap hclose, skipWs_token (by decide)]
  | cons kv kvs ih =>
    obtain ⟨k', v'⟩ := kv
    obtain ⟨fuel, rfl⟩ : ∃ f, fuel = f + 1 := ⟨fuel - 1, by rw [List.length_cons] at hfuel; omega⟩
    have hfirst := hvalue hreads hok hkeys
    have hnodup' : ((d ++ [(k, canon p v)]).keys ++ ((k', v') :: kvs).map Prod.fst).Nodup := by
      simpa [Dict.keys] using hnodup
    have hrest := ih (fun kv hkv => hreads kv (List.mem_cons_of_mem _ hkv))
      (fun kv hkv => hok kv (List.mem_cons_of_mem _ hkv))
      (fun kv hkv => hkeys kv (List.mem_cons_of_mem _ hkv)) hnodup'
      fuel (Nat.lt_of_succ_lt_succ hfuel)
    simp only [further, List.map_cons, List.flatMap_cons, member, quote, List.cons_append,
      List.nil_append, List.append_assoc] at hfirst hrest ⊢
    rw [scanPairs_more (fuel + 1) d (scanString_escaped ensureAscii k _) (hcolon _) hfirst
      (skipWs_token (by decide) _)
      ((skipWs_gap hgap _).trans (skipWs_token (by decide) _)), hset hnodup, hrest]

theorem scanOnce_arr {depth : Nat} {s s' r : Str} {vs : List Json} (hs : skipWs s = s')
    (hvalue : StartsValue s') (hitems : scanItems (scanOnce depth) s.length s' = .ok (vs, r)) :
    scanOnce (depth + 1) ('[' :: s) = .ok (arr vs, r) := by
  obtain ⟨c, t, rfl, hc, -⟩ := hvalue
  simp only [scanOnce, hs]
  split
  · next heq => exact absurd (List.cons.inj heq).1 hc
  · rw [hitems]
    rfl

theorem scanOnce_obj {depth : Nat} {s r r' : Str} {d : Dict Str Json} (hs : skipWs s = '"' :: r)
    (hpairs : scanPairs (scanOnce depth) s.length [] r = .ok (d, r')) :
    scanOnce (depth + 1) ('\x7b' :: s) = .ok (obj d, r') := by
  simp only [scanOnce, hs, hpairs]
  rfl

theorem ReadsAs.arr {x : Json} {xs : List Json} (hreads : ∀ v ∈ x :: xs, ReadsAs p v (text v))
    (hstart : IsGap start) (hgap : IsGap gap) (hclose : IsGap close) :
    ReadsAs p (arr (x :: xs))
      ('[' :: (start ++ (text x ++ (further gap (xs.map text) ++ (close ++ [']']))))) := by
  refine ⟨⟨_, _, rfl, by decide⟩, fun depth rest hok hkeys hrest => ?_⟩
  cases depth with
  | zero => cases hok
  | succ depth =>
    have hx : StartsValue (text x) := (hreads x List.mem_cons_self).starts
    have hlen := length_le_further gap (xs.map text)
    rw [canon, canonItems_eq]
    simp only [List.cons_append, List.append_assoc, List.nil_append]
    apply scanOnce_arr ((skipWs_gap hstart _).trans (hx.append _).skipWs) (hx.append _)
    refine scanItems_further hreads hgap hclose rest (encodableItems_iff.mp hok)
      (distinctKeysItems_iff.mp hkeys) ?_
    -- there are as many rounds as characters
    simp only [List.length_append, List.length_cons, List.length_map] at hlen ⊢
    omega

theorem ReadsAs.obj (ensureAscii : Bool) {kv : Str × Json} {kvs : List (Str × Json)}
    (hreads : ∀ kv' ∈ kv :: kvs, ReadsAs p kv'.2 (text kv'.2)) (hstart : IsGap start)
    (hgap : IsGap gap) (hclose : IsGap close) :
    ReadsAs p (obj (kv :: kvs))
      ('\x7b' :: (start ++ (member ensureAscii text kv ++
        (further gap (kvs.map (member ensureAscii text)) ++ (close ++ ['\x7d']))))) := by
  refine ⟨⟨_, _, rfl, by decide⟩, fun depth rest hok hkeys hrest => ?_⟩
  cases depth with
  | zero => cases hok
  | succ depth =>
    obtain ⟨k, v⟩ := kv
    have hlen := length_le_further gap (kvs.map (member ensureAscii text))
    rw [canon, canonPairs_eq]
    simp only [member, quote, List.cons_append, List.append_assoc, List.nil_append]
    apply scanOnce_obj ((skipWs_gap hstart _).trans (skipWs_token (by decide) _))
    refine scanPairs_further hreads hgap hclose rest (encodablePairs_iff.mp hok)
      (distinctKeysPairs_iff.mp hkeys.2) hkeys.1 ?_
    simp only [List.length_append, List.length_cons, List.length_map] at hlen ⊢
    omega

end Layout

theorem ReadsAs.null : ReadsAs p null "null" := by
  refine ⟨⟨_, _, rfl, by decide⟩, fun depth rest _ _ _ => ?_⟩
  cases depth <;> rfl

theorem ReadsAs.bool (b : Bool) : ReadsAs p (bool b) (if b then "true" else "false") := by
  refine ⟨?_, fun depth rest _ _ _ => ?_⟩
  · cases b <;> exact ⟨_, _, rfl, by decide⟩
  · cases b <;> cases depth <;> rfl

theorem ReadsAs.int (n : Int) : ReadsAs p (int n) (intLiteral n) := by
  refine ⟨startsValue_int n, fun depth rest hok _ hrest => ?_⟩
  apply scanOnce_intLiteral depth hrest
  by_contra hlong
  have herror : encodable depth (Json.int n) = .error .intDigits := by
    cases depth <;> exact if_pos (Nat.lt_of_not_le hlong)
  rw [herror] at hok
  cases hok

theorem ReadsAs.float (l : Str) : ReadsAs p (float l) (p.literal l) :=
  ⟨startsValue_float (p.literal_isFloat l), fun depth _ _ _ hrest =>
    scanOnce_float depth hrest (p.literal_isFloat l)⟩

theorem ReadsAs.str (ensureAscii : Bool) (s : Str) : ReadsAs p (str s) (quote ensureAscii s) := by
  refine ⟨⟨_, _, rfl, by decide⟩, fun depth rest _ _ _ => ?_⟩
  have hscan := scanString_escaped ensureAscii s rest
  show scanOnce depth ('"' :: s.flatMap (escapeChar ensureAscii) ++ ['"'] ++ rest) = _
  rw [List.append_assoc, List.singleton_append, List.cons_append]
  simp only [scanOnce, hscan]
  rfl

theorem ReadsAs.arr_nil : ReadsAs p (Json.arr []) "[]" := by
  refine ⟨⟨_, _, rfl, by decide⟩, fun depth rest hok _ _ => ?_⟩
  cases depth with
  | zero => cases hok
  | succ depth => rfl

theorem ReadsAs.obj_nil : ReadsAs p (Json.obj []) "\x7b\x7d" := by
  refine ⟨⟨_, _, rfl, by decide⟩, fun depth rest hok _ _ => ?_⟩
  cases depth with
  | zero => cases hok
  | succ depth => rfl

/-! ## The indented text -/

theorem dumpItems_eq (level : Nat) (xs : List Json) :
    dumpItems p ensureAscii level xs =
      further (newline level) (xs.map (dump p ensureAscii level)) := by
  induction xs with
  | nil => rfl
  | cons x xs ih =>
    rw [dumpItems, ih]
    simp [further]

theorem dumpPairs_eq (level : Nat) (kvs : List (Str × Json)) :
    dumpPairs p ensureAscii level kvs =
      further (newline level) (kvs.map (member ensureAscii (dump p ensureAscii level))) := by
  induction kvs with
  | nil => rfl
  | cons kv kvs ih =>
    obtain ⟨k, v⟩ := kv
    rw [dumpPairs, ih]
    simp [further, member]

theorem readsAs_dump (v : Json) (level : Nat) : ReadsAs p v (dump p ensureAscii level v) := by
  induction v using induct generalizing level with
  | hnull => exact .null
  | hbool b => exact .bool b
  | hint n => exact .int n
  | hfloat l => exact .float l
  | hstr s => exact .str ensureAscii s
  | harr xs ih =>
    cases xs with
    | nil => exact .arr_nil
    | cons x xs =>
      have hlines := ReadsAs.arr (fun v hv => ih v hv (level + 1)) (isGap_newline (level + 1))
        (isGap_newline (level + 1)) (isGap_newline level)
      simpa [dump, dumpItems_eq] using hlines
  | hobj kvs ih =>
    cases kvs with
    | nil => exact .obj_nil
    | cons kv kvs =>
      have hlines := ReadsAs.obj ensureAscii (fun kv hkv => ih kv hkv (level + 1))
        (isGap_newline (level + 1)) (isGap_newline (level + 1)) (isGap_newline level)
      simpa [dump, dumpPairs_eq, member] using hlines

/-- The decoder reads the dumped value at every place where one may stand. -/
def Reads (p : FloatPrinter) (ensureAscii : Bool) (v : Json) : Prop :=
  ∀ level depth rest, encodable depth v = .ok () → DistinctKeys v → Delimited rest →
    scanOnce depth (dump p ensureAscii level v ++ rest) = .ok (canon p v, rest)

/-- Every value is read back. -/
theorem reads (v : Json) : Reads p ensureAscii v := by
  intro level depth rest hok hkeys hrest
  exact (readsAs_dump v level).scan depth rest hok hkeys hrest.endsNumber

/-- A text that is read as a value, with nothing behind it, is loaded as that value. -/
theorem loads_of_scanOnce {depth : Nat} {v : Json} {t : Str} (hstart : StartsValue t)
    (hread : scanOnce depth t = .ok (v, [])) : loads depth t = .ok v := by
  have hskip := hstart.skipWs
  unfold loads
  split
  · obtain ⟨c, t, hc, -, hbom, -⟩ := hstart
    exact absurd (List.cons.inj hc).1.symm hbom
  · rw [hskip, hread]
    rfl

theorem dumps_eq_ok {depth : Nat} {v : Json} {s : Str} (h : dumps p ensureAscii depth v = .ok s) :
    encodable depth v = .ok () ∧ dump p ensureAscii 0 v = s := by
  unfold dumps at h
  cases hv : encodable depth v with
  | error e =>
    rw [hv] at h
    cases h
  | ok u =>
    rw [hv] at h
    exact ⟨rfl, Except.ok.inj h⟩

/-- `json.loads(json.dumps(v, indent=2))` is `v`. -/
theorem loads_dumps {depth : Nat} {v : Json} {s : Str} (hkeys : DistinctKeys v)
    (h : dumps p ensureAscii depth v = .ok s) : loads depth s = .ok (canon p v) := by
  obtain ⟨hok, rfl⟩ := dumps_eq_ok h
  have hread : scanOnce depth (dump p ensureAscii 0 v ++ []) = .ok (canon p v, []) :=
    reads v 0 depth [] hok hkeys Delimited.nil
  rw [List.append_nil] at hread
  exact loads_of_scanOnce (readsAs_dump v 0).starts hread

/-! ## Line ends

The numbers and the escapes of a dumped text are printable ASCII.  So it has no
carriage return in it, and reading a file leaves it as it is. -/

def IsPrintable (c : Char) : Prop := 0x20 ≤ c.toNat ∧ c.toNat ≤ 0x7e

instance (c : Char) : Decidable (IsPrintable c) := inferInstanceAs (Decidable (_ ∧ _))

theorem IsPrintable.ne_return {c : Char} (h : IsPrintable c) : c ≠ '\r' := by
  rintro rfl
  exact absurd h (by decide)

theorem isPrintable_of_isDigit {c : Char} (h : isDigit c = true) : IsPrintable c := by
  rw [isDigit_iff] at h
  exact ⟨by omega, by omega⟩

theorem mem_takeWhile_isDigit {c : Char} {s : Str} (h : c ∈ s.takeWhile isDigit) :
    isDigit c = true :=
  List.mem_takeWhile_imp h

theorem scanIntPart_chars {s ip r : Str} (h : scanIntPart s = some (ip, r)) :
    ∀ c ∈ ip, isDigit c = true := by
  cases s with
  | nil => cases h
  | cons d s =>
    by_cases hzero : d = '0'
    · subst hzero
      obtain ⟨rfl, rfl⟩ := Prod.mk.inj (Option.some.inj h)
      intro c hc
      rw [List.mem_singleton.mp hc]
      decide
    · rw [scanIntPart] at h
      · split_ifs at h with hdigit
        obtain ⟨rfl, rfl⟩ := Prod.mk.inj (Option.some.inj h)
        intro c hc
        rcases List.mem_cons.mp hc with rfl | hc
        · exact hdigit
        · exact mem_takeWhile_isDigit hc
      · exact hzero

theorem scanFrac_chars {s : Str} {c : Char} (hc : c ∈ (scanFrac s).1) :
    c = '.' ∨ isDigit c = true := by
  unfold scanFrac at hc
  split at hc
  · split_ifs at hc with hdigit
    · simp only [List.mem_cons] at hc
      rcases hc with rfl | rfl | hc
      · exact Or.inl rfl
      · exact Or.inr hdigit
      · exact Or.inr (mem_takeWhile_isDigit hc)
    · cases hc
  · cases hc

theorem scanExp_chars {s : Str} {c : Char} (hc : c ∈ (scanExp s).1) :
    (c = 'e' ∨ c = 'E') ∨ (c = '+' ∨ c = '-') ∨ isDigit c = true := by
  unfold scanExp at hc
  split at hc
  · split_ifs at hc with hsign hdigit
    · simp only [List.mem_cons] at hc
      rcases hc with rfl | rfl | rfl | hc
      · exact Or.inl hsign.1
      · exact Or.inr (Or.inl hsign.2.1)
      · exact Or.inr (Or.inr hsign.2.2)
      · exact Or.inr (Or.inr (mem_takeWhile_isDigit hc))
    · rcases List.mem_cons.mp hc with rfl | hc
      · exact Or.inl hdigit.1
      · rcases List.mem_cons.mp hc with rfl | hc
        · exact Or.inr (Or.inr hdigit.2)
        · exact Or.inr (Or.inr (mem_takeWhile_isDigit hc))
    · cases hc
  · split_ifs at hc with hdigit
    · simp only [List.mem_cons, List.not_mem_nil, or_false] at hc
      rcases hc with rfl | rfl
      · exact Or.inl hdigit.1
      · exact Or.inr (Or.inr hdigit.2)
    · cases hc
  · cases hc

theorem isPrintable_of_all {s : Str} (h : s.all (fun c => decide (IsPrintable c)) = true) :
    ∀ c ∈ s, IsPrintable c := fun c hc => of_decide_eq_true (List.all_eq_true.mp h c hc)

theorem scanNumber_printable {neg : Bool} {s l r : Str} (h : scanNumber neg s = .ok (.float l, r)) :
    ∀ c ∈ l, IsPrintable c := by
  unfold scanNumber at h
  cases hint : scanIntPart s with
  | none =>
    rw [hint] at h
    cases h
  | some q =>
    obtain ⟨ip, r₀⟩ := q
    rw [hint] at h
    by_cases hnone : (scanFrac r₀).1 = [] ∧ (scanExp (scanFrac r₀).2).1 = []
    · simp only [if_pos hnone] at h
      split_ifs at h <;> cases h
    · simp only [if_neg hnone] at h
      obtain ⟨hl, -⟩ := Prod.mk.inj (Except.ok.inj h)
      rw [← Json.float.inj hl]
      intro c hc
      rw [List.mem_append, List.mem_append, List.mem_append] at hc
      rcases hc with ((hc | hc) | hc) | hc
      · cases neg
        · cases hc
        · rw [List.mem_singleton.mp hc]
          decide
      · exact isPrintable_of_isDigit (scanIntPart_chars hint c hc)
      · rcases scanFrac_chars hc with rfl | hdigit
        · decide
        · exact isPrintable_of_isDigit hdigit
      · rcases scanExp_chars hc with (rfl | rfl) | (rfl | rfl) | hdigit
        iterate 4 decide
        exact isPrintable_of_isDigit hdigit

theorem isFloat_printable {l : Str} (h : isFloat l = true) : ∀ c ∈ l, IsPrintable c := by
  rcases isFloat_cases h with hname | ⟨s, rfl, hscan⟩ | hscan
  · rcases hname with rfl | rfl | rfl <;> exact isPrintable_of_all (by decide)
  · exact scanNumber_printable hscan
  · exact scanNumber_printable hscan

theorem intLiteral_printable (n : Int) : ∀ c ∈ intLiteral n, IsPrintable c := by
  have hdigits : ∀ m, ∀ c ∈ Nat.toDigits 10 m, IsPrintable c :=
    fun m c hc => isPrintable_of_isDigit (isDigit_of_mem_toDigits hc)
  cases n with
  | ofNat m => exact hdigits m
  | negSucc m => exact List.forall_mem_cons.mpr ⟨by decide, hdigits (m + 1)⟩

theorem escapeUnit_printable {n : Nat} (h : n < 65536) : ∀ c ∈ escapeUnit n, IsPrintable c := by
  have hdigit : ∀ m < 16, IsPrintable (Nat.digitChar m) := by decide
  intro c hc
  simp only [escapeUnit, List.mem_cons, List.not_mem_nil, or_false] at hc
  rcases hc with rfl | rfl | rfl | rfl | rfl | rfl
  · decide
  · decide
  · exact hdigit _ (by omega)
  · exact hdigit _ (by omega)
  · exact hdigit _ (by omega)
  · exact hdigit _ (by omega)

theorem escape?_printable {c e : Char} (h : escape? e = some c) : IsPrintable e := by
  unfold escape? at h
  split at h
  iterate 8 decide
  cases h

/-- A character is written as it is, or else in printable ASCII. -/
theorem escapeChar_printable (ensureAscii : Bool) (c : Char) :
    (∀ d ∈ escapeChar ensureAscii c, IsPrintable d) ∨
      (escapeChar ensureAscii c = [c] ∧ isPlain ensureAscii c = true) := by
  rcases escapeChar_cases ensureAscii c with
    ⟨e, he, -, hesc⟩ | ⟨-, -, hplain, hesc⟩ | ⟨-, hlow, hesc⟩ | ⟨-, -, hesc⟩
  · rw [hesc]
    exact .inl
      (List.forall_mem_cons.mpr ⟨by decide, List.forall_mem_singleton.mpr (escape?_printable he)⟩)
  · exact .inr ⟨hesc, hplain⟩
  · rw [hesc]
    exact .inl (escapeUnit_printable hlow)
  · rw [hesc]
    refine .inl fun d hd => ?_
    obtain ⟨n, hn, hd⟩ := List.mem_flatMap.mp hd
    exact escapeUnit_printable (surrogates_lt c n hn) d hd

theorem newline_no_return (level : Nat) : '\r' ∉ newline level := by
  intro hmem
  rcases List.mem_cons.mp hmem with hmem | hmem
  · exact absurd hmem (by decide)
  · exact absurd (List.eq_of_mem_replicate hmem) (by decide)

theorem escapeChar_no_return (ensureAscii : Bool) (c : Char) : '\r' ∉ escapeChar ensureAscii c := by
  intro hmem
  rcases escapeChar_printable ensureAscii c with hall | ⟨hself, hplain⟩
  · exact (hall _ hmem).ne_return rfl
  · rw [hself, List.mem_singleton] at hmem
    rw [← hmem] at hplain
    cases ensureAscii <;> exact absurd hplain (by decide)

theorem quote_no_return (ensureAscii : Bool) (s : Str) : '\r' ∉ quote ensureAscii s := by
  intro hmem
  rw [quote, List.cons_append, List.mem_cons, List.mem_append, List.mem_flatMap] at hmem
  rcases hmem with hmem | ⟨c, -, hmem⟩ | hmem
  · exact absurd hmem (by decide)
  · exact escapeChar_no_return ensureAscii c hmem
  · exact absurd hmem (by decide)

theorem dumpItems_no_return {xs : List Json}
    (h : ∀ x ∈ xs, ∀ level, '\r' ∉ dump p ensureAscii level x) (level : Nat) :
    '\r' ∉ dumpItems p ensureAscii level xs := by
  induction xs with
  | nil => exact List.not_mem_nil
  | cons x xs ih =>
    have hx := h x List.mem_cons_self level
    have hxs := ih fun y hy => h y (List.mem_cons_of_mem x hy)
    simp [dumpItems, newline_no_return, hx, hxs]

theorem dumpPairs_no_return {kvs : List (Str × Json)}
    (h : ∀ kv ∈ kvs, ∀ level, '\r' ∉ dump p ensureAscii level kv.2) (level : Nat) :
    '\r' ∉ dumpPairs p ensureAscii level kvs := by
  induction kvs with
  | nil => exact List.not_mem_nil
  | cons kv kvs ih =>
    have hv := h kv List.mem_cons_self level
    have hkvs := ih fun y hy => h y (List.mem_cons_of_mem kv hy)
    simp [dumpPairs, newline_no_return, quote_no_return, hv, hkvs]

theorem dump_no_return (v : Json) (level : Nat) : '\r' ∉ dump p ensureAscii level v := by
  induction v using induct generalizing level with
  | hnull => exact of_decide_eq_true rfl
  | hbool b => cases b <;> exact of_decide_eq_true rfl
  | hint n => exact fun hmem => (intLiteral_printable n _ hmem).ne_return rfl
  | hfloat l => exact fun hmem => (isFloat_printable (p.literal_isFloat l) _ hmem).ne_return rfl
  | hstr s => exact quote_no_return ensureAscii s
  | harr xs ih =>
    cases xs with
    | nil => exact of_decide_eq_true rfl
    | cons x xs =>
      have hx := ih x List.mem_cons_self (level + 1)
      have hxs := dumpItems_no_return (fun y hy => ih y (List.mem_cons_of_mem x hy)) (level + 1)
      simp [dump, newline_no_return, hx, hxs]
  | hobj kvs ih =>
    cases kvs with
    | nil => exact of_decide_eq_true rfl
    | cons kv kvs =>
      have hv := ih kv List.mem_cons_self (level + 1)
      have hkvs := dumpPairs_no_return (fun y hy => ih y (List.mem_cons_of_mem kv hy)) (level + 1)
      simp [dump, newline_no_return, quote_no_return, hv, hkvs]

/-- What was dumped into a file is read from it and loaded. -/
theorem loads_readText {depth : Nat} {v : Json} {s : Str} (hkeys : DistinctKeys v)
    (h : dumps p ensureAscii depth v = .ok s) :
    ∃ text, readText (writeText s) = some text ∧ loads depth text = .ok (canon p v) := by
  have htext : '\r' ∉ s := by
    rw [← (dumps_eq_ok h).2]
    exact dump_no_return v 0
  exact ⟨s, readText_writeText htext, loads_dumps hkeys h⟩

end AiPipelines.PyStd.Json

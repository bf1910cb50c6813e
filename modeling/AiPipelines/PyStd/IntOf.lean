import AiPipelines.PyStd.Json

/-!
# Reading numbers

`int(s)` and `int(s, 16)` on a text, as CPython reads it, and the integer
literals of a Python expression.

`int` takes more than digits.  It skips whitespace at both ends, accepts a sign,
single underscores between digits and, in base 16, the prefix `0x`.  Digits and
blanks outside of ASCII are replaced by ASCII ones first.  Which characters are
decimal digits depends on the Unicode version of the interpreter; a `Decimals`
is such a table, and nothing is assumed of it.

`intOf_chars` says what a text that `int` reads can consist of.

The module names nothing of the repository.
-/

namespace AiPipelines.PyStd

/-- The decimal digits outside of ASCII, with their values. -/
abbrev Decimals := Char → Option (Fin 10)

/-- `\d` of a regular expression. -/
def isDecimal (d : Decimals) (c : Char) : Bool :=
  if c.toNat < 128 then c.isDigit else (d c).isSome

/-- What `int` puts for a character before it starts to read. -/
def asciiChar (d : Decimals) (c : Char) : Char :=
  if c.toNat < 128 then c
  else if isSpace c then ' '
  else
    match d c with
    | some n => Char.ofNat ('0'.toNat + n)
    | none => '?'

/-- `str.isascii()`. -/
def isAscii (s : Str) : Bool := s.all fun c => c.toNat < 128

/-- The blanks of the C locale.  The ASCII separators, which `str.strip`
removes, are not among them. -/
def isAsciiSpace (c : Char) : Bool := c == ' ' || ('\t' ≤ c && c ≤ '\r')

/-- The value of a digit in the base. -/
def digit? (base : Nat) (c : Char) : Option Nat :=
  if c.isDigit && c.toNat - '0'.toNat < base then some (c.toNat - '0'.toNat)
  else if c.isLower && c.toNat - 'a'.toNat + 10 < base then some (c.toNat - 'a'.toNat + 10)
  else if c.isUpper && c.toNat - 'A'.toNat + 10 < base then some (c.toNat - 'A'.toNat + 10)
  else none

/-- At least one digit, with single underscores between digits. -/
def digits? (base : Nat) : Str → Option (List Nat)
  | [] => none
  | [c] => (digit? base c).map ([·])
  | c :: '_' :: s => do return (← digit? base c) :: (← digits? base s)
  | c :: c' :: s => do return (← digit? base c) :: (← digits? base (c' :: s))

/-- The digits of a number without sign.  Before the first one, `0x` and one
underscore may stand in base 16. -/
def numBody (base : Nat) : Str → Str
  | '0' :: c :: s =>
    if base = 16 ∧ (c = 'x' ∨ c = 'X') then
      match s with
      | '_' :: s' => s'
      | _ => s
    else '0' :: c :: s
  | s => s

/-- A number without sign.  A base that is not a power of two has a limit on the
number of digits. -/
def natOf (base : Nat) (s : Str) : Option Nat :=
  match digits? base (numBody base s) with
  | none => none
  | some ds =>
    if base = 10 ∧ Json.intMaxStrDigits < ds.length then none
    else some (ds.foldl (fun n k => base * n + k) 0)

/-- A number with an optional sign. -/
def signedOf (base : Nat) : Str → Option Int
  | '-' :: s => (natOf base s).map fun n : Nat => -(n : Int)
  | '+' :: s => (natOf base s).map Int.ofNat
  | s => (natOf base s).map Int.ofNat

/-- `int(s, base)` for base 10 and 16; `none` is `ValueError`. -/
def intOf (d : Decimals) (base : Nat) (s : Str) : Option Int :=
  signedOf base (((s.map (asciiChar d)).dropWhile isAsciiSpace).rdropWhile isAsciiSpace)

/-- An integer literal of an expression.  A decimal literal must not start with
`0`, unless it has no other digit. -/
def literal? : Str → Option Nat
  | '0' :: 'x' :: s => natOf 16 ('0' :: 'x' :: s)
  | '0' :: 'X' :: s => natOf 16 ('0' :: 'X' :: s)
  | '0' :: s => if s.all (fun c => c == '0' || c == '_') then natOf 10 ('0' :: s) else none
  | s => natOf 10 s

/-! ## What a number can consist of -/

/-- The characters of a text that `int` reads, after the replacement. -/
def isNumChar (base : Nat) (c : Char) : Bool :=
  isAsciiSpace c || (['+', '-', '_', 'x', 'X'] : Str).contains c || (digit? base c).isSome

theorem digits?_chars {base : Nat} {s : Str} {ds : List Nat} (h : digits? base s = some ds) :
    ∀ c ∈ s, isNumChar base c = true := by
  induction s using digits?.induct generalizing ds with
  | case1 => simp [digits?] at h
  | case2 c =>
    simp only [digits?, Option.map_eq_some_iff] at h
    obtain ⟨n, hn, -⟩ := h
    intro c' hc'
    rw [List.mem_singleton.1 hc']
    simp [isNumChar, hn]
  | case3 c s ih =>
    simp only [digits?, bind, Option.bind_eq_some_iff] at h
    obtain ⟨n, hn, ns, hns, -⟩ := h
    intro c' hc'
    rcases List.mem_cons.1 hc' with rfl | hc'
    · simp [isNumChar, hn]
    · rcases List.mem_cons.1 hc' with rfl | hc'
      · simp [isNumChar]
      · exact ih hns c' hc'
  | case4 c c' s hne ih =>
    rw [digits?.eq_4 base c c' s hne] at h
    simp only [bind, Option.bind_eq_some_iff] at h
    obtain ⟨n, hn, ns, hns, -⟩ := h
    intro e he
    rcases List.mem_cons.1 he with rfl | he
    · simp [isNumChar, hn]
    · exact ih hns e he

theorem numBody_chars {base : Nat} {s : Str}
    (h : ∀ c ∈ numBody base s, isNumChar base c = true) (hzero : (digit? base '0').isSome) :
    ∀ c ∈ s, isNumChar base c = true := by
  have h0 : isNumChar base '0' = true := by simp [isNumChar, hzero]
  unfold numBody at h
  split at h
  · next c s =>
    split at h
    · next hx =>
      have hx' : isNumChar base c = true := by
        rcases hx.2 with rfl | rfl <;> simp [isNumChar]
      split at h
      · simpa [h0, hx', show isNumChar base '_' = true by simp [isNumChar]] using h
      · simpa [h0, hx'] using h
    · exact h
  · exact h

theorem natOf_chars {base : Nat} {s : Str} {n : Nat} (h : natOf base s = some n)
    (hzero : (digit? base '0').isSome) : ∀ c ∈ s, isNumChar base c = true := by
  unfold natOf at h
  split at h
  · cases h
  · next ds hds => exact numBody_chars (digits?_chars hds) hzero

theorem signedOf_chars {base : Nat} {s : Str} {n : Int} (h : signedOf base s = some n)
    (hzero : (digit? base '0').isSome) : ∀ c ∈ s, isNumChar base c = true := by
  unfold signedOf at h
  split at h
  all_goals
    obtain ⟨k, hk, -⟩ := Option.map_eq_some_iff.1 h
    have hchars := natOf_chars hk hzero
  · simpa [show isNumChar base '-' = true by simp [isNumChar]] using hchars
  · simpa [show isNumChar base '+' = true by simp [isNumChar]] using hchars
  · exact hchars

private theorem mem_dropWhile_or {p : Char → Bool} {s : Str} {c : Char} (h : c ∈ s) :
    c ∈ s.dropWhile p ∨ p c = true := by
  rw [← List.takeWhile_append_dropWhile (p := p) (l := s), List.mem_append] at h
  exact h.symm.imp_right List.mem_takeWhile_imp

/-- A text that `int` reads has only blanks, signs, underscores, digits and the
letter of the prefix in it. -/
theorem intOf_chars {d : Decimals} {base : Nat} {s : Str} {n : Int}
    (h : intOf d base s = some n) (hzero : (digit? base '0').isSome) :
    ∀ c ∈ s, isNumChar base (asciiChar d c) = true := by
  have hinner := signedOf_chars h hzero
  intro c hc
  have hblank : isAsciiSpace (asciiChar d c) = true → isNumChar base (asciiChar d c) = true := by
    intro hsp
    simp [isNumChar, hsp]
  have hmem : asciiChar d c ∈ s.map (asciiChar d) := List.mem_map_of_mem hc
  rcases mem_dropWhile_or (p := isAsciiSpace) hmem with hmem | hsp
  · rcases mem_dropWhile_or (p := isAsciiSpace) (List.mem_reverse.2 hmem) with hmem | hsp
    · exact hinner _ (List.mem_reverse.2 hmem)
    · exact hblank hsp
  · exact hblank hsp

/-- An ASCII text is read as it is. -/
theorem intOf_ascii (d : Decimals) (base : Nat) {s : Str} (h : isAscii s = true) :
    intOf d base s = signedOf base ((s.dropWhile isAsciiSpace).rdropWhile isAsciiSpace) := by
  have hmap : s.map (asciiChar d) = s := by
    have hid : ∀ c ∈ s, asciiChar d c = id c := by
      intro c hc
      exact if_pos (of_decide_eq_true (List.all_eq_true.1 h c hc))
    rw [List.map_congr_left hid, List.map_id]
  rw [intOf, hmap]

theorem digits?_head {base : Nat} {c : Char} {s : Str} {ds : List Nat}
    (h : digits? base (c :: s) = some ds) : ∃ n, digit? base c = some n := by
  cases s with
  | nil =>
    obtain ⟨n, hn, -⟩ := Option.map_eq_some_iff.1 h
    exact ⟨n, hn⟩
  | cons c' s =>
    by_cases hc' : c' = '_'
    · subst hc'
      obtain ⟨n, hn, -⟩ := Option.bind_eq_some_iff.1 h
      exact ⟨n, hn⟩
    · rw [digits?.eq_4 base c c' s hc'] at h
      obtain ⟨n, hn, -⟩ := Option.bind_eq_some_iff.1 h
      exact ⟨n, hn⟩

theorem isDigit_of_digit? {c : Char} {n : Nat} (h : digit? 10 c = some n) : c.isDigit = true := by
  unfold digit? at h
  split at h
  · next hc => exact (Bool.and_eq_true_iff.1 hc).1
  · split at h
    · next hc =>
      have hlt := of_decide_eq_true (Bool.and_eq_true_iff.1 hc).2
      omega
    · split at h
      · next hc =>
        have hlt := of_decide_eq_true (Bool.and_eq_true_iff.1 hc).2
        omega
      · cases h

/-- A literal starts with a digit. -/
theorem literal?_head {s : Str} {n : Nat} (h : literal? s = some n) :
    ∃ c r, s = c :: r ∧ c.isDigit = true := by
  unfold literal? at h
  split at h
  · exact ⟨_, _, rfl, by decide⟩
  · exact ⟨_, _, rfl, by decide⟩
  · exact ⟨_, _, rfl, by decide⟩
  · next hzero =>
    have hbody : numBody 10 s = s := by
      unfold numBody
      split
      · rfl
      · rfl
    cases s with
    | nil => simp [natOf, hbody, digits?] at h
    | cons c r =>
      refine ⟨c, r, rfl, ?_⟩
      rw [natOf, hbody] at h
      split at h
      · cases h
      · next ds hds =>
        obtain ⟨k, hk⟩ := digits?_head hds
        exact isDigit_of_digit? hk

end AiPipelines.PyStd

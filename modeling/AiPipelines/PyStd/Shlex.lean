import AiPipelines.PyStd.Str

/-!
# Shell-like splitting

`shlex.split` in its default mode, as the state machine of `shlex.read_token`
with POSIX rules, `whitespace_split` and no comments.  Only blank, tab, return
and newline separate tokens.  Quotes group characters, a backslash takes the
next one as it is, and between double quotes it does so only for `"` and `\`.

`str.split` knows no quotes and splits at every kind of whitespace.
`shlexSplit_eq_split_iff` says when the two agree: on texts without quotes
and backslashes whose whitespace is that of the shell.  One direction compares
the tokens, the other counts quotes and backslashes: `split` keeps all of them
and the machine drops at least one of them if there is any
(`shlexGo_count_lt`).

The module names nothing of the repository.
-/

namespace AiPipelines.PyStd

/-! ## The machine -/

/-- `shlex.whitespace`. -/
def shellSpace (c : Char) : Bool := c = ' ' || c = '\t' || c = '\r' || c = '\n'

/-- `shlex.quotes`. -/
def isQuote (c : Char) : Bool := c = '\'' || c = '"'

/-- Quotes and the escape character. -/
def isSpecial (c : Char) : Bool := isQuote c || c = '\\'

/-- The states of `read_token`.  `escaped` remembers the double quote that it
goes back to. -/
inductive ShlexState where
  | space
  | word
  | quoted (q : Char)
  | escaped (back : Option Char)
  deriving Repr, DecidableEq

/-- What `shlex.split` raises. -/
inductive ShlexError where
  | noClosingQuotation
  | noEscapedCharacter
  deriving Repr, DecidableEq

/-- The machine in a state, with the characters of the current token and
whether a part of it was quoted. -/
def shlexGo : ShlexState → Str → Bool → Str → Except ShlexError (List Str)
  | .space, _, _, [] => .ok []
  | .space, _, _, c :: cs =>
    if shellSpace c then shlexGo .space [] false cs
    else if c = '\\' then shlexGo (.escaped none) [] false cs
    else if isQuote c then shlexGo (.quoted c) [] false cs
    else shlexGo .word [c] false cs
  | .word, tok, quoted, [] => .ok (if tok ≠ [] || quoted then [tok] else [])
  | .word, tok, quoted, c :: cs =>
    if shellSpace c then
      if tok ≠ [] || quoted then (tok :: ·) <$> shlexGo .space [] false cs
      else shlexGo .space [] false cs
    else if isQuote c then shlexGo (.quoted c) tok quoted cs
    else if c = '\\' then shlexGo (.escaped none) tok quoted cs
    else shlexGo .word (tok ++ [c]) quoted cs
  | .quoted _, _, _, [] => .error .noClosingQuotation
  | .quoted q, tok, _, c :: cs =>
    if c = q then shlexGo .word tok true cs
    else if c = '\\' && q = '"' then shlexGo (.escaped (some q)) tok true cs
    else shlexGo (.quoted q) (tok ++ [c]) true cs
  | .escaped _, _, _, [] => .error .noEscapedCharacter
  | .escaped none, tok, quoted, c :: cs => shlexGo .word (tok ++ [c]) quoted cs
  | .escaped (some q), tok, quoted, c :: cs =>
    -- Between quotes only the quote and the escape character may be escaped.
    let tok := if c ≠ '\\' && c ≠ q then tok ++ ['\\'] else tok
    shlexGo (.quoted q) (tok ++ [c]) quoted cs

/-- `shlex.split`. -/
def shlexSplit (s : Str) : Except ShlexError (List Str) := shlexGo .space [] false s

example : shlexSplit "a 'b c' \\[d" = .ok ["a", "b c", "[d"] := by decide

/-! ## Texts without quotes and backslashes -/

theorem isSpecial_eq_false {c : Char} (h : isSpecial c = false) : isQuote c = false ∧ c ≠ '\\' := by
  simpa [isSpecial] using h

/-- Without quotes and backslashes the machine splits at the blanks. -/
theorem shlexGo_plain {s : Str} (hs : ∀ c ∈ s, isSpecial c = false) :
    shlexGo .space [] false s = .ok ((s.splitOnP shellSpace).filter (· ≠ [])) ∧
      ∀ tok, tok ≠ [] → shlexGo .word tok false s =
        .ok (((s.splitOnP shellSpace).modifyHead (tok ++ ·)).filter (· ≠ [])) := by
  induction s with
  | nil =>
    refine ⟨by simp [shlexGo], ?_⟩
    intro tok htok
    simp [shlexGo, htok]
  | cons c s ih =>
    obtain ⟨hspace, hword⟩ := ih fun c' hc' => hs c' (List.mem_cons_of_mem c hc')
    obtain ⟨hquote, hback⟩ := isSpecial_eq_false (hs c List.mem_cons_self)
    obtain ⟨w, ws, hw⟩ := List.exists_cons_of_ne_nil (List.splitOnP_ne_nil shellSpace s)
    by_cases hc : shellSpace c = true
    · refine ⟨?_, ?_⟩
      · simp [shlexGo, hc, hspace, List.splitOnP_cons_eq_if_modifyHead]
      · intro tok htok
        simp [shlexGo, hc, htok, hspace, List.splitOnP_cons_eq_if_modifyHead, Functor.map,
          Except.map]
    · refine ⟨?_, ?_⟩
      · have h := hword [c] (by simp)
        simp [shlexGo, hc, hback, hquote, h, List.splitOnP_cons_eq_if_modifyHead, hw]
      · intro tok htok
        have h := hword (tok ++ [c]) (by simp)
        simp [shlexGo, hc, hback, hquote, h, List.splitOnP_cons_eq_if_modifyHead, hw]

/-! ## Counting quotes and backslashes -/

/-- The number of quotes and backslashes. -/
def specials (s : Str) : Nat := s.countP isSpecial

@[simp] theorem specials_nil : specials [] = 0 := rfl

@[simp] theorem specials_cons (c : Char) (s : Str) :
    specials (c :: s) = specials s + (if isSpecial c then 1 else 0) :=
  List.countP_cons

@[simp] theorem specials_append (s t : Str) : specials (s ++ t) = specials s + specials t :=
  List.countP_append

/-- The backslash that a state may still write. -/
def ShlexState.pending : ShlexState → Nat
  | .escaped (some _) => 1
  | _ => 0

theorem map_cons_eq_ok {x : Except ShlexError (List Str)} {tok : Str} {toks : List Str}
    (h : (tok :: ·) <$> x = .ok toks) : ∃ rest, x = .ok rest ∧ toks = tok :: rest := by
  cases x with
  | error e => cases h
  | ok rest => cases h; exact ⟨rest, rfl, rfl⟩

/-- The machine writes no quote or backslash that it has not read. -/
theorem shlexGo_count_le {s : Str} {st : ShlexState} {tok : Str} {quoted : Bool} {toks : List Str}
    (h : shlexGo st tok quoted s = .ok toks) :
    specials toks.flatten ≤ specials tok + specials s + st.pending := by
  induction s generalizing st tok quoted toks with
  | nil =>
    cases st with
    | space => cases h; simp
    | word =>
      cases h
      split_ifs <;> simp
    | quoted q => cases h
    | escaped b => cases h
  | cons c s ih =>
    cases st with
    | space =>
      unfold shlexGo at h
      split_ifs at h with h₁ h₂ h₃
      all_goals
        have hrec := ih h
        simp [ShlexState.pending] at hrec ⊢
        omega
    | word =>
      unfold shlexGo at h
      split_ifs at h with h₁ h₂ h₃ h₄
      · obtain ⟨rest, hrest, rfl⟩ := map_cons_eq_ok h
        have hrec := ih hrest
        simp [ShlexState.pending] at hrec ⊢
        omega
      all_goals
        have hrec := ih h
        simp [ShlexState.pending] at hrec ⊢
        omega
    | quoted q =>
      unfold shlexGo at h
      split_ifs at h with h₁ h₂
      · have hrec := ih h
        simp [ShlexState.pending] at hrec ⊢
        omega
      · have hrec := ih h
        have hc : isSpecial c = true := by
          simp only [Bool.and_eq_true, decide_eq_true_eq] at h₂
          rw [h₂.1]
          decide
        simp [ShlexState.pending, hc] at hrec ⊢
        omega
      · have hrec := ih h
        simp [ShlexState.pending] at hrec ⊢
        omega
    | escaped b =>
      have hback : isSpecial '\\' = true := by decide
      cases b with
      | none =>
        have hrec := ih (show shlexGo .word (tok ++ [c]) quoted s = .ok toks from h)
        simp [ShlexState.pending] at hrec ⊢
        omega
      | some q =>
        unfold shlexGo at h
        have hrec := ih h
        split_ifs at hrec <;> simp [ShlexState.pending, hback] at hrec ⊢ <;> omega

/-- A quote or backslash outside quotes opens a quotation or escapes a
character, and is not written. -/
theorem shlexGo_special {c : Char} {s : Str} {st : ShlexState} {tok : Str} {quoted : Bool}
    {toks : List Str} (hc : isSpecial c = true) (hst : st = .space ∨ st = .word)
    (h : shlexGo st tok quoted (c :: s) = .ok toks) :
    ∃ st' tok' quoted', shlexGo st' tok' quoted' s = .ok toks ∧ st'.pending = 0 ∧
      specials tok' ≤ specials tok := by
  have hcases : c = '\'' ∨ c = '"' ∨ c = '\\' := by simpa [isSpecial, isQuote, or_assoc] using hc
  rcases hst with rfl | rfl
  · rcases hcases with rfl | rfl | rfl
    · exact ⟨.quoted '\'', [], false, h, rfl, Nat.zero_le _⟩
    · exact ⟨.quoted '"', [], false, h, rfl, Nat.zero_le _⟩
    · exact ⟨.escaped none, [], false, h, rfl, Nat.zero_le _⟩
  · rcases hcases with rfl | rfl | rfl
    · exact ⟨.quoted '\'', tok, quoted, h, rfl, Nat.le_refl _⟩
    · exact ⟨.quoted '"', tok, quoted, h, rfl, Nat.le_refl _⟩
    · exact ⟨.escaped none, tok, quoted, h, rfl, Nat.le_refl _⟩

/-- If there is a quote or backslash, at least one of them is not written. -/
theorem shlexGo_count_lt {s : Str} {st : ShlexState} {tok : Str} {quoted : Bool} {toks : List Str}
    (hst : st = .space ∨ st = .word) (h : shlexGo st tok quoted s = .ok toks)
    (hs : 0 < specials s) : specials toks.flatten < specials tok + specials s := by
  induction s generalizing st tok quoted toks with
  | nil => simp at hs
  | cons c s ih =>
    by_cases hc : isSpecial c = true
    · obtain ⟨st', tok', quoted', h', hpending, htok⟩ := shlexGo_special hc hst h
      have hle := shlexGo_count_le h'
      rw [specials_cons, if_pos hc]
      omega
    · have hquote : ¬ isQuote c = true := fun h => hc (by simp [isSpecial, h])
      have hback : ¬ c = '\\' := fun h => hc (by simp [isSpecial, h])
      rw [specials_cons, if_neg hc, Nat.add_zero] at hs ⊢
      rcases hst with rfl | rfl
      · unfold shlexGo at h
        rw [if_neg hback, if_neg hquote] at h
        split_ifs at h with hspace
        · have hlt := ih (.inl rfl) h hs
          rw [specials_nil] at hlt
          omega
        · have hlt := ih (.inr rfl) h hs
          rw [specials_cons, if_neg hc, specials_nil] at hlt
          omega
      · unfold shlexGo at h
        rw [if_neg hback, if_neg hquote] at h
        split_ifs at h with hspace htok
        · obtain ⟨rest, hrest, rfl⟩ := map_cons_eq_ok h
          have hlt := ih (.inl rfl) hrest hs
          rw [specials_nil] at hlt
          rw [List.flatten_cons, specials_append]
          omega
        · have hlt := ih (.inl rfl) h hs
          rw [specials_nil] at hlt
          omega
        · have hlt := ih (.inr rfl) h hs
          rw [specials_append, specials_cons, if_neg hc, specials_nil] at hlt
          omega

/-! ## When the two ways of splitting agree -/

/-- The text has no quote and no backslash, and its whitespace is that of the
shell. -/
def ShellPlain (s : Str) : Prop :=
  ∀ c ∈ s, isSpecial c = false ∧ (isSpace c = true → shellSpace c = true)

instance (s : Str) : Decidable (ShellPlain s) :=
  decidable_of_iff (s.all fun c => !isSpecial c && (!isSpace c || shellSpace c))
    (by simp [ShellPlain, imp_iff_not_or])

theorem isSpace_of_shellSpace {c : Char} (h : shellSpace c = true) : isSpace c = true := by
  have hcases : c = ' ' ∨ c = '\t' ∨ c = '\r' ∨ c = '\n' := by simpa [shellSpace, or_assoc] using h
  rcases hcases with rfl | rfl | rfl | rfl <;> decide

theorem isSpecial_not_isSpace {c : Char} (h : isSpecial c = true) : isSpace c = false := by
  have hcases : c = '\'' ∨ c = '"' ∨ c = '\\' := by simpa [isSpecial, isQuote, or_assoc] using h
  rcases hcases with rfl | rfl | rfl <;> decide

/-- `str.split` keeps all quotes and backslashes. -/
theorem specials_split (s : Str) : specials (split s).flatten = specials s := by
  unfold specials
  rw [split_flatten, List.countP_filter]
  apply List.countP_congr
  intro c _
  cases hc : isSpecial c with
  | false => simp
  | true => simp [isSpecial_not_isSpace hc]

/-- `shlex.split` and `str.split` agree exactly on the plain texts. -/
theorem shlexSplit_eq_split_iff {s : Str} : shlexSplit s = .ok (split s) ↔ ShellPlain s := by
  constructor
  · intro h
    have hspecial : ∀ c ∈ s, isSpecial c = false := by
      by_contra hex
      have hpos : 0 < specials s := by
        apply List.countP_pos_iff.2
        simpa using hex
      have hlt := shlexGo_count_lt (.inl rfl) h hpos
      rw [specials_split, specials_nil] at hlt
      omega
    have hsplit := Except.ok.inj (h.symm.trans (shlexGo_plain hspecial).1)
    have hflat := congrArg List.flatten hsplit
    rw [split_flatten, List.flatten_filter_ne_nil, splitOnP_flatten] at hflat
    intro c hc
    refine ⟨hspecial c hc, fun hspace => ?_⟩
    by_contra hshell
    have hmem : c ∈ s.filter fun c => !isSpace c := by
      rw [hflat]
      exact List.mem_filter.2 ⟨hc, by simpa using hshell⟩
    simp [hspace] at hmem
  · intro h
    have hcongr : s.splitOnP shellSpace = s.splitOnP isSpace := by
      apply splitOnP_congr
      intro c hc
      cases hs : shellSpace c with
      | true => exact (isSpace_of_shellSpace hs).symm
      | false =>
        cases hi : isSpace c with
        | false => rfl
        | true => rw [(h c hc).2 hi] at hs; cases hs
    unfold shlexSplit split
    rw [(shlexGo_plain fun c hc => (h c hc).1).1, hcongr]

end AiPipelines.PyStd

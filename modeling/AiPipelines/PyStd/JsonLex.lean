import AiPipelines.PyStd.JsonRoundTrip
import AiPipelines.PyStd.Raise

/-!
# What the decoder reads, character by character

`Eats s r` says that the front of `s`, up to `r`, is made of strings, of brackets around more
of the same, and of other characters.  Whatever the decoder reads is such a front
(`scanOnce_eats`), and two facts follow by induction over it.

* A text that is an object has its last bracket at its end, so that no longer text is one
  (`loads_longer`).
* A part of such a text that starts inside of a string sees the strings of the text from the
  other side.  It may be an object itself, but none of its keys is the name of a member that
  starts with an `n` (`loads_inside`).

The module names nothing of the repository.
-/

namespace AiPipelines.PyStd.Json

/-! ## Strings and brackets -/

def isOpen (c : Char) : Bool := c == '\x7b' || c == '['

def isClose (c : Char) : Bool := c == '\x7d' || c == ']'

/-- A character that may stand outside of strings and is no bracket.  No name of JSON has the
letter O. -/
def isBare (c : Char) : Bool :=
  !isOpen c && !isClose c && c != '"' && c != '\\' && c.toUpper != 'O'

/-- What stands behind a string does not start with a letter `n`. -/
def FollowsString (s : Str) : Prop := s.head? ≠ some 'n'

/-- From the inside of a string to what stands behind its closing quote. -/
inductive Body : Str → Str → Prop
  | close (r : Str) : Body ('"' :: r) r
  | char {c : Char} {s r : Str} : c ≠ '"' → c ≠ '\\' → Body s r → Body (c :: s) r
  | escape {c : Char} {s r : Str} : isLineBreak c = false → Body s r → Body ('\\' :: c :: s) r

/-- From one place outside of strings to another one that is nested as deep. -/
inductive Eats : Str → Str → Prop
  | done (s : Str) : Eats s s
  | bare {c : Char} {s r : Str} : isBare c = true → Eats s r → Eats (c :: s) r
  | string {s s' r : Str} : Body s s' → FollowsString s' → Eats s' r → Eats ('"' :: s) r
  | nested {o c : Char} {s s' r : Str} : isOpen o = true → isClose c = true → Eats s (c :: s') →
      Eats s' r → Eats (o :: s) r

theorem isBare_plain {c : Char} (h : isBare c = true) :
    c ≠ '"' ∧ c ≠ '\\' ∧ c.toUpper ≠ 'O' ∧ isOpen c = false ∧ isClose c = false := by
  simp only [isBare, Bool.and_eq_true, Bool.not_eq_true', bne_iff_ne] at h
  obtain ⟨⟨⟨⟨hopen, hclose⟩, hquote⟩, hslash⟩, hupper⟩ := h
  exact ⟨hquote, hslash, hupper, hopen, hclose⟩

theorem Eats.trans {s s' r : Str} (h : Eats s s') (h' : Eats s' r) : Eats s r := by
  induction h with
  | done => exact h'
  | bare hc _ ih => exact .bare hc (ih h')
  | string hbody hfollows _ ih => exact .string hbody hfollows (ih h')
  | nested ho hc hin _ _ ih => exact .nested ho hc hin (ih h')

theorem Eats.of_bare {u : Str} (h : ∀ c ∈ u, isBare c = true) (r : Str) : Eats (u ++ r) r := by
  induction u with
  | nil => exact .done r
  | cons c u ih =>
    rw [List.forall_mem_cons] at h
    exact .bare h.1 (ih h.2)

/-- A word of the grammar. -/
theorem Eats.of_word {u : Str} (h : u.all isBare = true) (r : Str) : Eats (u ++ r) r :=
  .of_bare (List.all_eq_true.1 h) r

/-! ## What the decoder reads -/

theorem hexDigit_plain {c : Char} {n : Nat} (h : hexDigit? c = some n) : c ≠ '"' ∧ c ≠ '\\' := by
  have hquote : hexDigit? '"' = none := by decide
  have hslash : hexDigit? '\\' = none := by decide
  constructor
  · intro hc
    rw [hc, hquote] at h
    cases h
  · intro hc
    rw [hc, hslash] at h
    cases h

theorem hex4_plain {a b c d : Char} {n : Nat} (h : hex4? a b c d = some n) :
    ∀ x ∈ [a, b, c, d], x ≠ '"' ∧ x ≠ '\\' := by
  unfold hex4? at h
  simp only [Option.bind_eq_bind, Option.pure_def, Option.bind_eq_some_iff] at h
  obtain ⟨_, ha, _, hb, _, hc, _, hd, -⟩ := h
  intro x hx
  simp only [List.mem_cons, List.not_mem_nil, or_false] at hx
  rcases hx with rfl | rfl | rfl | rfl
  · exact hexDigit_plain ha
  · exact hexDigit_plain hb
  · exact hexDigit_plain hc
  · exact hexDigit_plain hd

theorem escape_not_lineBreak {c c' : Char} (h : escape? c = some c') : isLineBreak c = false := by
  unfold escape? at h
  split at h <;> first | rfl | cases h

theorem Body.plain {u s r : Str} (hu : ∀ c ∈ u, c ≠ '"' ∧ c ≠ '\\') (h : Body s r) :
    Body (u ++ s) r := by
  induction u with
  | nil => exact h
  | cons c u ih =>
    rw [List.forall_mem_cons] at hu
    exact .char hu.1.1 hu.1.2 (ih hu.2)

theorem scanUnits_body {s r : Str} {ns : List Nat} (h : scanUnits s = .ok (ns, r)) : Body s r := by
  fun_induction scanUnits s generalizing ns with
  | case1 => cases h
  | case2 rest =>
    cases h
    exact .close _
  | case3 a b c d rest hhex => cases h
  | case4 a b c d rest n hhex ih =>
    obtain ⟨⟨ns', r'⟩, hrest, h⟩ := bind_eq_ok_iff.1 h
    cases h
    exact .escape (by decide) (Body.plain (hex4_plain hhex) (ih hrest))
  | case5 => cases h
  | case6 c rest _ c' hescape ih =>
    obtain ⟨⟨ns', r'⟩, hrest, h⟩ := bind_eq_ok_iff.1 h
    cases h
    exact .escape (escape_not_lineBreak hescape) (ih hrest)
  | case7 => cases h
  | case8 c rest hquote _ _ hplain ih =>
    obtain ⟨⟨ns', r'⟩, hrest, h⟩ := bind_eq_ok_iff.1 h
    cases h
    rw [not_or] at hplain
    exact .char (fun hc => hquote hc) hplain.2 (ih hrest)

theorem scanString_body {s r k : Str} (h : scanString s = .ok (k, r)) : Body s r := by
  unfold scanString at h
  obtain ⟨⟨ns, r'⟩, hunits, h⟩ := bind_eq_ok_iff.1 h
  cases h
  exact scanUnits_body hunits

theorem skipWs_eats (s : Str) : Eats s (skipWs s) := by
  have hblank : ∀ c ∈ s.takeWhile (fun c => c == ' ' || c == '\t' || c == '\n' || c == '\r'),
      isBare c = true := by
    intro c hc
    have := List.mem_takeWhile_imp hc
    simp only [Bool.or_eq_true, beq_iff_eq] at this
    rcases this with ((rfl | rfl) | rfl) | rfl <;> decide
  have h := Eats.of_bare hblank (skipWs s)
  unfold skipWs at h ⊢
  rwa [List.takeWhile_append_dropWhile] at h

/-- A blank or a sign of punctuation follows. -/
theorem followsString_of_skipWs {s r : Str} {c : Char} (h : skipWs s = c :: r) (hc : c ≠ 'n') :
    FollowsString s := by
  intro hn
  cases s with
  | nil => cases h
  | cons d s =>
    obtain rfl : d = 'n' := Option.some.inj hn
    exact hc (List.cons.inj h).1.symm

theorem isDigit_bare {c : Char} (h : isDigit c = true) : isBare c = true := by
  refine isDigit_cases (P := fun c => isBare c = true) ?_ h
  intro n hn
  interval_cases n <;> decide

theorem scanIntPart_split {s ip r : Str} (h : scanIntPart s = some (ip, r)) : s = ip ++ r := by
  unfold scanIntPart at h
  split at h
  · obtain ⟨rfl, rfl⟩ := Prod.mk.inj (Option.some.inj h)
    rfl
  · split_ifs at h
    obtain ⟨rfl, rfl⟩ := Prod.mk.inj (Option.some.inj h)
    rw [List.cons_append, List.takeWhile_append_dropWhile]
  · cases h

theorem scanFrac_split (s : Str) : s = (scanFrac s).1 ++ (scanFrac s).2 := by
  unfold scanFrac
  split
  · split_ifs
    · simp
    · rfl
  · rfl

theorem scanExp_split (s : Str) : s = (scanExp s).1 ++ (scanExp s).2 := by
  unfold scanExp
  split
  · split_ifs
    · simp
    · rw [List.cons_append, List.cons_append, List.takeWhile_append_dropWhile]
    · rfl
  · split_ifs <;> rfl
  · rfl

theorem scanNumber_eats {neg : Bool} {s r : Str} {v : Json} (h : scanNumber neg s = .ok (v, r)) :
    Eats s r := by
  unfold scanNumber at h
  cases hint : scanIntPart s with
  | none =>
    rw [hint] at h
    cases h
  | some q =>
    obtain ⟨ip, r₀⟩ := q
    rw [hint] at h
    have hip : Eats s r₀ := by
      rw [scanIntPart_split hint]
      exact Eats.of_bare (fun c hc => isDigit_bare (scanIntPart_chars hint c hc)) r₀
    have hfrac : Eats r₀ (scanFrac r₀).2 := by
      have heats := Eats.of_bare (u := (scanFrac r₀).1) ?_ (scanFrac r₀).2
      · rwa [← scanFrac_split] at heats
      · intro c hc
        rcases scanFrac_chars hc with rfl | hdigit
        · decide
        · exact isDigit_bare hdigit
    have hexp : Eats (scanFrac r₀).2 (scanExp (scanFrac r₀).2).2 := by
      have heats := Eats.of_bare (u := (scanExp (scanFrac r₀).2).1) ?_ (scanExp (scanFrac r₀).2).2
      · rwa [← scanExp_split] at heats
      · intro c hc
        rcases scanExp_chars hc with (rfl | rfl) | (rfl | rfl) | hdigit
        iterate 4 decide
        exact isDigit_bare hdigit
    by_cases hnone : (scanFrac r₀).1 = [] ∧ (scanExp (scanFrac r₀).2).1 = []
    · simp only [if_pos hnone] at h
      split_ifs at h
      all_goals
        cases h
        exact hip
    · simp only [if_neg hnone] at h
      cases h
      exact (hip.trans hfrac).trans hexp

theorem scanNumber_ne_obj (neg : Bool) (s : Str) {d : Dict Str Json} {r : Str} :
    scanNumber neg s ≠ .ok (obj d, r) := by
  intro h
  unfold scanNumber at h
  split at h
  · cases h
  · dsimp only at h
    split_ifs at h <;> cases h

/-- A scanner that takes such a front, where it is not followed by a letter `n`. -/
def Front (scan : Str → Except LoadError (Json × Str)) : Prop :=
  ∀ s v r, scan s = .ok (v, r) → FollowsString r → Eats s r

variable {scan : Str → Except LoadError (Json × Str)}

theorem scanItems_eats (hscan : Front scan) {fuel : Nat} {s r : Str} {vs : List Json}
    (h : scanItems scan fuel s = .ok (vs, r)) : Eats s (']' :: r) := by
  induction fuel generalizing s vs r with
  | zero => cases h
  | succ fuel ih =>
    rw [scanItems] at h
    obtain ⟨⟨v, s₁⟩, hv, h⟩ := bind_eq_ok_iff.1 h
    dsimp only at h
    split at h
    · next r' hs =>
      cases h
      rw [← hs]
      exact (hscan s v s₁ hv (followsString_of_skipWs hs (by decide))).trans (skipWs_eats s₁)
    · next r' hs =>
      obtain ⟨⟨vs', r''⟩, hrest, h⟩ := bind_eq_ok_iff.1 h
      cases h
      have hfirst :=
        (hscan s v s₁ hv (followsString_of_skipWs hs (by decide))).trans (skipWs_eats s₁)
      rw [hs] at hfirst
      exact hfirst.trans (.bare (by decide) ((skipWs_eats r').trans (ih hrest)))
    · cases h

theorem scanPairs_eats (hscan : Front scan) {fuel : Nat} {d d' : Dict Str Json} {s r : Str}
    (h : scanPairs scan fuel d s = .ok (d', r)) : Eats ('"' :: s) ('\x7d' :: r) := by
  induction fuel generalizing d s with
  | zero => cases h
  | succ fuel ih =>
    rw [scanPairs] at h
    obtain ⟨⟨k, s₁⟩, hkey, h⟩ := bind_eq_ok_iff.1 h
    dsimp only at h
    split at h
    · next s₂ hs =>
      obtain ⟨⟨v, s₃⟩, hv, h⟩ := bind_eq_ok_iff.1 h
      dsimp only at h
      -- the key, the colon and the value
      have hfirst : FollowsString s₃ → Eats ('"' :: s) s₃ := by
        intro hfollows
        have hvalue := (skipWs_eats s₂).trans (hscan _ v s₃ hv hfollows)
        have hcolon := skipWs_eats s₁
        rw [hs] at hcolon
        exact .string (scanString_body hkey) (followsString_of_skipWs hs (by decide))
          (hcolon.trans (.bare (by decide) hvalue))
      split at h
      · next r' hs₃ =>
        cases h
        rw [← hs₃]
        exact (hfirst (followsString_of_skipWs hs₃ (by decide))).trans (skipWs_eats s₃)
      · next r' hs₃ =>
        split at h
        · next r'' hquote =>
          have hblanks := skipWs_eats r'
          have hvalue := (hfirst (followsString_of_skipWs hs₃ (by decide))).trans (skipWs_eats s₃)
          rw [hquote] at hblanks
          rw [hs₃] at hvalue
          exact hvalue.trans (.bare (by decide) (hblanks.trans (ih h)))
        · cases h
      · cases h
    · cases h

/-- What stands between the brackets of an object. -/
theorem scanOnce_obj_eats {depth : Nat} (hscan : ∀ d, depth = d + 1 → Front (scanOnce d))
    {s r : Str} {v : Json} (h : scanOnce depth ('\x7b' :: s) = .ok (v, r)) :
    Eats s ('\x7d' :: r) := by
  cases depth with
  | zero => cases h
  | succ depth =>
    rw [scanOnce] at h
    split at h
    · next r' hs =>
      cases h
      rw [← hs]
      exact skipWs_eats s
    · next r' hs =>
      obtain ⟨⟨d', r''⟩, hpairs, h⟩ := bind_eq_ok_iff.1 h
      cases h
      have hblanks := skipWs_eats s
      rw [hs] at hblanks
      exact hblanks.trans (scanPairs_eats (hscan depth rfl) hpairs)
    · cases h

theorem scanOnce_arr_eats {depth : Nat} (hscan : ∀ d, depth = d + 1 → Front (scanOnce d))
    {s r : Str} {v : Json} (h : scanOnce depth ('[' :: s) = .ok (v, r)) : Eats s (']' :: r) := by
  cases depth with
  | zero => cases h
  | succ depth =>
    rw [scanOnce] at h
    split at h
    · next r' hs =>
      cases h
      rw [← hs]
      exact skipWs_eats s
    · obtain ⟨⟨vs, r''⟩, hitems, h⟩ := bind_eq_ok_iff.1 h
      cases h
      exact (skipWs_eats s).trans (scanItems_eats (hscan depth rfl) hitems)

theorem scanOnce_eats_of {depth : Nat} (hscan : ∀ d, depth = d + 1 → Front (scanOnce d)) :
    Front (scanOnce depth) := by
  intro s v r h hfollows
  have hobj : ∀ s', s = '\x7b' :: s' → Eats s r := by
    intro s' hs
    subst hs
    exact .nested (by decide) (by decide) (scanOnce_obj_eats hscan h) (.done r)
  have harr : ∀ s', s = '[' :: s' → Eats s r := by
    intro s' hs
    subst hs
    exact .nested (by decide) (by decide) (scanOnce_arr_eats hscan h) (.done r)
  unfold scanOnce at h
  split at h
  case h_1 =>
    obtain ⟨⟨t, r'⟩, ht, h⟩ := bind_eq_ok_iff.1 h
    cases h
    exact .string (scanString_body ht) hfollows (.done r)
  case h_3 => exact hobj _ rfl
  case h_5 => exact harr _ rfl
  case h_12 => exact .bare (by decide) (scanNumber_eats h)
  case h_13 => exact scanNumber_eats h
  case h_6 =>
    cases h
    exact Eats.of_word (u := ['n', 'u', 'l', 'l']) (by decide) r
  case h_7 =>
    cases h
    exact Eats.of_word (u := ['t', 'r', 'u', 'e']) (by decide) r
  case h_8 =>
    cases h
    exact Eats.of_word (u := ['f', 'a', 'l', 's', 'e']) (by decide) r
  case h_9 =>
    cases h
    exact Eats.of_word (u := ['N', 'a', 'N']) (by decide) r
  case h_10 =>
    cases h
    exact Eats.of_word (u := ['I', 'n', 'f', 'i', 'n', 'i', 't', 'y']) (by decide) r
  case h_11 =>
    cases h
    exact Eats.of_word (u := ['-', 'I', 'n', 'f', 'i', 'n', 'i', 't', 'y']) (by decide) r
  -- the nesting is too deep
  all_goals cases h

theorem scanOnce_eats (depth : Nat) : Front (scanOnce depth) := by
  induction depth with
  | zero => exact scanOnce_eats_of fun d hd => absurd hd.symm (Nat.succ_ne_zero d)
  | succ depth ih =>
    apply scanOnce_eats_of
    intro d hd
    rw [← Nat.succ.inj hd]
    exact ih

/-! ## Where an object ends -/

theorem loads_eq_ok {depth : Nat} {s : Str} {v : Json} (h : loads depth s = .ok v) :
    ∃ r, scanOnce depth (skipWs s) = .ok (v, r) ∧ skipWs r = [] := by
  unfold loads at h
  split at h
  · cases h
  · obtain ⟨⟨v', r⟩, hscan, h⟩ := bind_eq_ok_iff.1 h
    dsimp only at h
    split_ifs at h with hr
    cases h
    exact ⟨r, hscan, hr⟩

theorem scanOnce_eq_obj {depth : Nat} {s r : Str} {d : Dict Str Json}
    (h : scanOnce depth s = .ok (obj d, r)) : ∃ m, s = '\x7b' :: m := by
  unfold scanOnce at h
  split at h
  case h_1 =>
    obtain ⟨⟨t, r'⟩, -, h⟩ := bind_eq_ok_iff.1 h
    cases h
  case h_3 => exact ⟨_, rfl⟩
  case h_5 =>
    split at h
    · cases h
    · obtain ⟨⟨vs, r'⟩, -, h⟩ := bind_eq_ok_iff.1 h
      cases h
  case h_12 => exact absurd h (scanNumber_ne_obj _ _)
  case h_13 => exact absurd h (scanNumber_ne_obj _ _)
  all_goals cases h

/-- The place of a character in a text. -/
inductive Place where
  | outside
  | inside
  | escaped
  deriving Repr, DecidableEq

/-- The place of the next character. -/
def nextPlace : Place → Char → Place
  | .outside, c => if c = '"' then .inside else .outside
  | .inside, c => if c = '"' then .outside else if c = '\\' then .escaped else .inside
  | .escaped, _ => .inside

theorem nextPlace_inside {c : Char} (hquote : c ≠ '"') (hslash : c ≠ '\\') :
    nextPlace .inside c = .inside := by
  unfold nextPlace
  dsimp only
  rw [if_neg hquote, if_neg hslash]

theorem nextPlace_outside {c : Char} (hquote : c ≠ '"') : nextPlace .outside c = .outside :=
  if_neg hquote

/-- What stands behind the bracket that closes the `n + 1` brackets that are open. -/
def closeAt : Place → Nat → Str → Option Str
  | _, _, [] => none
  | .outside, n, c :: s =>
    if isOpen c then closeAt .outside (n + 1) s
    else if isClose c then (if n = 0 then some s else closeAt .outside (n - 1) s)
    else closeAt (nextPlace .outside c) n s
  | .inside, n, c :: s => closeAt (nextPlace .inside c) n s
  | .escaped, n, _ :: s => closeAt .inside n s

theorem closeAt_append {p : Place} {n : Nat} {s r : Str} (h : closeAt p n s = some r) (t : Str) :
    closeAt p n (s ++ t) = some (r ++ t) := by
  induction s generalizing p n with
  | nil => cases p <;> cases h
  | cons c s ih =>
    cases p with
    | outside =>
      rw [List.cons_append]
      unfold closeAt at h ⊢
      split_ifs at h ⊢ with hopen hclose hn
      · exact ih h
      · rw [Option.some.inj h]
      · exact ih h
      · exact ih h
    | inside => exact ih h
    | escaped => exact ih h

theorem Body.closeAt {s r : Str} (h : Body s r) (n : Nat) :
    closeAt .inside n s = closeAt .outside n r := by
  induction h with
  | close r => rfl
  | @char c s r hquote hslash _ ih =>
    show Json.closeAt (nextPlace .inside c) n s = _
    rw [nextPlace_inside hquote hslash, ih]
  | escape _ _ ih => exact ih

theorem isClose_not_isOpen {c : Char} (h : isClose c = true) : isOpen c = false := by
  unfold isClose at h
  rw [Bool.or_eq_true, beq_iff_eq, beq_iff_eq] at h
  rcases h with rfl | rfl <;> decide

theorem closeAt_close {c : Char} (hc : isClose c = true) (n : Nat) (s : Str) :
    closeAt .outside n (c :: s) = if n = 0 then some s else closeAt .outside (n - 1) s := by
  rw [closeAt, if_neg (by rw [isClose_not_isOpen hc]; decide), if_pos hc]

/-- What was read leaves the number of open brackets as it is. -/
theorem Eats.closeAt {s r : Str} (h : Eats s r) (n : Nat) :
    closeAt .outside n s = closeAt .outside n r := by
  induction h generalizing n with
  | done => rfl
  | @bare c s r hc _ ih =>
    obtain ⟨hquote, -, -, hopen, hclose⟩ := isBare_plain hc
    rw [Json.closeAt, hopen, hclose, nextPlace_outside hquote]
    exact ih n
  | string hbody _ _ ih => exact (hbody.closeAt n).trans (ih n)
  | @nested o c s s' r ho hc _ _ ihin ih =>
    calc Json.closeAt .outside n (o :: s) = Json.closeAt .outside (n + 1) s := if_pos ho
      _ = Json.closeAt .outside (n + 1) (c :: s') := ihin (n + 1)
      _ = Json.closeAt .outside n s' := closeAt_close hc (n + 1) s'
      _ = Json.closeAt .outside n r := ih n

theorem skipWs_eq_nil_append {s t : Str} (h : skipWs (s ++ t) = []) : skipWs t = [] := by
  unfold skipWs at h ⊢
  rw [List.dropWhile_eq_nil_iff] at h ⊢
  exact fun c hc => h c (List.mem_append_right s hc)

theorem skipWs_append_of_ne_nil {s : Str} (h : skipWs s ≠ []) (t : Str) :
    skipWs (s ++ t) = skipWs s ++ t := by
  unfold skipWs at h ⊢
  rw [List.dropWhile_append, if_neg (by simpa using h)]

/-- Where a text is an object, a longer text is read to no end, unless only blanks are added. -/
theorem loads_longer {depth depth' : Nat} {s t : Str} {d : Dict Str Json} {v : Json}
    (h : loads depth s = .ok (obj d)) (h' : loads depth' (s ++ t) = .ok v) : skipWs t = [] := by
  obtain ⟨r, hscan, -⟩ := loads_eq_ok h
  obtain ⟨m, hm⟩ := scanOnce_eq_obj hscan
  obtain ⟨r', hscan', hr'⟩ := loads_eq_ok h'
  rw [hm] at hscan
  rw [skipWs_append_of_ne_nil (by rw [hm]; exact List.cons_ne_nil _ _), hm, List.cons_append]
    at hscan'
  have hclose : closeAt .outside 0 m = some r := by
    rw [(scanOnce_obj_eats (fun d _ => scanOnce_eats d) hscan).closeAt 0]
    rfl
  have hclose' : closeAt .outside 0 (m ++ t) = some r' := by
    rw [(scanOnce_obj_eats (fun d _ => scanOnce_eats d) hscan').closeAt 0]
    rfl
  rw [closeAt_append hclose t] at hclose'
  rw [← Option.some.inj hclose'] at hr'
  exact skipWs_eq_nil_append hr'

/-! ## Inside of a string -/

/-- What is asked of a character that has the text `s` behind it. -/
def Sees : Place → Char → Str → Prop
  | .outside, c, _ => c ≠ '\\' ∧ c.toUpper ≠ 'O'
  | .inside, c, s => c = '"' → FollowsString s
  | .escaped, c, _ => isLineBreak c = false

/-- A text from a place on, up to the end of the value. -/
def Lexes : Place → Str → Prop
  | p, [] => p = .outside
  | p, c :: s => Sees p c s ∧ Lexes (nextPlace p c) s

theorem isOpen_plain {c : Char} (h : isOpen c = true) :
    c ≠ '"' ∧ c ≠ '\\' ∧ c.toUpper ≠ 'O' := by
  unfold isOpen at h
  rw [Bool.or_eq_true, beq_iff_eq, beq_iff_eq] at h
  rcases h with rfl | rfl <;> decide

theorem isClose_plain {c : Char} (h : isClose c = true) :
    c ≠ '"' ∧ c ≠ '\\' ∧ c.toUpper ≠ 'O' := by
  unfold isClose at h
  rw [Bool.or_eq_true, beq_iff_eq, beq_iff_eq] at h
  rcases h with rfl | rfl <;> decide

/-- A character that is no quote and no backslash is passed on either side. -/
theorem lexes_outside_cons {c : Char} (hquote : c ≠ '"') (hslash : c ≠ '\\')
    (hupper : c.toUpper ≠ 'O') {s : Str} : Lexes .outside (c :: s) ↔ Lexes .outside s := by
  have hsees : Sees .outside c s := ⟨hslash, hupper⟩
  rw [Lexes, nextPlace_outside hquote]
  exact and_iff_right hsees

theorem lexes_inside_cons {c : Char} (hquote : c ≠ '"') (hslash : c ≠ '\\') {s : Str} :
    Lexes .inside (c :: s) ↔ Lexes .inside s := by
  rw [Lexes, nextPlace_inside hquote hslash]
  exact and_iff_right fun hc => absurd hc hquote

theorem Lexes.drop_outside {u s : Str} (hu : ∀ c ∈ u, c ≠ '"') (h : Lexes .outside (u ++ s)) :
    Lexes .outside s := by
  induction u with
  | nil => exact h
  | cons c u ih =>
    rw [List.forall_mem_cons] at hu
    rw [List.cons_append, Lexes, nextPlace_outside hu.1] at h
    exact ih hu.2 h.2

theorem Lexes.drop_inside {u s : Str} (hu : ∀ c ∈ u, c ≠ '"' ∧ c ≠ '\\')
    (h : Lexes .inside (u ++ s)) : Lexes .inside s := by
  induction u with
  | nil => exact h
  | cons c u ih =>
    rw [List.forall_mem_cons] at hu
    exact ih hu.2 ((lexes_inside_cons hu.1.1 hu.1.2).1 h)

theorem Body.lexes {s r : Str} (h : Body s r) (hfollows : FollowsString r)
    (hr : Lexes .outside r) : Lexes .inside s := by
  induction h with
  | close r => exact ⟨fun _ => hfollows, hr⟩
  | char hquote hslash _ ih => exact (lexes_inside_cons hquote hslash).2 (ih hfollows hr)
  | escape hbreak _ ih => exact ⟨fun hc => absurd hc (by decide), hbreak, ih hfollows hr⟩

theorem Eats.lexes {s r : Str} (h : Eats s r) (hr : Lexes .outside r) : Lexes .outside s := by
  induction h with
  | done => exact hr
  | bare hc _ ih =>
    obtain ⟨hquote, hslash, hupper, -⟩ := isBare_plain hc
    exact (lexes_outside_cons hquote hslash hupper).2 (ih hr)
  | string hbody hfollows _ ih => exact ⟨⟨by decide, by decide⟩, hbody.lexes hfollows (ih hr)⟩
  | nested ho hc _ _ ihin ih =>
    obtain ⟨hquote, hslash, hupper⟩ := isOpen_plain ho
    obtain ⟨hquote', hslash', hupper'⟩ := isClose_plain hc
    exact (lexes_outside_cons hquote hslash hupper).2
      (ihin ((lexes_outside_cons hquote' hslash' hupper').2 (ih hr)))

/-- An object, with the blanks around it. -/
theorem loads_eats {depth : Nat} {s : Str} {d : Dict Str Json} (h : loads depth s = .ok (obj d)) :
    Eats s [] := by
  obtain ⟨r, hscan, hr⟩ := loads_eq_ok h
  obtain ⟨m, hm⟩ := scanOnce_eq_obj hscan
  have hfront := skipWs_eats s
  have hback := skipWs_eats r
  rw [hm] at hscan hfront
  rw [hr] at hback
  have hobj := scanOnce_obj_eats (fun d _ => scanOnce_eats d) hscan
  exact hfront.trans (.nested (by decide) (by decide) hobj hback)

theorem Lexes.suffix {p : Place} {s t : Str} (h : Lexes p (s ++ t)) : ∃ p', Lexes p' t := by
  induction s generalizing p with
  | nil => exact ⟨p, h⟩
  | cons c s ih => exact ih h.2

theorem lineBreak_plain {c : Char} (h : isLineBreak c = true) : c ≠ '"' ∧ c ≠ '\\' := by
  constructor
  · intro hc
    rw [hc] at h
    exact absurd h (by decide)
  · intro hc
    rw [hc] at h
    exact absurd h (by decide)

/-- A line break is never escaped. -/
theorem Lexes.after_lineBreak {p : Place} {s t : Str} {c : Char} (hc : isLineBreak c = true)
    (h : Lexes p (s ++ c :: t)) : Lexes .outside t ∨ Lexes .inside t := by
  obtain ⟨hquote, hslash⟩ := lineBreak_plain hc
  obtain ⟨p', hp'⟩ := h.suffix
  cases p' with
  | outside =>
    left
    rw [Lexes, nextPlace_outside hquote] at hp'
    exact hp'.2
  | inside => exact .inr ((lexes_inside_cons hquote hslash).1 hp')
  | escaped => exact absurd hp'.1 (by rw [Sees, hc]; decide)

/-! ## The other side

The part `s` of a text is read as if it started outside of strings, and the text goes on with
`t` behind it. -/

variable {t : Str}

theorem Body.cross {s r : Str} (h : Body s r) (hlex : Lexes .outside (s ++ t)) :
    Lexes .inside (r ++ t) := by
  induction h with
  | close r => exact hlex.2
  | char hquote _ _ ih =>
    rw [List.cons_append, Lexes, nextPlace_outside hquote] at hlex
    exact ih hlex.2
  | escape _ _ _ => exact absurd rfl hlex.1.1

theorem Eats.cross {s r : Str} (h : Eats s r) (hlex : Lexes .inside (s ++ t)) :
    Lexes .inside (r ++ t) := by
  induction h with
  | done => exact hlex
  | bare hc _ ih =>
    obtain ⟨hquote, hslash, -⟩ := isBare_plain hc
    exact ih ((lexes_inside_cons hquote hslash).1 hlex)
  | string hbody _ _ ih => exact ih (hbody.cross hlex.2)
  | nested ho hc _ _ ihin ih =>
    obtain ⟨hquote, hslash, -⟩ := isOpen_plain ho
    obtain ⟨hquote', hslash', -⟩ := isClose_plain hc
    have hin := ihin ((lexes_inside_cons hquote hslash).1 hlex)
    exact ih ((lexes_inside_cons hquote' hslash').1 hin)

/-- What starts where a string of the text has ended does not start with an `n`. -/
theorem scanString_head {s r k : Str} (h : scanString s = .ok (k, r))
    (hfollows : FollowsString (s ++ t)) (hlex : Lexes .outside (s ++ t)) : k.head? ≠ some 'n' := by
  unfold scanString at h
  obtain ⟨⟨ns, r'⟩, hunits, h⟩ := bind_eq_ok_iff.1 h
  cases h
  cases s with
  | nil => cases hunits
  | cons c s =>
    by_cases hquote : c = '"'
    · subst hquote
      cases hunits
      exact nofun
    · have hslash : c ≠ '\\' := hlex.1.1
      by_cases hlow : c.toNat < 0x20
      · rw [scanUnits, if_pos (.inl hlow)] at hunits
        · cases hunits
        · exact fun hc => hquote hc
        · exact fun a b c' d' rest' hc _ => hslash hc
        · exact fun c' rest' hc _ => hslash hc
      · rw [scanUnits_plain hquote hslash (Nat.le_of_not_lt hlow)] at hunits
        cases hrest : scanUnits s with
        | error e =>
          rw [hrest] at hunits
          cases hunits
        | ok q =>
          rw [hrest] at hunits
          cases hunits
          have hvalid := toNat_valid c
          rw [joinSurrogates_cons (by omega), unicodeChar_toNat]
          exact hfollows

theorem scanPairs_inside {scan : Str → Except LoadError (Json × Str)} (hscan : Front scan)
    {fuel : Nat} {d d' : Dict Str Json} {s r k : Str} (h : scanPairs scan fuel d s = .ok (d', r))
    (hfollows : FollowsString (s ++ t)) (hlex : Lexes .outside (s ++ t)) (hk : k.head? = some 'n') :
    d'.get? k = d.get? k := by
  induction fuel generalizing d s with
  | zero => cases h
  | succ fuel ih =>
    rw [scanPairs] at h
    obtain ⟨⟨k', s₁⟩, hkey, h⟩ := bind_eq_ok_iff.1 h
    dsimp only at h
    have hne : k' ≠ k := by
      intro heq
      exact scanString_head hkey hfollows hlex (heq ▸ hk)
    have hkeep : ∀ v, (d.set k' v).get? k = d.get? k := fun v => Dict.get?_set_of_ne d v hne
    split at h
    · next s₂ hs =>
      obtain ⟨⟨v, s₃⟩, hv, h⟩ := bind_eq_ok_iff.1 h
      dsimp only at h
      have hcolon := (skipWs_eats s₁).cross ((scanString_body hkey).cross hlex)
      rw [hs] at hcolon
      have hvalue := (skipWs_eats s₂).cross ((lexes_inside_cons (by decide) (by decide)).1 hcolon)
      split at h
      · cases h
        exact hkeep v
      · next r' hs₃ =>
        have hafter := (hscan _ v s₃ hv (followsString_of_skipWs hs₃ (by decide))).cross hvalue
        have hcomma := (skipWs_eats s₃).cross hafter
        rw [hs₃] at hcomma
        have hblanks :=
          (skipWs_eats r').cross ((lexes_inside_cons (by decide) (by decide)).1 hcomma)
        split at h
        · next r'' hquote =>
          rw [hquote] at hblanks
          rw [ih h (hblanks.1 rfl) hblanks.2, hkeep v]
        · cases h
      · cases h
    · cases h

/-- An object that starts inside of a string has no key that starts with an `n`. -/
theorem loads_inside {depth : Nat} {s k : Str} {d : Dict Str Json} (h : loads depth s = .ok (obj d))
    (hlex : Lexes .inside (s ++ t)) (hk : k.head? = some 'n') : d.get? k = none := by
  obtain ⟨r, hscan, -⟩ := loads_eq_ok h
  obtain ⟨m, hm⟩ := scanOnce_eq_obj hscan
  have hfront := (skipWs_eats s).cross hlex
  rw [hm] at hscan hfront
  have hblanks := (skipWs_eats m).cross ((lexes_inside_cons (by decide) (by decide)).1 hfront)
  cases depth with
  | zero => cases hscan
  | succ depth =>
    rw [scanOnce] at hscan
    split at hscan
    · cases hscan
      rfl
    · next r' hs =>
      obtain ⟨⟨d', r''⟩, hpairs, hscan⟩ := bind_eq_ok_iff.1 hscan
      cases hscan
      rw [hs] at hblanks
      exact scanPairs_inside (scanOnce_eats depth) hpairs (hblanks.1 rfl) hblanks.2 hk
    · cases hscan

end AiPipelines.PyStd.Json

import Mathlib.Data.Char
import Mathlib.Data.List.DropRight
import Mathlib.Data.List.Infix
import Mathlib.Data.List.Lex

/-!
# Python text

A Python `str` is a sequence of code points.  Here it is the list of its
characters, `Str`, and the methods that the modelled programs call are
functions on that list.  A string literal is read as a `Str` through the
coercion below, so that the constants of the source stay readable.

There are four groups.

* Whitespace.  `isSpace` is `str.isspace` of one character, which is also
  what `\s` means in a regular expression.  `lstrip`, `rstrip` and `strip`
  remove it at the ends.  `IsBlank` says that nothing else is there, and
  `IsWord` that there is none of it.  `visible` is what is left without it.
* Splitting.  `split` is `str.split()`, `splitlines` is `str.splitlines()` and
  `joinWith` is `sep.join`.
* Searching.  `startsWith` and `contains` are the prefix and the substring
  test.
* Replacing.  `replace` is `str.replace`, and `remove` takes a character out.

The module names nothing of the repository.
-/

namespace AiPipelines.PyStd

/-- A Python `str`. -/
abbrev Str := List Char

instance : Coe String Str := ⟨String.toList⟩

/-! ## Whitespace -/

/-- `str.isspace` of one character: the ASCII blanks, the four ASCII
separators, and the Unicode space, line and paragraph separators. -/
def isSpace (c : Char) : Bool :=
  let n := c.toNat
  (9 ≤ n && n ≤ 13) || (28 ≤ n && n ≤ 32) || n == 0x85 || n == 0xa0 || n == 0x1680 ||
    (0x2000 ≤ n && n ≤ 0x200a) || n == 0x2028 || n == 0x2029 || n == 0x202f ||
    n == 0x205f || n == 0x3000

/-- `str.lstrip()`. -/
def lstrip (s : Str) : Str := s.dropWhile isSpace

/-- `str.rstrip()`. -/
def rstrip (s : Str) : Str := s.rdropWhile isSpace

/-- `str.strip()`. -/
def strip (s : Str) : Str := rstrip (lstrip s)

/-- The text holds nothing but whitespace.  The empty text is blank. -/
def IsBlank (s : Str) : Prop := ∀ c ∈ s, isSpace c = true

instance (s : Str) : Decidable (IsBlank s) := decidable_of_iff _ List.all_eq_true

/-- Not empty and without whitespace. -/
def IsWord (s : Str) : Prop := s ≠ [] ∧ ∀ c ∈ s, isSpace c = false

instance (s : Str) : Decidable (IsWord s) :=
  decidable_of_iff (s ≠ [] ∧ s.any isSpace = false) (and_congr_right fun _ => by simp)

theorem lstrip_eq_nil_iff {s : Str} : lstrip s = [] ↔ IsBlank s := by
  simp [lstrip, IsBlank, List.dropWhile_eq_nil_iff]

theorem rstrip_eq_nil_iff {s : Str} : rstrip s = [] ↔ IsBlank s := by
  simp [rstrip, IsBlank, List.rdropWhile_eq_nil_iff]

/-- Stripping the left end does not change whether the text is blank. -/
theorem isBlank_lstrip {s : Str} : IsBlank (lstrip s) ↔ IsBlank s := by
  constructor
  · intro h
    rw [← lstrip_eq_nil_iff]
    by_contra hne
    have hhead := List.head_dropWhile_not isSpace (l := s) hne
    have hmem : (lstrip s).head hne ∈ lstrip s := List.head_mem hne
    exact absurd (h _ hmem) (Bool.eq_false_iff.mp hhead)
  · intro h c hc
    exact h c (List.dropWhile_subset isSpace hc)

theorem strip_eq_nil_iff {s : Str} : strip s = [] ↔ IsBlank s := by
  rw [strip, rstrip_eq_nil_iff, isBlank_lstrip]

/-- The right end of a text that is not blank is not whitespace after
`rstrip`. -/
theorem rstrip_getLast_not_space {s : Str} (h : rstrip s ≠ []) :
    isSpace ((rstrip s).getLast h) = false := by
  have hlast := List.rdropWhile_last_not isSpace s h
  exact Bool.eq_false_iff.mpr hlast

/-- A text that does not end in whitespace is not changed by `rstrip`. -/
theorem rstrip_eq_self {s : Str} (h : ∀ hne : s ≠ [], isSpace (s.getLast hne) = false) :
    rstrip s = s := by
  rw [rstrip, List.rdropWhile_eq_self_iff]
  intro hne
  simp [h hne]

@[simp] theorem rstrip_rstrip (s : Str) : rstrip (rstrip s) = rstrip s :=
  List.rdropWhile_idempotent isSpace s

/-- A suffix of a text that `rstrip` leaves alone is left alone too. -/
theorem rstrip_suffix {s t : Str} (hs : rstrip s = s) (ht : t <:+ s) : rstrip t = t := by
  apply rstrip_eq_self
  intro hne
  have hsne : s ≠ [] := by
    rintro rfl
    exact hne (List.suffix_nil.mp ht)
  have hrne : rstrip s ≠ [] := by rwa [hs]
  obtain ⟨pre, rfl⟩ := ht
  have hlast := rstrip_getLast_not_space hrne
  simpa [hs, List.getLast_append_of_ne_nil _ hne] using hlast

/-- `strip` leaves no whitespace at the right end. -/
@[simp] theorem rstrip_strip (s : Str) : rstrip (strip s) = strip s := by
  simp [strip]

theorem lstrip_strip (s : Str) : lstrip (strip s) = strip s := by
  cases hs : strip s with
  | nil => rfl
  | cons c t =>
    -- what is left at the right end does not change the first character
    have hprefix : c :: t <+: lstrip s := hs ▸ List.rdropWhile_prefix isSpace (l := lstrip s)
    obtain ⟨u, hu⟩ := hprefix
    have hc : isSpace c = false := by
      have hhead := List.head?_dropWhile_not isSpace s
      rw [show s.dropWhile isSpace = c :: (t ++ u) from hu.symm] at hhead
      simpa using hhead
    exact List.dropWhile_cons_of_neg (by rw [hc]; decide)

@[simp] theorem strip_strip (s : Str) : strip (strip s) = strip s := by
  show rstrip (lstrip (strip s)) = strip s
  rw [lstrip_strip, rstrip_strip]

theorem not_isSpace_of_all {s : Str} (h : s.all (fun c => !isSpace c) = true) :
    ∀ c ∈ s, isSpace c = false := by
  intro c hc
  simpa using List.all_eq_true.1 h c hc

/-- A text without whitespace is not changed by `strip`. -/
theorem strip_eq_self {s : Str} (h : ∀ c ∈ s, isSpace c = false) : strip s = s := by
  have hl : lstrip s = s := by
    cases s with
    | nil => rfl
    | cons c t =>
      have hc := h c List.mem_cons_self
      exact List.dropWhile_cons_of_neg (by rw [hc]; decide)
  rw [strip, hl]
  exact rstrip_eq_self fun hne => h _ (List.getLast_mem hne)

theorem isBlank_strip {s : Str} : IsBlank (strip s) ↔ IsBlank s := by
  rw [← rstrip_eq_nil_iff, rstrip_strip, strip_eq_nil_iff]

/-- The characters that are no whitespace. -/
def visible (s : Str) : Str := s.filter fun c => !isSpace c

@[simp] theorem visible_nil : visible [] = [] := rfl

@[simp] theorem visible_append (s t : Str) : visible (s ++ t) = visible s ++ visible t := by
  unfold visible
  exact List.filter_append s t

theorem visible_cons_space {c : Char} (hc : isSpace c = true) (s : Str) :
    visible (c :: s) = visible s :=
  List.filter_cons_of_neg (by simp [hc])

theorem visible_of_blank {s : Str} (h : IsBlank s) : visible s = [] := by
  unfold visible
  rw [List.filter_eq_nil_iff]
  intro c hc
  simp [h c hc]

theorem visible_lstrip (s : Str) : visible (lstrip s) = visible s := by
  have hblank : IsBlank (s.takeWhile isSpace) := fun c hc => List.mem_takeWhile_imp hc
  calc visible (lstrip s) = visible (s.takeWhile isSpace) ++ visible (lstrip s) := by
        rw [visible_of_blank hblank, List.nil_append]
    _ = visible (s.takeWhile isSpace ++ s.dropWhile isSpace) := (visible_append _ _).symm
    _ = visible s := by rw [List.takeWhile_append_dropWhile]

theorem visible_rstrip (s : Str) : visible (rstrip s) = visible s := by
  have hblank : IsBlank (s.rtakeWhile isSpace) := fun c hc => List.mem_rtakeWhile_imp hc
  calc visible (rstrip s) = visible (rstrip s) ++ visible (s.rtakeWhile isSpace) := by
        rw [visible_of_blank hblank, List.append_nil]
    _ = visible (s.rdropWhile isSpace ++ s.rtakeWhile isSpace) := (visible_append _ _).symm
    _ = visible s := by rw [List.rdropWhile_append_rtakeWhile]

@[simp] theorem visible_strip (s : Str) : visible (strip s) = visible s := by
  rw [strip, visible_rstrip, visible_lstrip]

theorem length_strip_le (s : Str) : (strip s).length ≤ s.length :=
  (List.rdropWhile_prefix isSpace (l := lstrip s)).length_le.trans
    (List.dropWhile_suffix isSpace (l := s)).length_le

/-! ## Splitting and joining -/

/-- `str.split()`: the maximal runs of characters that are not whitespace. -/
def split (s : Str) : List Str := (s.splitOnP isSpace).filter (· ≠ [])

/-- `sep.join(xs)`. -/
def joinWith (sep : Str) (xs : List Str) : Str := sep.intercalate xs

@[simp] theorem split_nil : split [] = [] := by
  simp [split]

/-- A word is a token of its own. -/
theorem split_word {w : Str} (hw : IsWord w) : split w = [w] := by
  rw [split, List.splitOnP_eq_singleton hw.2]
  simp [hw.1]

/-- A blank separates the tokens on its left from those on its right. -/
theorem split_append_cons (s t : Str) {c : Char} (hc : isSpace c = true) :
    split (s ++ c :: t) = split s ++ split t := by
  simp only [split, List.splitOnP_append_cons s t hc, List.filter_append]

private theorem splitOnP_mem_not_sep {s : Str} :
    ∀ w ∈ s.splitOnP isSpace, ∀ c ∈ w, isSpace c = false := by
  induction s with
  | nil => simp
  | cons a s ih =>
    intro w hw c hc
    rw [List.splitOnP_cons_eq_if_modifyHead] at hw
    by_cases ha : isSpace a = true
    · simp only [ha, if_true, List.mem_cons] at hw
      rcases hw with rfl | hw
      · simp at hc
      · exact ih w hw c hc
    · simp only [Bool.not_eq_true] at ha
      simp only [ha, Bool.false_eq_true, if_false] at hw
      cases hs : s.splitOnP isSpace with
      | nil => exact absurd hs (List.splitOnP_ne_nil isSpace s)
      | cons v vs =>
        rw [hs] at hw ih
        simp only [List.modifyHead_cons, List.mem_cons] at hw
        rcases hw with rfl | hw
        · rcases List.mem_cons.mp hc with rfl | hc
          · exact ha
          · exact ih v (by simp) c hc
        · exact ih w (by simp [hw]) c hc

/-- Splitting drops the separators and nothing else. -/
theorem splitOnP_flatten (p : Char → Bool) (s : Str) :
    (s.splitOnP p).flatten = s.filter fun c => !p c := by
  induction s with
  | nil => simp
  | cons a s ih =>
    rw [List.splitOnP_cons_eq_if_modifyHead]
    by_cases ha : p a = true
    · simp [ha, ih]
    · obtain ⟨w, ws, hw⟩ := List.exists_cons_of_ne_nil (List.splitOnP_ne_nil p s)
      rw [hw] at ih ⊢
      simpa [ha] using ih

/-- Only the characters of the text decide where it is split. -/
theorem splitOnP_congr {p q : Char → Bool} {s : Str} (h : ∀ c ∈ s, p c = q c) :
    s.splitOnP p = s.splitOnP q := by
  induction s with
  | nil => simp
  | cons a s ih =>
    rw [List.splitOnP_cons_eq_if_modifyHead, List.splitOnP_cons_eq_if_modifyHead,
      h a List.mem_cons_self, ih fun c hc => h c (List.mem_cons_of_mem a hc)]

theorem split_flatten (s : Str) : (split s).flatten = s.filter fun c => !isSpace c := by
  unfold split
  rw [List.flatten_filter_ne_nil, splitOnP_flatten]

/-- Every token is a non-empty word without whitespace. -/
theorem mem_split {s w : Str} (hw : w ∈ split s) : IsWord w := by
  simp only [split, List.mem_filter, decide_eq_true_eq] at hw
  exact ⟨hw.2, splitOnP_mem_not_sep w hw.1⟩

/-- Words joined with one blank are split back into the same words. -/
theorem split_joinWith_blank {ws : List Str} (hws : ∀ w ∈ ws, IsWord w) :
    split (joinWith [' '] ws) = ws := by
  induction ws with
  | nil => simp [joinWith]
  | cons w ws ih =>
    have hw := hws w (by simp)
    cases ws with
    | nil => simpa [joinWith] using split_word hw
    | cons v ws =>
      have hrest : split (joinWith [' '] (v :: ws)) = v :: ws :=
        ih (fun u hu => hws u (List.mem_cons_of_mem w hu))
      rw [joinWith, List.intercalate_cons_cons, List.append_assoc, List.singleton_append,
        split_append_cons w _ (by decide), split_word hw]
      rw [joinWith] at hrest
      rw [hrest]
      rfl

/-- Where `str.splitlines` ends a line. -/
def isLineBreak (c : Char) : Bool :=
  let n := c.toNat
  (10 ≤ n && n ≤ 13) || (28 ≤ n && n ≤ 30) || n == 0x85 || n == 0x2028 || n == 0x2029

/-- `str.splitlines()`.  A carriage return takes the line feed behind it with
it, and the end of the text ends a line only if it has something in it. -/
def splitlines : Str → List Str
  | [] => []
  | '\r' :: '\n' :: s => [] :: splitlines s
  | c :: s =>
    if isLineBreak c then [] :: splitlines s
    else
      match splitlines s with
      | [] => [[c]]
      | l :: ls => (c :: l) :: ls

/-! ## Searching -/

/-- `s.startswith(p)`. -/
def startsWith (p s : Str) : Bool := p.isPrefixOf s

/-- `sub in s`. -/
def contains (sub s : Str) : Bool := s.tails.any (startsWith sub)

theorem startsWith_iff {p s : Str} : startsWith p s = true ↔ p <+: s := by
  simp [startsWith]

theorem contains_iff {sub s : Str} : contains sub s = true ↔ sub <:+: s := by
  simp only [contains, List.any_eq_true, List.mem_tails, startsWith_iff]
  constructor
  · rintro ⟨t, hsuf, hpre⟩
    exact hpre.isInfix.trans hsuf.isInfix
  · rintro ⟨pre, post, rfl⟩
    exact ⟨sub ++ post, ⟨pre, by simp⟩, ⟨post, rfl⟩⟩

/-! ## Replacing -/

/-- The scan of `str.replace`; the first argument counts the characters that
still belong to the last match. -/
def replaceFrom (old new : Str) : Nat → Str → Str
  | _, [] => []
  | skip + 1, _ :: s => replaceFrom old new skip s
  | 0, c :: s =>
    if startsWith old (c :: s) then new ++ replaceFrom old new (old.length - 1) s
    else c :: replaceFrom old new 0 s

/-- `str.replace(old, new)`, for a text `old` that is not empty: the matches
are taken from the left and do not overlap. -/
def replace (old new s : Str) : Str := replaceFrom old new 0 s

/-- `str.replace(c, "")`. -/
def remove (c : Char) (s : Str) : Str := s.filter (· ≠ c)

theorem remove_eq_self {c : Char} {s : Str} (h : c ∉ s) : remove c s = s := by
  refine List.filter_eq_self.2 fun d hd => ?_
  have hne : d ≠ c := fun heq => h (heq ▸ hd)
  simpa using hne

end AiPipelines.PyStd

import AiPipelines.PyStd.Str

/-!
# Substitution in a text of words

A pattern `name\s+[p]+` matches a name, a gap and the front of a word, if `p` matches no
whitespace.  `subAll` and `subFirst` are `re.sub` with such a pattern.

A text is a word with more behind it, and `Behind` says that what is behind are gaps and words.
A match starts at the end of a word and reaches into the next one, so a substitution takes the
gaps and words to gaps and words: `behind_subAll` and `behind_subFirst`.

The module names nothing of the repository.
-/

namespace AiPipelines.PyStd

/-! ## Patterns -/

/-- What `name\s+[p]+` matches at the front of a text. -/
def matchWord (name : Str) (p : Char → Bool) (s : Str) : Option Str :=
  if startsWith name s then
    let gap := (s.drop name.length).takeWhile isSpace
    let value := ((s.drop name.length).dropWhile isSpace).takeWhile p
    if gap = [] ∨ value = [] then none else some (name ++ gap ++ value)
  else none

/-- The scan of `re.sub`; the first argument counts the characters that still belong to the last
match. -/
def subFrom (m : Str → Option Str) (new : Str → Str) : Nat → Str → Str
  | _, [] => []
  | skip + 1, _ :: s => subFrom m new skip s
  | 0, c :: s =>
    match m (c :: s) with
    | some matched => new matched ++ subFrom m new (matched.length - 1) s
    | none => c :: subFrom m new 0 s

/-- `re.sub(pattern, new, s)`, for a pattern that does not match the empty text. -/
def subAll (m : Str → Option Str) (new : Str → Str) (s : Str) : Str := subFrom m new 0 s

/-- `re.sub(pattern, new, s, count=1)`. -/
def subFirst (m : Str → Option Str) (new : Str → Str) : Str → Str
  | [] => []
  | c :: s =>
    match m (c :: s) with
    | some matched => new matched ++ (c :: s).drop matched.length
    | none => c :: subFirst m new s

/-! ## Gaps and words -/

/-- What stands behind a word: gaps and further words. -/
inductive Behind : Str → List Str → Prop where
  | done (gap : Str) : IsBlank gap → Behind gap []
  | word (gap w t : Str) (ws : List Str) : IsBlank gap → gap ≠ [] → IsWord w → Behind t ws →
      Behind (gap ++ (w ++ t)) (w :: ws)

/-- A text without whitespace, which may be empty. -/
def Solid (s : Str) : Prop := ∀ c ∈ s, isSpace c = false

variable {name v s t q w gap : Str} {ws : List Str} {p : Char → Bool} {c : Char}

theorem Solid.append {a b : Str} (ha : Solid a) (hb : Solid b) : Solid (a ++ b) :=
  fun c hc => (List.mem_append.1 hc).elim (ha c) (hb c)

theorem solid_append_iff {a b : Str} : Solid (a ++ b) ↔ Solid a ∧ Solid b :=
  ⟨fun h =>
    ⟨fun c hc => h c (List.mem_append_left b hc), fun c hc => h c (List.mem_append_right a hc)⟩,
    fun h => h.1.append h.2⟩

/-- A text that is empty or goes on with whitespace. -/
def Broken (s : Str) : Prop := ∀ c ∈ s.head?, isSpace c = true

theorem broken_of_gap (hblank : IsBlank gap) (hne : gap ≠ []) : Broken (gap ++ s) := by
  intro c hc
  obtain ⟨d, gap', rfl⟩ := List.exists_cons_of_ne_nil hne
  rw [← Option.some.inj hc]
  exact hblank d List.mem_cons_self

theorem Behind.broken (h : Behind t ws) : Broken t := by
  cases h with
  | done gap hblank =>
    intro c hc
    exact hblank c (List.mem_of_mem_head? hc)
  | word gap w t ws hblank hne _ _ => exact broken_of_gap hblank hne

/-- One more blank in front. -/
theorem Behind.cons (h : Behind t ws) (hc : isSpace c = true) : Behind (c :: t) ws := by
  cases h with
  | done gap hblank => exact .done _ (List.forall_mem_cons.2 ⟨hc, hblank⟩)
  | word gap w t ws hblank _ hw ht =>
    exact .word (c :: gap) w t ws (List.forall_mem_cons.2 ⟨hc, hblank⟩)
      (List.cons_ne_nil c gap) hw ht

theorem split_append_gap (hblank : IsBlank gap) (s : Str) : split (gap ++ s) = split s := by
  induction gap with
  | nil => rfl
  | cons c gap ih =>
    rw [IsBlank, List.forall_mem_cons] at hblank
    have hcons := split_append_cons [] (gap ++ s) hblank.1
    rw [split_nil, List.nil_append, List.nil_append] at hcons
    rw [List.cons_append, hcons, ih hblank.2]

theorem split_append_broken (ht : Broken t) (s : Str) : split (s ++ t) = split s ++ split t := by
  cases t with
  | nil => rw [split_nil, List.append_nil, List.append_nil]
  | cons c t =>
    have hc : isSpace c = true := ht c rfl
    have hblank : IsBlank [c] := List.forall_mem_singleton.2 hc
    rw [split_append_cons s t hc, ← split_append_gap hblank t]
    rfl

/-- The words are those of `split`. -/
theorem Behind.split_eq (h : Behind t ws) : split t = ws := by
  induction h with
  | done gap hblank =>
    have hgap := split_append_gap hblank []
    rw [List.append_nil, split_nil] at hgap
    exact hgap
  | word gap w t ws hblank _ hw ht ih =>
    rw [split_append_gap hblank, split_append_broken ht.broken, split_word hw, ih]
    rfl

theorem exists_behind (s : Str) : ∃ w t ws, s = w ++ t ∧ Solid w ∧ Behind t ws := by
  induction s with
  | nil => exact ⟨[], [], [], rfl, List.forall_mem_nil _, .done [] (List.forall_mem_nil _)⟩
  | cons c s ih =>
    obtain ⟨w, t, ws, rfl, hw, ht⟩ := ih
    by_cases hc : isSpace c = true
    · by_cases hnil : w = []
      · refine ⟨[], c :: t, ws, ?_, List.forall_mem_nil _, ht.cons hc⟩
        rw [hnil]
        rfl
      · exact ⟨[], [c] ++ (w ++ t), w :: ws, rfl, List.forall_mem_nil _,
          .word [c] w t ws (List.forall_mem_singleton.2 hc) (List.cons_ne_nil c []) ⟨hnil, hw⟩ ht⟩
    · exact ⟨c :: w, t, ws, rfl, List.forall_mem_cons.2 ⟨Bool.eq_false_iff.2 hc, hw⟩, ht⟩

/-- Behind a blank, a text is gaps and its words. -/
theorem behind_split (hc : isSpace c = true) (s : Str) : Behind (c :: s) (split s) := by
  have hblank : IsBlank [c] := List.forall_mem_singleton.2 hc
  have hbehind : ∃ ws, Behind (c :: s) ws := by
    obtain ⟨w, t, ws, rfl, hw, ht⟩ := exists_behind s
    by_cases hnil : w = []
    · refine ⟨ws, ?_⟩
      rw [hnil]
      exact ht.cons hc
    · exact ⟨w :: ws, .word [c] w t ws hblank (List.cons_ne_nil c []) ⟨hnil, hw⟩ ht⟩
  obtain ⟨ws, hws⟩ := hbehind
  have hsplit : split ([c] ++ s) = ws := hws.split_eq
  rw [split_append_gap hblank] at hsplit
  rw [hsplit]
  exact hws

theorem Behind.append {t' : Str} {ws' : List Str} (h : Behind t ws) (h' : Behind t' ws') :
    Behind (t ++ t') (ws ++ ws') := by
  induction h with
  | done gap hblank =>
    induction gap with
    | nil => exact h'
    | cons c gap ih =>
      rw [IsBlank, List.forall_mem_cons] at hblank
      exact (ih hblank.2).cons hblank.1
  | word gap w t ws hblank hne hw _ ih =>
    rw [List.append_assoc, List.append_assoc, List.cons_append]
    exact .word gap w (t ++ t') (ws ++ ws') hblank hne hw ih

/-! ## Where a match starts -/

/-- Neither the name nor a value has whitespace. -/
structure WordPattern (name : Str) (p : Char → Bool) : Prop where
  name_ne : name ≠ []
  name_solid : Solid name
  value_solid : ∀ c, p c = true → isSpace c = false

theorem takeWhile_solid (hq : Solid q) (hne : q ≠ []) : (q ++ t).takeWhile isSpace = [] := by
  obtain ⟨c, q, rfl⟩ := List.exists_cons_of_ne_nil hne
  exact List.takeWhile_cons_of_neg (by rw [hq c List.mem_cons_self]; decide)

/-- A match takes the whole name, up to the end of a word. -/
theorem matchWord_eq_none (h : WordPattern name p) (hq : Solid q) (ht : Broken t) (hne : q ≠ name) :
    matchWord name p (q ++ t) = none := by
  unfold matchWord
  by_cases hstart : startsWith name (q ++ t) = true
  · rw [if_pos hstart]
    have hprefix := startsWith_iff.1 hstart
    rcases List.prefix_or_prefix_of_prefix hprefix (List.prefix_append q t) with hle | hle
    · obtain ⟨x, rfl⟩ := hle
      have hx : x ≠ [] := by
        rintro rfl
        exact hne (List.append_nil name)
      have hgap := takeWhile_solid (t := t) (solid_append_iff.1 hq).2 hx
      rw [List.append_assoc, List.drop_left, hgap]
      exact if_pos (.inl rfl)
    · obtain ⟨x, rfl⟩ := hle
      obtain ⟨u, hu⟩ := hprefix
      rw [List.append_assoc, List.append_cancel_left_eq] at hu
      cases x with
      | nil => exact absurd (List.append_nil q).symm hne
      | cons c x =>
        have hspace : isSpace c = true := ht c (by rw [← hu]; rfl)
        rw [(solid_append_iff.1 h.name_solid).2 c List.mem_cons_self] at hspace
        cases hspace
  · exact if_neg hstart

/-- Behind the name there is no value. -/
theorem matchWord_no_value (hvalue : (t.dropWhile isSpace).takeWhile p = []) :
    matchWord name p (name ++ t) = none := by
  unfold matchWord
  rw [if_pos (startsWith_iff.2 (List.prefix_append name t)), List.drop_left, hvalue]
  exact if_pos (.inr rfl)

theorem dropWhile_gap (hblank : IsBlank gap) (hw : IsWord w) :
    (gap ++ (w ++ t)).dropWhile isSpace = w ++ t := by
  obtain ⟨c, w, rfl⟩ := List.exists_cons_of_ne_nil hw.1
  have hc : isSpace c = false := hw.2 c List.mem_cons_self
  rw [List.dropWhile_append_of_pos hblank]
  exact List.dropWhile_cons_of_neg (by rw [hc]; decide)

theorem takeWhile_gap (hblank : IsBlank gap) (hw : IsWord w) :
    (gap ++ (w ++ t)).takeWhile isSpace = gap := by
  rw [List.takeWhile_append_of_pos hblank, takeWhile_solid hw.2 hw.1, List.append_nil]

theorem takeWhile_word (h : WordPattern name p) (ht : Broken t) (w : Str) :
    (w ++ t).takeWhile p = w.takeWhile p := by
  have hbehind : t.takeWhile p = [] := by
    cases t with
    | nil => rfl
    | cons c t =>
      have hspace : isSpace c = true := ht c rfl
      refine List.takeWhile_cons_of_neg fun hp => ?_
      rw [h.value_solid c hp] at hspace
      cases hspace
  induction w with
  | nil => exact hbehind
  | cons c w ih =>
    rw [List.cons_append, List.takeWhile_cons, List.takeWhile_cons, ih]

/-- A match takes the name, the gap and the front of the next word. -/
theorem matchWord_eq_some (h : WordPattern name p) (hblank : IsBlank gap) (hne : gap ≠ [])
    (hw : IsWord w) (ht : Broken t) (hvalue : w.takeWhile p ≠ []) :
    matchWord name p (name ++ (gap ++ (w ++ t))) = some (name ++ gap ++ w.takeWhile p) := by
  unfold matchWord
  rw [if_pos (startsWith_iff.2 (List.prefix_append name _)), List.drop_left,
    takeWhile_gap hblank hw, dropWhile_gap hblank hw, takeWhile_word h ht]
  exact if_neg (not_or.2 ⟨hne, hvalue⟩)

/-! ## Where no match starts -/

section Scan

variable {m : Str → Option Str} {new : Str → Str} {f : Str → Str}

/-- A scan passes a character at which no match starts. -/
structure Passes (m : Str → Option Str) (f : Str → Str) : Prop where
  nil : f [] = []
  cons : ∀ c s, m (c :: s) = none → f (c :: s) = c :: f s

theorem subAll_passes : Passes m (subAll m new) := by
  refine ⟨rfl, fun c s hm => ?_⟩
  unfold subAll
  rw [subFrom, hm]

theorem subFirst_passes : Passes m (subFirst m new) := by
  refine ⟨rfl, fun c s hm => ?_⟩
  rw [subFirst, hm]

theorem Passes.append (hf : Passes m f) (h : ∀ a b, q = a ++ b → b ≠ [] → m (b ++ s) = none) :
    f (q ++ s) = q ++ f s := by
  induction q with
  | nil => rfl
  | cons c q ih =>
    have hrest : f (q ++ s) = q ++ f s := by
      refine ih fun a b hq hne => h (c :: a) b ?_ hne
      rw [hq, List.cons_append]
    have hnone : m (c :: q ++ s) = none := h [] (c :: q) rfl (List.cons_ne_nil c q)
    rw [List.cons_append, hf.cons c (q ++ s) hnone, hrest, List.cons_append]

theorem Passes.blanks (hf : Passes (matchWord name p) f) (h : WordPattern name p)
    (hblank : IsBlank gap) :
    f (gap ++ s) = gap ++ f s := by
  apply hf.append
  rintro a b rfl hne
  have hb : IsBlank b := fun c hc => hblank c (List.mem_append_right a hc)
  exact matchWord_eq_none (q := []) h (List.forall_mem_nil _) (broken_of_gap hb hne) h.name_ne.symm

/-- A word in front of a gap is passed unless it ends with the name and a value comes behind. -/
theorem Passes.solid (hf : Passes (matchWord name p) f) (h : WordPattern name p) (hq : Solid q)
    (ht : Broken t) (hend : name <:+ q → (t.dropWhile isSpace).takeWhile p = []) :
    f (q ++ t) = q ++ f t := by
  apply hf.append
  rintro a b rfl _
  by_cases hname : b = name
  · subst hname
    exact matchWord_no_value (hend (List.suffix_append a b))
  · exact matchWord_eq_none h (solid_append_iff.1 hq).2 ht hname

/-- Behind the last word there is no match. -/
theorem Passes.last (hf : Passes (matchWord name p) f) (h : WordPattern name p) (hq : Solid q)
    (hblank : IsBlank gap) : f (q ++ gap) = q ++ gap := by
  have hend : gap.dropWhile isSpace = [] := List.dropWhile_eq_nil_iff.2 hblank
  have hgap : f (gap ++ []) = gap ++ f [] := hf.blanks h hblank
  rw [hf.nil, List.append_nil] at hgap
  rw [hf.solid h hq (Behind.done gap hblank).broken fun _ => by rw [hend]; rfl, hgap]

/-- A word and the gap behind it are passed if no match starts in the word. -/
theorem Passes.word (hf : Passes (matchWord name p) f) (h : WordPattern name p) (hq : Solid q)
    (hblank : IsBlank gap) (hne : gap ≠ []) (hw : IsWord w) (ht : Broken t)
    (hno : ¬ (name <:+ q ∧ w.takeWhile p ≠ [])) :
    f (q ++ (gap ++ (w ++ t))) = q ++ (gap ++ f (w ++ t)) := by
  have hend : name <:+ q → ((gap ++ (w ++ t)).dropWhile isSpace).takeWhile p = [] := by
    intro hsuffix
    rw [dropWhile_gap hblank hw, takeWhile_word h ht]
    exact not_not.1 fun hvalue => hno ⟨hsuffix, hvalue⟩
  rw [hf.solid h hq (broken_of_gap hblank hne) hend, hf.blanks h hblank]

/-- A word is passed up to the name at its end. -/
theorem Passes.front (hf : Passes (matchWord name p) f) (h : WordPattern name p)
    (hq : Solid (q ++ name)) (ht : Broken t) : f (q ++ (name ++ t)) = q ++ f (name ++ t) := by
  apply hf.append
  rintro a b rfl hne
  rw [← List.append_assoc]
  rw [List.append_assoc] at hq
  refine matchWord_eq_none h (solid_append_iff.1 hq).2 ht fun heq => hne ?_
  exact List.append_left_eq_self.1 heq

end Scan

theorem subFrom_skip {m : Str → Option Str} {new : Str → Str} (x s : Str) :
    subFrom m new x.length (x ++ s) = subFrom m new 0 s := by
  induction x with
  | nil => rfl
  | cons c x ih =>
    show subFrom m new x.length (x ++ s) = _
    exact ih

/-- A match is replaced, and the scan goes on behind it. -/
theorem subAll_match {m : Str → Option Str} {new : Str → Str} {x : Str} (hm : m (x ++ s) = some x)
    (hne : x ≠ []) : subAll m new (x ++ s) = new x ++ subAll m new s := by
  obtain ⟨c, x, rfl⟩ := List.exists_cons_of_ne_nil hne
  unfold subAll
  rw [List.cons_append] at hm
  rw [List.cons_append, subFrom, hm]
  exact congrArg (new (c :: x) ++ ·) (subFrom_skip x s)

/-- The first match is replaced, and the text behind it stays. -/
theorem subFirst_match {m : Str → Option Str} {new : Str → Str} {x : Str} (hm : m (x ++ s) = some x)
    (hne : x ≠ []) : subFirst m new (x ++ s) = new x ++ s := by
  obtain ⟨c, x, rfl⟩ := List.exists_cons_of_ne_nil hne
  rw [List.cons_append] at hm
  rw [List.cons_append, subFirst, hm]
  show new (c :: x) ++ (c :: x ++ s).drop (c :: x).length = _
  rw [List.drop_left]

/-! ## Words for words -/

/-- The front of a word behind the name is replaced, if it is a value. -/
def substituted (name : Str) (p : Char → Bool) (v : Str) : Str → List Str → List Str
  | _, [] => []
  | prev, w :: ws =>
    (if name <:+ prev ∧ w.takeWhile p ≠ [] then v ++ w.dropWhile p else w) ::
      substituted name p v w ws

/-- The words are put behind the first one that stands behind the name. -/
def inserted (name : Str) (added : List Str) : Str → List Str → List Str
  | _, [] => []
  | prev, w :: ws => if name <:+ prev then w :: (added ++ ws) else w :: inserted name added w ws

theorem substituted_congr {prev : Str} (h : name <:+ q ↔ name <:+ prev) :
    substituted name p v q ws = substituted name p v prev ws := by
  cases ws with
  | nil => rfl
  | cons w ws => simp only [substituted, h]

/-- Characters that the name does not have make no name. -/
theorem suffix_append_iff {value : Str} (hvalue : ∀ c ∈ value, p c = true)
    (hname : ∀ c ∈ name, p c = false) : name <:+ value ++ w ↔ name <:+ w := by
  refine ⟨fun h => ?_, fun h => h.trans (List.suffix_append value w)⟩
  rcases List.suffix_or_suffix_of_suffix h (List.suffix_append value w) with hle | hle
  · exact hle
  · obtain ⟨y, rfl⟩ := hle
    have hy : y <:+ value := by
      obtain ⟨z, hz⟩ := h
      rw [← List.append_assoc, List.append_cancel_right_eq] at hz
      exact ⟨z, hz⟩
    cases y with
    | nil => exact List.suffix_refl w
    | cons c y =>
      have hc := hvalue c (hy.subset List.mem_cons_self)
      rw [hname c List.mem_cons_self] at hc
      cases hc

/-- What the substitution of every match does to the words behind a word. -/
theorem behind_subAll (h : WordPattern name p) (hname : ∀ c ∈ name, p c = false) (hv : IsWord v)
    (ht : Behind t ws) (hq : Solid q) :
    ∃ x, subAll (matchWord name p) (fun _ => name ++ ' ' :: v) (q ++ t) = q ++ x ∧
      Behind x (substituted name p v q ws) := by
  have hpass : Passes (matchWord name p) (subAll (matchWord name p) fun _ => name ++ ' ' :: v) :=
    subAll_passes
  induction ht generalizing q with
  | done gap hblank =>
    exact ⟨gap, hpass.last h hq hblank, .done gap hblank⟩
  | word gap w t ws hblank hne hw ht ih =>
    by_cases hmatch : name <:+ q ∧ w.takeWhile p ≠ []
    · obtain ⟨⟨q, rfl⟩, hvalue⟩ := hmatch
      have hdrop : w.takeWhile p ++ w.dropWhile p = w := List.takeWhile_append_dropWhile
      have hrest : Solid (w.dropWhile p) := fun c hc => hw.2 c (List.dropWhile_subset p hc)
      obtain ⟨x, hx, hbehind⟩ := ih hrest
      have hsame : name <:+ w.dropWhile p ↔ name <:+ w := by
        conv_rhs => rw [← hdrop]
        exact (suffix_append_iff (fun c hc => List.mem_takeWhile_imp hc) hname).symm
      rw [substituted_congr hsame] at hbehind
      refine ⟨[' '] ++ ((v ++ w.dropWhile p) ++ x), ?_, ?_⟩
      · have hsome := matchWord_eq_some h hblank hne hw ht.broken hvalue
        have htext : name ++ (gap ++ (w ++ t)) =
            (name ++ gap ++ w.takeWhile p) ++ (w.dropWhile p ++ t) := by
          conv_lhs => rw [← hdrop]
          simp only [List.append_assoc]
        have hfound : (name ++ gap ++ w.takeWhile p) ≠ [] := by simp [hvalue]
        rw [List.append_assoc, hpass.front h hq (broken_of_gap hblank hne), htext]
        rw [htext] at hsome
        rw [subAll_match hsome hfound, hx]
        simp only [List.append_assoc, List.cons_append, List.nil_append]
      · rw [substituted, if_pos ⟨List.suffix_append q name, hvalue⟩]
        refine .word [' '] _ x _ (by decide) (List.cons_ne_nil _ _) ?_ hbehind
        exact ⟨fun hnil => hv.1 (List.append_eq_nil_iff.1 hnil).1, Solid.append hv.2 hrest⟩
    · obtain ⟨x, hx, hbehind⟩ := ih hw.2
      refine ⟨gap ++ (w ++ x), ?_, ?_⟩
      · rw [hpass.word h hq hblank hne hw ht.broken hmatch, hx]
      · rw [substituted, if_neg hmatch]
        exact .word gap w x _ hblank hne hw hbehind

/-- `\S` of one character. -/
def isVisible (c : Char) : Bool := !isSpace c

theorem takeWhile_isVisible (hw : Solid w) : w.takeWhile isVisible = w := by
  refine List.takeWhile_eq_self_iff.2 fun c hc => ?_
  unfold isVisible
  rw [hw c hc]
  rfl

/-- What an insertion behind the first match does to the words behind a word. -/
theorem behind_subFirst {y : Str} {added : List Str} (h : WordPattern name isVisible)
    (hy : Behind y added) (ht : Behind t ws) (hq : Solid q) :
    ∃ x, subFirst (matchWord name isVisible) (fun matched => matched ++ y) (q ++ t) = q ++ x ∧
      Behind x (inserted name added q ws) := by
  have hpass : Passes (matchWord name isVisible)
      (subFirst (matchWord name isVisible) fun matched => matched ++ y) := subFirst_passes
  induction ht generalizing q with
  | done gap hblank =>
    exact ⟨gap, hpass.last h hq hblank, .done gap hblank⟩
  | word gap w t ws hblank hne hw ht ih =>
    by_cases hname : name <:+ q
    · obtain ⟨q, rfl⟩ := hname
      refine ⟨gap ++ (w ++ (y ++ t)), ?_, ?_⟩
      · have hwhole : w.takeWhile isVisible = w := takeWhile_isVisible hw.2
        have hsome := matchWord_eq_some h hblank hne hw ht.broken (by rw [hwhole]; exact hw.1)
        have htext : name ++ (gap ++ (w ++ t)) = (name ++ gap ++ w) ++ t := by
          simp only [List.append_assoc]
        have hfound : name ++ gap ++ w ≠ [] := by simp [hw.1]
        rw [List.append_assoc, hpass.front h hq (broken_of_gap hblank hne), htext]
        rw [htext, hwhole] at hsome
        rw [subFirst_match hsome hfound]
        simp only [List.append_assoc]
      · rw [inserted, if_pos (List.suffix_append q name)]
        exact .word gap w _ _ hblank hne hw (hy.append ht)
    · obtain ⟨x, hx, hbehind⟩ := ih hw.2
      refine ⟨gap ++ (w ++ x), ?_, ?_⟩
      · rw [hpass.word h hq hblank hne hw ht.broken fun hmatch => hname hmatch.1, hx]
      · rw [inserted, if_neg hname]
        exact .word gap w x _ hblank hne hw hbehind

/-- The words of a text behind a scan that takes what is behind the empty word as it should. -/
theorem split_of_behind {f : Str → Str} {m : Str → Option Str} {after : List Str} (hf : Passes m f)
    (hm : ∀ s, m (' ' :: s) = none) (h : ∃ x, f (' ' :: s) = x ∧ Behind x after) :
    split (f s) = after := by
  obtain ⟨x, hx, hbehind⟩ := h
  rw [hf.cons ' ' s (hm s)] at hx
  have hsplit : split ([' '] ++ f s) = after := by
    rw [← hbehind.split_eq, ← hx]
    rfl
  rwa [split_append_gap (by decide)] at hsplit

theorem matchWord_blank (h : WordPattern name p) (s : Str) :
    matchWord name p (' ' :: s) = none := by
  have hblank : IsBlank [' '] := by decide
  have hbroken : Broken (' ' :: s) := broken_of_gap hblank (List.cons_ne_nil _ _)
  exact matchWord_eq_none (q := []) h (List.forall_mem_nil _) hbroken h.name_ne.symm

/-- The words behind a substitution of every match. -/
theorem split_subAll (h : WordPattern name p) (hname : ∀ c ∈ name, p c = false) (hv : IsWord v)
    (s : Str) :
    split (subAll (matchWord name p) (fun _ => name ++ ' ' :: v) s) =
      substituted name p v [] (split s) :=
  split_of_behind subAll_passes (matchWord_blank h)
    (behind_subAll h hname hv (behind_split (by decide) s) (List.forall_mem_nil _))

/-- The words behind an insertion behind the first match. -/
theorem split_subFirst {y : Str} {added : List Str} (h : WordPattern name isVisible)
    (hy : Behind y added) (s : Str) :
    split (subFirst (matchWord name isVisible) (fun matched => matched ++ y) s) =
      inserted name added [] (split s) :=
  split_of_behind subFirst_passes (matchWord_blank h)
    (behind_subFirst h hy (behind_split (by decide) s) (List.forall_mem_nil _))

end AiPipelines.PyStd

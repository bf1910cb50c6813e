import AiPipelines.PyStd.Lines

/-!
# Lines that are joined

Lines are selected from a text, joined again and stripped.  Blank lines at the two ends go away
with the strip, and `trimBlank` takes them away before.  Behind that nothing is lost but the
lines left out: between two lines that are not blank, the strip takes no line feed, so the line
feeds still count the lines.  `strip_joined_filter` is what follows for a selection.

The module names nothing of the repository.
-/

namespace AiPipelines.PyStd

variable {ls xs ys : List Str}

/-! ## Joining -/

theorem joinWith_cons (sep w : Str) {ws : List Str} (h : ws ≠ []) :
    joinWith sep (w :: ws) = w ++ sep ++ joinWith sep ws := by
  obtain ⟨v, vs, rfl⟩ := List.exists_cons_of_ne_nil h
  unfold joinWith
  rw [List.intercalate_cons_cons]

@[simp] theorem joinWith_singleton (sep w : Str) : joinWith sep [w] = w := by
  unfold joinWith
  simp

theorem joinWith_append (sep : Str) (hxs : xs ≠ []) (hys : ys ≠ []) :
    joinWith sep (xs ++ ys) = joinWith sep xs ++ sep ++ joinWith sep ys := by
  induction xs with
  | nil => exact absurd rfl hxs
  | cons x xs ih =>
    by_cases hnil : xs = []
    · rw [hnil, joinWith_singleton]
      exact joinWith_cons sep x hys
    · have hne : xs ++ ys ≠ [] := fun h => hnil (List.append_eq_nil_iff.1 h).1
      rw [List.cons_append, joinWith_cons sep x hne, joinWith_cons sep x hnil, ih hnil]
      simp only [List.append_assoc]

/-- A line stands in the joined text as it is. -/
theorem mem_infix_joinWith {sep l : Str} (hl : l ∈ ls) : l <:+: joinWith sep ls := by
  induction ls with
  | nil => exact absurd hl List.not_mem_nil
  | cons x xs ih =>
    by_cases hnil : xs = []
    · rw [hnil] at hl ⊢
      rw [joinWith_singleton, ← List.mem_singleton.1 hl]
    · rw [joinWith_cons sep x hnil, List.append_assoc]
      rcases List.mem_cons.1 hl with hx | hl
      · rw [hx]
        exact (List.prefix_append x _).isInfix
      · rw [← List.append_assoc]
        exact (ih hl).trans (List.suffix_append _ _).isInfix

theorem mem_joinWith {sep l : Str} {c : Char} (hl : l ∈ ls) (hc : c ∈ l) : c ∈ joinWith sep ls :=
  (mem_infix_joinWith hl).subset hc

/-- The characters come from the lines or from the separator. -/
theorem forall_mem_joinWith {p : Char → Prop} {sep : Str} (hsep : ∀ c ∈ sep, p c)
    (h : ∀ l ∈ ls, ∀ c ∈ l, p c) : ∀ c ∈ joinWith sep ls, p c := by
  induction ls with
  | nil => exact List.forall_mem_nil _
  | cons l ls ih =>
    rw [List.forall_mem_cons] at h
    by_cases hnil : ls = []
    · rw [hnil, joinWith_singleton]
      exact h.1
    · rw [joinWith_cons sep l hnil, List.forall_mem_append, List.forall_mem_append]
      exact ⟨⟨h.1, hsep⟩, ih h.2⟩

theorem strip_joined_ne_nil {sep : Str} (h : ∃ l ∈ ls, ¬ IsBlank l) :
    strip (joinWith sep ls) ≠ [] := by
  obtain ⟨l, hl, hblank⟩ := h
  rw [ne_eq, strip_eq_nil_iff]
  exact fun hjoined => hblank fun c hc => hjoined c (mem_joinWith hl hc)

/-- No piece has the separator in it. -/
theorem not_mem_splitOn {s l : Str} {c : Char} (hl : l ∈ s.splitOn c) : c ∉ l := by
  intro hc
  have hflat : c ∈ (s.splitOnP (· == c)).flatten := List.mem_flatten.2 ⟨l, hl, hc⟩
  rw [splitOnP_flatten] at hflat
  have hne := (List.mem_filter.1 hflat).2
  simp at hne

/-- The line feeds count the lines. -/
theorem count_joined (hls : ls ≠ []) (h : ∀ l ∈ ls, '\n' ∉ l) :
    (joinWith ['\n'] ls).count '\n' + 1 = ls.length := by
  induction ls with
  | nil => exact absurd rfl hls
  | cons l ls ih =>
    rw [List.forall_mem_cons] at h
    have hl : l.count '\n' = 0 := List.count_eq_zero.2 h.1
    by_cases hnil : ls = []
    · rw [hnil, joinWith_singleton, hl]
      rfl
    · have hrest := ih hnil h.2
      rw [joinWith_cons _ l hnil, List.count_append, List.count_append, hl,
        List.count_singleton_self, List.length_cons]
      omega

/-! ## Blank lines at the ends -/

def isBlankLine (l : Str) : Bool := l.all isSpace

theorem isBlankLine_iff {l : Str} : isBlankLine l = true ↔ IsBlank l := List.all_eq_true

/-- The lines without the blank ones in front and behind. -/
def trimBlank (ls : List Str) : List Str := (ls.dropWhile isBlankLine).rdropWhile isBlankLine

/-- The first line and the last are not blank. -/
structure NonblankEnds (ls : List Str) : Prop where
  head : ∃ x xs, ls = x :: xs ∧ ¬ IsBlank x
  last : ∃ xs x, ls = xs ++ [x] ∧ ¬ IsBlank x

theorem NonblankEnds.ne_nil (h : NonblankEnds ls) : ls ≠ [] := by
  obtain ⟨x, xs, rfl, -⟩ := h.head
  exact List.cons_ne_nil x xs

theorem nonblankEnds_of_forall (hne : ls ≠ []) (h : ∀ l ∈ ls, ¬ IsBlank l) : NonblankEnds ls where
  head := by
    obtain ⟨x, xs, rfl⟩ := List.exists_cons_of_ne_nil hne
    exact ⟨x, xs, rfl, h x List.mem_cons_self⟩
  last := ⟨ls.dropLast, ls.getLast hne, (List.dropLast_append_getLast hne).symm,
    h _ (List.getLast_mem hne)⟩

/-- What `trimBlank` takes away. -/
theorem exists_trimBlank (ls : List Str) : ∃ as bs, ls = as ++ trimBlank ls ++ bs ∧
    (∀ l ∈ as, IsBlank l) ∧ ∀ l ∈ bs, IsBlank l := by
  refine ⟨ls.takeWhile isBlankLine, (ls.dropWhile isBlankLine).rtakeWhile isBlankLine, ?_,
    fun l hl => isBlankLine_iff.1 (List.mem_takeWhile_imp hl),
    fun l hl => isBlankLine_iff.1 (List.mem_rtakeWhile_imp hl)⟩
  unfold trimBlank
  rw [List.append_assoc, List.rdropWhile_append_rtakeWhile, List.takeWhile_append_dropWhile]

/-- A line is blank or between the first and the last that are not. -/
theorem blank_or_inner {l : Str} (hl : l ∈ ls) : IsBlank l ∨ l ∈ trimBlank ls := by
  obtain ⟨as, bs, htrim, has, hbs⟩ := exists_trimBlank ls
  rw [htrim] at hl
  rcases List.mem_append.1 hl with hl | hl
  · exact (List.mem_append.1 hl).imp_left (has l)
  · exact .inl (hbs l hl)

theorem mem_of_inner {l : Str} (hl : l ∈ trimBlank ls) : l ∈ ls := by
  obtain ⟨as, bs, htrim, -, -⟩ := exists_trimBlank ls
  rw [htrim]
  exact List.mem_append_left bs (List.mem_append_right as hl)

theorem trimBlank_ne_nil (h : ∃ l ∈ ls, ¬ IsBlank l) : trimBlank ls ≠ [] := by
  intro hnil
  obtain ⟨as, bs, hls, has, hbs⟩ := exists_trimBlank ls
  obtain ⟨l, hl, hblank⟩ := h
  rw [hls, hnil, List.append_nil] at hl
  exact hblank ((List.mem_append.1 hl).elim (has l) (hbs l))

theorem nonblankEnds_trimBlank (h : ∃ l ∈ ls, ¬ IsBlank l) : NonblankEnds (trimBlank ls) := by
  have hne := trimBlank_ne_nil h
  constructor
  · obtain ⟨x, xs, hx⟩ := List.exists_cons_of_ne_nil hne
    refine ⟨x, xs, hx, ?_⟩
    obtain ⟨bs, hbs⟩ : x :: xs <+: ls.dropWhile isBlankLine := by
      rw [← hx]
      exact List.rdropWhile_prefix _ _
    have hhead := List.head?_dropWhile_not isBlankLine ls
    rw [← hbs] at hhead
    rw [← isBlankLine_iff, Bool.not_eq_true]
    exact hhead
  · refine ⟨(trimBlank ls).dropLast, (trimBlank ls).getLast hne,
      (List.dropLast_append_getLast hne).symm, ?_⟩
    rw [← isBlankLine_iff]
    exact List.rdropWhile_last_not isBlankLine _ hne

theorem isBlank_joined (h : ∀ l ∈ ls, IsBlank l) : IsBlank (joinWith ['\n'] ls) :=
  forall_mem_joinWith (List.forall_mem_singleton.2 (by decide)) h

/-- Blank lines in front or behind go away with the strip. -/
theorem strip_joined_blank {as bs : List Str} (has : ∀ l ∈ as, IsBlank l)
    (hbs : ∀ l ∈ bs, IsBlank l) (hls : ls ≠ []) :
    strip (joinWith ['\n'] (as ++ ls ++ bs)) = strip (joinWith ['\n'] ls) := by
  have hfeed : IsBlank ['\n'] := by decide
  have hbehind : ∃ b, joinWith ['\n'] (ls ++ bs) = joinWith ['\n'] ls ++ b ∧ IsBlank b := by
    by_cases hnil : bs = []
    · exact ⟨[], by rw [hnil, List.append_nil, List.append_nil], List.forall_mem_nil _⟩
    · refine ⟨['\n'] ++ joinWith ['\n'] bs, by rw [joinWith_append _ hls hnil, List.append_assoc],
        ?_⟩
      exact List.forall_mem_append.2 ⟨hfeed, isBlank_joined hbs⟩
  have hfront : ∃ a, joinWith ['\n'] (as ++ (ls ++ bs)) = a ++ joinWith ['\n'] (ls ++ bs) ∧
      IsBlank a := by
    by_cases hnil : as = []
    · exact ⟨[], by rw [hnil, List.nil_append, List.nil_append], List.forall_mem_nil _⟩
    · have hne : ls ++ bs ≠ [] := fun h => hls (List.append_eq_nil_iff.1 h).1
      refine ⟨joinWith ['\n'] as ++ ['\n'], joinWith_append _ hnil hne, ?_⟩
      exact List.forall_mem_append.2 ⟨isBlank_joined has, hfeed⟩
  obtain ⟨b, hb, hbblank⟩ := hbehind
  obtain ⟨a, ha, hablank⟩ := hfront
  rw [List.append_assoc, ha, hb, ← List.append_assoc]
  exact strip_append_of_blank hablank hbblank _

theorem strip_joined_trimBlank (h : ∃ l ∈ ls, ¬ IsBlank l) :
    strip (joinWith ['\n'] ls) = strip (joinWith ['\n'] (trimBlank ls)) := by
  obtain ⟨as, bs, hls, has, hbs⟩ := exists_trimBlank ls
  have hstrip := strip_joined_blank has hbs (trimBlank_ne_nil h)
  rw [← hls] at hstrip
  exact hstrip

/-! ## What the strip takes -/

/-- Blanks in front of a text are blanks in front of its first word. -/
theorem not_mem_blank_prefix {a x t : Str} {c : Char} (ha : a <+: x ++ t) (hblank : IsBlank a)
    (hx : ¬ IsBlank x) (hc : c ∉ x) : c ∉ a := by
  rcases List.prefix_or_prefix_of_prefix ha (List.prefix_append x t) with h | h
  · exact fun hmem => hc (h.mem hmem)
  · exact absurd (fun d hd => hblank d (h.mem hd)) hx

theorem not_mem_blank_suffix {b x t : Str} {c : Char} (hb : b <:+ t ++ x) (hblank : IsBlank b)
    (hx : ¬ IsBlank x) (hc : c ∉ x) : c ∉ b := by
  rcases List.suffix_or_suffix_of_suffix hb (List.suffix_append t x) with h | h
  · exact fun hmem => hc (h.mem hmem)
  · exact absurd (fun d hd => hblank d (h.mem hd)) hx

/-- The strip keeps the line feeds between lines that are not blank. -/
theorem count_strip_joined (hends : NonblankEnds ls) (h : ∀ l ∈ ls, '\n' ∉ l) :
    (strip (joinWith ['\n'] ls)).count '\n' + 1 = ls.length := by
  obtain ⟨a, b, hs, ha, hb⟩ := exists_strip (joinWith ['\n'] ls)
  have hfront : ∃ x t, joinWith ['\n'] ls = x ++ t ∧ ¬ IsBlank x ∧ '\n' ∉ x := by
    obtain ⟨x, xs, rfl, hx⟩ := hends.head
    have hfeed := h x List.mem_cons_self
    by_cases hnil : xs = []
    · exact ⟨x, [], by rw [hnil, joinWith_singleton, List.append_nil], hx, hfeed⟩
    · exact ⟨x, ['\n'] ++ joinWith ['\n'] xs, by rw [joinWith_cons _ x hnil, List.append_assoc], hx,
        hfeed⟩
  have hbehind : ∃ t x, joinWith ['\n'] ls = t ++ x ∧ ¬ IsBlank x ∧ '\n' ∉ x := by
    obtain ⟨xs, x, rfl, hx⟩ := hends.last
    have hfeed := h x (List.mem_append_right xs (List.mem_singleton_self x))
    by_cases hnil : xs = []
    · exact ⟨[], x, by rw [hnil, List.nil_append, joinWith_singleton, List.nil_append], hx, hfeed⟩
    · refine ⟨joinWith ['\n'] xs ++ ['\n'], x, ?_, hx, hfeed⟩
      rw [joinWith_append _ hnil (List.cons_ne_nil x []), joinWith_singleton]
  have hcount := count_joined hends.ne_nil h
  have hna : '\n' ∉ a := by
    obtain ⟨x, t, hj, hx, hfeed⟩ := hfront
    have hprefix : a <+: x ++ t := by
      rw [← hj, hs, List.append_assoc]
      exact List.prefix_append a _
    exact not_mem_blank_prefix hprefix ha hx hfeed
  have hnb : '\n' ∉ b := by
    obtain ⟨t, x, hj, hx, hfeed⟩ := hbehind
    have hsuffix : b <:+ t ++ x := by
      rw [← hj, hs]
      exact List.suffix_append _ b
    exact not_mem_blank_suffix hsuffix hb hx hfeed
  rw [hs, List.count_append, List.count_append, List.count_eq_zero.2 hna, List.count_eq_zero.2 hnb]
    at hcount
  omega

/-- A selection of lines that are not blank is the text exactly if it leaves out nothing between
the first line that is not blank and the last. -/
theorem strip_joined_filter {keep : Str → Bool} (hfeed : ∀ l ∈ ls, '\n' ∉ l)
    (hkeep : ∀ l, keep l = true → ¬ IsBlank l) (hsome : ∃ l ∈ ls, keep l = true) :
    strip (joinWith ['\n'] (ls.filter keep)) = strip (joinWith ['\n'] ls) ↔
      ∀ l ∈ trimBlank ls, keep l = true := by
  have hblank : ∃ l ∈ ls, ¬ IsBlank l := by
    obtain ⟨l, hl, hk⟩ := hsome
    exact ⟨l, hl, hkeep l hk⟩
  obtain ⟨as, bs, hls, has, hbs⟩ := exists_trimBlank ls
  have hfilter : ls.filter keep = (trimBlank ls).filter keep := by
    have hnone : ∀ {xs : List Str}, (∀ l ∈ xs, IsBlank l) → xs.filter keep = [] := by
      intro xs hxs
      exact List.filter_eq_nil_iff.2 fun l hl hk => hkeep l hk (hxs l hl)
    conv_lhs => rw [hls]
    rw [List.filter_append, List.filter_append, hnone has, hnone hbs, List.nil_append,
      List.append_nil]
  rw [hfilter, strip_joined_trimBlank hblank]
  constructor
  · intro heq
    have hne : (trimBlank ls).filter keep ≠ [] := by
      rw [← hfilter]
      obtain ⟨l, hl, hk⟩ := hsome
      exact List.ne_nil_of_mem (List.mem_filter.2 ⟨hl, hk⟩)
    have hmem : ∀ l ∈ trimBlank ls, '\n' ∉ l := by
      intro l hl
      apply hfeed l
      rw [hls]
      exact List.mem_append_left bs (List.mem_append_right as hl)
    have hleft := count_strip_joined
      (nonblankEnds_of_forall hne fun l hl => hkeep l (List.mem_filter.1 hl).2)
      fun l hl => hmem l (List.mem_filter.1 hl).1
    have hright := count_strip_joined (nonblankEnds_trimBlank hblank) hmem
    rw [heq, hright] at hleft
    exact List.length_filter_eq_length_iff.1 hleft.symm
  · intro hall
    rw [List.filter_eq_self.2 hall]

end AiPipelines.PyStd

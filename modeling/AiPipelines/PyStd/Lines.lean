import AiPipelines.PyStd.Str

/-!
# Lines and the blanks around them

What `strip` takes away, and what `splitlines` makes of a text: `mem_splitlines` says where a
line of the text stands in it, and `splitlines_newline` that a line feed cuts the text in two.

The module names nothing of the repository.
-/

namespace AiPipelines.PyStd

/-! ## Blanks -/

theorem lstrip_append_cons (s t : Str) {c : Char} (hc : isSpace c = false) :
    lstrip (s ++ c :: t) = lstrip s ++ c :: t := by
  induction s with
  | nil => exact List.dropWhile_cons_of_neg (by rw [hc]; decide)
  | cons d s ih =>
    unfold lstrip at ih ⊢
    rw [List.cons_append]
    by_cases hd : isSpace d = true
    · rw [List.dropWhile_cons_of_pos hd, List.dropWhile_cons_of_pos hd, ih]
    · rw [List.dropWhile_cons_of_neg hd, List.dropWhile_cons_of_neg hd, List.cons_append]

theorem rstrip_append_cons (s t : Str) {c : Char} (hc : isSpace c = false) :
    rstrip (s ++ c :: t) = s ++ c :: rstrip t := by
  induction t using List.reverseRecOn with
  | nil => exact List.rdropWhile_concat_neg _ _ _ (by rw [hc]; decide)
  | append_singleton t d ih =>
    unfold rstrip at ih ⊢
    rw [← List.cons_append, ← List.append_assoc, List.rdropWhile_concat, List.rdropWhile_concat, ih]
    split_ifs <;> simp

theorem exists_lstrip (s : Str) : ∃ a, s = a ++ lstrip s ∧ IsBlank a :=
  ⟨s.takeWhile isSpace, (List.takeWhile_append_dropWhile (p := isSpace)).symm,
    fun _ hc => List.mem_takeWhile_imp hc⟩

theorem exists_rstrip (s : Str) : ∃ b, s = rstrip s ++ b ∧ IsBlank b := by
  obtain ⟨a, ha, hblank⟩ := exists_lstrip s.reverse
  refine ⟨a.reverse, ?_, fun c hc => hblank c (List.mem_reverse.1 hc)⟩
  have hrev := congrArg List.reverse ha
  rw [List.reverse_reverse, List.reverse_append] at hrev
  exact hrev

/-- What `strip` takes away. -/
theorem exists_strip (s : Str) : ∃ a b, s = a ++ strip s ++ b ∧ IsBlank a ∧ IsBlank b := by
  obtain ⟨a, ha, hblank⟩ := exists_lstrip s
  obtain ⟨b, hb, hblank'⟩ := exists_rstrip (lstrip s)
  refine ⟨a, b, ?_, hblank, hblank'⟩
  calc s = a ++ lstrip s := ha
    _ = a ++ (strip s ++ b) := congrArg (a ++ ·) hb
    _ = a ++ strip s ++ b := (List.append_assoc a (strip s) b).symm

theorem lstrip_append_of_blank {a : Str} (ha : IsBlank a) (s : Str) : lstrip (a ++ s) = lstrip s :=
  List.dropWhile_append_of_pos ha

theorem rstrip_append_of_blank {b : Str} (hb : IsBlank b) (s : Str) :
    rstrip (s ++ b) = rstrip s := by
  unfold rstrip List.rdropWhile
  rw [List.reverse_append, List.dropWhile_append_of_pos fun c hc => hb c (List.mem_reverse.1 hc)]

theorem strip_append_of_blank {a b : Str} (ha : IsBlank a) (hb : IsBlank b) (s : Str) :
    strip (a ++ s ++ b) = strip s := by
  unfold strip
  rw [List.append_assoc, lstrip_append_of_blank ha]
  by_cases hs : IsBlank s
  · have hsb : IsBlank (s ++ b) := by
      intro c hc
      exact (List.mem_append.1 hc).elim (hs c) (hb c)
    rw [lstrip_eq_nil_iff.2 hs, lstrip_eq_nil_iff.2 hsb]
  · obtain ⟨c, hc, hspace⟩ := not_forall₂.1 hs
    obtain ⟨x, y, rfl⟩ := List.append_of_mem hc
    have hfalse : isSpace c = false := Bool.eq_false_iff.2 hspace
    rw [List.append_assoc, List.cons_append, lstrip_append_cons x y hfalse,
      lstrip_append_cons x (y ++ b) hfalse, ← List.cons_append, ← List.append_assoc,
      rstrip_append_of_blank hb]

/-! ## Lines -/

/-- A character is put before the first line. -/
def consLine (c : Char) : List Str → List Str
  | [] => [[c]]
  | l :: ls => (c :: l) :: ls

theorem splitlines_break {c : Char} (hc : isLineBreak c = true) {s : Str}
    (hpair : c = '\r' → s.head? ≠ some '\n') : splitlines (c :: s) = [] :: splitlines s := by
  rw [splitlines, if_pos hc]
  intro s' heq hs
  exact hpair heq (by rw [hs]; rfl)

theorem splitlines_char {c : Char} (hc : isLineBreak c = false) (s : Str) :
    splitlines (c :: s) = consLine c (splitlines s) := by
  rw [splitlines, if_neg (by rw [hc]; decide)]
  · cases splitlines s <;> rfl
  · intro s' heq _
    rw [heq] at hc
    exact absurd hc (by decide)

theorem splitlines_pair (s : Str) : splitlines ('\r' :: '\n' :: s) = [] :: splitlines s := by
  rw [splitlines]

/-- A text starts with a pair, another line break, or a character of its first line. -/
theorem splitlines_induct {P : Str → Prop} (hnil : P []) (hpair : ∀ s, P s → P ('\r' :: '\n' :: s))
    (hbreak : ∀ c s, isLineBreak c = true → (c = '\r' → s.head? ≠ some '\n') → P s → P (c :: s))
    (hchar : ∀ c s, isLineBreak c = false → P s → P (c :: s)) (s : Str) : P s := by
  induction s using splitlines.induct with
  | case1 => exact hnil
  | case2 s ih => exact hpair s ih
  | case3 c s hne hc ih =>
    refine hbreak c s hc ?_ ih
    intro heq hhead
    cases s with
    | nil => cases hhead
    | cons d s => exact hne s heq (by rw [Option.some.inj hhead])
  | case4 c s _ hc _ ih => exact hchar c s (by simpa using hc) ih
  | case5 c s _ hc l ls _ ih => exact hchar c s (by simpa using hc) ih

theorem consLine_append {c : Char} {ls : List Str} (h : ls ≠ []) (ls' : List Str) :
    consLine c (ls ++ ls') = consLine c ls ++ ls' := by
  cases ls with
  | nil => exact absurd rfl h
  | cons l ls => rfl

theorem splitlines_ne_nil {s : Str} (h : s ≠ []) : splitlines s ≠ [] := by
  induction s using splitlines_induct with
  | hnil => exact absurd rfl h
  | hpair s _ =>
    rw [splitlines_pair]
    exact List.cons_ne_nil _ _
  | hbreak c s hc hpair _ =>
    rw [splitlines_break hc hpair]
    exact List.cons_ne_nil _ _
  | hchar c s hc _ =>
    rw [splitlines_char hc]
    cases splitlines s <;> exact List.cons_ne_nil _ _

/-- A line feed ends a line, and what is behind it is cut on its own. -/
theorem splitlines_newline (s t : Str) :
    splitlines (s ++ '\n' :: t) = splitlines (s ++ ['\n']) ++ splitlines t := by
  induction s using splitlines_induct with
  | hnil => rfl
  | hpair s ih =>
    show splitlines ('\r' :: '\n' :: (s ++ '\n' :: t)) =
      splitlines ('\r' :: '\n' :: (s ++ ['\n'])) ++ _
    rw [splitlines_pair, splitlines_pair, ih, List.cons_append]
  | hbreak c s hc hpair ih =>
    rw [List.cons_append, List.cons_append]
    cases s with
    | nil =>
      by_cases hr : c = '\r'
      · subst hr
        rfl
      · rw [splitlines_break hc fun h => absurd h hr, splitlines_break hc fun h => absurd h hr, ih,
          List.cons_append]
    | cons d s =>
      have hpair' : ∀ u : Str, c = '\r' → (d :: s ++ u).head? ≠ some '\n' := fun _ => hpair
      rw [splitlines_break hc (hpair' _), splitlines_break hc (hpair' _), ih]
      rfl
  | hchar c s hc ih =>
    have hne : splitlines (s ++ ['\n']) ≠ [] := splitlines_ne_nil (by simp)
    rw [List.cons_append, List.cons_append, splitlines_char hc, splitlines_char hc, ih,
      consLine_append hne]

/-- At the end of a line, a line feed adds nothing. -/
theorem splitlines_concat_newline {s : Str} {c : Char} (hc : isLineBreak c = false) :
    splitlines (s ++ [c, '\n']) = splitlines (s ++ [c]) := by
  have hreturn : c ≠ '\n' := by
    intro h
    rw [h] at hc
    exact absurd hc (by decide)
  induction s using splitlines_induct with
  | hnil =>
    rw [List.nil_append, List.nil_append, splitlines_char hc, splitlines_char hc]
    rfl
  | hpair s ih =>
    show splitlines ('\r' :: '\n' :: (s ++ [c, '\n'])) = splitlines ('\r' :: '\n' :: (s ++ [c]))
    rw [splitlines_pair, splitlines_pair, ih]
  | hbreak d s hd hpair ih =>
    have hhead : ∀ t, d = '\r' → (s ++ c :: t).head? ≠ some '\n' := by
      intro t hr
      cases s with
      | nil => exact fun h => hreturn (Option.some.inj h)
      | cons e s => exact hpair hr
    rw [List.cons_append, List.cons_append, splitlines_break hd (hhead _),
      splitlines_break hd (hhead _), ih]
  | hchar d s hd ih =>
    rw [List.cons_append, List.cons_append, splitlines_char hd, splitlines_char hd, ih]

theorem splitlines_one {s : Str} (hne : s ≠ []) (h : ∀ c ∈ s, isLineBreak c = false) :
    splitlines s = [s] := by
  induction s with
  | nil => exact absurd rfl hne
  | cons c s ih =>
    rw [List.forall_mem_cons] at h
    rw [splitlines_char h.1]
    cases s with
    | nil => rfl
    | cons d s =>
      rw [ih (List.cons_ne_nil d s) h.2]
      rfl

theorem exists_first_break {s : Str} (h : ∃ c ∈ s, isLineBreak c = true) :
    ∃ u c t, s = u ++ c :: t ∧ (∀ d ∈ u, isLineBreak d = false) ∧ isLineBreak c = true := by
  induction s with
  | nil =>
    obtain ⟨c, hc, -⟩ := h
    cases hc
  | cons d s ih =>
    cases hd : isLineBreak d with
    | true => exact ⟨[], d, s, rfl, nofun, hd⟩
    | false =>
      obtain ⟨c, hc, hbreak⟩ := h
      rcases List.mem_cons.1 hc with rfl | hc
      · rw [hd] at hbreak
        cases hbreak
      · obtain ⟨u, c', t, rfl, hu, hc'⟩ := ih ⟨c, hc, hbreak⟩
        exact ⟨d :: u, c', t, rfl, List.forall_mem_cons.2 ⟨hd, hu⟩, hc'⟩

theorem splitlines_head {u : Str} (h : ∀ c ∈ u, isLineBreak c = false) {c : Char}
    (hc : isLineBreak c = true) (t : Str) : (splitlines (u ++ c :: t)).head? = some u := by
  induction u with
  | nil =>
    by_cases hpair : c = '\r' → t.head? ≠ some '\n'
    · rw [List.nil_append, splitlines_break hc hpair]
      rfl
    · push Not at hpair
      obtain ⟨rfl, hhead⟩ := hpair
      obtain ⟨t, rfl⟩ := List.head?_eq_some_iff.1 hhead
      rw [List.nil_append, splitlines_pair]
      rfl
  | cons d u ih =>
    rw [List.forall_mem_cons] at h
    have hrest := ih h.2
    rw [List.cons_append, splitlines_char h.1]
    cases hls : splitlines (u ++ c :: t) with
    | nil =>
      rw [hls] at hrest
      cases hrest
    | cons l ls =>
      rw [hls] at hrest
      rw [← Option.some.inj hrest]
      rfl

/-- A line break ends the first line, and what is behind it is cut on its own. -/
theorem splitlines_append_break {u : Str} (hu : ∀ c ∈ u, isLineBreak c = false) {c : Char}
    (hc : isLineBreak c = true) {t : Str} (hpair : c = '\r' → t.head? ≠ some '\n') :
    splitlines (u ++ c :: t) = u :: splitlines t := by
  induction u with
  | nil => exact splitlines_break hc hpair
  | cons d u ih =>
    rw [List.forall_mem_cons] at hu
    rw [List.cons_append, splitlines_char hu.1, ih hu.2]
    rfl

theorem exists_mem_consLine {l : Str} {ls : List Str} (h : l ∈ ls) (d : Char) :
    ∃ l' ∈ consLine d ls, ∀ c ∈ l, c ∈ l' := by
  cases ls with
  | nil => cases h
  | cons m ls =>
    rcases List.mem_cons.1 h with rfl | h
    · exact ⟨d :: l, List.mem_cons_self, fun c hc => List.mem_cons_of_mem d hc⟩
    · exact ⟨l, List.mem_cons_of_mem _ h, fun c hc => hc⟩

/-- Only line breaks stand in no line. -/
theorem exists_mem_splitlines {s : Str} {c : Char} (hc : isLineBreak c = false) (h : c ∈ s) :
    ∃ l ∈ splitlines s, c ∈ l := by
  have hbehind : ∀ {d : Char} {t : Str}, isLineBreak d = true → c ∈ d :: t → c ∈ t := by
    intro d t hd hmem
    refine (List.mem_cons.1 hmem).resolve_left ?_
    rintro rfl
    rw [hc] at hd
    cases hd
  induction s using splitlines_induct with
  | hnil => cases h
  | hpair s ih =>
    obtain ⟨l, hl, hcl⟩ := ih (hbehind (by decide) (hbehind (by decide) h))
    rw [splitlines_pair]
    exact ⟨l, List.mem_cons_of_mem _ hl, hcl⟩
  | hbreak d s hd hpair ih =>
    obtain ⟨l, hl, hcl⟩ := ih (hbehind hd h)
    rw [splitlines_break hd hpair]
    exact ⟨l, List.mem_cons_of_mem _ hl, hcl⟩
  | hchar d s hd ih =>
    rw [splitlines_char hd]
    rcases List.mem_cons.1 h with rfl | h
    · cases splitlines s <;> exact ⟨_, List.mem_cons_self, List.mem_cons_self⟩
    · obtain ⟨l, hl, hcl⟩ := ih h
      obtain ⟨l', hl', hsub⟩ := exists_mem_consLine hl d
      exact ⟨l', hl', hsub c hcl⟩

/-- A line stands behind a line break of the text. -/
def BehindBreak (s l : Str) : Prop := ∃ a c b, isLineBreak c = true ∧ s = a ++ c :: (l ++ b)

theorem BehindBreak.cons {s l : Str} (h : BehindBreak s l) (d : Char) : BehindBreak (d :: s) l := by
  obtain ⟨a, c, b, hc, rfl⟩ := h
  exact ⟨d :: a, c, b, hc, rfl⟩

theorem BehindBreak.of_append {u s l : Str} (hu : ∀ c ∈ u, isLineBreak c = false)
    (h : BehindBreak (u ++ s) l) : BehindBreak s l := by
  induction u with
  | nil => exact h
  | cons d u ih =>
    rw [List.forall_mem_cons] at hu
    obtain ⟨a, c, b, hc, heq⟩ := h
    cases a with
    | nil =>
      rw [← (List.cons.inj heq).1, hu.1] at hc
      cases hc
    | cons e a => exact ih hu.2 ⟨a, c, b, hc, (List.cons.inj heq).2⟩

/-- Where the lines of a text stand. -/
structure LinesOf (s : Str) (ls : List Str) : Prop where
  no_break : ∀ l ∈ ls, ∀ c ∈ l, isLineBreak c = false
  first : ∀ l ∈ ls.head?, l <+: s
  further : ∀ l ∈ ls.tail, BehindBreak s l

/-- After a line break all the lines stand behind it. -/
theorem LinesOf.behind {s : Str} {ls : List Str} (h : LinesOf s ls) {c : Char}
    (hc : isLineBreak c = true) : ∀ l ∈ ls, BehindBreak (c :: s) l := by
  intro l hl
  cases ls with
  | nil => cases hl
  | cons l' ls =>
    rcases List.mem_cons.1 hl with rfl | hl
    · obtain ⟨b, hb⟩ := h.first l rfl
      exact ⟨[], c, b, hc, by rw [hb]; rfl⟩
    · exact (h.further l hl).cons c

theorem linesOf_splitlines (s : Str) : LinesOf s (splitlines s) := by
  induction s using splitlines_induct with
  | hnil => exact ⟨nofun, nofun, nofun⟩
  | hpair s ih =>
    rw [splitlines_pair]
    refine ⟨List.forall_mem_cons.2 ⟨nofun, ih.no_break⟩, ?_, ?_⟩
    · intro l hl
      obtain rfl : [] = l := Option.some.inj hl
      exact List.nil_prefix
    · exact fun l hl => (ih.behind (by decide) l hl).cons '\r'
  | hbreak c s hc hpair ih =>
    rw [splitlines_break hc hpair]
    refine ⟨List.forall_mem_cons.2 ⟨nofun, ih.no_break⟩, ?_, ih.behind hc⟩
    intro l hl
    obtain rfl : [] = l := Option.some.inj hl
    exact List.nil_prefix
  | hchar c s hc ih =>
    rw [splitlines_char hc]
    cases hls : splitlines s with
    | nil =>
      refine ⟨?_, ?_, nofun⟩
      · exact List.forall_mem_singleton.2 (List.forall_mem_singleton.2 hc)
      · intro l hl
        obtain rfl : [c] = l := Option.some.inj hl
        exact ⟨s, rfl⟩
    | cons l ls =>
      rw [hls] at ih
      obtain ⟨hl, hrest⟩ := List.forall_mem_cons.1 ih.no_break
      refine ⟨?_, ?_, fun l' hl' => (ih.further l' hl').cons c⟩
      · exact List.forall_mem_cons.2 ⟨List.forall_mem_cons.2 ⟨hc, hl⟩, hrest⟩
      · intro l' hl'
        obtain rfl : c :: l = l' := Option.some.inj hl'
        exact List.cons_prefix_cons.2 ⟨rfl, ih.first l rfl⟩

theorem mem_of_mem_splitlines {s l : Str} (h : l ∈ splitlines s) {c : Char} (hc : c ∈ l) :
    c ∈ s := by
  have hlines := linesOf_splitlines s
  cases hls : splitlines s with
  | nil =>
    rw [hls] at h
    cases h
  | cons l' ls =>
    rw [hls] at h hlines
    rcases List.mem_cons.1 h with rfl | h
    · exact (hlines.first l rfl).subset hc
    · obtain ⟨a, d, b, -, rfl⟩ := hlines.further l h
      simp [hc]

end AiPipelines.PyStd

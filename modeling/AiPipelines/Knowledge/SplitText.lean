import AiPipelines.Knowledge.Chunks

/-!
# Cutting a text loses nothing

`_split_text` of `server/app/agent/rag.py`, for a limit of at least one character.  The
loop over the paragraphs fills a buffer, and what it has put out and buffered so far is
described by `Placed`: nothing is longer than the limit, and the characters that are no
whitespace are those of the paragraphs, in their order.

`Placed` also says when a piece is blank: a paragraph that is too long is cut at fixed
places, and a run of blanks inside of it can fill a slice (`HasBlankSlice`).

`place_placed` is the step and `splitText_placed` the run.
-/

namespace AiPipelines.Knowledge

open PyStd

/-! ## Paragraphs -/

/-- A match of the expression is a line feed with blanks behind it. -/
theorem breakLength_blank {c : Char} {s : Str} {n : Nat} (h : breakLength (c :: s) = n + 1) :
    isSpace c = true ∧ IsBlank (s.take n) := by
  unfold breakLength at h
  split at h
  · next heq =>
    obtain ⟨rfl, rfl⟩ := List.cons.inj heq
    dsimp only at h
    split_ifs at h
    obtain rfl := Nat.succ.inj h
    refine ⟨by decide, ?_⟩
    have hblanks : (s.takeWhile isSpace).rdropWhile (· ≠ '\n') <+: s.takeWhile isSpace :=
      List.rdropWhile_prefix _ _
    rw [← List.prefix_iff_eq_take.1 (hblanks.trans (List.takeWhile_prefix isSpace))]
    intro d hd
    exact List.mem_takeWhile_imp (hblanks.subset hd)
  · cases h

theorem splitFrom_ne_nil (skip : Nat) (s : Str) : splitFrom skip s ≠ [] := by
  induction s generalizing skip with
  | nil => cases skip <;> exact nofun
  | cons c s ih =>
    cases skip with
    | succ skip => exact ih skip
    | zero =>
      unfold splitFrom
      split
      · obtain ⟨l, ls, hls⟩ := List.exists_cons_of_ne_nil (ih 0)
        rw [hls]
        exact nofun
      · exact nofun

/-- The matches are blank, so splitting loses nothing else. -/
theorem visible_splitFrom (skip : Nat) (s : Str) :
    visible (splitFrom skip s).flatten = visible (s.drop skip) := by
  induction s generalizing skip with
  | nil => cases skip <;> rfl
  | cons c s ih =>
    cases skip with
    | succ skip => exact ih skip
    | zero =>
      unfold splitFrom
      split
      · have hrest := ih 0
        obtain ⟨l, ls, hls⟩ := List.exists_cons_of_ne_nil (splitFrom_ne_nil 0 s)
        rw [hls] at hrest ⊢
        show visible ([c] ++ (l :: ls).flatten) = visible ([c] ++ s)
        rw [visible_append, hrest, visible_append]
        rfl
      · next n hn =>
        obtain ⟨hc, hblank⟩ := breakLength_blank hn
        show visible (splitFrom n s).flatten = visible (c :: s)
        rw [ih, visible_cons_space hc]
        calc visible (s.drop n) = visible (s.take n) ++ visible (s.drop n) := by
              rw [visible_of_blank hblank, List.nil_append]
          _ = visible (s.take n ++ s.drop n) := (visible_append _ _).symm
          _ = visible s := by rw [List.take_append_drop]

theorem visible_map_strip (xs : List Str) :
    visible (xs.map strip).flatten = visible xs.flatten := by
  induction xs with
  | nil => rfl
  | cons x xs ih => rw [List.map_cons, List.flatten_cons, List.flatten_cons, visible_append,
      visible_append, visible_strip, ih]

theorem visible_paragraphs (text : Str) : visible (paragraphs text).flatten = visible text := by
  unfold paragraphs
  rw [List.flatten_filter_ne_nil, visible_map_strip]
  exact visible_splitFrom 0 text

theorem mem_paragraphs {text para : Str} (h : para ∈ paragraphs text) :
    strip para = para ∧ ¬ IsBlank para := by
  obtain ⟨hmem, hne⟩ := List.mem_filter.1 h
  obtain ⟨s, -, rfl⟩ := List.mem_map.1 hmem
  refine ⟨strip_strip s, ?_⟩
  intro hblank
  rw [decide_eq_true_eq] at hne
  exact hne (strip_eq_nil_iff.2 (isBlank_strip.1 hblank))

/-! ## Slices -/

variable {n : Nat}

/-- Slice `i` of a list, and of a paragraph. -/
def slice {α : Type} (n : Nat) (xs : List α) (i : Nat) : List α := (xs.drop (i * n)).take n

/-- The pieces of a paragraph that is too long. -/
def pieces (n : Nat) (para : Str) : List Str :=
  (List.range ((para.length + n - 1) / n)).map fun i => strip (slice n para i)

/-- The paragraph is too long, and one of its slices is blank. -/
def HasBlankSlice (n : Nat) (para : Str) : Prop :=
  n < para.length ∧ ∃ i, i * n < para.length ∧ IsBlank (slice n para i)

theorem slices_eq (hn : 0 < n) (para : Str) : slices n para = .ok (pieces n para) := by
  unfold slices
  rw [if_neg (by omega), Int.toNat_natCast]
  dsimp only
  rw [if_neg (by omega)]
  rfl

theorem lt_pieces_iff (hn : 0 < n) {i len : Nat} : i < (len + n - 1) / n ↔ i * n < len := by
  rw [Nat.lt_iff_add_one_le, Nat.le_div_iff_mul_le hn, Nat.succ_mul]
  omega

/-- The first slices together are a prefix. -/
theorem flatten_slices {α : Type} (xs : List α) (k : Nat) :
    ((List.range k).map (slice n xs)).flatten = xs.take (k * n) := by
  induction k with
  | zero => simp
  | succ k ih =>
    rw [List.range_succ, List.map_append, List.flatten_append, ih, Nat.succ_mul, List.take_add]
    simp [slice]

/-- All the slices together are the list. -/
theorem flatten_all_slices (hn : 0 < n) {α : Type} (xs : List α) :
    ((List.range ((xs.length + n - 1) / n)).map (slice n xs)).flatten = xs := by
  have hall : xs.length ≤ (xs.length + n - 1) / n * n := by
    by_contra hlt
    exact Nat.lt_irrefl _ ((lt_pieces_iff hn).2 (not_le.1 hlt))
  rw [flatten_slices, List.take_of_length_le hall]

theorem visible_pieces (hn : 0 < n) (para : Str) :
    visible (pieces n para).flatten = visible para := by
  have hmap : pieces n para =
      ((List.range ((para.length + n - 1) / n)).map (slice n para)).map strip := by
    rw [List.map_map]
    rfl
  rw [hmap, visible_map_strip, flatten_all_slices hn]

theorem mem_pieces {para p : Str} (h : p ∈ pieces n para) : ∃ i, p = strip (slice n para i) := by
  obtain ⟨i, -, rfl⟩ := List.mem_map.1 h
  exact ⟨i, rfl⟩

theorem pieces_blank_iff (hn : 0 < n) {para : Str} :
    (∃ p ∈ pieces n para, p = []) ↔ ∃ i, i * n < para.length ∧ IsBlank (slice n para i) := by
  constructor
  · intro h
    obtain ⟨p, hp, hnil⟩ := h
    obtain ⟨i, hi, rfl⟩ := List.mem_map.1 hp
    exact ⟨i, (lt_pieces_iff hn).1 (List.mem_range.1 hi), strip_eq_nil_iff.1 hnil⟩
  · intro h
    obtain ⟨i, hi, hblank⟩ := h
    exact ⟨_, List.mem_map_of_mem (List.mem_range.2 ((lt_pieces_iff hn).2 hi)),
      strip_eq_nil_iff.2 hblank⟩

/-! ## The loop -/

/-- The buffer with a paragraph put behind it. -/
def candidate (buf para : Str) : Str :=
  if buf = [] then para else strip (buf ++ '\n' :: '\n' :: para)

theorem visible_candidate (buf para : Str) :
    visible (candidate buf para) = visible buf ++ visible para := by
  unfold candidate
  split_ifs with hnil
  · rw [hnil]
    rfl
  · rw [visible_strip, visible_append, visible_cons_space (by decide),
      visible_cons_space (by decide)]

theorem candidate_full (buf : Str) {para : Str} (h : ¬ IsBlank para) :
    ¬ IsBlank (candidate buf para) := by
  unfold candidate
  split_ifs
  · exact h
  · rw [isBlank_strip]
    intro hblank
    exact h fun c hc => hblank c (by simp [hc])

/-- One round of the loop, which does not raise. -/
def place (n : Nat) (st : List Str × Str) (para : Str) : List Str × Str :=
  if n < para.length then (st.1 ++ flush st.2 ++ pieces n para, [])
  else if (candidate st.2 para).length ≤ n then (st.1, candidate st.2 para)
  else (st.1 ++ flush st.2, para)

theorem addParagraph_eq (hn : 0 < n) (st : List Str × Str) (para : Str) :
    addParagraph n st para = .ok (place n st para) := by
  unfold addParagraph place candidate
  rw [slices_eq hn]
  simp only [Int.ofNat_lt, Int.ofNat_le]
  split_ifs <;> rfl

theorem foldlM_addParagraph (hn : 0 < n) (paras : List Str) (st : List Str × Str) :
    paras.foldlM (addParagraph n) st = .ok (paras.foldl (place n) st) := by
  induction paras generalizing st with
  | nil => rfl
  | cons para paras ih =>
    rw [List.foldlM_cons, addParagraph_eq hn]
    exact ih _

/-- What is known of the pieces and the buffer after the paragraphs `done`. -/
structure Placed (n : Nat) (done : List Str) (st : List Str × Str) : Prop where
  short : ∀ p ∈ st.1, p.length ≤ n
  stripped : ∀ p ∈ st.1, strip p = p
  buffer_short : st.2.length ≤ n
  buffer_full : st.2 = [] ∨ ¬ IsBlank st.2
  visible : visible (st.1.flatten ++ st.2) = visible done.flatten
  blank : (∃ p ∈ st.1, p = []) ↔ ∃ para ∈ done, HasBlankSlice n para

variable {done : List Str} {st : List Str × Str}

theorem Placed.nil (n : Nat) : Placed n [] ([], []) where
  short := nofun
  stripped := nofun
  buffer_short := Nat.zero_le n
  buffer_full := .inl rfl
  visible := rfl
  blank := by simp

/-- The buffer is put out. -/
theorem Placed.flush (h : Placed n done st) : Placed n done (st.1 ++ flush st.2, []) := by
  unfold Knowledge.flush
  split_ifs with hnil
  · rw [List.append_nil]
    have hvisible := h.visible
    rw [hnil] at hvisible
    exact ⟨h.short, h.stripped, Nat.zero_le n, .inl rfl, hvisible, h.blank⟩
  · have hfull : ¬ IsBlank st.2 := h.buffer_full.resolve_left hnil
    have hne : strip st.2 ≠ [] := fun hs => hfull (strip_eq_nil_iff.1 hs)
    refine ⟨?_, ?_, Nat.zero_le n, .inl rfl, ?_, ?_⟩
    · intro p hp
      rcases List.mem_append.1 hp with hp | hp
      · exact h.short p hp
      · rw [List.mem_singleton.1 hp]
        exact (length_strip_le st.2).trans h.buffer_short
    · intro p hp
      rcases List.mem_append.1 hp with hp | hp
      · exact h.stripped p hp
      · rw [List.mem_singleton.1 hp]
        exact strip_strip st.2
    · rw [← h.visible]
      simp
    · rw [← h.blank]
      simp [hne]

theorem visible_snoc (done : List Str) (para : Str) :
    PyStd.visible (done ++ [para]).flatten = PyStd.visible done.flatten ++ PyStd.visible para := by
  simp

/-- A paragraph that is not too long has no blank slice that counts. -/
theorem hasBlankSlice_snoc {para : Str} (h : ¬ HasBlankSlice n para) :
    (∃ q ∈ done ++ [para], HasBlankSlice n q) ↔ ∃ q ∈ done, HasBlankSlice n q := by
  simp [or_and_right, exists_or, h]

/-- The step. -/
theorem place_placed (hn : 0 < n) (h : Placed n done st) {para : Str} (hfull : ¬ IsBlank para) :
    Placed n (done ++ [para]) (place n st para) := by
  have hflush := h.flush
  unfold place
  split_ifs with hlong hshort
  · -- the paragraph is cut
    refine ⟨?_, ?_, Nat.zero_le n, .inl rfl, ?_, ?_⟩
    · intro p hp
      rcases List.mem_append.1 hp with hp | hp
      · exact hflush.short p hp
      · obtain ⟨i, rfl⟩ := mem_pieces hp
        exact (length_strip_le _).trans (List.length_take_le n _)
    · intro p hp
      rcases List.mem_append.1 hp with hp | hp
      · exact hflush.stripped p hp
      · obtain ⟨i, rfl⟩ := mem_pieces hp
        exact strip_strip _
    · have hvisible := hflush.visible
      rw [List.append_nil] at hvisible
      rw [List.append_nil, List.flatten_append, visible_append, hvisible, visible_pieces hn,
        visible_snoc]
    · have hblank := hflush.blank
      have hpieces : (∃ p ∈ pieces n para, p = []) ↔ _ := pieces_blank_iff hn
      have hslice : HasBlankSlice n para ↔ ∃ p ∈ pieces n para, p = [] := by
        rw [hpieces]
        exact and_iff_right hlong
      simp only [List.mem_append, List.mem_singleton, or_and_right, exists_or, exists_eq_left,
        hslice] at hblank ⊢
      rw [hblank]
  · -- the paragraph goes into the buffer
    have hnot : ¬ HasBlankSlice n para := fun hslice => hlong hslice.1
    refine ⟨h.short, h.stripped, hshort, .inr (candidate_full st.2 hfull), ?_, ?_⟩
    · rw [visible_append, visible_candidate, visible_snoc, ← h.visible, visible_append,
        List.append_assoc]
    · rw [hasBlankSlice_snoc hnot]
      exact h.blank
  · -- the buffer is put out and the paragraph takes its place
    have hnot : ¬ HasBlankSlice n para := fun hslice => hlong hslice.1
    refine ⟨hflush.short, hflush.stripped, not_lt.1 hlong, .inr hfull, ?_, ?_⟩
    · have hvisible := hflush.visible
      rw [List.append_nil] at hvisible
      rw [visible_append, hvisible, visible_snoc]
    · rw [hasBlankSlice_snoc hnot]
      exact hflush.blank

theorem foldl_placed (hn : 0 < n) {paras : List Str} (hfull : ∀ para ∈ paras, ¬ IsBlank para)
    (h : Placed n done st) : Placed n (done ++ paras) (paras.foldl (place n) st) := by
  induction paras generalizing done st with
  | nil =>
    rw [List.append_nil]
    exact h
  | cons para paras ih =>
    rw [List.forall_mem_cons] at hfull
    have hstep := ih hfull.2 (place_placed hn h hfull.1)
    rw [List.append_assoc] at hstep
    exact hstep

/-- What `_split_text` returns. -/
structure Split (n : Nat) (text : Str) (out : List Str) : Prop where
  short : ∀ p ∈ out, p.length ≤ n
  stripped : ∀ p ∈ out, strip p = p
  visible : PyStd.visible out.flatten = PyStd.visible text
  blank : (∃ p ∈ out, p = []) ↔ ∃ para ∈ paragraphs text, HasBlankSlice n para

/-- The run. -/
theorem splitText_split (hn : 0 < n) (text : Str) :
    ∃ out, splitText text n = .ok out ∧ Split n text out := by
  have hfull : ∀ para ∈ paragraphs text, ¬ IsBlank para := fun para hp => (mem_paragraphs hp).2
  have hplaced := (foldl_placed hn hfull (Placed.nil n)).flush
  refine ⟨_, by unfold splitText; rw [foldlM_addParagraph hn]; rfl, ?_⟩
  have hvisible := hplaced.visible
  rw [List.append_nil, List.nil_append, visible_paragraphs] at hvisible
  exact ⟨hplaced.short, hplaced.stripped, hvisible, hplaced.blank⟩

/-- No piece is longer than the limit, and together they have the characters of the text
that are no whitespace, in their order. -/
theorem splitText_lossless (text : Str) {maxChars : Int} (h : 1 ≤ maxChars) :
    ∃ out, splitText text maxChars = .ok out ∧ (∀ p ∈ out, (p.length : Int) ≤ maxChars) ∧
      PyStd.visible out.flatten = PyStd.visible text := by
  obtain ⟨n, rfl⟩ := Int.eq_ofNat_of_zero_le (by omega : 0 ≤ maxChars)
  obtain ⟨out, hout, hsplit⟩ := splitText_split (by omega : 0 < n) text
  exact ⟨out, hout, fun p hp => Int.ofNat_le.2 (hsplit.short p hp), hsplit.visible⟩

theorem splitText_lossless_three :
    ∃ out, splitText "ab cd\n\nef" 3 = .ok out ∧ (∀ p ∈ out, (p.length : Int) ≤ 3) ∧
      PyStd.visible out.flatten = "abcdef".toList :=
  splitText_lossless "ab cd\n\nef" (by decide)

end AiPipelines.Knowledge

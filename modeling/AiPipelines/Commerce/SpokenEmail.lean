import AiPipelines.Commerce.Normalize
import AiPipelines.PyStd.Joined
import AiPipelines.PyStd.Replace

/-!
# Addresses that are spoken

`normalize_email` on the spoken form of an address, in which a dot is the word `dot` and the
sign `@` the word `at`.  The two replacements look for these words between two blanks.  The
labels of an address have no blanks, so a match can only start at one of the four blanks
around a separator, and `replace_at` and `replace_dot` go over an address label by label.
-/

namespace AiPipelines.Commerce

open PyStd

/-! ## Addresses -/

/-- A label of an address: ASCII, without blanks, dots and at-signs, and not the word `at`. -/
structure IsLabel (l : Str) : Prop where
  ne : l ≠ []
  plain : ∀ c ∈ l, c.toNat < 128 ∧ isSpace c = false ∧ c ≠ '.' ∧ c ≠ '@'
  not_at : l.map Char.toLower ≠ "at".toList

/-- The address with these labels in front of the at-sign and behind it. -/
def address (ls ms : List Str) : Str := joinWith ['.'] ls ++ '@' :: joinWith ['.'] ms

/-- How the address is read aloud. -/
def spoken (ls ms : List Str) : Str :=
  joinWith " dot " ls ++ " at ".toList ++ joinWith " dot " ms

/-- A word in lower case that is not `at`. -/
structure IsPiece (w : Str) : Prop where
  ne : w ≠ []
  no_space : ∀ c ∈ w, isSpace c = false
  not_at : w ≠ "at".toList

theorem IsLabel.lower {l : Str} (h : IsLabel l) : IsPiece (l.map Char.toLower) where
  ne := fun hnil => h.ne (List.map_eq_nil_iff.1 hnil)
  no_space := by
    intro c hc
    obtain ⟨d, hd, rfl⟩ := List.mem_map.1 hc
    rw [isSpace_toLower]
    exact (h.plain d hd).2.1
  not_at := h.not_at

theorem isLabel_of_all {l : Str} (hne : l ≠ [])
    (hplain : l.all (fun c => decide (c.toNat < 128) && (!isSpace c && (c != '.' && c != '@'))) =
      true)
    (hat : l.map Char.toLower ≠ "at".toList) : IsLabel l := by
  refine ⟨hne, ?_, hat⟩
  intro c hc
  simpa using List.all_eq_true.1 hplain c hc

theorem map_joinWith (f : Char → Char) (sep : Str) (ws : List Str) :
    (joinWith sep ws).map f = joinWith (sep.map f) (ws.map (List.map f)) := by
  induction ws with
  | nil => rfl
  | cons w ws ih =>
    cases ws with
    | nil => rw [List.map_singleton, joinWith_singleton, joinWith_singleton]
    | cons v vs =>
      have hne : (v :: vs).map (List.map f) ≠ [] := List.cons_ne_nil (v.map f) _
      rw [joinWith_cons sep w (List.cons_ne_nil v vs), List.map_append, List.map_append, ih,
        List.map_cons (a := w), joinWith_cons (sep.map f) (w.map f) hne]

theorem spoken_lower (ls ms : List Str) : (spoken ls ms).map Char.toLower =
    spoken (ls.map (List.map Char.toLower)) (ms.map (List.map Char.toLower)) := by
  unfold spoken
  rw [List.map_append, List.map_append, map_joinWith, map_joinWith]
  rfl

theorem address_lower (ls ms : List Str) : (address ls ms).map Char.toLower =
    address (ls.map (List.map Char.toLower)) (ms.map (List.map Char.toLower)) := by
  unfold address
  rw [List.map_append, List.map_cons, map_joinWith, map_joinWith]
  rfl

/-! ## The first replacement -/

variable {w : Str} {ls ms ws : List Str}

/-- What stands behind a piece. -/
def AtBreak (t : Str) : Prop := t = [] ∨ ∃ c r, t = c :: r ∧ isSpace c = true

theorem atBreak_dot (t : Str) : AtBreak (" dot".toList ++ t) := .inr ⟨' ', _, rfl, by decide⟩

theorem atBreak_at (t : Str) : AtBreak (" at ".toList ++ t) := .inr ⟨' ', _, rfl, by decide⟩

/-- A word that is not `at` has no match at the blank in front of it. -/
theorem not_at_match (hw : IsPiece w) {t : Str} (ht : AtBreak t) :
    ¬ startsWith " at " (' ' :: (w ++ t)) = true := by
  rw [startsWith_iff]
  intro h
  have h : ['a', 't', ' '] <+: w ++ t := (List.cons_prefix_cons.1 h).2
  cases w with
  | nil => exact hw.ne rfl
  | cons a w =>
    obtain ⟨ha, h⟩ := List.cons_prefix_cons.1 h
    cases w with
    | nil =>
      have h : ['t', ' '] <+: t := h
      rcases ht with ht | ⟨c, r, ht, hc⟩
      · rw [ht] at h
        exact absurd (List.prefix_nil.1 h) (List.cons_ne_nil 't' [' '])
      · rw [ht] at h
        rw [← (List.cons_prefix_cons.1 h).1] at hc
        exact absurd hc (by decide)
    | cons b w =>
      obtain ⟨hb, h⟩ := List.cons_prefix_cons.1 h
      cases w with
      | nil =>
        apply hw.not_at
        rw [← ha, ← hb]
        decide
      | cons c w =>
        -- the blank behind the match would lie in the word
        have hblank := hw.no_space c (by simp)
        rw [← (List.cons_prefix_cons.1 h).1] at hblank
        exact absurd hblank (by decide)

theorem not_mem_space (hw : ∀ c ∈ w, isSpace c = false) : ' ' ∉ w := by
  intro hmem
  exact absurd (hw ' ' hmem) (by decide)

/-- No match starts at the blank in front of a piece. -/
theorem replace_piece (hw : IsPiece w) {t : Str} (ht : AtBreak t) :
    replace " at " "@" (' ' :: (w ++ t)) = ' ' :: (w ++ replace " at " "@" t) := by
  rw [replace_char (not_at_match hw ht)]
  exact congrArg (' ' :: ·) (replace_append (not_mem_space hw.no_space) t)

/-- Nor at the blank in front of a dot. -/
theorem replace_at_dot (t : Str) :
    replace " at " "@" (" dot".toList ++ t) = " dot".toList ++ replace " at " "@" t := by
  have hblank : ¬ startsWith " at " (' ' :: ("dot".toList ++ t)) = true := by
    rw [startsWith_iff]
    intro h
    exact absurd (List.cons_prefix_cons.1 (List.cons_prefix_cons.1 h).2).1 (by decide)
  show replace " at " "@" (' ' :: ("dot".toList ++ t)) = _
  rw [replace_char hblank]
  exact congrArg (' ' :: ·) (replace_append (by decide) t)

theorem dot_split (w : Str) {ws : List Str} (h : ws ≠ []) (t : Str) :
    joinWith " dot " (w :: ws) ++ t =
      w ++ (" dot".toList ++ ' ' :: (joinWith " dot " ws ++ t)) := by
  rw [joinWith_cons _ w h]
  simp

/-- Pieces with a blank in front stay, and the dots between them. -/
theorem replace_at_behind (h : ∀ w ∈ ls, IsPiece w) (hls : ls ≠ []) {t : Str} (ht : AtBreak t) :
    replace " at " "@" (' ' :: (joinWith " dot " ls ++ t)) =
      ' ' :: (joinWith " dot " ls ++ replace " at " "@" t) := by
  induction ls with
  | nil => exact absurd rfl hls
  | cons w ls ih =>
    rw [List.forall_mem_cons] at h
    by_cases hnil : ls = []
    · rw [hnil, joinWith_singleton]
      exact replace_piece h.1 ht
    · rw [dot_split w hnil, dot_split w hnil, replace_piece h.1 (atBreak_dot _),
        replace_at_dot, ih h.2 hnil]

theorem replace_at (h : ∀ w ∈ ls, IsPiece w) (hls : ls ≠ []) {t : Str} (ht : AtBreak t) :
    replace " at " "@" (joinWith " dot " ls ++ t) =
      joinWith " dot " ls ++ replace " at " "@" t := by
  cases ls with
  | nil => exact absurd rfl hls
  | cons w ls =>
    rw [List.forall_mem_cons] at h
    have hword : ∀ s : Str, replace " at " "@" (w ++ s) = w ++ replace " at " "@" s :=
      fun s => replace_append (not_mem_space h.1.no_space) s
    by_cases hnil : ls = []
    · rw [hnil, joinWith_singleton, hword]
    · rw [dot_split w hnil, dot_split w hnil, hword, replace_at_dot, replace_at_behind h.2 hnil ht]

/-- The first replacement finds the at-sign and nothing else. -/
theorem replace_at_spoken (hl : ∀ w ∈ ls, IsPiece w) (hm : ∀ w ∈ ms, IsPiece w) (hls : ls ≠ [])
    (hms : ms ≠ []) : replace " at " "@" (spoken ls ms) =
      joinWith " dot " ls ++ '@' :: joinWith " dot " ms := by
  have hlast := replace_at hm hms (.inl rfl : AtBreak [])
  rw [List.append_nil] at hlast
  have hmatch : replace " at " "@" (" at ".toList ++ joinWith " dot " ms) =
      "@".toList ++ replace " at " "@" (joinWith " dot " ms) := replace_match _
  unfold spoken
  rw [List.append_assoc, replace_at hl hls (atBreak_at _), hmatch, hlast]
  simp [replace, replaceFrom]

/-! ## The second replacement -/

/-- The second replacement finds each dot between words. -/
theorem replace_dot (h : ∀ w ∈ ws, ' ' ∉ w) {t : Str} :
    replace " dot " "." (joinWith " dot " ws ++ '@' :: t) =
      joinWith ['.'] ws ++ '@' :: replace " dot " "." t := by
  have hat : replace " dot " "." ('@' :: t) = '@' :: replace " dot " "." t :=
    replace_ne (by decide) t
  induction ws with
  | nil => exact hat
  | cons w ws ih =>
    rw [List.forall_mem_cons] at h
    have hword : ∀ s : Str, replace " dot " "." (w ++ s) = w ++ replace " dot " "." s :=
      fun s => replace_append h.1 s
    have hmatch : ∀ s : Str, replace " dot " "." (" dot ".toList ++ s) =
        ".".toList ++ replace " dot " "." s := fun s => replace_match s
    by_cases hnil : ws = []
    · rw [hnil, joinWith_singleton, joinWith_singleton, hword, hat]
    · rw [joinWith_cons _ w hnil, joinWith_cons _ w hnil, List.append_assoc, List.append_assoc,
        hword, hmatch, ih h.2, List.append_assoc, List.append_assoc]
      rfl

theorem replace_dot_last (h : ∀ w ∈ ws, ' ' ∉ w) :
    replace " dot " "." (joinWith " dot " ws) = joinWith ['.'] ws := by
  induction ws with
  | nil => rfl
  | cons w ws ih =>
    rw [List.forall_mem_cons] at h
    by_cases hnil : ws = []
    · rw [hnil, joinWith_singleton, joinWith_singleton]
      exact replace_eq_self h.1
    · have hword : replace " dot " "." (w ++ (" dot ".toList ++ joinWith " dot " ws)) =
          w ++ replace " dot " "." (" dot ".toList ++ joinWith " dot " ws) := replace_append h.1 _
      have hmatch : replace " dot " "." (" dot ".toList ++ joinWith " dot " ws) =
          ".".toList ++ replace " dot " "." (joinWith " dot " ws) := replace_match _
      rw [joinWith_cons _ w hnil, joinWith_cons _ w hnil, List.append_assoc, hword, hmatch, ih h.2,
        List.append_assoc]
      rfl

/-! ## The ends of the text -/

theorem strip_lower (s : Str) : strip (s.map Char.toLower) = (strip s).map Char.toLower := by
  have hspace : isSpace ∘ Char.toLower = isSpace := funext isSpace_toLower
  have hlstrip : ∀ t : Str, lstrip (t.map Char.toLower) = (lstrip t).map Char.toLower := by
    intro t
    unfold lstrip
    rw [List.dropWhile_map, hspace]
  have hrstrip : ∀ t : Str, rstrip (t.map Char.toLower) = (rstrip t).map Char.toLower := by
    intro t
    unfold rstrip List.rdropWhile
    rw [← List.map_reverse, List.dropWhile_map, hspace, List.map_reverse]
  unfold strip
  rw [hlstrip, hrstrip]

theorem IsPiece.head (hw : IsPiece w) : ∃ c s, w = c :: s ∧ isSpace c = false := by
  obtain ⟨c, s, rfl⟩ := List.exists_cons_of_ne_nil hw.ne
  exact ⟨c, s, rfl, hw.no_space c List.mem_cons_self⟩

theorem IsPiece.last (hw : IsPiece w) : ∃ s c, w = s ++ [c] ∧ isSpace c = false :=
  ⟨w.dropLast, w.getLast hw.ne, (List.dropLast_append_getLast hw.ne).symm,
    hw.no_space _ (List.getLast_mem hw.ne)⟩

theorem joinWith_last (h : ∀ w ∈ ws, IsPiece w) (hws : ws ≠ []) :
    ∃ s c, joinWith " dot " ws = s ++ [c] ∧ isSpace c = false := by
  induction ws with
  | nil => exact absurd rfl hws
  | cons w ws ih =>
    rw [List.forall_mem_cons] at h
    by_cases hnil : ws = []
    · rw [hnil, joinWith_singleton]
      exact h.1.last
    · obtain ⟨s, c, hs, hc⟩ := ih h.2 hnil
      refine ⟨w ++ " dot " ++ s, c, ?_, hc⟩
      rw [joinWith_cons _ w hnil, hs]
      simp only [List.append_assoc]

theorem strip_spoken (hl : ∀ w ∈ ls, IsPiece w) (hm : ∀ w ∈ ms, IsPiece w) (hls : ls ≠ [])
    (hms : ms ≠ []) : strip (spoken ls ms) = spoken ls ms := by
  obtain ⟨s, d, hs, hd⟩ := joinWith_last hm hms
  obtain ⟨w, ws, rfl⟩ := List.exists_cons_of_ne_nil hls
  obtain ⟨c, v, rfl, hc⟩ := (hl w List.mem_cons_self).head
  have hhead : ∃ t, joinWith " dot " ((c :: v) :: ws) = c :: t := by
    by_cases hnil : ws = []
    · rw [hnil, joinWith_singleton]
      exact ⟨v, rfl⟩
    · rw [joinWith_cons _ _ hnil]
      exact ⟨v ++ " dot " ++ joinWith " dot " ws, rfl⟩
  obtain ⟨t, ht⟩ := hhead
  unfold spoken strip
  rw [ht, hs, ← List.append_assoc, List.cons_append, List.cons_append]
  have hlstrip := lstrip_append_cons [] (t ++ " at ".toList ++ s ++ [d]) hc
  have hrstrip := rstrip_append_cons (c :: (t ++ " at ".toList ++ s)) [] hd
  exact (congrArg rstrip hlstrip).trans hrstrip

/-! ## The address -/

theorem no_space_address (hl : ∀ w ∈ ls, IsPiece w) (hm : ∀ w ∈ ms, IsPiece w) :
    ∀ c ∈ address ls ms, isSpace c = false := by
  unfold address
  rw [List.forall_mem_append, List.forall_mem_cons]
  have hdot : ∀ c ∈ ['.'], isSpace c = false := List.forall_mem_singleton.2 (by decide)
  exact ⟨forall_mem_joinWith hdot fun w hw => (hl w hw).no_space, by decide,
    forall_mem_joinWith hdot fun w hw => (hm w hw).no_space⟩

theorem filter_no_space {s : Str} (h : ∀ c ∈ s, isSpace c = false) :
    s.filter (fun c => !isSpace c) = s := by
  apply List.filter_eq_self.2
  intro c hc
  rw [h c hc]
  rfl

/-- The two replacements and the removal of the blanks. -/
theorem unspoken (hl : ∀ w ∈ ls, IsPiece w) (hm : ∀ w ∈ ms, IsPiece w) (hls : ls ≠ [])
    (hms : ms ≠ []) :
    (replace " dot " "." (replace " at " "@" (spoken ls ms))).filter (fun c => !isSpace c) =
      address ls ms := by
  have hl' : ∀ w ∈ ls, ' ' ∉ w := fun w hw => not_mem_space (hl w hw).no_space
  have hm' : ∀ w ∈ ms, ' ' ∉ w := fun w hw => not_mem_space (hm w hw).no_space
  rw [replace_at_spoken hl hm hls hms, replace_dot hl', replace_dot_last hm']
  exact filter_no_space (no_space_address hl hm)

theorem lower_labels (h : ∀ l ∈ ls, IsLabel l) :
    ∀ w ∈ ls.map (List.map Char.toLower), IsPiece w := by
  intro w hw
  obtain ⟨l, hl, rfl⟩ := List.mem_map.1 hw
  exact (h l hl).lower

theorem toLower_ascii_iff (c : Char) : c.toLower.toNat < 128 ↔ c.toNat < 128 := by
  by_cases hc : c.toNat < 128
  · exact iff_of_true (forall_ascii (P := fun c => c.toLower.toNat < 128) (by decide) hc) hc
  · rw [toLower_of_not_ascii (Nat.le_of_not_lt hc)]

theorem ascii_of_all {s : Str} (h : s.all (fun c => decide (c.toNat < 128)) = true) :
    ∀ c ∈ s, c.toNat < 128 :=
  fun c hc => of_decide_eq_true (List.all_eq_true.1 h c hc)

theorem ascii_spoken (hl : ∀ l ∈ ls, IsLabel l) (hm : ∀ l ∈ ms, IsLabel l) :
    ∀ c ∈ spoken ls ms, c.toNat < 128 := by
  unfold spoken
  rw [List.forall_mem_append, List.forall_mem_append]
  have hdot : ∀ c ∈ " dot ".toList, c.toNat < 128 := ascii_of_all (by decide)
  have hat : ∀ c ∈ " at ".toList, c.toNat < 128 := ascii_of_all (by decide)
  exact ⟨⟨forall_mem_joinWith hdot fun l h c hc => ((hl l h).plain c hc).1, hat⟩,
    forall_mem_joinWith hdot fun l h c hc => ((hm l h).plain c hc).1⟩

/-- A text that is the spoken form but for the case of its letters. -/
theorem lower_of_spoken (u : Unicode) (hl : ∀ l ∈ ls, IsLabel l) (hm : ∀ l ∈ ms, IsLabel l)
    {s : Str} (hs : s.map Char.toLower = (spoken ls ms).map Char.toLower) :
    u.lower (strip s) = strip (s.map Char.toLower) := by
  have hascii : ∀ c ∈ s, c.toNat < 128 := by
    intro c hc
    have hmem : c.toLower ∈ (spoken ls ms).map Char.toLower := by
      rw [← hs]
      exact List.mem_map_of_mem hc
    obtain ⟨d, hd, heq⟩ := List.mem_map.1 hmem
    rw [← toLower_ascii_iff, ← heq, toLower_ascii_iff]
    exact ascii_spoken hl hm d hd
  have hsub : ∀ c ∈ strip s, c ∈ s := by
    intro c hc
    exact (List.dropWhile_suffix _).mem ((List.rdropWhile_prefix _ _).mem hc)
  rw [u.lower_ascii (strip s) fun c hc => hascii c (hsub c hc), strip_lower]

/-- The characters of an address that is normal. -/
theorem mem_normalizeEmail {u : Unicode} {s : Str} {c : Char} (h : c ∈ normalizeEmail u s) :
    isSpace c = false ∧ (c ∈ u.lower (strip s) ∨ c = '@' ∨ c = '.') := by
  unfold normalizeEmail at h
  obtain ⟨h, hspace⟩ := List.mem_filter.1 h
  refine ⟨Bool.not_eq_true' _ ▸ hspace, ?_⟩
  rcases mem_of_mem_replace h with h | h
  · rcases mem_of_mem_replace h with h | h
    · exact .inl h
    · exact .inr (.inl (List.mem_singleton.1 h))
  · exact .inr (.inr (List.mem_singleton.1 h))

/-- An address that is normal is in lower case. -/
theorem lower_normalizeEmail (u : CasedUnicode) (s : Str) :
    u.lower (normalizeEmail u.toUnicode s) = normalizeEmail u.toUnicode s := by
  apply u.lower_lowered
  intro c hc
  have hsign : ∀ d : Char, d.toNat < 128 → d.toLower = d → d ∈ u.lower [d] := by
    intro d hd hlower
    rw [u.lower_ascii [d] (List.forall_mem_singleton.2 hd), List.map_singleton, hlower]
    exact List.mem_singleton_self d
  rcases (mem_normalizeEmail hc).2 with h | h | h
  · exact ⟨strip s, h⟩
  · rw [h]
    exact ⟨['@'], hsign '@' (by decide) (by decide)⟩
  · rw [h]
    exact ⟨['.'], hsign '.' (by decide) (by decide)⟩

/-- The spoken form of an address is decoded, and what is normal stays. -/
theorem normalizeEmail_spoken (u : CasedUnicode) :
    (∀ ls ms : List Str, ls ≠ [] → ms ≠ [] → (∀ l ∈ ls, IsLabel l) → (∀ l ∈ ms, IsLabel l) →
      ∀ a s b : Str, IsBlank a → IsBlank b → s.map Char.toLower = (spoken ls ms).map Char.toLower →
        normalizeEmail u.toUnicode (a ++ s ++ b) = (address ls ms).map Char.toLower) ∧
    ∀ s : Str, normalizeEmail u.toUnicode (normalizeEmail u.toUnicode s) =
      normalizeEmail u.toUnicode s := by
  constructor
  · intro ls ms hls hms hl hm a s b ha hb hs
    have hpl := lower_labels hl
    have hpm := lower_labels hm
    have hnl : ls.map (List.map Char.toLower) ≠ [] := fun h => hls (List.map_eq_nil_iff.1 h)
    have hnm : ms.map (List.map Char.toLower) ≠ [] := fun h => hms (List.map_eq_nil_iff.1 h)
    have hlower : u.lower (strip (a ++ s ++ b)) =
        spoken (ls.map (List.map Char.toLower)) (ms.map (List.map Char.toLower)) := by
      rw [strip_append_of_blank ha hb, lower_of_spoken u.toUnicode hl hm hs, hs, spoken_lower,
        strip_spoken hpl hpm hnl hnm]
    unfold normalizeEmail
    rw [hlower, address_lower]
    exact unspoken hpl hpm hnl hnm
  · intro s
    have hspace : ∀ c ∈ normalizeEmail u.toUnicode s, isSpace c = false :=
      fun c hc => (mem_normalizeEmail hc).1
    have hblank := not_mem_space hspace
    rw [normalizeEmail, strip_eq_self hspace, lower_normalizeEmail]
    have hat : replace " at " "@" (normalizeEmail u.toUnicode s) = normalizeEmail u.toUnicode s :=
      replace_eq_self hblank
    have hdot : replace " dot " "." (normalizeEmail u.toUnicode s) = normalizeEmail u.toUnicode s :=
      replace_eq_self hblank
    show (replace " dot " "." (replace " at " "@" (normalizeEmail u.toUnicode s))).filter _ = _
    rw [hat, hdot]
    exact filter_no_space hspace

/-- A label that is the word `dot`. -/
theorem normalizeEmail_maya : normalizeEmail Unicode.ascii " Maya dot DOT at Example dot com" =
    "maya.dot@example.com".toList := by
  have hlabel : ∀ l : Str, l ∈ ["maya".toList, "dot".toList] ∨
      l ∈ ["example".toList, "com".toList] →
      IsLabel l := by
    intro l hl
    simp only [List.mem_cons, List.not_mem_nil, or_false] at hl
    rcases hl with (rfl | rfl) | rfl | rfl <;>
      exact isLabel_of_all (by decide) (by decide) (by decide)
  have hspoken := (normalizeEmail_spoken CasedUnicode.ascii).1 ["maya".toList, "dot".toList]
    ["example".toList, "com".toList] (by decide) (by decide) (fun l h => hlabel l (.inl h))
    (fun l h => hlabel l (.inr h)) [' '] "Maya dot DOT at Example dot com" [] (by decide)
      (by decide)
    (by decide)
  exact hspoken

end AiPipelines.Commerce

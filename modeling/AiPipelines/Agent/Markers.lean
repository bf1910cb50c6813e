import AiPipelines.Agent.Chat
import AiPipelines.Agent.LoopEnds

/-!
# The markers of a reply

`sanitize_agent_reply` of `server/app/agent/service.py` takes away one `FINAL:` and all
that stands in front of it.  What is left may start with the next one, so the text that
the user gets depends on how often it is applied: twice on the way of a final answer and
twice to plain text, where it finds nothing to take away.

`markers` lists the texts behind the markers of a text, from the left to the right.
`parseFinal_eq` says that the two expressions take the first of them that is not blank,
and `markers_tail` that the markers of what is left are the remaining ones.  From this
`sanitize_idempotent_iff` and `replyText_clean_iff` count the markers that are harmless.
-/

namespace AiPipelines.Agent

open PyStd SessionStore

/-! ## Markers -/

/-- The text starts with `FINAL:` in some letter case. -/
def isMarker (s : Str) : Bool := startsWith "FINAL:" (s.map ignoreCase)

/-- The scan for markers.  The first argument counts the characters that still belong to
the last marker; the second says whether a marker may start here, with nothing but blanks
behind the start of the line or the last marker. -/
def markersFrom : Nat → Bool → Str → List Str
  | _, _, [] => []
  | skip + 1, _, _ :: s => markersFrom skip true s
  | 0, start, c :: s =>
    if start ∧ isMarker (c :: s) then (c :: s).drop 6 :: markersFrom 5 true s
    else markersFrom 0 (c = '\n' ∨ start ∧ isSpace c) s

/-- What stands behind each marker of a text. -/
def markers (s : Str) : List Str := markersFrom 0 true s

/-- No line starts with `FINAL:`. -/
def Clean (s : Str) : Prop := ∀ line ∈ s.splitOn '\n', isMarker (lstrip line) = false

instance (s : Str) : Decidable (Clean s) :=
  inferInstanceAs (Decidable (∀ line ∈ s.splitOn '\n', isMarker (lstrip line) = false))

theorem isMarker_iff {s : Str} :
    isMarker s = true ↔ ∃ m r : Str, s = m ++ r ∧ m.map ignoreCase = ("FINAL:" : Str) := by
  unfold isMarker
  rw [startsWith_iff]
  constructor
  · intro h
    obtain ⟨t, ht⟩ := h
    obtain ⟨m, r, rfl, hm, -⟩ := List.map_eq_append_iff.1 ht.symm
    exact ⟨m, r, rfl, hm⟩
  · intro h
    obtain ⟨m, r, rfl, hm⟩ := h
    rw [List.map_append, hm]
    exact List.prefix_append _ _

/-- A marker and what is behind it. -/
theorem isMarker_drop {s : Str} (h : isMarker s = true) :
    ∃ m : Str, s = m ++ s.drop 6 ∧ m.map ignoreCase = ("FINAL:" : Str) ∧ m.length = 6 := by
  obtain ⟨m, r, rfl, hm⟩ := isMarker_iff.1 h
  have hlen : m.length = 6 := by
    have := congrArg List.length hm
    simpa using this
  refine ⟨m, ?_, hm, hlen⟩
  rw [← hlen, List.drop_left]

/-- No blank stands in a marker. -/
theorem not_isSpace_of_ignoreCase {c : Char} (h : ignoreCase c ∈ ("FINAL:" : Str)) :
    isSpace c = false := by
  by_contra hc
  have hspace : isSpace c = true := by simpa using hc
  have hup : ignoreCase c = c := by
    unfold ignoreCase
    have hne : ¬ (c = 'ı' ∨ c = 'İ') := by
      intro hi
      rcases hi with rfl | rfl
      · exact absurd hspace (by decide)
      · exact absurd hspace (by decide)
    rw [if_neg hne]
    unfold Char.toUpper
    rw [dif_neg]
    intro hlow
    unfold isSpace at hspace
    simp only [Bool.or_eq_true, Bool.and_eq_true, decide_eq_true_eq, beq_iff_eq] at hspace
    have h1 := UInt32.le_iff_toNat_le.1 hlow.1
    have h2 := UInt32.le_iff_toNat_le.1 hlow.2
    simp at h1 h2
    have : c.val.toNat = c.toNat := rfl
    omega
  rw [hup] at h
  have hall : ("FINAL:" : Str).all (fun c => !isSpace c) = true := by decide
  rw [not_isSpace_of_all hall c h] at hspace
  cases hspace

theorem isMarker_head {c : Char} {s : Str} (h : isMarker (c :: s) = true) : isSpace c = false := by
  obtain ⟨m, hs, hm, hlen⟩ := isMarker_drop h
  cases m with
  | nil => cases hm
  | cons d m =>
    obtain ⟨rfl, -⟩ := List.cons.inj hs
    apply not_isSpace_of_ignoreCase
    rw [← hm]
    exact List.mem_cons_self

/-! ## The scan -/

theorem markersFrom_skip (start : Bool) (m r : Str) :
    markersFrom m.length start (m ++ r) =
      markersFrom 0 (if m = [] then start else true) r := by
  induction m generalizing start with
  | nil => rfl
  | cons c m ih =>
    show markersFrom m.length true (m ++ r) = _
    rw [ih]
    simp

/-- A marker that stands at the front. -/
theorem markers_of_isMarker {s : Str} (h : isMarker s = true) :
    markers s = s.drop 6 :: markers (s.drop 6) := by
  obtain ⟨m, hs, hm, hlen⟩ := isMarker_drop h
  cases m with
  | nil => cases hlen
  | cons c m =>
    have htail : m.length = 5 := Nat.succ.inj hlen
    have hne : m ≠ [] := by
      intro hnil
      rw [hnil] at htail
      cases htail
    unfold markers
    rw [hs] at h ⊢
    show markersFrom 0 true (c :: (m ++ s.drop 6)) = _
    rw [markersFrom, if_pos ⟨rfl, h⟩, ← htail, markersFrom_skip, if_neg hne]
    have hdrop : List.drop (c :: m).length (c :: m ++ s.drop 6) = s.drop 6 := List.drop_left
    rw [hlen] at hdrop
    rw [List.cons_append] at hdrop ⊢
    rw [hdrop]

/-- Blanks at the front do not matter. -/
theorem markers_space {c : Char} {s : Str} (hc : isSpace c = true) :
    markers (c :: s) = markers s := by
  have hnot : ¬ isMarker (c :: s) = true := by
    intro h
    rw [isMarker_head h] at hc
    cases hc
  unfold markers
  rw [markersFrom, if_neg fun h => hnot h.2]
  simp [hc]

theorem markers_lstrip (s : Str) : markers (lstrip s) = markers s := by
  induction s with
  | nil => rfl
  | cons c s ih =>
    by_cases hc : isSpace c = true
    · rw [markers_space hc, ← ih]
      exact congrArg markers (List.dropWhile_cons_of_pos hc)
    · exact congrArg markers (List.dropWhile_cons_of_neg hc)

/-- The markers behind the first one are those of the text behind it. -/
theorem markersFrom_tail {start : Bool} {s b : Str} {bs : List Str}
    (h : markersFrom 0 start s = b :: bs) : bs = markers b := by
  induction s generalizing start with
  | nil => cases h
  | cons c s ih =>
    by_cases hm : start = true ∧ isMarker (c :: s) = true
    · have hmarkers := markers_of_isMarker hm.2
      unfold markers at hmarkers
      rw [hm.1, hmarkers] at h
      obtain ⟨rfl, rfl⟩ := List.cons.inj h
      rfl
    · rw [markersFrom, if_neg hm] at h
      exact ih h

theorem markers_tail {s b : Str} {bs : List Str} (h : markers s = b :: bs) : bs = markers b :=
  markersFrom_tail h

/-- What is behind a marker is a suffix, and shorter by the marker at least. -/
theorem markersFrom_head {start : Bool} {s b : Str} {bs : List Str}
    (h : markersFrom 0 start s = b :: bs) : b <:+ s ∧ b.length + 6 ≤ s.length := by
  induction s generalizing start with
  | nil => cases h
  | cons c s ih =>
    by_cases hm : start = true ∧ isMarker (c :: s) = true
    · obtain ⟨m, hs, -, hlen⟩ := isMarker_drop hm.2
      rw [markersFrom, if_pos hm] at h
      obtain ⟨rfl, -⟩ := List.cons.inj h
      refine ⟨List.drop_suffix 6 _, ?_⟩
      have := congrArg List.length hs
      rw [List.length_append, hlen] at this
      omega
    · rw [markersFrom, if_neg hm] at h
      obtain ⟨hsuf, hlen⟩ := ih h
      exact ⟨hsuf.trans (List.suffix_cons c s), Nat.le_succ_of_le hlen⟩

/-! ## The expressions take the first marker -/

/-- What the expression finds behind the line feeds of a text. -/
def searchBehind (t : Str) : Option Str := (t.tails.filterMap afterNewline).findSome? finalAt

theorem finalSearch_eq_or (t : Str) : finalSearch t = (finalAt t).or (searchBehind t) := by
  unfold finalSearch lineStarts searchBehind
  rw [List.findSome?_cons]
  cases finalAt t <;> rfl

theorem searchBehind_cons (c : Char) (s : Str) :
    searchBehind (c :: s) = if c = '\n' then finalSearch s else searchBehind s := by
  rw [finalSearch_eq_or]
  unfold searchBehind
  rw [List.tails_cons]
  split_ifs with hc
  · rw [hc, List.filterMap_cons_some (show afterNewline ('\n' :: s) = some s from rfl),
      List.findSome?_cons]
    cases finalAt s <;> rfl
  · rw [List.filterMap_cons_none]
    unfold afterNewline
    split
    · next heq => exact absurd (List.cons.inj heq).1 hc
    · rfl

/-- The first marker that is followed by more than blanks. -/
def firstFull (bs : List Str) : Option Str := (bs.find? fun b => ¬ IsBlank b).map lstrip

theorem searchBehind_eq_none {t : Str} (h : '\n' ∉ t) : searchBehind t = none := by
  induction t with
  | nil => rfl
  | cons c t ih =>
    rw [List.mem_cons, not_or] at h
    rw [searchBehind_cons, if_neg (Ne.symm h.1), ih h.2]

theorem finalAt_space {c : Char} (hc : isSpace c = true) (s : Str) :
    finalAt (c :: s) = finalAt s := by
  unfold finalAt
  rw [show lstrip (c :: s) = lstrip s from List.dropWhile_cons_of_pos hc]

theorem finalAt_not_space {c : Char} (hc : isSpace c = false) (s : Str) :
    finalAt (c :: s) = if isMarker (c :: s) then capture ((c :: s).drop 6) else none := by
  unfold finalAt
  rw [show lstrip (c :: s) = c :: s from List.dropWhile_cons_of_neg (by simp [hc])]
  rfl

theorem isBlank_suffix {s t : Str} (hs : rstrip s = s) (ht : t <:+ s) (hblank : IsBlank t) :
    t = [] := by
  rw [← rstrip_suffix hs ht, rstrip_eq_nil_iff]
  exact hblank

/-- A search that starts at a marker. -/
theorem finalSearch_of_isMarker {t : Str} (ht : rstrip t = t) (hm : isMarker t = true) :
    finalSearch t = firstFull (markers t) := by
  rw [markers_of_isMarker hm, finalSearch_eq_or]
  cases t with
  | nil => exact absurd hm (by decide)
  | cons c s =>
    rw [finalAt_not_space (isMarker_head hm), if_pos hm]
    by_cases hblank : IsBlank ((c :: s).drop 6)
    · -- the marker is the end of the text
      have hnil := isBlank_suffix ht (List.drop_suffix 6 _) hblank
      obtain ⟨m, hs, hmap, -⟩ := isMarker_drop hm
      rw [hnil, List.append_nil] at hs
      have hbreak : '\n' ∉ c :: s := by
        intro hmem
        have hspace := not_isSpace_of_ignoreCase (c := '\n') (by
          rw [← hmap, ← hs]
          exact List.mem_map_of_mem hmem)
        exact absurd hspace (by decide)
      rw [hnil, searchBehind_eq_none hbreak]
      rfl
    · have hne : lstrip ((c :: s).drop 6) ≠ [] := fun hnil => hblank (lstrip_eq_nil_iff.1 hnil)
      unfold firstFull capture
      rw [if_pos hne, List.find?_cons_of_pos (by simpa using hblank)]
      rfl

/-- At each place of the scan the search is the first full marker of the rest. -/
theorem search_eq {t : Str} (ht : rstrip t = t) (start : Bool) :
    (if start then finalSearch t else searchBehind t) = firstFull (markersFrom 0 start t) := by
  induction t generalizing start with
  | nil => cases start <;> rfl
  | cons c s ih =>
    have ih := fun start => ih (rstrip_suffix ht (List.suffix_cons c s)) start
    by_cases hm : start = true ∧ isMarker (c :: s) = true
    · rw [hm.1, if_pos rfl]
      exact finalSearch_of_isMarker ht hm.2
    · rw [markersFrom, if_neg hm, ← ih]
      cases start with
      | false =>
        rw [if_neg (by decide), searchBehind_cons]
        simp
      | true =>
        have hnot : ¬ isMarker (c :: s) = true := fun h => hm ⟨rfl, h⟩
        rw [if_pos rfl, finalSearch_eq_or, searchBehind_cons]
        by_cases hc : isSpace c = true
        · have hflag : decide (c = '\n' ∨ (true : Bool) = true ∧ isSpace c = true) = true := by
            simp [hc]
          rw [hflag, if_pos rfl, finalAt_space hc, finalSearch_eq_or]
          split_ifs <;> cases finalAt s <;> rfl
        · have hbreak : c ≠ '\n' := by
            intro heq
            rw [heq] at hc
            exact hc (by decide)
          rw [finalAt_not_space (by simpa using hc), if_neg hnot, if_neg hbreak]
          simp [hc, hbreak]

theorem finalSearch_eq {t : Str} (ht : rstrip t = t) : finalSearch t = firstFull (markers t) :=
  search_eq ht true

theorem strip_lstrip (s : Str) : strip (lstrip s) = strip s :=
  congrArg rstrip (List.dropWhile_idempotent isSpace s)

/-- `_parse_final` takes the text behind the first marker that has some. -/
theorem parseFinal_eq (text : Str) :
    parseFinal text = ((markers (strip text)).find? fun b => ¬ IsBlank b).map strip := by
  have hsearch := finalSearch_eq (rstrip_strip text)
  unfold parseFinal
  rw [hsearch]
  unfold firstFull
  cases hfind : (markers (strip text)).find? fun b => ¬ IsBlank b with
  | some b => exact congrArg some (strip_lstrip b)
  | none =>
    have hnone : finalAt (strip text) = none := by
      unfold firstFull at hsearch
      rw [hfind, finalSearch_eq_or] at hsearch
      exact (Option.or_eq_none_iff.1 hsearch).1
    rw [hnone]
    rfl

/-! ## What is left of a text -/

variable {text b : Str} {bs : List Str}

theorem rstrip_marker (h : markers (strip text) = b :: bs) : rstrip b = b :=
  rstrip_suffix (rstrip_strip text) (markersFrom_head h).1

/-- The markers of what is left are those behind the first one. -/
theorem markers_behind (h : markers (strip text) = b :: bs) : markers (strip b) = bs := by
  have hsuf : lstrip b <:+ b := List.dropWhile_suffix isSpace
  rw [strip, rstrip_suffix (rstrip_marker h) hsuf, markers_lstrip]
  exact (markers_tail h).symm

/-- Only the last marker may be followed by blanks. -/
theorem behind_blank (h : markers (strip text) = b :: bs) (hb : IsBlank b) : bs = [] := by
  have hnil : b = [] := isBlank_suffix (rstrip_marker h) (List.suffix_refl b) hb
  rw [markers_tail h, hnil]
  rfl

theorem parseFinal_of_full (h : markers (strip text) = b :: bs) (hb : ¬ IsBlank b) :
    parseFinal text = some (strip b) := by
  rw [parseFinal_eq, h, List.find?_cons_of_pos (by simpa using hb)]
  rfl

theorem parseFinal_eq_none_iff :
    parseFinal text = none ↔ ∀ b ∈ markers (strip text), IsBlank b := by
  rw [parseFinal_eq, Option.map_eq_none_iff, List.find?_eq_none]
  simp

theorem sanitize_of_full (h : markers (strip text) = b :: bs) (hb : ¬ IsBlank b) :
    sanitizeAgentReply text = strip b := by
  unfold sanitizeAgentReply
  rw [parseFinal_of_full h hb]

theorem sanitize_of_blank (h : ∀ b ∈ markers (strip text), IsBlank b) :
    sanitizeAgentReply text = strip text := by
  unfold sanitizeAgentReply
  rw [parseFinal_eq_none_iff.2 h]

/-- A text that starts with a full marker loses it. -/
theorem sanitize_ne_self (h : markers (strip text) = b :: bs) (hb : ¬ IsBlank b) :
    sanitizeAgentReply text ≠ strip text := by
  rw [sanitize_of_full h hb]
  intro heq
  have hshort := (markersFrom_head h).2
  have hle : (strip b).length ≤ b.length :=
    (List.rdropWhile_prefix isSpace (l := lstrip b)).length_le.trans
      (List.dropWhile_suffix isSpace).length_le
  rw [heq] at hle
  omega

/-- Either no marker has text behind it, or the first one has. -/
theorem blank_or_full (text : Str) :
    (∀ b ∈ markers (strip text), IsBlank b) ∨
      ∃ b bs, markers (strip text) = b :: bs ∧ ¬ IsBlank b := by
  cases h : markers (strip text) with
  | nil => exact .inl (List.forall_mem_nil _)
  | cons b bs =>
    by_cases hb : IsBlank b
    · left
      rw [behind_blank h hb, List.forall_mem_singleton]
      exact hb
    · exact .inr ⟨b, bs, rfl, hb⟩

/-- The markers that have text behind them. -/
def fullMarkers (text : Str) : List Str := (markers (strip text)).filter fun b => ¬ IsBlank b

theorem fullMarkers_of_blank (h : ∀ b ∈ markers (strip text), IsBlank b) :
    fullMarkers text = [] := by
  unfold fullMarkers
  rw [List.filter_eq_nil_iff]
  intro b hb
  simpa using h b hb

theorem fullMarkers_of_full (h : markers (strip text) = b :: bs) (hb : ¬ IsBlank b) :
    fullMarkers text = b :: fullMarkers (strip b) := by
  unfold fullMarkers
  rw [h, strip_strip, markers_behind h, List.filter_cons_of_pos (by simpa using hb)]

/-- The function changes a stripped text exactly if it has a full marker. -/
theorem sanitize_eq_strip_iff : sanitizeAgentReply text = strip text ↔ fullMarkers text = [] := by
  rcases blank_or_full text with hall | ⟨b, bs, h, hb⟩
  · exact iff_of_true (sanitize_of_blank hall) (fullMarkers_of_blank hall)
  · refine iff_of_false (sanitize_ne_self h hb) ?_
    rw [fullMarkers_of_full h hb]
    exact List.cons_ne_nil _ _

/-- Doing it twice is doing it once exactly if there is no second full marker. -/
theorem sanitize_idempotent_iff (text : Str) :
    sanitizeAgentReply (sanitizeAgentReply text) = sanitizeAgentReply text ↔
      (fullMarkers text).length ≤ 1 := by
  rcases blank_or_full text with hall | ⟨b, bs, h, hb⟩
  · have hnil := fullMarkers_of_blank hall
    have hagain : sanitizeAgentReply (strip text) = strip (strip text) := by
      rw [sanitize_eq_strip_iff]
      unfold fullMarkers
      rw [strip_strip]
      exact hnil
    rw [sanitize_of_blank hall, hagain, strip_strip, hnil]
    exact iff_of_true rfl (Nat.zero_le 1)
  · rw [sanitize_of_full h hb, fullMarkers_of_full h hb, List.length_cons]
    have hiff : sanitizeAgentReply (strip b) = strip (strip b) ↔ _ := sanitize_eq_strip_iff
    rw [strip_strip] at hiff
    rw [hiff, ← List.length_eq_zero_iff]
    omega

/-! ## Lines -/

/-- A marker lies in its line. -/
theorem isMarker_takeWhile (s : Str) : isMarker (s.takeWhile (· ≠ '\n')) = isMarker s := by
  rw [Bool.eq_iff_iff]
  constructor
  · intro h
    obtain ⟨m, r, hs, hm⟩ := isMarker_iff.1 h
    obtain ⟨t, ht⟩ := List.takeWhile_prefix (fun c : Char => decide (c ≠ '\n')) (l := s)
    rw [hs, List.append_assoc] at ht
    exact isMarker_iff.2 ⟨m, r ++ t, ht.symm, hm⟩
  · intro h
    obtain ⟨m, r, rfl, hm⟩ := isMarker_iff.1 h
    have hbreak : ∀ c ∈ m, decide (c ≠ '\n') = true := by
      intro c hc
      have hspace : isSpace c = false := by
        apply not_isSpace_of_ignoreCase
        rw [← hm]
        exact List.mem_map_of_mem hc
      rw [decide_eq_true_eq]
      intro heq
      rw [heq] at hspace
      exact absurd hspace (by decide)
    rw [List.takeWhile_append_of_pos hbreak]
    exact isMarker_iff.2 ⟨m, _, rfl, hm⟩

theorem splitOn_cons_newline (s : Str) : ('\n' :: s).splitOn '\n' = [] :: s.splitOn '\n' := by
  unfold List.splitOn
  rw [List.splitOnP_cons_eq_if_modifyHead]
  rfl

theorem splitOn_cons {c : Char} (hc : c ≠ '\n') (s : Str) :
    (c :: s).splitOn '\n' = (s.splitOn '\n').modifyHead (c :: ·) := by
  unfold List.splitOn
  rw [List.splitOnP_cons_eq_if_modifyHead, if_neg (by simpa using hc)]

/-- The first line and the others. -/
theorem splitOn_eq (s : Str) :
    s.splitOn '\n' = s.takeWhile (· ≠ '\n') :: (s.splitOn '\n').tail := by
  induction s with
  | nil => rfl
  | cons c s ih =>
    by_cases hc : c = '\n'
    · rw [hc, splitOn_cons_newline]
      rfl
    · rw [splitOn_cons hc, ih, List.takeWhile_cons_of_pos (by simpa using hc)]
      rfl

theorem markersFrom_eq_nil_iff (start : Bool) (s : Str) :
    markersFrom 0 start s = [] ↔
      (start = true → isMarker (lstrip (s.takeWhile (· ≠ '\n'))) = false) ∧
        ∀ line ∈ (s.splitOn '\n').tail, isMarker (lstrip line) = false := by
  induction s generalizing start with
  | nil => exact iff_of_true rfl ⟨fun _ => rfl, List.forall_mem_nil _⟩
  | cons c s ih =>
    by_cases hc : c = '\n'
    · have hnot : ¬ isMarker (c :: s) = true := by
        intro h
        have := isMarker_head h
        rw [hc] at this
        exact absurd this (by decide)
      rw [markersFrom, if_neg fun h => hnot h.2, ih, hc, splitOn_cons_newline, List.tail_cons,
        splitOn_eq s, List.forall_mem_cons]
      simp [isMarker, lstrip, startsWith]
    · have htail : ((c :: s).splitOn '\n').tail = (s.splitOn '\n').tail := by
        rw [splitOn_cons hc, splitOn_eq s]
        rfl
      rw [htail, List.takeWhile_cons_of_pos (by simpa using hc)]
      by_cases hspace : isSpace c = true
      · have hnot : ¬ isMarker (c :: s) = true := by
          intro h
          rw [isMarker_head h] at hspace
          cases hspace
        have hlstrip : lstrip (c :: s.takeWhile (· ≠ '\n')) = lstrip (s.takeWhile (· ≠ '\n')) :=
          List.dropWhile_cons_of_pos hspace
        rw [markersFrom, if_neg fun h => hnot h.2, ih, hlstrip]
        simp [hc, hspace]
      · have hlstrip : lstrip (c :: s.takeWhile (· ≠ '\n')) = c :: s.takeWhile (· ≠ '\n') :=
          List.dropWhile_cons_of_neg hspace
        have hline : isMarker (c :: s.takeWhile (· ≠ '\n')) = isMarker (c :: s) := by
          rw [← isMarker_takeWhile (c :: s), List.takeWhile_cons_of_pos (by simpa using hc)]
        rw [hlstrip, hline, markersFrom]
        split_ifs with hm
        · exact iff_of_false not_false fun h => by simpa [hm.2] using h.1 hm.1
        · rw [ih]
          have hfalse : start = true → isMarker (c :: s) = false := by
            intro hstart
            simpa [hstart] using hm
          have hflag : decide (c = '\n' ∨ start = true ∧ isSpace c = true) = false := by
            simp [hc, hspace]
          rw [hflag]
          exact ⟨fun h => ⟨hfalse, h.2⟩, fun h => ⟨fun hf => absurd hf Bool.false_ne_true, h.2⟩⟩

/-- No line starts with a marker exactly if there is none. -/
theorem clean_iff {s : Str} : Clean s ↔ markers s = [] := by
  unfold Clean markers
  rw [markersFrom_eq_nil_iff, splitOn_eq s, List.forall_mem_cons, List.tail_cons]
  simp

/-! ## The reply of a run -/

/-- At most two markers, and none of them at the very end. -/
structure Harmless (raw : Str) : Prop where
  few : (markers (strip raw)).length ≤ 2
  full : ∀ b ∈ markers (strip raw), ¬ IsBlank b

theorem harmless_iff_of_cons {raw : Str} (h : markers (strip raw) = b :: bs) (hb : ¬ IsBlank b) :
    Harmless raw ↔ bs.length ≤ 1 ∧ ∀ b' ∈ bs, ¬ IsBlank b' := by
  constructor
  · intro hraw
    have hfew := hraw.few
    have hfull := hraw.full
    rw [h] at hfew hfull
    exact ⟨Nat.le_of_succ_le_succ hfew, fun b' hb' => hfull b' (List.mem_cons_of_mem b hb')⟩
  · intro hrest
    refine ⟨?_, ?_⟩
    · rw [h]
      exact Nat.succ_le_succ hrest.1
    · rw [h, List.forall_mem_cons]
      exact ⟨hb, hrest.2⟩

theorem clean_final_iff {raw g : Str} (h : parseFinal raw = some g) :
    Clean (sanitizeAgentReply g) ↔ Harmless raw := by
  rcases blank_or_full raw with hall | ⟨b, bs, hms, hb⟩
  · rw [parseFinal_eq_none_iff.2 hall] at h
    cases h
  · rw [parseFinal_of_full hms hb] at h
    obtain rfl : strip b = g := Option.some.inj h
    have hbs : markers (strip (strip b)) = bs := by rw [strip_strip, markers_behind hms]
    rw [harmless_iff_of_cons hms hb, clean_iff]
    -- the second application meets the rest of the markers
    rcases blank_or_full (strip b) with hall | ⟨c, cs, hcs, hc⟩
    · rw [sanitize_of_blank hall, hbs]
      rw [hbs] at hall
      constructor
      · intro hnil
        rw [hnil]
        exact ⟨Nat.zero_le 1, List.forall_mem_nil _⟩
      · intro hrest
        rw [List.eq_nil_iff_forall_not_mem]
        exact fun b' hb' => hrest.2 b' hb' (hall b' hb')
    · rw [sanitize_of_full hcs hc, markers_behind hcs]
      rw [hbs] at hcs
      rw [hcs]
      cases cs with
      | nil => simp [hc]
      | cons d ds => simp

theorem finishReply_sanitize {raw : Str} (h : parseFinal raw = none) :
    finishReply (sanitizeAgentReply (plainReply raw)) = plainReply raw := by
  have hself : sanitizeAgentReply (plainReply raw) = plainReply raw := by
    unfold plainReply
    split_ifs
    · decide
    · rw [parseFinal_eq_none_iff, ← strip_strip raw] at h
      rw [sanitize_of_blank h, strip_strip]
  have hne : plainReply raw ≠ [] := by
    unfold plainReply
    split_ifs with hnil
    · decide
    · exact hnil
  unfold finishReply
  rw [hself, if_neg hne, hself]

theorem clean_plain_iff {raw : Str} (h : parseFinal raw = none) :
    Clean (plainReply raw) ↔ Harmless raw := by
  rw [parseFinal_eq_none_iff] at h
  have hharmless : Harmless raw ↔ markers (strip raw) = [] := by
    constructor
    · intro hraw
      rw [List.eq_nil_iff_forall_not_mem]
      exact fun b hb => hraw.full b hb (h b hb)
    · intro hnil
      refine ⟨?_, ?_⟩
      · rw [hnil]
        exact Nat.zero_le 2
      · rw [hnil]
        exact nofun
  rw [hharmless]
  unfold plainReply
  split_ifs with hnil
  · rw [hnil]
    exact iff_of_true (by decide) rfl
  · exact clean_iff

variable {a : AgentService} {w : AgentWorld} {rounds n : Nat} {p : Progress} {ended : LoopEnd}
  {es : List LlmCall}

/-- The output that ends the loop is harmless, if one does. -/
def HarmlessRun (a : AgentService) (w : AgentWorld) : Prop :=
  ∀ k : Nat, k ≤ a.maxToolSteps → (∀ i < k, IsToolCall w i) → ¬ IsToolCall w k →
    Harmless (output w k)

theorem harmlessRun_iff (h : Ended w (a.maxToolSteps + 1).toNat 0 p n ended es)
    (hn : n < (a.maxToolSteps + 1).toNat) : HarmlessRun a w ↔ Harmless (output w n) := by
  constructor
  · intro hrun
    exact hrun n (by omega) h.asked_zero (h.not_isToolCall_zero hn)
  · intro hout k hk hbefore hnot
    obtain rfl : k = n := h.eq_of_stop (by omega) hbefore hnot
    exact hout

theorem clean_result_iff {sources : List Str}
    (h : Ended w (a.maxToolSteps + 1).toNat 0 p n ended es) :
    Clean (ended.result sources).replyText ↔ HarmlessRun a w := by
  have hstops := h.stops
  rw [result_replyText]
  cases ended with
  | final k reply q =>
    obtain ⟨hn, rfl, g, hg, rfl⟩ := hstops
    rw [Nat.zero_add] at hg
    rw [harmlessRun_iff h hn, LoopEnd.reply]
    exact clean_final_iff hg
  | text reply q =>
    obtain ⟨hn, hnone, -, rfl⟩ := hstops
    rw [Nat.zero_add] at hnone
    rw [harmlessRun_iff h hn, LoopEnd.reply, Nat.zero_add, finishReply_sanitize hnone]
    exact clean_plain_iff hnone
  | exhausted q =>
    obtain rfl : n = (a.maxToolSteps + 1).toNat := hstops
    rw [LoopEnd.reply]
    refine iff_of_true (by decide +kernel) ?_
    intro k hk _ hnot
    exact absurd (h.asked_zero k (by omega)) hnot

/-- Taking the marker away twice is taking it away once exactly if no second marker has
text behind it, and the reply of a run that returns has no line with a marker exactly if
the output that ended the loop is harmless. -/
theorem markers_removed_iff {systemPrompt transcript : Str} {history : List ChatMessage}
    {mem mem' : Memory} {result : AgentResult}
    (h : a.run w systemPrompt transcript history mem = (.ok result, mem', es)) (t : Str) :
    (sanitizeAgentReply (sanitizeAgentReply t) = sanitizeAgentReply t ↔
        (fullMarkers t).length ≤ 1) ∧
      (Clean result.replyText ↔ HarmlessRun a w) := by
  obtain ⟨p, n, ended, sources, hended, -, -, rfl⟩ := run_ended h
  exact ⟨sanitize_idempotent_iff t, clean_result_iff hended⟩

/-- One marker too many for a final answer. -/
def threeMarkers : Nat → Str := fun _ => "FINAL: Final: final: now"

/-- Two markers, one of them on a line of its own. -/
def twoMarkers : Nat → Str := fun _ => "FINAL:\nFINAL: now"

theorem twoMarkers_harmless (k : Nat) : Harmless (output (scripted twoMarkers) k) := by
  have hmarkers : markers (strip (output (scripted twoMarkers) k)) =
      ["\nFINAL: now".toList, " now".toList] := by
    show markers (strip ("FINAL:\nFINAL: now" : Str)) = _
    decide +kernel
  refine ⟨?_, ?_⟩
  · rw [hmarkers]
    decide
  · rw [hmarkers]
    decide +kernel

theorem twoMarkers_clean :
    ∃ result mem es, plainAgent.run (scripted twoMarkers) [] "now?" [] [] = (.ok result, mem, es) ∧
      Clean result.replyText := by
  have hok : (plainAgent.run (scripted twoMarkers) [] "now?" [] []).1.toOption.isSome := by
    decide +kernel
  obtain ⟨result, mem, es, hrun⟩ := run_eq_of_isOk hok
  exact ⟨result, mem, es, hrun,
    (markers_removed_iff hrun []).2.2 fun k _ _ _ => twoMarkers_harmless k⟩

/-- Two markers in a row are taken away one by one, and of three one is left in the reply. -/
theorem threeMarkers_left :
    sanitizeAgentReply "FINAL: FINAL: x" = "FINAL: x".toList ∧
      sanitizeAgentReply (sanitizeAgentReply "FINAL: FINAL: x") = "x".toList ∧
      ∃ result mem es, plainAgent.run (scripted threeMarkers) [] "now?" [] [] =
          (.ok result, mem, es) ∧
        result.replyText = "final: now".toList ∧ ¬ Clean result.replyText := by
  refine ⟨by decide +kernel, by decide +kernel, ?_⟩
  let out := plainAgent.run (scripted threeMarkers) [] "now?" [] []
  have hreply : out.1.toOption.map AgentResult.replyText = some "final: now".toList := by
    decide +kernel
  have hok : out.1.toOption.isSome := by decide +kernel
  obtain ⟨result, mem, es, hrun⟩ := run_eq_of_isOk hok
  rw [show out = (.ok result, mem, es) from hrun] at hreply
  have hleft : result.replyText = "final: now".toList := Option.some.inj hreply
  refine ⟨result, mem, es, hrun, hleft, ?_⟩
  rw [hleft]
  decide +kernel

end AiPipelines.Agent

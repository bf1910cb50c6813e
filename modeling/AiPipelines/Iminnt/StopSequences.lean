import AiPipelines.PyStd.Str
import AiPipelines.PyStd.Raise
import Mathlib.Data.Nat.Find

/-!
# Stop sequences

`RISCVRISCLLM._generate` cuts a response at its stop sequences, one after the other.  Each cut is
made in what the cuts before it have left over, so a cut that falls into a stop sequence hides
it.

A stop sequence that occurs is an interval, from the first occurrence to its end, and a cut is
made if the end is still there.  `cutAll_eq_iff` is about such intervals, and
`applyStops_iff` says of texts when the order does not matter and the earliest stop sequence
is the one that counts.
-/

namespace AiPipelines.Iminnt

open PyStd

/-! ## The loop -/

/-- What `_generate` raises. -/
inductive GenerationError where
  /-- There is no service. -/
  | notInitialized
  /-- The service has raised. -/
  | service (message : Str)
  /-- `split` with an empty separator. -/
  | emptySeparator
  deriving DecidableEq

/-- `s.split(sub)[0]`: what stands in front of the first occurrence. -/
def splitHead (sub : Str) : Str → Str
  | [] => []
  | c :: s => if startsWith sub (c :: s) then [] else c :: splitHead sub s

/-- A round of the loop. -/
def applyStop (response stopSeq : Str) : Except GenerationError Str :=
  if contains stopSeq response then
    if stopSeq = [] then .error .emptySeparator else .ok (splitHead stopSeq response)
  else .ok response

/-- The loop over the stop sequences. -/
def applyStops (stop : List Str) (response : Str) : Except GenerationError Str :=
  stop.foldlM applyStop response

/-- A round of the loop over the prompts.  An empty list of stop sequences does nothing. -/
def generateText (respond : Str → Except GenerationError Str) (stop : Option (List Str))
    (prompt : Str) :
    Except GenerationError Str := do
  let response ← respond prompt
  applyStops (stop.getD []) response

/-- `RISCVRISCLLM._generate`.  The service gives a response to a prompt. -/
def generateTexts (service : Option (Str → Except GenerationError Str)) (prompts : List Str)
    (stop : Option (List Str)) : Except GenerationError (List Str) :=
  match service with
  | none => .error .notInitialized
  | some respond => prompts.mapM (generateText respond stop)

/-- The responses are cut one by one. -/
theorem generateTexts_eq {respond : Str → Except GenerationError Str} {prompts responses : List Str}
    (stop : Option (List Str)) (h : prompts.mapM respond = .ok responses) :
    generateTexts (some respond) prompts stop = responses.mapM (applyStops (stop.getD [])) := by
  induction prompts generalizing responses with
  | nil =>
    cases h
    rfl
  | cons prompt prompts ih =>
    rw [List.mapM_cons] at h
    obtain ⟨response, hresponse, h⟩ := bind_eq_ok_iff.1 h
    obtain ⟨rest, hrest, h⟩ := bind_eq_ok_iff.1 h
    cases h
    have hrec : prompts.mapM (generateText respond stop) = rest.mapM (applyStops (stop.getD [])) :=
      ih hrest
    have htext : generateText respond stop prompt = applyStops (stop.getD []) response := by
      unfold generateText
      rw [hresponse]
      rfl
    show (prompt :: prompts).mapM (generateText respond stop) = _
    rw [List.mapM_cons, List.mapM_cons, htext, hrec]

/-! ## Intervals -/

/-- The text is cut at the start of an interval that is still there. -/
def cut (length : Nat) (c : Nat × Nat) : Nat := if c.2 ≤ length then c.1 else length

def cutAll (cs : List (Nat × Nat)) (length : Nat) : Nat := cs.foldl cut length

variable {cs : List (Nat × Nat)} {c s : Nat × Nat} {length q : Nat}

/-- The intervals begin at a position or behind it. -/
def From (q : Nat) (cs : List (Nat × Nat)) : Prop := ∀ c ∈ cs, q ≤ c.1 ∧ c.1 < c.2

theorem cut_le (h : c.1 < c.2) : cut length c ≤ length := by
  unfold cut
  split_ifs <;> omega

theorem cutAll_le (h : ∀ c ∈ cs, c.1 < c.2) : cutAll cs length ≤ length := by
  induction cs generalizing length with
  | nil => exact Nat.le_refl length
  | cons c cs ih =>
    rw [List.forall_mem_cons] at h
    exact Nat.le_trans (ih h.2) (cut_le h.1)

/-- At its start, no interval is left. -/
theorem cutAll_start (h : From q cs) : cutAll cs q = q := by
  induction cs with
  | nil => rfl
  | cons c cs ih =>
    obtain ⟨hc, hcs⟩ := List.forall_mem_cons.1 h
    have hcut : cut q c = q := by
      unfold cut
      rw [if_neg (by omega)]
    show cutAll cs (cut q c) = q
    rw [hcut]
    exact ih hcs

/-- An interval at the start that no other one cuts is found. -/
theorem cutAll_found (h : From q cs) (hs : s ∈ cs) (hstart : s.1 = q)
    (hfree : ∀ c ∈ cs, c.1 = q ∨ s.2 ≤ c.1) (hlength : length = q ∨ s.2 ≤ length) :
    cutAll cs length = q := by
  induction cs generalizing length with
  | nil => exact absurd hs List.not_mem_nil
  | cons c cs ih =>
    obtain ⟨hc, hcs⟩ := List.forall_mem_cons.1 h
    obtain ⟨hcfree, hcsfree⟩ := List.forall_mem_cons.1 hfree
    show cutAll cs (cut length c) = q
    rcases List.mem_cons.1 hs with rfl | hs
    · have hcut : cut length s = q := by
        unfold cut
        split_ifs <;> omega
      rw [hcut]
      exact cutAll_start hcs
    · apply ih hcs hs hcsfree
      unfold cut
      split_ifs <;> omega

/-- A cut inside of every interval at the start hides the start. -/
theorem cutAll_hidden (h : From q cs) (hlt : q < length)
    (hhidden : ∀ c ∈ cs, c.1 = q → length < c.2) :
    cutAll cs length ≠ q := by
  induction cs generalizing length with
  | nil => exact Nat.ne_of_gt hlt
  | cons c cs ih =>
    obtain ⟨hc, hcs⟩ := List.forall_mem_cons.1 h
    obtain ⟨hchidden, hcshidden⟩ := List.forall_mem_cons.1 hhidden
    show cutAll cs (cut length c) ≠ q
    apply ih hcs
    · unfold cut
      split_ifs with hle
      · have hne : c.1 ≠ q := fun heq => Nat.not_lt.2 hle (hchidden heq)
        omega
      · exact hlt
    · intro d hd hdq
      have hle : cut length c ≤ length := cut_le hc.2
      have hdlt := hcshidden d hd hdq
      omega

/-! ## First occurrences -/

variable {sub response : Str} {stop : List Str}

theorem splitHead_cons (sub : Str) (c : Char) (s : Str) : splitHead sub (c :: s) =
    if startsWith sub (c :: s) then [] else c :: splitHead sub s := rfl

theorem contains_cons (sub : Str) (c : Char) (s : Str) :
    contains sub (c :: s) = (startsWith sub (c :: s) || contains sub s) := by
  unfold contains
  rw [List.tails_cons, List.any_cons]

/-- What stands behind the part in front of the first occurrence. -/
theorem startsWith_drop_splitHead (h : contains sub response = true) :
    startsWith sub (response.drop (splitHead sub response).length) = true := by
  induction response with
  | nil => simpa [contains] using h
  | cons c s ih =>
    rw [splitHead_cons]
    by_cases hstart : startsWith sub (c :: s) = true
    · rw [if_pos hstart]
      exact hstart
    · rw [if_neg hstart]
      rw [contains_cons, Bool.or_eq_true] at h
      exact ih (h.resolve_left hstart)

theorem splitHead_isPrefix (sub response : Str) : splitHead sub response <+: response := by
  induction response with
  | nil => exact List.prefix_refl []
  | cons c s ih =>
    rw [splitHead_cons]
    split_ifs
    · exact List.nil_prefix
    · exact List.cons_prefix_cons.2 ⟨rfl, ih⟩

theorem splitHead_eq_take (sub response : Str) :
    splitHead sub response = response.take (splitHead sub response).length :=
  List.prefix_iff_eq_take.1 (splitHead_isPrefix sub response)

/-- No occurrence begins earlier. -/
theorem length_splitHead_le {n : Nat} (h : startsWith sub (response.drop n) = true) :
    (splitHead sub response).length ≤ n := by
  induction response generalizing n with
  | nil => exact Nat.zero_le n
  | cons c s ih =>
    rw [splitHead_cons]
    split_ifs with hstart
    · exact Nat.zero_le n
    · cases n with
      | zero => exact absurd h hstart
      | succ n => exact Nat.succ_le_succ (ih h)

theorem startsWith_drop_take {n m : Nat} : startsWith sub ((response.take m).drop n) = true ↔
    startsWith sub (response.drop n) = true ∧ (sub = [] ∨ n + sub.length ≤ m) := by
  rw [startsWith_iff, startsWith_iff, List.drop_take, List.prefix_take_iff]
  have hlen : sub.length ≤ m - n ↔ sub = [] ∨ n + sub.length ≤ m := by
    rw [← List.length_eq_zero_iff]
    omega
  rw [hlen]

/-- The first occurrence, from its start to its end. -/
def span (response sub : Str) : Nat × Nat :=
  ((splitHead sub response).length, (splitHead sub response).length + sub.length)

theorem contains_of_drop {n : Nat} (h : startsWith sub (response.drop n) = true) :
    contains sub response = true :=
  contains_iff.2 ((startsWith_iff.1 h).isInfix.trans (List.drop_suffix n response).isInfix)

/-- The first occurrence is in the front part of a text if its end is. -/
theorem contains_take (hsub : sub ≠ []) {m : Nat} : contains sub (response.take m) = true ↔
    contains sub response = true ∧ (span response sub).2 ≤ m := by
  constructor
  · intro h
    obtain ⟨hdrop, hm⟩ := startsWith_drop_take.1 (startsWith_drop_splitHead h)
    have hle := length_splitHead_le hdrop
    refine ⟨contains_of_drop hdrop, ?_⟩
    have hend := hm.resolve_left hsub
    unfold span
    omega
  · rintro ⟨h, hm⟩
    exact contains_of_drop (startsWith_drop_take.2 ⟨startsWith_drop_splitHead h, .inr hm⟩)

theorem splitHead_take (hsub : sub ≠ []) {m : Nat} (h : contains sub (response.take m) = true) :
    splitHead sub (response.take m) = response.take (span response sub).1 := by
  obtain ⟨hdrop, hm⟩ := startsWith_drop_take.1 (startsWith_drop_splitHead h)
  obtain ⟨hcontains, hend⟩ := (contains_take hsub).1 h
  have hle : (splitHead sub response).length ≤ (splitHead sub (response.take m)).length :=
    length_splitHead_le hdrop
  have hge : (splitHead sub (response.take m)).length ≤ (splitHead sub response).length :=
    length_splitHead_le (startsWith_drop_take.2 ⟨startsWith_drop_splitHead hcontains, .inr hend⟩)
  have heq : (splitHead sub (response.take m)).length = (span response sub).1 :=
    Nat.le_antisymm hge hle
  have hlem : (span response sub).1 ≤ m := Nat.le_trans (Nat.le_add_right _ sub.length) hend
  rw [splitHead_eq_take, heq, List.take_take, Nat.min_eq_left hlem]

/-- The first occurrences of the stop sequences that occur. -/
def spans (stop : List Str) (response : Str) : List (Nat × Nat) :=
  (stop.filter fun sub => contains sub response).map (span response)

theorem spans_cons (sub : Str) (stop : List Str) (response : Str) : spans (sub :: stop) response =
    if contains sub response then span response sub :: spans stop response
      else spans stop response := by
  unfold spans
  split_ifs with h <;> simp [h]

theorem applyStop_take (hsub : sub ≠ []) (m : Nat) : applyStop (response.take m) sub =
    .ok (response.take (if contains sub response then cut m (span response sub) else m)) := by
  unfold applyStop
  by_cases h : contains sub (response.take m) = true
  · obtain ⟨hcontains, hend⟩ := (contains_take hsub).1 h
    rw [if_pos h, if_neg hsub, if_pos hcontains, splitHead_take hsub h, cut, if_pos hend]
  · rw [if_neg h]
    split_ifs with hcontains
    · have hend : ¬ (span response sub).2 ≤ m :=
        fun hle => h ((contains_take hsub).2 ⟨hcontains, hle⟩)
      rw [cut, if_neg hend]
    · rfl

/-- The loop cuts the intervals. -/
theorem applyStops_take (hstop : ∀ sub ∈ stop, sub ≠ []) (m : Nat) :
    applyStops stop (response.take m) = .ok (response.take (cutAll (spans stop response) m)) := by
  induction stop generalizing m with
  | nil => rfl
  | cons sub stop ih =>
    obtain ⟨hsub, hstop⟩ := List.forall_mem_cons.1 hstop
    have hstep : applyStops (sub :: stop) (response.take m) =
        applyStop (response.take m) sub >>= applyStops stop := rfl
    rw [hstep, applyStop_take hsub]
    show applyStops stop (response.take _) = _
    rw [ih hstop, spans_cons]
    split_ifs <;> rfl

/-! ## The earliest stop sequence -/

/-- The text in front of the earliest position at which one of the texts occurs. -/
def beforeAny (stop : List Str) : Str → Str
  | [] => []
  | c :: s => if stop.any fun sub => startsWith sub (c :: s) then [] else c :: beforeAny stop s

theorem beforeAny_isPrefix (stop : List Str) (response : Str) :
    beforeAny stop response <+: response := by
  induction response with
  | nil => exact List.prefix_refl []
  | cons c s ih =>
    unfold beforeAny
    split_ifs
    · exact List.nil_prefix
    · exact List.cons_prefix_cons.2 ⟨rfl, ih⟩

theorem length_beforeAny_le (hsub : sub ∈ stop) :
    (beforeAny stop response).length ≤ (splitHead sub response).length := by
  induction response with
  | nil => exact Nat.zero_le _
  | cons c s ih =>
    unfold beforeAny
    rw [splitHead_cons]
    split_ifs with hany hstart
    · exact Nat.zero_le _
    · exact Nat.zero_le _
    · exact absurd (List.any_eq_true.2 ⟨sub, hsub, by assumption⟩) hany
    · exact Nat.succ_le_succ ih

/-- A stop sequence begins there, if one occurs. -/
theorem exists_at_beforeAny (hsub : sub ∈ stop) (h : contains sub response = true) :
    ∃ first ∈ stop, startsWith first (response.drop (beforeAny stop response).length) = true := by
  induction response with
  | nil => exact ⟨sub, hsub, by simpa [contains] using h⟩
  | cons c s ih =>
    by_cases hany : (stop.any fun sub => startsWith sub (c :: s)) = true
    · obtain ⟨first, hfirst, hstart⟩ := List.any_eq_true.1 hany
      refine ⟨first, hfirst, ?_⟩
      unfold beforeAny
      rw [if_pos hany]
      exact hstart
    · rw [contains_cons, Bool.or_eq_true] at h
      have hnot : ¬ startsWith sub (c :: s) = true := fun hstart =>
        hany (List.any_eq_true.2 ⟨sub, hsub, hstart⟩)
      obtain ⟨first, hfirst, hstart⟩ := ih (h.resolve_left hnot)
      refine ⟨first, hfirst, ?_⟩
      unfold beforeAny
      rw [if_neg hany]
      exact hstart

theorem mem_spans : c ∈ spans stop response ↔
    ∃ sub ∈ stop, contains sub response = true ∧ span response sub = c := by
  unfold spans
  simp only [List.mem_map, List.mem_filter, and_assoc]

theorem from_spans (hstop : ∀ sub ∈ stop, sub ≠ []) :
    From (beforeAny stop response).length (spans stop response) := by
  intro c hc
  obtain ⟨sub, hsub, -, rfl⟩ := mem_spans.1 hc
  have hpos := List.length_pos_iff.2 (hstop sub hsub)
  refine ⟨length_beforeAny_le hsub, ?_⟩
  unfold span
  omega

/-- No first occurrence begins within the earliest stop sequence, or within one of them, if several
begin there. -/
def Undisturbed (stop : List Str) (response : Str) : Prop :=
  (∀ sub ∈ stop, contains sub response = false) ∨
    ∃ first ∈ stop, startsWith first (response.drop (beforeAny stop response).length) = true ∧
      ∀ sub ∈ stop, contains sub response = true →
        (splitHead sub response).length = (beforeAny stop response).length ∨
          (beforeAny stop response).length + first.length ≤ (splitHead sub response).length

/-- The text is kept up to the earliest stop sequence, whatever the order is. -/
def CutsEarliest (stop : List Str) (response : Str) : Prop :=
  applyStops stop response = .ok (beforeAny stop response) ∧
    ∀ stop', stop'.Perm stop → applyStops stop' response = applyStops stop response

theorem applyStops_eq (hstop : ∀ sub ∈ stop, sub ≠ []) : applyStops stop response =
    .ok (response.take (cutAll (spans stop response) response.length)) := by
  have htake : applyStops stop (response.take response.length) =
      .ok (response.take (cutAll (spans stop response) response.length)) :=
    applyStops_take hstop response.length
  rw [List.take_length] at htake
  exact htake

theorem spans_lt (hstop : ∀ sub ∈ stop, sub ≠ []) : ∀ c ∈ spans stop response, c.1 < c.2 :=
  fun c hc => (from_spans hstop c hc).2

/-- What is kept is told by its length. -/
theorem applyStops_eq_beforeAny_iff (hstop : ∀ sub ∈ stop, sub ≠ []) {stop' : List Str} :
    applyStops stop response = .ok (beforeAny stop' response) ↔
      cutAll (spans stop response) response.length = (beforeAny stop' response).length := by
  rw [applyStops_eq hstop]
  have hle : cutAll (spans stop response) response.length ≤ response.length :=
    cutAll_le (spans_lt hstop)
  constructor
  · intro h
    rw [← Except.ok.inj h, List.length_take, Nat.min_eq_left hle]
  · intro h
    rw [h, ← List.prefix_iff_eq_take.1 (beforeAny_isPrefix stop' response)]

theorem beforeAny_none (h : ∀ sub ∈ stop, contains sub response = false) :
    beforeAny stop response = response := by
  induction response with
  | nil => rfl
  | cons c s ih =>
    have hno : ¬ (stop.any fun sub => startsWith sub (c :: s)) = true := by
      intro hany
      obtain ⟨sub, hsub, hstart⟩ := List.any_eq_true.1 hany
      have hnot := h sub hsub
      rw [contains_cons, hstart, Bool.true_or] at hnot
      cases hnot
    have hrest : ∀ sub ∈ stop, contains sub s = false := by
      intro sub hsub
      have hnot := h sub hsub
      rw [contains_cons, Bool.or_eq_false_iff] at hnot
      exact hnot.2
    unfold beforeAny
    rw [if_neg hno, ih hrest]

/-- The start of the first occurrence, for a text that begins at the earliest position. -/
theorem length_splitHead_of_first (hsub : sub ∈ stop)
    (h : startsWith sub (response.drop (beforeAny stop response).length) = true) :
    (splitHead sub response).length = (beforeAny stop response).length :=
  Nat.le_antisymm (length_splitHead_le h) (length_beforeAny_le hsub)

theorem applyStops_undisturbed (hstop : ∀ sub ∈ stop, sub ≠ []) (h : Undisturbed stop response) :
    applyStops stop response = .ok (beforeAny stop response) := by
  rw [applyStops_eq_beforeAny_iff hstop]
  rcases h with hnone | ⟨first, hfirst, hstart, hfree⟩
  · have hnil : spans stop response = [] := by
      unfold spans
      rw [List.filter_eq_nil_iff.2 fun sub hsub => by simp [hnone sub hsub]]
      rfl
    rw [hnil, beforeAny_none hnone]
    rfl
  · have hcontains := contains_of_drop hstart
    have hq := length_splitHead_of_first hfirst hstart
    have hmem : span response first ∈ spans stop response :=
      mem_spans.2 ⟨first, hfirst, hcontains, rfl⟩
    refine cutAll_found (from_spans hstop) hmem hq ?_ ?_
    · intro c hc
      obtain ⟨sub, hsub, hoccurs, rfl⟩ := mem_spans.1 hc
      have hsubfree := hfree sub hsub hoccurs
      unfold span
      rw [hq]
      exact hsubfree
    · right
      have hprefix := (startsWith_iff.1 (startsWith_drop_splitHead hcontains)).length_le
      rw [List.length_drop] at hprefix
      have hlen := (splitHead_isPrefix first response).length_le
      unfold span
      show (splitHead first response).length + first.length ≤ response.length
      omega

theorem beforeAny_perm {stop' : List Str} (h : stop'.Perm stop) (response : Str) :
    beforeAny stop' response = beforeAny stop response := by
  induction response with
  | nil => rfl
  | cons c s ih =>
    unfold beforeAny
    rw [ih, h.any_eq]

theorem undisturbed_perm {stop' : List Str} (h : stop'.Perm stop)
    (hun : Undisturbed stop response) :
    Undisturbed stop' response := by
  unfold Undisturbed
  rw [beforeAny_perm h]
  rcases hun with hnone | ⟨first, hfirst, hstart, hfree⟩
  · exact .inl fun sub hsub => hnone sub (h.mem_iff.1 hsub)
  · exact .inr ⟨first, h.mem_iff.2 hfirst, hstart, fun sub hsub => hfree sub (h.mem_iff.1 hsub)⟩

/-- Where the text is disturbed, one stop sequence cuts into all that begin at the
earliest position. -/
theorem exists_disturbing (h : ¬ Undisturbed stop response) :
    ∃ sub ∈ stop, contains sub response = true ∧
      (beforeAny stop response).length < (splitHead sub response).length ∧
      ∀ first ∈ stop, startsWith first (response.drop (beforeAny stop response).length) = true →
        (splitHead sub response).length < (beforeAny stop response).length + first.length := by
  unfold Undisturbed at h
  rw [not_or] at h
  obtain ⟨hsome, hnone⟩ := h
  have hfirst : ∃ n, ∃ first ∈ stop,
      startsWith first (response.drop (beforeAny stop response).length) = true ∧
      first.length = n := by
    by_contra hno
    apply hsome
    intro sub hsub
    apply Bool.eq_false_iff.2
    intro hcontains
    obtain ⟨first, hfirst, hstart⟩ := exists_at_beforeAny hsub hcontains
    exact hno ⟨_, first, hfirst, hstart, rfl⟩
  classical
  -- the shortest one
  obtain ⟨shortest, hshortest, hstart, hlength⟩ := Nat.find_spec hfirst
  have hmin : ∀ first ∈ stop, startsWith first (response.drop (beforeAny stop response).length) =
      true →
      shortest.length ≤ first.length := by
    intro first hmem hbegins
    rw [hlength]
    exact Nat.find_min' hfirst ⟨first, hmem, hbegins, rfl⟩
  by_contra hno
  apply hnone
  refine ⟨shortest, hshortest, hstart, ?_⟩
  intro sub hsub hcontains
  by_contra hinside
  rw [not_or] at hinside
  have hle : (beforeAny stop response).length ≤ (splitHead sub response).length :=
    length_beforeAny_le hsub
  refine hno ⟨sub, hsub, hcontains, by omega, ?_⟩
  intro first hmem hbegins
  have hshort := hmin first hmem hbegins
  omega

/-- The text is kept up to the earliest stop sequence in every order, or it is not in some order. -/
theorem cutsEarliest_iff (hstop : ∀ sub ∈ stop, sub ≠ []) :
    CutsEarliest stop response ↔ Undisturbed stop response := by
  constructor
  · rintro ⟨hearliest, horder⟩
    by_contra hdisturbed
    obtain ⟨sub, hsub, hcontains, hlt, hhidden⟩ := exists_disturbing hdisturbed
    -- the disturbing stop sequence comes first
    have hperm : (sub :: stop.erase sub).Perm stop := (List.perm_cons_erase hsub).symm
    have hstop' : ∀ t ∈ sub :: stop.erase sub, t ≠ [] := fun t ht => hstop t (hperm.mem_iff.1 ht)
    have hkept := horder _ hperm
    rw [hearliest, applyStops_eq_beforeAny_iff hstop', spans_cons, if_pos hcontains] at hkept
    have hend : (span response sub).2 ≤ response.length := by
      have hprefix := (startsWith_iff.1 (startsWith_drop_splitHead hcontains)).length_le
      have hlen := (splitHead_isPrefix sub response).length_le
      rw [List.length_drop] at hprefix
      unfold span
      show (splitHead sub response).length + sub.length ≤ response.length
      omega
    have hcut : cut response.length (span response sub) = (splitHead sub response).length := by
      unfold cut
      rw [if_pos hend]
      rfl
    have hrest : From (beforeAny stop response).length (spans (stop.erase sub) response) := by
      intro c hc
      obtain ⟨t, ht, hoccurs, rfl⟩ := mem_spans.1 hc
      exact from_spans hstop _ (mem_spans.2 ⟨t, List.mem_of_mem_erase ht, hoccurs, rfl⟩)
    have hne : cutAll (spans (stop.erase sub) response) (splitHead sub response).length ≠
        (beforeAny stop response).length := by
      apply cutAll_hidden hrest hlt
      intro c hc hq
      obtain ⟨t, ht, hoccurs, rfl⟩ := mem_spans.1 hc
      have hbegins := startsWith_drop_splitHead hoccurs
      have hq' : (splitHead t response).length = (beforeAny stop response).length := hq
      rw [hq'] at hbegins
      have hinside := hhidden t (List.mem_of_mem_erase ht) hbegins
      unfold span
      show (splitHead sub response).length < (splitHead t response).length + t.length
      omega
    apply hne
    rw [← hcut]
    exact hkept
  · intro h
    refine ⟨applyStops_undisturbed hstop h, ?_⟩
    intro stop' hperm
    have hstop' : ∀ t ∈ stop', t ≠ [] := fun t ht => hstop t (hperm.mem_iff.1 ht)
    rw [applyStops_undisturbed hstop' (undisturbed_perm hperm h), applyStops_undisturbed hstop h,
      beforeAny_perm hperm]

/-- Two stop sequences that do not overlap. -/
theorem cutsEarliest_lines : CutsEarliest ["User:".toList, "\n".toList] "Hi there.\nUser: bye" :=
  (cutsEarliest_iff (by decide)).2 (.inr ⟨"\n".toList, by decide, by decide, by decide⟩)

/-- Two that overlap: the cut at the second one hides the first. -/
theorem overlap_hidden : applyStops ["c".toList, "bc".toList] "abc" = .ok "ab".toList ∧
    ¬ CutsEarliest ["c".toList, "bc".toList] "abc" :=
  ⟨by decide, fun h => absurd h.1 (by decide)⟩

end AiPipelines.Iminnt

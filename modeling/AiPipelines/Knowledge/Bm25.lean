import AiPipelines.Knowledge.Tokens
import AiPipelines.PyStd.SortDesc
import Mathlib.Analysis.SpecialFunctions.Log.Basic

/-!
# Keyword search

`KnowledgeBase.search` of `server/app/agent/rag.py`.  The tokens of the query and of each
chunk are counted, `bm25Score` compares the counts, and the chunks with a positive score are
sorted by it.  The scores are numbers of any ordered field, and `log` stands for `math.log`.

Over the reals, with `Real.log`, the score is a sum over the terms of the query, and `weight`
is what a term adds.  The factor that the source calls `idf` is computed from the frequency
of the term in the chunk and falls with it.  The rest of a weight grows with the frequency,
and more so in a long chunk.  `minLength` is the number of tokens from which on the second
effect is the stronger one, and `more_is_better_iff` says that this decides.

`weight_le_iff` is the fact about two weights and `weightSum_sub` the one about two sums.
-/

namespace AiPipelines.Knowledge

open PyStd

/-! ## Scores -/

section Scores

variable {K : Type} [Field K] [LinearOrder K] (log : K → K)

/-- The loop over the terms of the query, which are given with their frequency. -/
def addTerm (docTf : Dict Str Nat) (docLen : Nat) (k1 b avgDl : K) (score : K)
    (term : Str × Nat) : K :=
  let tf := (docTf.get? term.1).getD 0
  if tf = 0 then score
  else
    let idf := log (1 + 1 / ((tf : K) + 1 / 2))
    let denom := (tf : K) + k1 * (1 - b + b * docLen / avgDl)
    score + idf * (tf * (k1 + 1)) / denom * term.2

/-- `_bm25_score`. -/
def bm25Score (qTf docTf : Dict Str Nat) (docLen : Nat) (k1 : K := 3 / 2) (b : K := 3 / 4)
    (avgDl : K := 200) : K :=
  qTf.foldl (addTerm log docTf docLen k1 b avgDl) 0

/-- The score of a chunk. -/
def chunkScore (u : Unicode) (qTf : Dict Str Nat) (chunk : DocumentChunk) : K :=
  bm25Score log qTf (termFreq (tokenize u chunk.text)) (tokenize u chunk.text).length

/-- What the loop over the chunks appends for a chunk. -/
def scoredChunk (u : Unicode) (qTf : Dict Str Nat) (chunk : DocumentChunk) :
    Option (RetrievedChunk K) :=
  let score := chunkScore log u qTf chunk
  if 0 < score then some ⟨chunk, score⟩ else none

/-- `KnowledgeBase.search`, for the chunks that are loaded. -/
def search (u : Unicode) (chunks : List DocumentChunk) (query : Str) (topK : Int := 3) :
    List (RetrievedChunk K) :=
  if chunks = [] ∨ strip query = [] then []
  else
    let qTf := termFreq (tokenize u query)
    if qTf = [] then []
    else upTo topK (sortDesc RetrievedChunk.score (chunks.filterMap (scoredChunk log u qTf)))

end Scores

/-! ## The factor from the logarithm -/

/-- `math.log(1.0 + (1.0 / (tf + 0.5)))`. -/
noncomputable def idf (tf : Nat) : ℝ := Real.log (1 + 1 / ((tf : ℝ) + 1 / 2))

variable {a b : Nat}

theorem idf_pos (a : Nat) : 0 < idf a := by
  unfold idf
  apply Real.log_pos
  have : (0 : ℝ) < 1 / ((a : ℝ) + 1 / 2) := by positivity
  linarith

/-- `log x` is at least `1 - 1 / x`. -/
theorem le_idf (a : Nat) : 1 / ((a : ℝ) + 3 / 2) ≤ idf a := by
  unfold idf
  have hpos : (0 : ℝ) < 1 + 1 / ((a : ℝ) + 1 / 2) := by positivity
  calc 1 / ((a : ℝ) + 3 / 2) = 1 - (1 + 1 / ((a : ℝ) + 1 / 2))⁻¹ := by
        field_simp
        ring
    _ ≤ _ := Real.one_sub_inv_le_log_of_pos hpos

/-- `log x` is at most `x - 1`, for the quotient of the two arguments. -/
theorem idf_sub_le (a b : Nat) :
    idf a - idf b ≤ ((b : ℝ) - a) / (((a : ℝ) + 1 / 2) * ((b : ℝ) + 3 / 2)) := by
  unfold idf
  have ha : (0 : ℝ) < 1 + 1 / ((a : ℝ) + 1 / 2) := by positivity
  have hb : (0 : ℝ) < 1 + 1 / ((b : ℝ) + 1 / 2) := by positivity
  rw [← Real.log_div ha.ne' hb.ne']
  calc Real.log ((1 + 1 / ((a : ℝ) + 1 / 2)) / (1 + 1 / ((b : ℝ) + 1 / 2)))
      ≤ (1 + 1 / ((a : ℝ) + 1 / 2)) / (1 + 1 / ((b : ℝ) + 1 / 2)) - 1 :=
        Real.log_le_sub_one_of_pos (div_pos ha hb)
    _ = ((b : ℝ) - a) / (((a : ℝ) + 1 / 2) * ((b : ℝ) + 3 / 2)) := by
        field_simp
        ring

/-- A frequency times its factor grows with the frequency. -/
theorem mul_idf_lt (h : a < b) : (a : ℝ) * idf a < b * idf b := by
  have hab : (0 : ℝ) < (b : ℝ) - a := sub_pos.2 (Nat.cast_lt.2 h)
  have hfall : (a : ℝ) * (idf a - idf b) ≤
      a * (((b : ℝ) - a) / (((a : ℝ) + 1 / 2) * ((b : ℝ) + 3 / 2))) :=
    mul_le_mul_of_nonneg_left (idf_sub_le a b) (Nat.cast_nonneg a)
  have hlast : ((b : ℝ) - a) * (1 / ((b : ℝ) + 3 / 2)) ≤ ((b : ℝ) - a) * idf b :=
    mul_le_mul_of_nonneg_left (le_idf b) hab.le
  have hless : (a : ℝ) * (((b : ℝ) - a) / (((a : ℝ) + 1 / 2) * ((b : ℝ) + 3 / 2))) <
      ((b : ℝ) - a) * (1 / ((b : ℝ) + 3 / 2)) := by
    have hratio : (a : ℝ) / ((a : ℝ) + 1 / 2) < 1 := by
      rw [div_lt_one (by positivity)]
      linarith
    calc (a : ℝ) * (((b : ℝ) - a) / (((a : ℝ) + 1 / 2) * ((b : ℝ) + 3 / 2)))
        = ((b : ℝ) - a) * (1 / ((b : ℝ) + 3 / 2)) * (a / ((a : ℝ) + 1 / 2)) := by field_simp
      _ < ((b : ℝ) - a) * (1 / ((b : ℝ) + 3 / 2)) := mul_lt_of_lt_one_right (by positivity) hratio
  linarith

/-! ## The weight of a term -/

/-- `k1 * (1.0 - b + b * doc_len / avg_dl)` with the default values. -/
noncomputable def lengthNorm (docLen : Nat) : ℝ := 3 / 2 * (1 - 3 / 4 + 3 / 4 * docLen / 200)

theorem lengthNorm_pos (docLen : Nat) : 0 < lengthNorm docLen := by
  unfold lengthNorm
  have : (0 : ℝ) ≤ 3 / 4 * docLen / 200 := by positivity
  linarith

/-- What a term that is once in the query adds. -/
noncomputable def weight (docLen tf : Nat) : ℝ :=
  idf tf * (tf * (3 / 2 + 1)) / (tf + lengthNorm docLen)

/-- The length from which on a chunk with `b` occurrences is not worse than one with `a`. -/
noncomputable def minLength (a b : Nat) : ℝ :=
  (a * b * (idf a - idf b) / (b * idf b - a * idf a) - 3 / 8) * (1600 / 9)

theorem weight_le_iff {docLen : Nat} (h : a < b) (ha : a ≠ 0) :
    weight docLen a ≤ weight docLen b ↔ minLength a b ≤ docLen := by
  have hgrow : (0 : ℝ) < b * idf b - a * idf a := sub_pos.2 (mul_idf_lt h)
  have hnorm := lengthNorm_pos docLen
  have hnorm_eq : lengthNorm docLen = 3 / 8 + docLen * (9 / 1600) := by
    unfold lengthNorm
    ring
  calc weight docLen a ≤ weight docLen b
      ↔ idf a * (a * (3 / 2 + 1)) * (b + lengthNorm docLen) ≤
          idf b * (b * (3 / 2 + 1)) * (a + lengthNorm docLen) := by
        unfold weight
        rw [div_le_div_iff₀ (by positivity) (by positivity)]
    _ ↔ a * b * (idf a - idf b) ≤ lengthNorm docLen * (b * idf b - a * idf a) := by
        constructor <;> intro hle <;> nlinarith [hle]
    _ ↔ a * b * (idf a - idf b) / (b * idf b - a * idf a) ≤ lengthNorm docLen :=
        (div_le_iff₀ hgrow).symm
    _ ↔ minLength a b ≤ docLen := by
        unfold minLength
        rw [hnorm_eq]
        constructor <;> intro hle <;> linarith

/-- A second occurrence needs more than two tokens. -/
theorem two_lt_minLength : ((2 : Nat) : ℝ) < minLength 1 2 := by
  have hone : idf 1 = Real.log (5 / 3) := by
    unfold idf
    norm_num
  have htwo : idf 2 = Real.log (7 / 5) := by
    unfold idf
    norm_num
  have hlog : 6 * Real.log (7 / 5) < 5 * Real.log (5 / 3) := by
    have hpow : Real.log ((7 / 5) ^ 6) < Real.log ((5 / 3) ^ 5) :=
      Real.log_lt_log (by norm_num) (by norm_num)
    rw [Real.log_pow, Real.log_pow] at hpow
    exact_mod_cast hpow
  have hgrow := mul_idf_lt (a := 1) (b := 2) (by decide)
  have hpos := idf_pos 2
  rw [← hone, ← htwo] at hlog
  unfold minLength
  have hquot : 3 / 8 + 2 * (9 / 1600) <
      ((1 : Nat) : ℝ) * (2 : Nat) * (idf 1 - idf 2) / ((2 : Nat) * idf 2 - (1 : Nat) * idf 1) := by
    rw [lt_div_iff₀ (sub_pos.2 hgrow)]
    push_cast at hgrow ⊢
    linarith
  push_cast at hquot ⊢
  linarith

theorem weight_zero (docLen : Nat) : weight docLen 0 = 0 := by
  unfold weight
  simp

/-- A chunk without the term is never better. -/
theorem weight_zero_le (docLen b : Nat) : weight docLen 0 ≤ weight docLen b := by
  rw [weight_zero]
  unfold weight
  have := lengthNorm_pos docLen
  have := idf_pos b
  positivity

/-! ## The score -/

theorem addTerm_eq (docTf : Dict Str Nat) (docLen : Nat) (score : ℝ) (term : Str × Nat) :
    addTerm Real.log docTf docLen (3 / 2) (3 / 4) 200 score term =
      score + weight docLen (docTf.at0 term.1) * term.2 := by
  unfold addTerm Dict.at0
  dsimp only
  split_ifs with htf
  · rw [htf, weight_zero, zero_mul, add_zero]
  · rfl

/-- The sum over the terms of the query. -/
noncomputable def weightSum (docTf : Dict Str Nat) (docLen : Nat) : Dict Str Nat → ℝ
  | [] => 0
  | term :: qTf => weight docLen (docTf.at0 term.1) * term.2 + weightSum docTf docLen qTf

theorem bm25Score_eq (qTf docTf : Dict Str Nat) (docLen : Nat) :
    bm25Score Real.log qTf docTf docLen = weightSum docTf docLen qTf := by
  have hfold : ∀ score : ℝ, qTf.foldl (addTerm Real.log docTf docLen (3 / 2) (3 / 4) 200) score =
      score + weightSum docTf docLen qTf := by
    induction qTf with
    | nil => exact fun score => (add_zero score).symm
    | cons term qTf ih =>
      intro score
      rw [List.foldl_cons, ih, addTerm_eq, weightSum, add_assoc]
  unfold bm25Score
  rw [hfold, zero_add]

/-- Two chunks that differ in one term have scores that differ by its weights. -/
theorem weightSum_sub (docTf docTf' : Dict Str Nat) (docLen : Nat) (t : Str) {qTf : Dict Str Nat}
    (hnodup : qTf.keys.Nodup) (hsame : ∀ s ∈ qTf.keys, s ≠ t → docTf.at0 s = docTf'.at0 s) :
    weightSum docTf' docLen qTf - weightSum docTf docLen qTf =
      (weight docLen (docTf'.at0 t) - weight docLen (docTf.at0 t)) * qTf.at0 t := by
  induction qTf with
  | nil => simp [weightSum, Dict.at0]
  | cons term qTf ih =>
    obtain ⟨s, qf⟩ := term
    have hnd : s ∉ Dict.keys qTf ∧ (Dict.keys qTf).Nodup := List.nodup_cons.1 hnodup
    have hrest := ih hnd.2 fun s' hs' => hsame s' (List.mem_cons_of_mem s hs')
    unfold weightSum
    dsimp only
    by_cases hst : s = t
    · subst hst
      have hnone : Dict.at0 qTf s = 0 := by
        unfold Dict.at0
        rw [Option.not_isSome_iff_eq_none.1 fun h => hnd.1 (Dict.get?_isSome.1 h)]
        rfl
      have hhead : Dict.at0 ((s, qf) :: qTf) s = qf := by
        unfold Dict.at0
        rw [Dict.get?_cons, if_pos rfl]
        rfl
      rw [hnone, Nat.cast_zero, mul_zero] at hrest
      rw [hhead]
      linarith
    · have hskip : Dict.at0 ((s, qf) :: qTf) t = Dict.at0 qTf t := by
        unfold Dict.at0
        rw [Dict.get?_cons, if_neg hst]
      rw [hskip, ← hrest, hsame s List.mem_cons_self hst]
      ring

/-! ## Two chunks -/

/-- The chunks have the same length and, but for one term that the second has more often, the
same frequency of each term of the query. -/
structure OneTermMore (u : Unicode) (query t : Str) (chunk chunk' : DocumentChunk) : Prop where
  length : (tokenize u chunk.text).length = (tokenize u chunk'.text).length
  same : ∀ s ∈ tokenize u query, s ≠ t → frequency u chunk.text s = frequency u chunk'.text s
  more : frequency u chunk.text t < frequency u chunk'.text t

/-- The score of a chunk for a query. -/
noncomputable def queryScore (u : Unicode) (query : Str) (chunk : DocumentChunk) : ℝ :=
  chunkScore Real.log u (termFreq (tokenize u query)) chunk

/-- The second chunk has at least the score of the first, and is before it in every search of
chunks that has it, unless the scores are equal. -/
structure MoreIsBetter (u : Unicode) (query : Str) (chunk chunk' : DocumentChunk) : Prop where
  score : queryScore u query chunk ≤ queryScore u query chunk'
  ranked : ∀ (chunks : List DocumentChunk) (topK : Int), chunk' ∈ chunks →
    ∀ before hit behind, search Real.log u chunks query topK = before ++ hit :: behind →
      hit.chunk = chunk →
        (∃ hit' ∈ before, hit'.chunk = chunk') ∨
        queryScore u query chunk = queryScore u query chunk'

variable {u : Unicode} {query t : Str} {chunk chunk' : DocumentChunk}

theorem queryScore_sub (h : OneTermMore u query t chunk chunk') :
    queryScore u query chunk' - queryScore u query chunk =
      (weight (tokenize u chunk.text).length (frequency u chunk'.text t) -
        weight (tokenize u chunk.text).length (frequency u chunk.text t)) *
          (tokenize u query).count t := by
  unfold queryScore chunkScore
  rw [bm25Score_eq, bm25Score_eq, ← h.length]
  have hsub := weightSum_sub (termFreq (tokenize u chunk.text)) (termFreq (tokenize u chunk'.text))
    (tokenize u chunk.text).length t (termFreq_nodup (tokenize u query)) ?_
  · rw [hsub, termFreq_at0, termFreq_at0, termFreq_at0]
    rfl
  · intro s hs hne
    rw [termFreq_at0, termFreq_at0]
    exact h.same s (mem_keys_termFreq.1 hs) hne

/-- What a search returns with a score comes after everything with a greater score. -/
theorem search_ranked {chunks : List DocumentChunk} {topK : Int} (hmem : chunk' ∈ chunks)
    (hlt : queryScore u query chunk < queryScore u query chunk')
    {before behind : List (RetrievedChunk ℝ)} {hit : RetrievedChunk ℝ}
    (hsplit : search Real.log u chunks query topK = before ++ hit :: behind)
    (hhit : hit.chunk = chunk) : ∃ hit' ∈ before, hit'.chunk = chunk' := by
  unfold search at hsplit
  dsimp only at hsplit
  split_ifs at hsplit
  · exact absurd hsplit (by simp)
  · exact absurd hsplit (by simp)
  · obtain ⟨n, hn⟩ := exists_upTo_sortDesc RetrievedChunk.score topK
      (chunks.filterMap (scoredChunk Real.log u (termFreq (tokenize u query))))
    rw [hn] at hsplit
    have htop : hit ∈ topBy RetrievedChunk.score n
        (chunks.filterMap (scoredChunk Real.log u (termFreq (tokenize u query)))) := by
      rw [hsplit]
      exact List.mem_append_right before List.mem_cons_self
    obtain ⟨c, -, hc⟩ := List.mem_filterMap.1 (mem_of_mem_topBy htop)
    unfold scoredChunk at hc
    dsimp only at hc
    split_ifs at hc with hpos
    rw [← Option.some.inj hc] at hhit
    obtain rfl : c = chunk := hhit
    have hpos' : 0 < queryScore u query chunk' := lt_trans hpos hlt
    refine ⟨⟨chunk', queryScore u query chunk'⟩, mem_before_of_key_lt hsplit ?_ ?_, rfl⟩
    · refine List.mem_filterMap.2 ⟨chunk', hmem, ?_⟩
      unfold scoredChunk
      exact if_pos hpos'
    · rw [← Option.some.inj hc]
      exact hlt

/-- The term is not in the query, or not in the first chunk, or the chunks are long. -/
def LongEnough (u : Unicode) (query t : Str) (chunk chunk' : DocumentChunk) : Prop :=
  t ∉ tokenize u query ∨ frequency u chunk.text t = 0 ∨
    minLength (frequency u chunk.text t) (frequency u chunk'.text t) ≤
      (tokenize u chunk.text).length

theorem queryScore_le_iff (h : OneTermMore u query t chunk chunk') :
    queryScore u query chunk ≤ queryScore u query chunk' ↔ LongEnough u query t chunk chunk' := by
  unfold LongEnough
  rw [← sub_nonneg, queryScore_sub h]
  by_cases ht : t ∈ tokenize u query
  · have hcount : (0 : ℝ) < (tokenize u query).count t := Nat.cast_pos.2 (List.count_pos_iff.2 ht)
    rw [mul_nonneg_iff_of_pos_right hcount, sub_nonneg]
    by_cases ha : frequency u chunk.text t = 0
    · rw [ha]
      exact iff_of_true (weight_zero_le _ _) (.inr (.inl rfl))
    · rw [weight_le_iff h.more ha]
      simp [ht, ha]
  · rw [List.count_eq_zero_of_not_mem ht, Nat.cast_zero, mul_zero]
    exact iff_of_true (le_refl 0) (.inl ht)

/-- More occurrences are better exactly in chunks that are long enough. -/
theorem more_is_better_iff (h : OneTermMore u query t chunk chunk') :
    MoreIsBetter u query chunk chunk' ↔ LongEnough u query t chunk chunk' := by
  rw [← queryScore_le_iff h]
  constructor
  · exact MoreIsBetter.score
  · intro hle
    refine ⟨hle, ?_⟩
    intro chunks topK hmem before hit behind hsplit hhit
    rcases lt_or_eq_of_le hle with hlt | heq
    · exact .inl (search_ranked hmem hlt hsplit hhit)
    · exact .inr heq

/-- A chunk with a text. -/
def demoChunk (text : Str) : DocumentChunk := ⟨"a.md#0", text, "a.md"⟩

theorem more_is_better_cat :
    OneTermMore Unicode.ascii "cat" "cat" (demoChunk "a dog") (demoChunk "a cat") ∧
      MoreIsBetter Unicode.ascii "cat" (demoChunk "a dog") (demoChunk "a cat") := by
  have hmore : OneTermMore Unicode.ascii "cat" "cat" (demoChunk "a dog") (demoChunk "a cat") := by
    refine ⟨by decide +kernel, ?_, by decide +kernel⟩
    intro s hs hne
    rw [show tokenize Unicode.ascii "cat" = ["cat".toList] by decide +kernel] at hs
    exact absurd (List.mem_singleton.1 hs) hne
  exact ⟨hmore, (more_is_better_iff hmore).2 (.inr (.inl (by decide +kernel)))⟩

/-- Of two chunks with two tokens, the one with the second occurrence has the smaller score. -/
theorem second_occurrence_worse :
    OneTermMore Unicode.ascii "cat" "cat" (demoChunk "cat dog") (demoChunk "cat cat") ∧
      ¬ MoreIsBetter Unicode.ascii "cat" (demoChunk "cat dog") (demoChunk "cat cat") := by
  have hquery : tokenize Unicode.ascii "cat" = ["cat".toList] := by decide +kernel
  have hmore :
      OneTermMore Unicode.ascii "cat" "cat" (demoChunk "cat dog") (demoChunk "cat cat") := by
    refine ⟨by decide +kernel, ?_, by decide +kernel⟩
    intro s hs hne
    rw [hquery] at hs
    exact absurd (List.mem_singleton.1 hs) hne
  refine ⟨hmore, ?_⟩
  intro h
  rcases (queryScore_le_iff hmore).1 h.score with hout | hnone | hlong
  · rw [hquery] at hout
    exact hout List.mem_cons_self
  · exact absurd hnone (by decide +kernel)
  · rw [show frequency Unicode.ascii (demoChunk "cat dog").text "cat" = 1 by decide +kernel,
      show frequency Unicode.ascii (demoChunk "cat cat").text "cat" = 2 by decide +kernel,
      show (tokenize Unicode.ascii (demoChunk "cat dog").text).length = 2 by
        decide +kernel] at hlong
    exact absurd hlong (not_le.2 two_lt_minLength)

end AiPipelines.Knowledge

import AiPipelines.Retrieval.MergeHits
import AiPipelines.Retrieval.VectorStore
import Mathlib.Algebra.Order.Field.Basic
import Mathlib.Algebra.Order.Field.Rat
import Mathlib.Tactic.NormNum

/-!
# The scores of the vector search

`VectorKnowledgeStore.search` of `server/app/db/vector_store.py`.  A row of the query's
result has a distance, and the score of a hit is one minus the distance, or zero.

The distance is read as `dist or 1.0`, so that an exact match, whose distance is zero, gets
the score of a row without a distance.  `scores_follow_iff` says that this is the only way
in which the scores do not follow the distances, in the search and in the fusion.
-/

namespace AiPipelines.Retrieval

open PyStd Knowledge

variable {K : Type} [Field K] [LinearOrder K]

/-! ## The search -/

/-- What `collection.query` returns.  A column can be missing, and a column has one list for
each query. -/
structure QueryResult (K : Type) where
  ids : Option (List (List Str))
  documents : Option (List (List (Option Str)))
  metadatas : Option (List (List (Option (Dict Str Str))))
  distances : Option (List (List (Option K)))
  deriving Repr

/-- `(column or [[]])[0]`. -/
def firstList {α : Type} (column : Option (List (List α))) : List α :=
  (column.getD []).headD []

/-- What is known of one match. -/
structure QueryRow (K : Type) where
  docId : Str
  text : Option Str
  metadata : Option (Dict Str Str)
  dist : Option K
  deriving Repr, DecidableEq

/-- `zip(ids, docs, metas, dists, strict=False)`. -/
def zipRows : List Str → List (Option Str) → List (Option (Dict Str Str)) → List (Option K) →
    List (QueryRow K)
  | docId :: ids, text :: docs, metadata :: metas, dist :: dists =>
    ⟨docId, text, metadata, dist⟩ :: zipRows ids docs metas dists
  | _, _, _, _ => []

/-- The rows of a result. -/
def QueryResult.rows (r : QueryResult K) : List (QueryRow K) :=
  zipRows (firstList r.ids) (firstList r.documents) (firstList r.metadatas)
    (firstList r.distances)

/-- `dist or 1.0`. -/
def distOr (dist : Option K) : K :=
  match dist with
  | none => 1
  | some d => if d = 0 then 1 else d

/-- `max(0.0, 1.0 - float(dist or 1.0))`. -/
def distScore (dist : Option K) : K := max 0 (1 - distOr dist)

/-- `str((meta or {}).get("source") or "vector")`. -/
def rowSource (metadata : Option (Dict Str Str)) : Str :=
  let source := ((metadata.getD []).get? "source").getD []
  if source = [] then "vector" else source

/-- The loop over the rows. -/
def QueryRow.hit (row : QueryRow K) : Option (RetrievedChunk K) :=
  let text := row.text.getD []
  if text = [] then none
  else some ⟨⟨row.docId, text, rowSource row.metadata⟩, distScore row.dist⟩

/-- `VectorKnowledgeStore.search`.  `collectionQuery` is `collection.query`, which is given the
text and the number of results, and can raise.  A store that is available has a collection. -/
def VectorKnowledgeStore.search (s : VectorKnowledgeStore)
    (collectionQuery : Str → Int → Option (QueryResult K)) (query : Str) (topK : Int := 3) :
    List (RetrievedChunk K) :=
  if s.available = false ∨ strip query = [] then []
  else if s.docCount = 0 then []
  else
    match collectionQuery (strip query) (min topK s.docCount) with
    | none => []
    | some r => r.rows.filterMap QueryRow.hit

/-! ## Nearer and farther rows -/

/-- Both distances are known, and the first is smaller. -/
def Nearer (row row' : QueryRow K) : Prop :=
  ∃ d d', row.dist = some d ∧ row'.dist = some d' ∧ d < d'

/-- Wherever the second id is, the first is before it. -/
def NeverBelow (docId docId' : Str) (ids : List Str) : Prop :=
  ∀ before behind, ids = before ++ docId' :: behind → docId ∈ before

/-- The hits of some rows are sorted by their distance, in the search and in every fusion with
keyword hits that have other ids. -/
structure FollowsDistance (rows : List (QueryRow K)) (hits : List (RetrievedChunk K)) : Prop where
  sorted : hits.Pairwise fun hit hit' => hit'.score ≤ hit.score
  nearer : ∀ row ∈ rows, ∀ row' ∈ rows, Nearer row row' →
    ∀ hit hit', row.hit = some hit → row'.hit = some hit' → hit'.score ≤ hit.score
  merged : ∀ (bm25Hits : List (RetrievedChunk K)) (topK : Int), (docIds hits).Nodup →
    (∀ docId ∈ docIds bm25Hits, docId ∉ docIds hits) →
      ∀ row ∈ rows, ∀ row' ∈ rows, Nearer row row' →
        ∀ hit hit', row.hit = some hit → row'.hit = some hit' →
          NeverBelow hit.chunk.docId hit'.chunk.docId (docIds (mergeHits bm25Hits hits topK))

/-- A row with a text. -/
def QueryRow.Returned (row : QueryRow K) : Prop := row.text.getD [] ≠ []

/-- There is no exact match beside a match that is not exact and nearer than one. -/
def NoExactAmongNear (rows : List (QueryRow K)) : Prop :=
  ∀ row ∈ rows, ∀ row' ∈ rows, row.Returned → row'.Returned → row.dist = some 0 →
    ∀ d, row'.dist = some d → ¬ (0 < d ∧ d < 1)

/-! ## The score of a row -/

theorem hit_eq_some {row : QueryRow K} {hit : RetrievedChunk K} (h : row.hit = some hit) :
    row.Returned ∧ hit.chunk.docId = row.docId ∧ hit.score = distScore row.dist := by
  unfold QueryRow.hit at h
  dsimp only at h
  split_ifs at h with htext
  rw [← Option.some.inj h]
  exact ⟨htext, rfl, rfl⟩

theorem hit_of_returned {row : QueryRow K} (h : row.Returned) :
    ∃ hit, row.hit = some hit ∧ hit.score = distScore row.dist := by
  unfold QueryRow.hit
  dsimp only
  rw [if_neg h]
  exact ⟨_, rfl, rfl⟩

/-- The distances of the rows are the first ones of the column. -/
theorem zipRows_dist_prefix {D : Type} (ids : List Str) (docs : List (Option Str))
    (metas : List (Option (Dict Str Str))) (dists : List (Option D)) :
    (zipRows ids docs metas dists).map QueryRow.dist <+: dists := by
  fun_induction zipRows ids docs metas dists with
  | case1 docId ids text docs metadata metas dist dists ih =>
    exact List.cons_prefix_cons.2 ⟨rfl, ih⟩
  | case2 => exact List.nil_prefix

/-- The distances are known and not negative, and come in ascending order. -/
structure Ascending (rows : List (QueryRow K)) : Prop where
  known : ∀ row ∈ rows, ∃ d, row.dist = some d ∧ 0 ≤ d
  sorted : rows.Pairwise fun row row' => ∀ d, row.dist = some d → ∀ d', row'.dist = some d' → d ≤ d'

theorem rows_ascending {r : QueryResult K} {ds : List K}
    (hdist : firstList r.distances = ds.map some) (hnonneg : ∀ d ∈ ds, 0 ≤ d)
    (hsorted : ds.Pairwise (· ≤ ·)) : Ascending r.rows := by
  have hprefix : r.rows.map QueryRow.dist <+: ds.map some := by
    rw [← hdist]
    exact zipRows_dist_prefix _ _ _ _
  constructor
  · intro row hrow
    have hmem : row.dist ∈ ds.map some := hprefix.subset (List.mem_map_of_mem hrow)
    obtain ⟨d, hd, heq⟩ := List.mem_map.1 hmem
    exact ⟨d, heq.symm, hnonneg d hd⟩
  · have hall : (ds.map some).Pairwise fun a b => ∀ d, a = some d → ∀ d', b = some d' → d ≤ d' := by
      rw [List.pairwise_map]
      refine hsorted.imp ?_
      intro a b hab d hd d' hd'
      rw [← Option.some.inj hd, ← Option.some.inj hd']
      exact hab
    exact List.pairwise_map.1 (hall.sublist hprefix.sublist)

theorem Nearer.ne {D : Type} [LinearOrder D] {row row' : QueryRow D} (h : Nearer row row') :
    row' ≠ row := by
  intro heq
  obtain ⟨d, d', hd, hd', hlt⟩ := h
  rw [heq, hd] at hd'
  exact absurd hlt (by rw [Option.some.inj hd']; exact lt_irrefl d')

theorem Nearer.le {D : Type} [LinearOrder D] {row row' : QueryRow D} (h : Nearer row row') :
    ∀ d, row.dist = some d → ∀ d', row'.dist = some d' → d ≤ d' := by
  obtain ⟨e, e', he, he', hlt⟩ := h
  intro d hd d' hd'
  rw [he] at hd
  rw [he'] at hd'
  rw [← Option.some.inj hd, ← Option.some.inj hd']
  exact le_of_lt hlt

/-- The hit of the nearer row is the first of the two. -/
theorem Ascending.ranks {rows : List (QueryRow K)} (h : Ascending rows) {row row' : QueryRow K}
    (hrow : row ∈ rows) (hrow' : row' ∈ rows) (hnear : Nearer row row')
    {hit hit' : RetrievedChunk K} (hhit : row.hit = some hit) (hhit' : row'.hit = some hit') :
    ∃ i j : Nat, i < j ∧ (rows.filterMap QueryRow.hit)[i]? = some hit ∧
      (rows.filterMap QueryRow.hit)[j]? = some hit' := by
  have hnot : ¬ ∀ d, row'.dist = some d → ∀ d', row.dist = some d' → d ≤ d' := by
    intro hle
    obtain ⟨d, d', hd, hd', hlt⟩ := hnear
    exact absurd (hle d' hd' d hd) (not_le.2 hlt)
  obtain ⟨before, between, behind, rfl⟩ :=
    exists_split_of_pairwise h.sorted hrow hrow' hnear.ne hnot
  refine ⟨(before.filterMap QueryRow.hit).length,
    (before.filterMap QueryRow.hit).length +
      ((between.filterMap QueryRow.hit).length + 1), by omega, ?_, ?_⟩
  · simp [List.filterMap_append, hhit]
  · simp [List.filterMap_append, hhit, hhit']

section Order

variable [IsStrictOrderedRing K]

theorem distScore_le {d d' : K} (h : d ≤ d') (hnonneg : 0 ≤ d)
    (hexact : d = 0 → ¬ (0 < d' ∧ d' < 1)) :
    distScore (some d') ≤ distScore (some d) := by
  unfold distScore distOr
  dsimp only
  by_cases hd : d = 0
  · rw [if_pos hd, sub_self]
    have hfar : 1 ≤ if d' = 0 then 1 else d' := by
      split_ifs with hd'
      · exact le_refl 1
      · have hpos : 0 < d' := lt_of_le_of_ne (le_trans hnonneg h) (Ne.symm hd')
        exact not_lt.1 fun hlt => hexact hd ⟨hpos, hlt⟩
    exact max_le_max (le_refl 0) (sub_nonpos.2 hfar)
  · have hpos : 0 < d := lt_of_le_of_ne hnonneg (Ne.symm hd)
    have hpos' : 0 < d' := lt_of_lt_of_le hpos h
    rw [if_neg hd, if_neg (ne_of_gt hpos')]
    exact max_le_max (le_refl 0) (sub_le_sub_left h 1)

theorem distScore_zero_lt {d : K} (hpos : 0 < d) (hlt : d < 1) :
    distScore (some 0) < distScore (some d) := by
  unfold distScore distOr
  dsimp only
  rw [if_pos rfl, if_neg (ne_of_gt hpos), sub_self, max_self]
  exact lt_max_of_lt_right (sub_pos.2 hlt)

/-- Among rows without an exact match that is beside a near one, the nearer row has the better
score. -/
theorem score_le_of_dist_le {rows : List (QueryRow K)} (h : NoExactAmongNear rows)
    (hasc : Ascending rows) {row row' : QueryRow K} (hrow : row ∈ rows) (hrow' : row' ∈ rows)
    (hle : ∀ d, row.dist = some d → ∀ d', row'.dist = some d' → d ≤ d')
    {hit hit' : RetrievedChunk K} (hhit : row.hit = some hit) (hhit' : row'.hit = some hit') :
    hit'.score ≤ hit.score := by
  obtain ⟨hreturned, -, hscore⟩ := hit_eq_some hhit
  obtain ⟨hreturned', -, hscore'⟩ := hit_eq_some hhit'
  obtain ⟨d, hd, hnonneg⟩ := hasc.known row hrow
  obtain ⟨d', hd', -⟩ := hasc.known row' hrow'
  rw [hscore, hscore', hd, hd']
  refine distScore_le (hle d hd d' hd') hnonneg ?_
  intro hzero
  exact h row hrow row' hrow' hreturned hreturned' (hzero ▸ hd) d' hd'

theorem followsDistance_iff {rows : List (QueryRow K)} (hasc : Ascending rows) :
    FollowsDistance rows (rows.filterMap QueryRow.hit) ↔ NoExactAmongNear rows := by
  constructor
  · -- an exact match has the score zero, and a near one more
    intro h row hrow row' hrow' hreturned hreturned' hzero d hd hnear
    obtain ⟨hit, hhit, hscore⟩ := hit_of_returned hreturned
    obtain ⟨hit', hhit', hscore'⟩ := hit_of_returned hreturned'
    have hle := h.nearer row hrow row' hrow' ⟨0, d, hzero, hd, hnear.1⟩ hit hit' hhit hhit'
    rw [hscore, hscore', hzero, hd] at hle
    exact absurd hle (not_le.2 (distScore_zero_lt hnear.1 hnear.2))
  · intro h
    refine ⟨?_, ?_, ?_⟩
    · rw [List.pairwise_filterMap]
      refine hasc.sorted.imp_of_mem ?_
      intro row row' hrow hrow' hle hit hhit hit' hhit'
      exact score_le_of_dist_le h hasc hrow hrow' hle hhit hhit'
    · intro row hrow row' hrow' hnear hit hit' hhit hhit'
      exact score_le_of_dist_le h hasc hrow hrow' hnear.le hhit hhit'
    · intro bm25Hits topK hnodup hapart row hrow row' hrow' hnear hit hit' hhit hhit' before behind
        hsplit
      obtain ⟨i, j, hij, hi, hj⟩ := hasc.ranks hrow hrow' hnear hhit hhit'
      have hscore := score_le_of_dist_le h hasc hrow hrow' hnear.le hhit hhit'
      exact mem_before_of_rank hnodup hapart hi hj hij hscore hsplit

/-- The search is answered, with distances that are not negative and ascend.  The scores of its
hits follow the distances exactly if no exact match is beside a near one. -/
theorem scores_follow_iff {s : VectorKnowledgeStore}
    {collectionQuery : Str → Int → Option (QueryResult K)} {query : Str} {topK : Int}
    {r : QueryResult K} {ds : List K} (havailable : s.available = true) (hcount : s.docCount ≠ 0)
    (hquery : strip query ≠ [])
    (hresult : collectionQuery (strip query) (min topK s.docCount) = some r)
    (hdist : firstList r.distances = ds.map some) (hnonneg : ∀ d ∈ ds, 0 ≤ d)
    (hsorted : ds.Pairwise (· ≤ ·)) :
    FollowsDistance r.rows (s.search collectionQuery query topK) ↔ NoExactAmongNear r.rows := by
  have hsearch : s.search collectionQuery query topK = r.rows.filterMap QueryRow.hit := by
    unfold VectorKnowledgeStore.search
    rw [if_neg (by simp [havailable, hquery]), if_neg hcount, hresult]
  rw [hsearch]
  exact followsDistance_iff (rows_ascending hdist hnonneg hsorted)

end Order

/-- Two documents, the first of which is what was asked for. -/
def demoStore : VectorKnowledgeStore := ⟨true, 2, [⟨"a", "x", "file"⟩, ⟨"b", "y", "file"⟩]⟩

/-- A result with the two documents at some distances. -/
def demoResult (d d' : ℚ) : QueryResult ℚ where
  ids := some [["a", "b"]]
  documents := some [[some "x", some "y"]]
  metadatas := some [[some [("source", "file")], some [("source", "file")]]]
  distances := some [[some d, some d']]

theorem scores_follow_near :
    FollowsDistance (demoResult (1 / 10) (3 / 10)).rows
      (demoStore.search (fun _ _ => some (demoResult (1 / 10) (3 / 10))) "x") := by
  have hdist : firstList (demoResult (1 / 10) (3 / 10)).distances = [1 / 10, 3 / 10].map some := rfl
  refine (scores_follow_iff (by decide) (by decide) (by decide) rfl hdist (by decide +kernel)
    (by decide +kernel)).2 ?_
  intro row hrow _ _ _ _ hzero
  rcases List.mem_cons.1 hrow with rfl | hrow
  · exact absurd (Option.some.inj hzero) (by norm_num)
  · obtain rfl := List.mem_singleton.1 hrow
    exact absurd (Option.some.inj hzero) (by norm_num)

/-- The exact match gets the score zero, and is the second one after the fusion. -/
theorem exactMatch_last :
    (demoStore.search (fun _ _ => some (demoResult 0 (3 / 10))) "x").map
        (fun hit => (hit.chunk.docId, hit.score)) = [("a".toList, 0), ("b".toList, 7 / 10)] ∧
      docIds (mergeHits [] (demoStore.search (fun _ _ => some (demoResult 0 (3 / 10))) "x") 3) =
        ["b".toList, "a".toList] ∧
      ¬ FollowsDistance (demoResult 0 (3 / 10)).rows
        (demoStore.search (fun _ _ => some (demoResult 0 (3 / 10))) "x") := by
  refine ⟨by decide +kernel, by decide +kernel, ?_⟩
  intro h
  have hle := h.nearer ⟨"a", some "x", some [("source", "file")], some 0⟩ List.mem_cons_self
    ⟨"b", some "y", some [("source", "file")], some (3 / 10)⟩
    (List.mem_cons_of_mem _ List.mem_cons_self) ⟨0, 3 / 10, rfl, rfl, by norm_num⟩
    ⟨⟨"a", "x", "file"⟩, 0⟩ ⟨⟨"b", "y", "file"⟩, 7 / 10⟩ (by decide +kernel) (by decide +kernel)
  exact absurd hle (by norm_num)

end AiPipelines.Retrieval

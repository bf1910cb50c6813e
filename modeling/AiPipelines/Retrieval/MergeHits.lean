import AiPipelines.Knowledge.Tokens
import AiPipelines.PyStd.SortDesc
import Mathlib.Algebra.Order.Field.Rat
import Mathlib.Algebra.Order.Ring.Cast
import Mathlib.Data.Finset.Card
import Mathlib.Tactic.Positivity

/-!
# Hybrid fusion

`_merge_hits` of `server/app/db/hybrid_rag.py`.  It goes through the keyword hits and then
through the vector hits, and keeps two dictionaries by id: one hit for each id, and what the
hits with this id add up to, each with a bonus for its rank.

`Fusing` says what the dictionaries hold after some of the hits.  `Fusing.bm25Step` and
`Fusing.vecStep` are the steps, `fuse_fusing` is the run, and `mergeHits_fused` says what is
then sorted and returned.
-/

namespace AiPipelines.Retrieval

open PyStd Knowledge

variable {K : Type} [Field K]

/-! ## The loops -/

/-- The two dictionaries. -/
structure Fusion (K : Type) where
  ranked : Dict Str (RetrievedChunk K)
  scores : Dict Str K
  deriving Repr, DecidableEq

/-- `(top_k - rank) * 0.05`. -/
def rankBonus (topK : Int) (rank : Nat) : K := ((topK - rank : Int) : K) * (1 / 20)

/-- What both loops do to `scores`. -/
def addScore (topK : Int) (scores : Dict Str K) (p : RetrievedChunk K × Nat) : Dict Str K :=
  let key := p.1.chunk.docId
  scores.set key ((scores.get? key).getD 0 + p.1.score + rankBonus topK p.2)

/-- The loop over `bm25_hits`, which are given with their rank. -/
def bm25Step (topK : Int) (m : Fusion K) (p : RetrievedChunk K × Nat) : Fusion K where
  ranked := m.ranked.set p.1.chunk.docId p.1
  scores := addScore topK m.scores p

/-- The loop over `vec_hits`. -/
def vecStep [LinearOrder K] (topK : Int) (m : Fusion K) (p : RetrievedChunk K × Nat) :
    Fusion K where
  ranked :=
    match m.ranked.get? p.1.chunk.docId with
    | none => m.ranked.set p.1.chunk.docId p.1
    | some hit =>
      if hit.score < p.1.score then m.ranked.set p.1.chunk.docId p.1 else m.ranked
  scores := addScore topK m.scores p

/-- Both loops. -/
def fuse [LinearOrder K] (bm25Hits vecHits : List (RetrievedChunk K)) (topK : Int) : Fusion K :=
  vecHits.zipIdx.foldl (vecStep topK) (bm25Hits.zipIdx.foldl (bm25Step topK) ⟨[], []⟩)

/-- `scores.get(hit.chunk.doc_id, hit.score)`. -/
def Fusion.fused (m : Fusion K) (hit : RetrievedChunk K) : K :=
  (m.scores.get? hit.chunk.docId).getD hit.score

/-- `_merge_hits`.  The hits that are given their fused score have different ids, so each is
changed once. -/
def mergeHits [LinearOrder K] (bm25Hits vecHits : List (RetrievedChunk K)) (topK : Int) :
    List (RetrievedChunk K) :=
  let m := fuse bm25Hits vecHits topK
  let merged := sortDesc m.fused (m.ranked.map Prod.snd)
  upTo topK (merged.map fun hit => { hit with score := m.fused hit })

/-! ## What the dictionaries hold -/

/-- The id of a hit, and what the hit adds to the score of the id. -/
def contribution (topK : Int) (p : RetrievedChunk K × Nat) : Str × K :=
  (p.1.chunk.docId, p.1.score + rankBonus topK p.2)

/-- The contributions of a list. -/
def contributions (topK : Int) (hits : List (RetrievedChunk K)) : List (Str × K) :=
  hits.zipIdx.map (contribution topK)

/-- What a list adds to the score of an id: nothing, or the score of its hit with the bonus for
the rank. -/
def share (topK : Int) (hits : List (RetrievedChunk K)) (docId : Str) : K :=
  (Dict.get? (contributions topK hits) docId).getD 0

/-- After some hits, with their ranks, there is one hit for each id, and the scores are what
the hits have added. -/
structure Fusing (topK : Int) (seen : List (RetrievedChunk K × Nat)) (m : Fusion K) : Prop where
  nodup : m.ranked.keys.Nodup
  keyed : ∀ kv ∈ m.ranked, kv.2.chunk.docId = kv.1
  found : ∀ kv ∈ m.ranked, kv.2 ∈ seen.map Prod.fst
  mem_keys : ∀ docId, docId ∈ m.ranked.keys ↔ docId ∈ seen.map fun p => p.1.chunk.docId
  scores : m.scores = Dict.tally [] (seen.map (contribution topK))

theorem addScore_eq (topK : Int) (scores : Dict Str K) (p : RetrievedChunk K × Nat) :
    addScore topK scores p = scores.addAt (contribution topK p).1 (contribution topK p).2 := by
  unfold addScore Dict.addAt Dict.at0 contribution
  rw [← add_assoc]

variable {topK : Int} {seen : List (RetrievedChunk K × Nat)} {m : Fusion K}

theorem Fusing.nil : Fusing topK [] (⟨[], []⟩ : Fusion K) where
  nodup := List.nodup_nil
  keyed := nofun
  found := nofun
  mem_keys := fun _ => Iff.rfl
  scores := rfl

theorem Fusing.addScore (h : Fusing topK seen m) (p : RetrievedChunk K × Nat) :
    addScore topK m.scores p = Dict.tally [] ((seen ++ [p]).map (contribution topK)) := by
  rw [addScore_eq, h.scores, List.map_append]
  unfold Dict.tally
  rw [List.foldl_append]
  rfl

/-- The hit becomes the one that is kept. -/
theorem Fusing.put (h : Fusing topK seen m) (p : RetrievedChunk K × Nat) :
    Fusing topK (seen ++ [p])
      ⟨m.ranked.set p.1.chunk.docId p.1, Retrieval.addScore topK m.scores p⟩ where
  nodup := Dict.nodup_keys_set h.nodup
  keyed := by
    intro kv hkv
    rcases Dict.mem_set hkv with rfl | hkv
    · rfl
    · exact h.keyed kv hkv
  found := by
    intro kv hkv
    rw [List.map_append, List.mem_append]
    rcases Dict.mem_set hkv with rfl | hkv
    · exact .inr List.mem_cons_self
    · exact .inl (h.found kv hkv)
  mem_keys := by
    intro docId
    show docId ∈ (m.ranked.set p.1.chunk.docId p.1).keys ↔ _
    rw [Dict.mem_keys_set_iff, h.mem_keys, List.map_append, List.mem_append, or_comm]
    simp
  scores := h.addScore p

/-- The id has a hit already, and this one is kept. -/
theorem Fusing.keep (h : Fusing topK seen m) {p : RetrievedChunk K × Nat}
    (hp : p.1.chunk.docId ∈ m.ranked.keys) :
    Fusing topK (seen ++ [p]) ⟨m.ranked, Retrieval.addScore topK m.scores p⟩ where
  nodup := h.nodup
  keyed := h.keyed
  found := by
    intro kv hkv
    rw [List.map_append, List.mem_append]
    exact .inl (h.found kv hkv)
  mem_keys := by
    intro docId
    rw [h.mem_keys, List.map_append, List.mem_append]
    rw [h.mem_keys] at hp
    constructor
    · exact .inl
    · intro hmem
      rcases hmem with hmem | hmem
      · exact hmem
      · rw [List.mem_singleton.1 hmem]
        exact hp
  scores := h.addScore p

theorem Fusing.bm25Step (h : Fusing topK seen m) (p : RetrievedChunk K × Nat) :
    Fusing topK (seen ++ [p]) (bm25Step topK m p) :=
  h.put p

theorem Fusing.vecStep [LinearOrder K] (h : Fusing topK seen m) (p : RetrievedChunk K × Nat) :
    Fusing topK (seen ++ [p]) (vecStep topK m p) := by
  unfold Retrieval.vecStep
  cases hget : m.ranked.get? p.1.chunk.docId with
  | none => exact h.put p
  | some hit =>
    have hmem : p.1.chunk.docId ∈ m.ranked.keys := Dict.get?_isSome.1 (by rw [hget]; rfl)
    dsimp only
    split_ifs
    · exact h.put p
    · exact h.keep hmem

/-- The run of a loop from its step. -/
theorem Fusing.foldl {step : Fusion K → RetrievedChunk K × Nat → Fusion K}
    (hstep : ∀ {seen m}, Fusing topK seen m → ∀ p, Fusing topK (seen ++ [p]) (step m p))
    (h : Fusing topK seen m) (ps : List (RetrievedChunk K × Nat)) :
    Fusing topK (seen ++ ps) (ps.foldl step m) := by
  induction ps generalizing seen m with
  | nil =>
    rw [List.append_nil]
    exact h
  | cons p ps ih =>
    have hrest := ih (hstep h p)
    rw [List.append_assoc] at hrest
    exact hrest

theorem fuse_fusing [LinearOrder K] (bm25Hits vecHits : List (RetrievedChunk K)) (topK : Int) :
    Fusing topK (bm25Hits.zipIdx ++ vecHits.zipIdx) (fuse bm25Hits vecHits topK) :=
  Fusing.foldl Fusing.vecStep (Fusing.foldl Fusing.bm25Step Fusing.nil _) _

/-! ## What is returned -/

/-- The ids of some hits. -/
def docIds (hits : List (RetrievedChunk K)) : List Str := hits.map fun hit => hit.chunk.docId

/-- The sum over the lists that have the id. -/
def fusedScore (topK : Int) (bm25Hits vecHits : List (RetrievedChunk K)) (docId : Str) : K :=
  share topK bm25Hits docId + share topK vecHits docId

theorem keys_contributions (topK : Int) (hits : List (RetrievedChunk K)) :
    Dict.keys (contributions topK hits) = docIds hits := by
  show (hits.zipIdx.map _).map Prod.fst = _
  rw [List.map_map]
  show hits.zipIdx.map ((fun hit => hit.chunk.docId) ∘ Prod.fst) = _
  rw [← List.map_map, List.zipIdx_map_fst]
  rfl

theorem sumAt_contributions {hits : List (RetrievedChunk K)} (h : (docIds hits).Nodup)
    (docId : Str) : Dict.sumAt docId (contributions topK hits) = share topK hits docId :=
  Dict.sumAt_of_nodup (by rw [keys_contributions]; exact h) docId

/-- Each id that has a hit has a score. -/
theorem Fusing.fused_eq (h : Fusing topK seen m) {hit : RetrievedChunk K}
    (hmem : hit.chunk.docId ∈ m.ranked.keys) :
    m.fused hit = Dict.sumAt hit.chunk.docId (seen.map (contribution topK)) := by
  have hkey : hit.chunk.docId ∈ m.scores.keys := by
    rw [h.scores, Dict.mem_keys_tally]
    left
    show _ ∈ (seen.map (contribution topK)).map Prod.fst
    rw [List.map_map]
    exact (h.mem_keys _).1 hmem
  obtain ⟨score, hscore⟩ := Option.isSome_iff_exists.1 (Dict.get?_isSome.2 hkey)
  calc m.fused hit = score := by unfold Fusion.fused; rw [hscore]; rfl
    _ = m.scores.at0 hit.chunk.docId := by unfold Dict.at0; rw [hscore]; rfl
    _ = 0 + Dict.sumAt hit.chunk.docId (seen.map (contribution topK)) := by
      rw [h.scores, Dict.at0_tally]
      rfl
    _ = _ := zero_add _

/-- The hits that are sorted: one for each id of the two lists, each with its fused score. -/
structure Candidates (topK : Int) (bm25Hits vecHits : List (RetrievedChunk K)) (m : Fusion K)
    (hits : List (RetrievedChunk K)) : Prop where
  nodup : (docIds hits).Nodup
  mem_docIds : ∀ docId, docId ∈ docIds hits ↔ docId ∈ docIds bm25Hits ++ docIds vecHits
  found : ∀ hit ∈ hits, hit ∈ bm25Hits ++ vecHits
  fused : ∀ hit ∈ hits, m.fused hit =
    Dict.sumAt hit.chunk.docId (contributions topK bm25Hits) +
      Dict.sumAt hit.chunk.docId (contributions topK vecHits)

/-- Where no id is twice in a list, the fused score has one term for each list. -/
theorem Candidates.fused_eq {bm25Hits vecHits hits : List (RetrievedChunk K)}
    (hc : Candidates topK bm25Hits vecHits m hits) (hb : (docIds bm25Hits).Nodup)
    (hv : (docIds vecHits).Nodup) :
    ∀ hit ∈ hits, m.fused hit = fusedScore topK bm25Hits vecHits hit.chunk.docId := by
  intro hit hhit
  rw [hc.fused hit hhit, sumAt_contributions hb, sumAt_contributions hv]
  rfl

theorem Candidates.map_fused {bm25Hits vecHits hits : List (RetrievedChunk K)}
    (hc : Candidates topK bm25Hits vecHits m hits) (hb : (docIds bm25Hits).Nodup)
    (hv : (docIds vecHits).Nodup) :
    hits.map m.fused = (docIds hits).map (fusedScore topK bm25Hits vecHits) := by
  unfold docIds
  rw [List.map_map]
  exact List.map_congr_left (hc.fused_eq hb hv)

/-- A vector hit whose id no keyword hit has. -/
theorem Candidates.fused_vec {bm25Hits vecHits hits : List (RetrievedChunk K)} {i : Nat}
    {hit x : RetrievedChunk K} (hc : Candidates topK bm25Hits vecHits m hits)
    (hv : (docIds vecHits).Nodup) (hapart : ∀ docId ∈ docIds bm25Hits, docId ∉ docIds vecHits)
    (hi : vecHits[i]? = some hit) (hx : x ∈ hits) (hid : x.chunk.docId = hit.chunk.docId) :
    m.fused x = hit.score + rankBonus topK i := by
  have hnone : hit.chunk.docId ∉ Dict.keys (contributions topK bm25Hits) := by
    rw [keys_contributions]
    intro hb
    exact hapart _ hb (List.mem_map_of_mem (List.mem_of_getElem? hi))
  have hmem : contribution topK (hit, i) ∈ contributions topK vecHits :=
    List.mem_map_of_mem (List.mem_zipIdx_iff_getElem?.2 hi)
  have hone : Dict.get? (contributions topK vecHits) hit.chunk.docId =
      some (hit.score + rankBonus topK i) :=
    Dict.get?_of_mem (by rw [keys_contributions]; exact hv) hmem
  rw [hc.fused x hx, hid, Dict.sumAt_of_not_mem hnone, sumAt_contributions hv, zero_add]
  unfold share
  rw [hone]
  rfl

theorem docIds_rescore {S : Type} (f : RetrievedChunk S → S) (hits : List (RetrievedChunk S)) :
    docIds (hits.map fun hit => { hit with score := f hit }) = docIds hits := by
  unfold docIds
  rw [List.map_map]
  rfl

section Results

variable [LinearOrder K] {bm25Hits vecHits : List (RetrievedChunk K)}

theorem fuse_candidates (bm25Hits vecHits : List (RetrievedChunk K)) (topK : Int) :
    Candidates topK bm25Hits vecHits (fuse bm25Hits vecHits topK)
      ((fuse bm25Hits vecHits topK).ranked.map Prod.snd) := by
  have h := fuse_fusing bm25Hits vecHits topK
  generalize fuse bm25Hits vecHits topK = m at h
  have hids : docIds (m.ranked.map Prod.snd) = m.ranked.keys := by
    unfold docIds Dict.keys
    rw [List.map_map]
    exact List.map_congr_left h.keyed
  have hseen : (bm25Hits.zipIdx ++ vecHits.zipIdx).map Prod.fst = bm25Hits ++ vecHits := by
    rw [List.map_append, List.zipIdx_map_fst, List.zipIdx_map_fst]
  refine ⟨hids ▸ h.nodup, ?_, ?_, ?_⟩
  · intro docId
    rw [hids, h.mem_keys]
    show _ ∈ (bm25Hits.zipIdx ++ vecHits.zipIdx).map ((fun hit => hit.chunk.docId) ∘ Prod.fst) ↔ _
    rw [← List.map_map, hseen, List.map_append]
    rfl
  · intro hit hhit
    obtain ⟨kv, hkv, rfl⟩ := List.mem_map.1 hhit
    rw [← hseen]
    exact h.found kv hkv
  · intro hit hhit
    have hmem : hit.chunk.docId ∈ m.ranked.keys := by
      rw [← hids]
      exact List.mem_map_of_mem hhit
    rw [h.fused_eq hmem, List.map_append, Dict.sumAt_append]
    rfl

theorem mergeHits_eq_upTo (bm25Hits vecHits : List (RetrievedChunk K)) (topK : Int) :
    mergeHits bm25Hits vecHits topK =
      (upTo topK (sortDesc (fuse bm25Hits vecHits topK).fused
        ((fuse bm25Hits vecHits topK).ranked.map Prod.snd))).map fun hit =>
          { hit with score := (fuse bm25Hits vecHits topK).fused hit } := by
  unfold mergeHits
  dsimp only
  rw [upTo_map]

theorem mergeHits_eq (bm25Hits vecHits : List (RetrievedChunk K)) (topK : Nat) :
    mergeHits bm25Hits vecHits topK =
      (topBy (fuse bm25Hits vecHits topK).fused topK
        ((fuse bm25Hits vecHits topK).ranked.map Prod.snd)).map fun hit =>
          { hit with score := (fuse bm25Hits vecHits topK).fused hit } := by
  rw [mergeHits_eq_upTo, upTo_natCast]
  rfl

/-- What a fusion of two lists should be. -/
structure Merged (topK : Nat) (bm25Hits vecHits out : List (RetrievedChunk K)) : Prop where
  nodup : (docIds out).Nodup
  length : out.length =
    min topK ((docIds bm25Hits).toFinset ∪ (docIds vecHits).toFinset).card
  found : ∀ hit ∈ out, ∃ hit' ∈ bm25Hits ++ vecHits, hit'.chunk = hit.chunk
  scores : ∀ hit ∈ out, hit.score = fusedScore topK bm25Hits vecHits hit.chunk.docId
  sorted : out.Pairwise fun hit hit' => hit'.score ≤ hit.score
  omitted : ∀ docId ∈ docIds bm25Hits ++ docIds vecHits, docId ∉ docIds out →
    ∀ hit ∈ out, fusedScore topK bm25Hits vecHits docId ≤ hit.score

theorem mergeHits_merged (hb : (docIds bm25Hits).Nodup) (hv : (docIds vecHits).Nodup)
    (topK : Nat) : Merged topK bm25Hits vecHits (mergeHits bm25Hits vecHits topK) := by
  have hc := fuse_candidates bm25Hits vecHits topK
  rw [mergeHits_eq]
  generalize hm : fuse bm25Hits vecHits topK = m at hc ⊢
  generalize hhits : m.ranked.map Prod.snd = hits at hc ⊢
  have hids := docIds_rescore m.fused (topBy m.fused topK hits)
  refine ⟨?_, ?_, ?_, ?_, ?_, ?_⟩
  · rw [hids]
    have hall : (docIds (sortDesc m.fused hits)).Nodup :=
      ((sortDesc_perm m.fused hits).map _).nodup_iff.2 hc.nodup
    exact hall.sublist ((List.take_sublist topK _).map _)
  · have hcard : ((docIds bm25Hits).toFinset ∪ (docIds vecHits).toFinset) =
        (docIds hits).toFinset := by
      rw [← List.toFinset_append]
      exact List.toFinset.ext fun docId => (hc.mem_docIds docId).symm
    rw [List.length_map, length_topBy, hcard, List.toFinset_card_of_nodup hc.nodup]
    simp [docIds]
  · intro hit hhit
    obtain ⟨hit', hhit', rfl⟩ := List.mem_map.1 hhit
    exact ⟨hit', hc.found hit' (mem_of_mem_topBy hhit'), rfl⟩
  · intro hit hhit
    obtain ⟨hit', hhit', rfl⟩ := List.mem_map.1 hhit
    exact hc.fused_eq hb hv hit' (mem_of_mem_topBy hhit')
  · rw [List.pairwise_map]
    exact topBy_pairwise m.fused topK hits
  · intro docId hmem hout hit hhit
    obtain ⟨hit', hhit', rfl⟩ := List.mem_map.1 hhit
    obtain ⟨other, hother, rfl⟩ := List.mem_map.1 ((hc.mem_docIds docId).2 hmem)
    rw [← hc.fused_eq hb hv other hother]
    refine key_le_of_not_mem_topBy hother ?_ hhit'
    intro htop
    rw [hids] at hout
    exact hout (List.mem_map_of_mem htop)

/-- Which list comes first makes no difference to the scores. -/
theorem map_score_swap (hb : (docIds bm25Hits).Nodup) (hv : (docIds vecHits).Nodup) (topK : Nat) :
    (mergeHits vecHits bm25Hits topK).map RetrievedChunk.score =
      (mergeHits bm25Hits vecHits topK).map RetrievedChunk.score := by
  have hc := fuse_candidates bm25Hits vecHits topK
  have hc' := fuse_candidates vecHits bm25Hits topK
  have hcomm : fusedScore topK vecHits bm25Hits = fusedScore topK bm25Hits vecHits := by
    funext docId
    exact add_comm _ _
  have hids : (docIds ((fuse vecHits bm25Hits topK).ranked.map Prod.snd)).Perm
      (docIds ((fuse bm25Hits vecHits topK).ranked.map Prod.snd)) := by
    refine (List.perm_ext_iff_of_nodup hc'.nodup hc.nodup).2 fun docId => ?_
    rw [hc'.mem_docIds, hc.mem_docIds, List.mem_append, List.mem_append, or_comm]
  have hperm := hids.map (fusedScore (topK : Int) bm25Hits vecHits)
  rw [← hc.map_fused hb hv, ← hcomm, ← hc'.map_fused hv hb] at hperm
  rw [mergeHits_eq, mergeHits_eq, List.map_map, List.map_map]
  exact map_key_topBy hperm topK

theorem rankBonus_lt [IsStrictOrderedRing K] {i j : Nat} (h : i < j) (topK : Int) :
    (rankBonus topK j : K) < rankBonus topK i := by
  unfold rankBonus
  have hlt : topK - (j : Int) < topK - i := by omega
  exact mul_lt_mul_of_pos_right (Int.cast_lt.2 hlt) (by positivity)

/-- Of two vector hits whose ids no keyword hit has, the one with the better rank is before the
other, unless its score is smaller. -/
theorem mem_before_of_rank [IsStrictOrderedRing K] {i j : Nat} {hit hit' : RetrievedChunk K}
    {before behind : List Str} (hv : (docIds vecHits).Nodup)
    (hapart : ∀ docId ∈ docIds bm25Hits, docId ∉ docIds vecHits) (hi : vecHits[i]? = some hit)
    (hj : vecHits[j]? = some hit') (hij : i < j) (hscore : hit'.score ≤ hit.score)
    (hsplit : docIds (mergeHits bm25Hits vecHits topK) = before ++ hit'.chunk.docId :: behind) :
    hit.chunk.docId ∈ before := by
  have hc := fuse_candidates bm25Hits vecHits topK
  rw [mergeHits_eq_upTo] at hsplit
  generalize fuse bm25Hits vecHits topK = m at hc hsplit
  generalize m.ranked.map Prod.snd = hits at hc hsplit
  obtain ⟨n, hn⟩ := exists_upTo_sortDesc m.fused topK hits
  rw [hn, docIds_rescore] at hsplit
  -- the hits that stand for the two ids
  obtain ⟨front, back, htop, rfl, hback⟩ := List.map_eq_append_iff.1 hsplit
  obtain ⟨y, rest, rfl, hy, -⟩ := List.map_eq_cons_iff.1 hback
  have hvec : hit.chunk.docId ∈ docIds bm25Hits ++ docIds vecHits :=
    List.mem_append_right _ (List.mem_map_of_mem (List.mem_of_getElem? hi))
  obtain ⟨x, hxmem, hx⟩ := List.mem_map.1 ((hc.mem_docIds _).2 hvec)
  have hytop : y ∈ topBy m.fused n hits := by
    rw [htop]
    exact List.mem_append_right front List.mem_cons_self
  have hymem : y ∈ hits := mem_of_mem_topBy hytop
  have hlt : m.fused y < m.fused x := by
    rw [hc.fused_vec hv hapart hj hymem hy, hc.fused_vec hv hapart hi hxmem hx]
    exact add_lt_add_of_le_of_lt hscore (rankBonus_lt hij topK)
  rw [← hx]
  exact List.mem_map_of_mem (mem_before_of_key_lt htop hxmem hlt)

/-- The fusion of two lists is exact, whatever the overlap of the lists. -/
theorem mergeHits_exact (hb : (docIds bm25Hits).Nodup) (hv : (docIds vecHits).Nodup) (topK : Nat) :
    Merged topK bm25Hits vecHits (mergeHits bm25Hits vecHits topK) ∧
      (mergeHits vecHits bm25Hits topK).map RetrievedChunk.score =
        (mergeHits bm25Hits vecHits topK).map RetrievedChunk.score :=
  ⟨mergeHits_merged hb hv topK, map_score_swap hb hv topK⟩

end Results

/-- A hit with a text and a source that do not matter. -/
def demoHit (docId : Str) (score : ℚ) : RetrievedChunk ℚ := ⟨⟨docId, "text", "file"⟩, score⟩

/-- Two lists that share one id. -/
theorem mergeHits_exact_overlap :
    mergeHits [demoHit "a" (1 / 2), demoHit "b" (2 / 5)] [demoHit "b" (3 / 10), demoHit "c" (1 / 5)]
      2 =
        [demoHit "b" (17 / 20), demoHit "a" (3 / 5)] ∧
      Merged 2 [demoHit "a" (1 / 2), demoHit "b" (2 / 5)]
        [demoHit "b" (3 / 10), demoHit "c" (1 / 5)]
        (mergeHits [demoHit "a" (1 / 2), demoHit "b" (2 / 5)]
          [demoHit "b" (3 / 10), demoHit "c" (1 / 5)] 2) :=
  ⟨by decide +kernel, (mergeHits_exact (by decide) (by decide) 2).1⟩

end AiPipelines.Retrieval

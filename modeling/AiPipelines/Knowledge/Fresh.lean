import AiPipelines.Knowledge.Index
import AiPipelines.PyStd.JsonRoundTrip

/-!
# What an accepted index says

An index that a build wrote and that `load` accepts has the chunks and the
fingerprints that the build put into it, and these fingerprints are those of the
folder (`load_accepts`).
-/

namespace AiPipelines.Knowledge

open PyStd

variable {e : Interp} {t : Tree} {chunkChars chunkChars' : Int} {knowledgeDir builtAt : Str}
  {sources : List Fingerprint} {chunks chunks' : List DocumentChunk}

/-! ## The payload as JSON -/

theorem canon_indexPayload (p : Json.FloatPrinter) :
    (indexPayload chunkChars knowledgeDir builtAt sources chunks).canon p =
      indexPayload chunkChars knowledgeDir builtAt sources chunks := by
  have hsources : (sources.map Fingerprint.toJson).map (Json.canon p) =
      sources.map Fingerprint.toJson := by
    rw [List.map_map]
    rfl
  have hchunks : (chunks.map DocumentChunk.toJson).map (Json.canon p) =
      chunks.map DocumentChunk.toJson := by
    rw [List.map_map]
    rfl
  simp only [indexPayload, Json.canon, Json.canonPairs, Json.canonItems_eq, hsources, hchunks]

theorem distinctKeys_indexPayload :
    (indexPayload chunkChars knowledgeDir builtAt sources chunks).DistinctKeys := by
  have hsource : ∀ x ∈ sources.map Fingerprint.toJson, x.DistinctKeys := by
    intro x hx
    obtain ⟨s, -, rfl⟩ := List.mem_map.mp hx
    exact ⟨by simp, trivial, trivial, trivial, trivial⟩
  have hchunk : ∀ x ∈ chunks.map DocumentChunk.toJson, x.DistinctKeys := by
    intro x hx
    obtain ⟨c, -, rfl⟩ := List.mem_map.mp hx
    exact ⟨by simp, trivial, trivial, trivial, trivial⟩
  refine ⟨by simp, trivial, trivial, trivial, trivial, ?_, ?_, trivial⟩
  · exact Json.distinctKeysItems_iff.mpr hsource
  · exact Json.distinctKeysItems_iff.mpr hchunk

/-- The index file is read back as the payload. -/
theorem loads_indexFile {bytes : Bytes}
    (h : indexFile e (indexPayload chunkChars knowledgeDir builtAt sources chunks) = .ok bytes) :
    ∃ text, readText bytes = some text ∧ Json.loads e.jsonDepth text =
      .ok (indexPayload chunkChars knowledgeDir builtAt sources chunks) := by
  unfold indexFile at h
  cases hdump : Json.dumps e.floats false e.jsonDepth
      (indexPayload chunkChars knowledgeDir builtAt sources chunks) with
  | error x =>
    rw [hdump] at h
    cases h
  | ok s =>
    rw [hdump] at h
    obtain rfl := Except.ok.inj h
    obtain ⟨text, hread, hload⟩ := Json.loads_readText distinctKeys_indexPayload hdump
    rw [canon_indexPayload] at hload
    exact ⟨text, hread, hload⟩

/-! ## The rows of the payload -/

theorem iterate_arr (xs : List Json) : iterate e (.arr xs) = .ok xs := by
  cases xs with
  | nil => rfl
  | cons x xs => rfl

theorem loadedChunks_indexPayload :
    loadedChunks e (indexPayload chunkChars knowledgeDir builtAt sources chunks) = .ok chunks := by
  have hrow : ∀ c : DocumentChunk, loadedChunk e c.toJson = .ok c := fun c => rfl
  have hrows : (chunks.map DocumentChunk.toJson).mapM (loadedChunk e) = .ok chunks := by
    induction chunks with
    | nil => rfl
    | cons c chunks ih =>
      rw [List.map_cons, List.mapM_cons, hrow, ih]
      rfl
  show (do
    let rows ← iterate e (.arr (chunks.map DocumentChunk.toJson))
    rows.mapM (loadedChunk e)) = .ok chunks
  rw [iterate_arr]
  exact hrows

theorem keys_some_path {V : Type} (row : Fingerprint → V) :
    Dict.keys (sources.map fun s => (some s.path, row s)) =
      (sources.map Fingerprint.path).map some := by
  rw [Dict.keys, List.map_map, List.map_map]
  rfl

theorem nodup_some_path {V : Type} {row : Fingerprint → V}
    (hnodup : (sources.map Fingerprint.path).Nodup) :
    (Dict.keys (sources.map fun s => (some s.path, row s))).Nodup := by
  rw [keys_some_path]
  exact hnodup.map (Option.some_injective Str)

theorem indexed_sources (hnodup : (sources.map Fingerprint.path).Nodup) :
    indexed (sources.map Fingerprint.toJson) =
      .ok (sources.map fun s => (some s.path, s.toJson)) := by
  have hfold : ∀ d : Dict (Option Str) Json,
      (sources.map Fingerprint.toJson).foldlM (fun d s => do
        let path ← subscript s "path"
        let k ← dictKey path
        return d.set k s) d =
          (.ok (d.update (sources.map fun s => (some s.path, s.toJson))) : Except Exc _) := by
    induction sources with
    | nil => exact fun d => rfl
    | cons s sources ih =>
      exact fun d => ih (List.nodup_cons.mp hnodup).2 (d.set (some s.path) s.toJson)
  have happend : Dict.update [] (sources.map fun s => (some s.path, s.toJson)) =
      sources.map fun s => (some s.path, s.toJson) :=
    Dict.update_eq_append (nodup_some_path hnodup)
  rw [indexed, hfold, happend]

theorem current_sources (hnodup : (sources.map Fingerprint.path).Nodup) :
    current sources = sources.map fun s => (some s.path, s) := by
  have hfold : current sources = Dict.update [] (sources.map fun s => (some s.path, s)) := by
    unfold current Dict.update
    rw [List.foldl_map]
  rw [hfold]
  exact Dict.update_eq_append (nodup_some_path hnodup)

/-! ## Freshness -/

theorem eqFingerprint_toJson {s s' : Fingerprint} (h : eqFingerprint e s.toJson s' = true) :
    s = s' := by
  have hfields : (s.path == s'.path && decide (s.mtimeNs = s'.mtimeNs) &&
      decide ((s.size : Int) = s'.size)) = true := h
  rw [Bool.and_eq_true, Bool.and_eq_true, beq_iff_eq, decide_eq_true_eq, decide_eq_true_eq]
    at hfields
  obtain ⟨⟨hpath, htime⟩, hsize⟩ := hfields
  obtain ⟨path, mtimeNs, size⟩ := s
  obtain ⟨path', mtimeNs', size'⟩ := s'
  simp only [Fingerprint.mk.injEq]
  exact ⟨hpath, htime, Int.ofNat_inj.mp hsize⟩

/-- The two dictionaries are equal only if they have the same fingerprints. -/
theorem mem_of_sameSources {sources' : List Fingerprint}
    (hnodup' : (sources'.map Fingerprint.path).Nodup)
    (h : sameSources e (sources.map fun s => (some s.path, s.toJson)) (current sources') = true) :
    sources.length = sources'.length ∧ ∀ s ∈ sources, s ∈ sources' := by
  rw [current_sources hnodup', sameSources, Bool.and_eq_true, beq_iff_eq, List.length_map,
    List.length_map, List.all_eq_true] at h
  refine ⟨h.1, ?_⟩
  intro s hs
  have hrow := h.2 (some s.path, s.toJson) (List.mem_map_of_mem hs)
  cases hget : Dict.get? (sources'.map fun s => (some s.path, s)) (some s.path) with
  | none =>
    simp only [hget] at hrow
    cases hrow
  | some s' =>
    simp only [hget] at hrow
    obtain ⟨s₀, hs₀, hs'⟩ := List.mem_map.mp (Dict.mem_of_get? hget)
    rw [eqFingerprint_toJson hrow, ← (Prod.mk.inj hs').2]
    exact hs₀

theorem indexIsFresh_indexPayload
    (h : indexIsFresh e (indexPayload chunkChars knowledgeDir builtAt sources chunks) t
      chunkChars' =
      .ok true) (hnodup : (sources.map Fingerprint.path).Nodup) :
    chunkChars = chunkChars' ∧ ∃ sources', collectSourceFingerprints t = .ok sources' ∧
      sameSources e (sources.map fun s => (some s.path, s.toJson)) (current sources') = true := by
  have hunfold : indexIsFresh e (indexPayload chunkChars knowledgeDir builtAt sources chunks) t
      chunkChars' =
      if decide (indexVersion = indexVersion) && decide (chunkChars = chunkChars') then do
        let rows ← iterate e (.arr (sources.map Fingerprint.toJson))
        let d ← indexed rows
        let fps ← collectSourceFingerprints t
        return sameSources e d (current fps)
      else return false := rfl
  rw [hunfold] at h
  split_ifs at h with hsame
  · rw [Bool.and_eq_true, decide_eq_true_eq, decide_eq_true_eq] at hsame
    refine ⟨hsame.2, ?_⟩
    rw [iterate_arr] at h
    change (do
      let d ← indexed (sources.map Fingerprint.toJson)
      let fps ← collectSourceFingerprints t
      return sameSources e d (current fps)) = .ok true at h
    rw [indexed_sources hnodup] at h
    cases hfps : collectSourceFingerprints t with
    | error x =>
      rw [hfps] at h
      cases h
    | ok fps =>
      rw [hfps] at h
      exact ⟨fps, rfl, Except.ok.inj h⟩
  · cases h

theorem loadSlow_ne {x : Loaded} (h : loadSlow t chunkChars = .ok x) : x.fromIndex = false := by
  unfold loadSlow at h
  cases hchunks : chunksFromRoot t chunkChars with
  | error y =>
    rw [hchunks] at h
    cases h
  | ok chunks =>
    rw [hchunks] at h
    rw [← Except.ok.inj h]

/-- Chunks that come from the index come from the `try` block. -/
theorem load_fromIndex {index : Option Bytes} (h : load e index t chunkChars = .ok ⟨chunks, true⟩) :
    ∃ bytes, index = some bytes ∧ fromIndex e bytes t chunkChars = .ok (some chunks) := by
  have hslow : loadSlow t chunkChars ≠ .ok ⟨chunks, true⟩ := by
    intro hslow
    exact absurd (loadSlow_ne hslow) (by simp)
  unfold load at h
  split_ifs at h with hdir
  · cases index with
    | none => exact absurd h hslow
    | some bytes =>
      refine ⟨bytes, rfl, ?_⟩
      cases hfrom : fromIndex e bytes t chunkChars with
      | error x =>
        simp only [hfrom] at h
        split_ifs at h
        exact absurd h hslow
      | ok found =>
        simp only [hfrom] at h
        cases found with
        | none => exact absurd h hslow
        | some chunks' =>
          have hchunks : chunks' = chunks := by
            simpa using h
          rw [hchunks]
  · cases h

/-- The chunks of an accepted index are those that were put into it, and so are
the fingerprints, which are equal to those of the folder. -/
theorem load_accepts {bytes : Bytes} (hnodup : (sources.map Fingerprint.path).Nodup)
    (hfile : indexFile e (indexPayload chunkChars knowledgeDir builtAt sources chunks) = .ok bytes)
    (hload : load e (some bytes) t chunkChars' = .ok ⟨chunks', true⟩) :
    chunkChars = chunkChars' ∧ chunks = chunks' ∧ ∃ sources',
      collectSourceFingerprints t = .ok sources' ∧
      sameSources e (sources.map fun s => (some s.path, s.toJson)) (current sources') = true := by
  obtain ⟨text, hread, hloads⟩ := loads_indexFile hfile
  obtain ⟨bytes', hbytes, hfrom⟩ := load_fromIndex hload
  rw [← Option.some.inj hbytes, fromIndex, hread] at hfrom
  change (do
    let payload ← (Json.loads e.jsonDepth text).mapError loadExc
    if ← indexIsFresh e payload t chunkChars' then
      let chunks ← loadedChunks e payload
      return some chunks
    else return none) = .ok (some chunks') at hfrom
  rw [hloads] at hfrom
  change (do
    if ← indexIsFresh e (indexPayload chunkChars knowledgeDir builtAt sources chunks) t
        chunkChars' then
      let chunks ← loadedChunks e (indexPayload chunkChars knowledgeDir builtAt sources chunks)
      return some chunks
    else return none) = .ok (some chunks') at hfrom
  rw [loadedChunks_indexPayload] at hfrom
  cases hfresh : indexIsFresh e (indexPayload chunkChars knowledgeDir builtAt sources chunks) t
      chunkChars' with
  | error x =>
    rw [hfresh] at hfrom
    cases hfrom
  | ok fresh =>
    rw [hfresh] at hfrom
    cases fresh with
    | false => cases hfrom
    | true =>
      obtain ⟨hchars, hsources⟩ := indexIsFresh_indexPayload hfresh hnodup
      exact ⟨hchars, Option.some.inj (Except.ok.inj hfrom), hsources⟩

end AiPipelines.Knowledge

import AiPipelines.Knowledge.Index
import AiPipelines.Knowledge.LoadSafe
import AiPipelines.Knowledge.SplitText
import AiPipelines.PyStd.Raise

/-!
# The vector index and the chunks

`VectorKnowledgeStore.rebuild` of `server/app/db/vector_store.py` puts the documents of
`build_vector_documents` into a collection, in batches.  It strips each text and drops the
documents whose text is blank; `KnowledgeBase.load` keeps all the chunks.

The collection stores what it is given, so the two indexes can differ in blank chunks
only, and `same_chunks_iff` says for which folders there are any.
-/

namespace AiPipelines.Retrieval

open PyStd Knowledge

/-! ## The store -/

/-- What the collection keeps of a document. -/
structure VectorRow where
  docId : Str
  text : Str
  source : Str
  deriving Repr, DecidableEq

/-- `VectorKnowledgeStore`, with what its collection holds. -/
structure VectorKnowledgeStore where
  available : Bool
  docCount : Nat
  collection : List VectorRow
  deriving Repr, DecidableEq

/-- The loop over the documents, which are given by id, source and text. -/
def documentRow (document : Str × Str × Str) : Option VectorRow :=
  let text := strip document.2.2
  if text = [] then none else some ⟨document.1, text, document.2.1⟩

/-- What the collection holds after `collection.add` for one batch after the other. -/
def addBatches (batchSize : Nat) (rows : List VectorRow) : List VectorRow :=
  ((List.range ((rows.length + batchSize - 1) / batchSize)).map (slice batchSize rows)).flatten

/-- `VectorKnowledgeStore.rebuild`.  `connects` says whether `connect` does, and the
collection is empty then. -/
def VectorKnowledgeStore.rebuild (s : VectorKnowledgeStore) (connects : Bool)
    (documents : List (Str × Str × Str)) (batchSize : Nat := 32) : VectorKnowledgeStore × Nat :=
  if connects then
    let rows := documents.filterMap documentRow
    (⟨true, rows.length, addBatches batchSize rows⟩, rows.length)
  else (s, 0)

/-- What `build_vector_documents` makes of a chunk. -/
def chunkDocument (c : DocumentChunk) : Str × Str × Str := (c.docId, c.source, c.text)

/-- `build_vector_documents`. -/
def buildVectorDocuments (commerceDocs : List (Str × Str × Str)) (t : Tree) (chunkChars : Int) :
    Except Exc (List (Str × Str × Str)) :=
  (chunksFromRoot t chunkChars).map fun chunks => commerceDocs ++ chunks.map chunkDocument

theorem addBatches_eq {batchSize : Nat} (h : 0 < batchSize) (rows : List VectorRow) :
    addBatches batchSize rows = rows := by
  unfold addBatches
  exact flatten_all_slices h rows

/-! ## The chunks of a folder -/

variable {t : Tree} {n : Nat}

/-- The text of a file, as it is cut. -/
def fileText (f : File) : Str := strip (readTextReplace f.content)

/-- The chunks of a file from its pieces. -/
def pieceChunks (path : Str) (pieces : List Str) : List DocumentChunk :=
  pieces.zipIdx.map fun p =>
    { docId := path ++ '#' :: Nat.toDigits 10 p.2, text := p.1, source := path }

theorem readChunks_eq_ok (hn : 0 < n) {path : Str} {cs : List DocumentChunk}
    (h : readChunks n t path = .ok cs) :
    ∃ f pieces, t.files.get? path = some f ∧ Split n (fileText f) pieces ∧
      cs = pieceChunks path pieces := by
  unfold readChunks at h
  cases hf : t.files.get? path with
  | none =>
    rw [hf] at h
    cases h
  | some f =>
    rw [hf] at h
    obtain ⟨pieces, hpieces, hsplit⟩ := splitText_split hn (fileText f)
    unfold fileChunks at h
    dsimp only at h
    split_ifs at h with hnil
    · refine ⟨f, [], rfl, ?_, (Except.ok.inj h).symm⟩
      rw [show fileText f = [] from hnil]
      exact ⟨nofun, nofun, rfl,
        iff_of_false (by simp) (by simp [paragraphs, splitFrom, strip, lstrip, rstrip])⟩
    · rw [show splitText (strip (readTextReplace f.content)) n = .ok pieces from hpieces] at h
      exact ⟨f, pieces, rfl, hsplit, (Except.ok.inj h).symm⟩

theorem mem_pieceChunks {path : Str} {pieces : List Str} {c : DocumentChunk}
    (h : c ∈ pieceChunks path pieces) :
    c.text ∈ pieces ∧ ∃ i, c.docId = path ++ '#' :: Nat.toDigits 10 i := by
  obtain ⟨p, hp, rfl⟩ := List.mem_map.1 h
  exact ⟨List.fst_mem_of_mem_zipIdx hp, p.2, rfl⟩

theorem pieceChunks_blank_iff {path : Str} {pieces : List Str} :
    (∃ c ∈ pieceChunks path pieces, c.text = []) ↔ ∃ p ∈ pieces, p = [] := by
  constructor
  · intro h
    obtain ⟨c, hc, hnil⟩ := h
    exact ⟨c.text, (mem_pieceChunks hc).1, hnil⟩
  · intro h
    obtain ⟨p, hp, hnil⟩ := h
    obtain ⟨i, hi, rfl⟩ := List.getElem_of_mem hp
    have hmem : (pieces[i], i) ∈ pieces.zipIdx :=
      List.mem_zipIdx_iff_getElem?.2 (List.getElem?_eq_getElem hi)
    exact ⟨_, List.mem_map_of_mem hmem, hnil⟩

/-- A path and a number can be read off an id. -/
theorem docId_injective {p q : Str} {i j : Nat}
    (h : p ++ '#' :: Nat.toDigits 10 i = q ++ '#' :: Nat.toDigits 10 j) : p = q ∧ i = j := by
  have hdigit : ∀ k, ∀ c ∈ (Nat.toDigits 10 k).reverse, decide (c ≠ '#') = true := by
    intro k c hc
    have := Nat.isDigit_of_mem_toDigits (by decide) (by decide) (List.mem_reverse.1 hc)
    rw [decide_eq_true_eq]
    intro heq
    rw [heq] at this
    exact absurd this (by decide)
  have hrev := congrArg List.reverse h
  simp only [List.reverse_append, List.reverse_cons, List.append_assoc, List.singleton_append]
    at hrev
  -- the digits end at the last hash
  have hi : (Nat.toDigits 10 i).reverse = (Nat.toDigits 10 j).reverse := by
    have htake := congrArg (List.takeWhile fun c => decide (c ≠ '#')) hrev
    rw [List.takeWhile_append_of_pos (hdigit i), List.takeWhile_append_of_pos (hdigit j)] at htake
    simpa using htake
  rw [hi] at hrev
  have hp := (List.cons.inj (List.append_cancel_left hrev)).2
  refine ⟨List.reverse_inj.1 hp, ?_⟩
  calc i = Nat.ofDigitChars 10 (Nat.toDigits 10 i) 0 := Nat.ofDigitChars_ten_toDigits.symm
    _ = Nat.ofDigitChars 10 (Nat.toDigits 10 j) 0 := by rw [List.reverse_inj.1 hi]
    _ = j := Nat.ofDigitChars_ten_toDigits

theorem pieceChunks_nodup (path : Str) (pieces : List Str) :
    ((pieceChunks path pieces).map DocumentChunk.docId).Nodup := by
  unfold pieceChunks
  rw [List.map_map]
  have hmap : pieces.zipIdx.map
      (DocumentChunk.docId ∘ fun p =>
        (⟨path ++ '#' :: Nat.toDigits 10 p.2, p.1, path⟩ : DocumentChunk)) =
        (pieces.zipIdx.map Prod.snd).map fun i => path ++ '#' :: Nat.toDigits 10 i := by
    rw [List.map_map]
    rfl
  rw [hmap, List.zipIdx_map_snd]
  have hrange : (List.range' 0 pieces.length).Nodup := List.nodup_range'
  exact hrange.map fun i j hij => (docId_injective hij).2

/-- A file has a paragraph that is cut inside of a run of blanks. -/
def BlankSliceIn (t : Tree) (n : Nat) (path : Str) : Prop :=
  ∃ f, t.files.get? path = some f ∧ ∃ para ∈ paragraphs (fileText f), HasBlankSlice n para

/-- What is known of the chunks of some files. -/
structure ChunksOf (t : Tree) (n : Nat) (paths : List Str) (chunks : List DocumentChunk) :
    Prop where
  nodup : (chunks.map DocumentChunk.docId).Nodup
  stripped : ∀ c ∈ chunks, strip c.text = c.text
  blank : (∃ c ∈ chunks, c.text = []) ↔ ∃ path ∈ paths, BlankSliceIn t n path
  ids : ∀ c ∈ chunks, ∃ path ∈ paths, ∃ i, c.docId = path ++ '#' :: Nat.toDigits 10 i

theorem ChunksOf.nil (t : Tree) (n : Nat) : ChunksOf t n [] [] where
  nodup := List.nodup_nil
  stripped := nofun
  blank := by simp
  ids := nofun

/-- One more file in front. -/
theorem ChunksOf.cons (hn : 0 < n) {path : Str} {paths : List Str} {cs chunks : List DocumentChunk}
    (hread : readChunks n t path = .ok cs) (hpath : path ∉ paths) (h : ChunksOf t n paths chunks) :
    ChunksOf t n (path :: paths) (cs ++ chunks) := by
  obtain ⟨f, pieces, hf, hsplit, rfl⟩ := readChunks_eq_ok hn hread
  refine ⟨?_, ?_, ?_, ?_⟩
  · rw [List.map_append, List.nodup_append]
    refine ⟨pieceChunks_nodup path pieces, h.nodup, ?_⟩
    intro a ha b hb heq
    obtain ⟨c, hc, rfl⟩ := List.mem_map.1 ha
    obtain ⟨d, hd, rfl⟩ := List.mem_map.1 hb
    obtain ⟨-, i, hi⟩ := mem_pieceChunks hc
    obtain ⟨q, hq, j, hj⟩ := h.ids d hd
    rw [hi, hj] at heq
    exact hpath ((docId_injective heq).1 ▸ hq)
  · intro c hc
    rcases List.mem_append.1 hc with hc | hc
    · exact hsplit.stripped c.text (mem_pieceChunks hc).1
    · exact h.stripped c hc
  · have hfile : (∃ c ∈ pieceChunks path pieces, c.text = []) ↔ BlankSliceIn t n path := by
      rw [pieceChunks_blank_iff, hsplit.blank]
      unfold BlankSliceIn
      rw [hf]
      simp
    simp only [List.mem_append, or_and_right, exists_or, List.mem_cons, exists_eq_left, hfile,
      h.blank]
  · intro c hc
    rcases List.mem_append.1 hc with hc | hc
    · obtain ⟨-, i, hi⟩ := mem_pieceChunks hc
      exact ⟨path, List.mem_cons_self, i, hi⟩
    · obtain ⟨q, hq, hid⟩ := h.ids c hc
      exact ⟨q, List.mem_cons_of_mem path hq, hid⟩

theorem chunksOf_flatten (hn : 0 < n) {paths : List Str} {css : List (List DocumentChunk)}
    (h : List.Forall₂ (fun path cs => readChunks n t path = .ok cs) paths css)
    (hnodup : paths.Nodup) : ChunksOf t n paths css.flatten := by
  induction h with
  | nil => exact ChunksOf.nil t n
  | cons hread _ ih =>
    rw [List.nodup_cons] at hnodup
    exact (ih hnodup.2).cons hn hread hnodup.1

theorem chunksFromRoot_chunksOf (hn : 0 < n) {chunks : List DocumentChunk}
    (h : chunksFromRoot t n = .ok chunks) : ChunksOf t n (discover t) chunks := by
  unfold chunksFromRoot at h
  cases hread : (discover t).mapM (readChunks n t) with
  | error x =>
    rw [hread] at h
    cases h
  | ok css =>
    rw [hread] at h
    rw [← Except.ok.inj h]
    exact chunksOf_flatten hn (mapM_eq_ok_iff.1 hread) (discover_nodup t)

/-! ## The two indexes -/

/-- The collection holds the commerce documents and then each chunk once, with its text,
and no chunk is blank. -/
structure SameChunks (commerceDocs : List (Str × Str × Str)) (chunks : List DocumentChunk)
    (collection : List VectorRow) : Prop where
  not_blank : ∀ c ∈ chunks, c.text ≠ []
  nodup : (chunks.map DocumentChunk.docId).Nodup
  rows : collection.map (fun r => (r.docId, r.text)) =
    (commerceDocs.filterMap documentRow).map (fun r => (r.docId, r.text)) ++
      chunks.map fun c => (c.docId, c.text)

theorem documentRow_chunk {c : DocumentChunk} (hstrip : strip c.text = c.text) (hne : c.text ≠ []) :
    documentRow (chunkDocument c) = some ⟨c.docId, c.text, c.source⟩ := by
  unfold documentRow chunkDocument
  dsimp only
  rw [hstrip, if_neg hne]

theorem rows_of_chunks {chunks : List DocumentChunk} (hstrip : ∀ c ∈ chunks, strip c.text = c.text)
    (hne : ∀ c ∈ chunks, c.text ≠ []) :
    ((chunks.map chunkDocument).filterMap documentRow).map (fun r => (r.docId, r.text)) =
      chunks.map fun c => (c.docId, c.text) := by
  induction chunks with
  | nil => rfl
  | cons c chunks ih =>
    rw [List.forall_mem_cons] at hstrip hne
    rw [List.map_cons, List.filterMap_cons_some (documentRow_chunk hstrip.1 hne.1), List.map_cons,
      List.map_cons, ih hstrip.2 hne.2]

/-- No file has a long paragraph with a blank slice. -/
def NoBlankSlice (t : Tree) (chunkChars : Int) : Prop :=
  ∀ path ∈ discover t, ¬ BlankSliceIn t chunkChars.toNat path

/-- The knowledge base loads the folder and the vector store is rebuilt from it.  They hold
the same chunks exactly if no file has a long paragraph with a blank slice. -/
theorem same_chunks_iff (e : Interp) (s : VectorKnowledgeStore)
    (commerceDocs : List (Str × Str × Str)) (t : Tree) {chunkChars : Int} (h : 1 ≤ chunkChars) :
    ∃ chunks docs, load e none t chunkChars = .ok ⟨chunks, false⟩ ∧
      buildVectorDocuments commerceDocs t chunkChars = .ok docs ∧
      (SameChunks commerceDocs chunks (s.rebuild true docs).1.collection ↔
        NoBlankSlice t chunkChars) := by
  obtain ⟨n, rfl⟩ := Int.eq_ofNat_of_zero_le (by omega : 0 ≤ chunkChars)
  have hn : 0 < n := by omega
  obtain ⟨chunks, hchunks⟩ := chunksFromRoot_returns t h
  have hof := chunksFromRoot_chunksOf hn hchunks
  refine ⟨chunks, commerceDocs ++ chunks.map chunkDocument, ?_, ?_, ?_⟩
  · unfold load
    cases hdir : t.isDir with
    | true => exact loadSlow_eq hchunks
    | false =>
      rw [chunksFromRoot_no_dir hdir] at hchunks
      rw [← Except.ok.inj hchunks]
      rfl
  · unfold buildVectorDocuments
    rw [hchunks]
    rfl
  · have hblank : NoBlankSlice t n ↔ ∀ c ∈ chunks, c.text ≠ [] := by
      have hiff := not_congr hof.blank
      push Not at hiff
      exact hiff.symm
    rw [hblank]
    constructor
    · intro hsame
      exact hsame.not_blank
    · intro hne
      refine ⟨hne, hof.nodup, ?_⟩
      show (addBatches 32 ((commerceDocs ++ chunks.map chunkDocument).filterMap documentRow)).map
        _ = _
      rw [addBatches_eq (by decide), List.filterMap_append, List.map_append,
        rows_of_chunks hof.stripped hne]

/-- A store without a collection. -/
def emptyStore : VectorKnowledgeStore := ⟨false, 0, []⟩

theorem demoTree_same_chunks :
    ∃ chunks docs, load demoInterp none demoTree 600 = .ok ⟨chunks, false⟩ ∧
      buildVectorDocuments [] demoTree 600 = .ok docs ∧
      SameChunks [] chunks (emptyStore.rebuild true docs).1.collection := by
  obtain ⟨chunks, docs, hload, hdocs, hiff⟩ :=
    same_chunks_iff demoInterp emptyStore [] demoTree (by decide : (1 : Int) ≤ 600)
  refine ⟨chunks, docs, hload, hdocs, hiff.2 ?_⟩
  intro path hpath hblank
  rw [show discover demoTree = ["a.md".toList] by decide +kernel] at hpath
  obtain rfl := List.mem_singleton.1 hpath
  obtain ⟨f, hf, para, hpara, hlong, -⟩ := hblank
  obtain rfl : ⟨1, writeText "old"⟩ = f := Option.some.inj hf
  rw [show paragraphs (fileText ⟨1, writeText "old"⟩) = ["old".toList] by decide +kernel] at hpara
  rw [List.mem_singleton.1 hpara] at hlong
  exact absurd hlong (by decide)

/-- A folder with one file, whose only paragraph has a gap of six blanks. -/
def gapTree : Tree where
  isDir := true
  files := [("a.md", ⟨1, writeText "ab      cd"⟩)]
  nodup := List.nodup_singleton _
  isDir_of_mem := fun _ _ => rfl

/-- The chunks of at most four characters. -/
def gapChunks : List DocumentChunk :=
  [⟨"a.md#0", "ab", "a.md"⟩, ⟨"a.md#1", "", "a.md"⟩, ⟨"a.md#2", "cd", "a.md"⟩]

/-- The second chunk is blank, and only the other two get into the collection. -/
theorem gapTree_drops_chunk :
    load demoInterp none gapTree 4 = .ok ⟨gapChunks, false⟩ ∧
      buildVectorDocuments [] gapTree 4 = .ok (gapChunks.map chunkDocument) ∧
      ((emptyStore.rebuild true (gapChunks.map chunkDocument)).1.collection.map VectorRow.docId) =
        ["a.md#0".toList, "a.md#2".toList] ∧
      ¬ SameChunks [] gapChunks
        (emptyStore.rebuild true (gapChunks.map chunkDocument)).1.collection := by
  refine ⟨by decide +kernel, by decide +kernel, by decide +kernel, ?_⟩
  intro h
  exact h.not_blank ⟨"a.md#1", "", "a.md"⟩ (by decide) rfl

end AiPipelines.Retrieval

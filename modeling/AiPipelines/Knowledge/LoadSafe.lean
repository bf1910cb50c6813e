import AiPipelines.Knowledge.FreshLoad
import AiPipelines.Knowledge.SplitText

/-!
# Loading with any index file

`KnowledgeBase.load` of `server/app/agent/rag.py` takes the chunks from the index file if
that is fresh, and should cut the files anew whatever else the file holds.  Its `except`
clause names four exceptions.

`indexIsFresh_raises` and `loadedChunks_raises` say that a dictionary of any shape leads to
no others.  What is left are the files that never get that far: bytes that are no UTF-8,
numbers and nestings that the interpreter refuses, and values that are no dictionaries.
`load_safe_iff` puts this together.
-/

namespace AiPipelines.Knowledge

open PyStd

variable {e : Interp} {t : Tree} {chunkChars : Int}

/-! ## The folder can be cut -/

theorem fileChunks_returns (h : 1 ≤ chunkChars) (path : Str) (content : Bytes) :
    Returns (fileChunks chunkChars path content) := by
  obtain ⟨n, rfl⟩ := Int.eq_ofNat_of_zero_le (by omega : 0 ≤ chunkChars)
  unfold fileChunks
  dsimp only
  split_ifs
  · exact returns_ok []
  · obtain ⟨out, hout, -⟩ := splitText_split (by omega : 0 < n) (strip (readTextReplace content))
    rw [hout]
    exact ⟨_, rfl⟩

theorem chunksFromRoot_returns (t : Tree) (h : 1 ≤ chunkChars) :
    Returns (chunksFromRoot t chunkChars) := by
  have hread : Returns ((discover t).mapM (readChunks chunkChars t)) := by
    rw [returns_mapM]
    intro path hpath
    obtain ⟨f, hf⟩ := Option.isSome_iff_exists.1 (mem_discover.1 hpath).2
    unfold readChunks
    rw [hf]
    exact fileChunks_returns h path f.content
  obtain ⟨css, hcss⟩ := hread
  unfold chunksFromRoot
  rw [hcss]
  exact ⟨_, rfl⟩

/-! ## What a dictionary leads to -/

/-- The code raises nothing that `load` does not catch. -/
abbrev OnlyCaught {α : Type} (x : Except Exc α) : Prop :=
  OnlyRaises (fun err => err.caught = true) x

theorem iterate_raises (e : Interp) (v : Json) : OnlyCaught (iterate e v) := by
  unfold iterate
  split_ifs
  · cases v with
    | arr xs => exact onlyRaises_ok _
    | obj kvs => exact onlyRaises_ok _
    | str s => exact onlyRaises_ok _
    | null => exact onlyRaises_error rfl
    | bool b => exact onlyRaises_error rfl
    | int n => exact onlyRaises_error rfl
    | float l => exact onlyRaises_error rfl
  · exact onlyRaises_ok _

theorem subscript_raises (v : Json) (k : Str) : OnlyCaught (subscript v k) := by
  unfold subscript
  cases v with
  | obj kvs =>
    dsimp only
    cases Dict.get? kvs k with
    | some x => exact onlyRaises_ok _
    | none => exact onlyRaises_error rfl
  | arr xs => exact onlyRaises_error rfl
  | str s => exact onlyRaises_error rfl
  | null => exact onlyRaises_error rfl
  | bool b => exact onlyRaises_error rfl
  | int n => exact onlyRaises_error rfl
  | float l => exact onlyRaises_error rfl

theorem dictKey_raises (v : Json) : OnlyCaught (dictKey v) := by
  cases v with
  | arr xs => exact onlyRaises_error rfl
  | obj kvs => exact onlyRaises_error rfl
  | str s => exact onlyRaises_ok _
  | null => exact onlyRaises_ok _
  | bool b => exact onlyRaises_ok _
  | int n => exact onlyRaises_ok _
  | float l => exact onlyRaises_ok _

theorem indexed_raises (sources : List Json) : OnlyCaught (indexed sources) :=
  onlyRaises_foldlM (fun _ s _ => onlyRaises_bind (subscript_raises s "path") fun path _ =>
    onlyRaises_bind (dictKey_raises path) fun _ _ => onlyRaises_pure _) []

theorem collectSourceFingerprints_raises (t : Tree) : OnlyCaught (collectSourceFingerprints t) := by
  refine onlyRaises_mapM fun path _ => ?_
  unfold statFile
  cases t.files.get? path with
  | none => exact onlyRaises_error rfl
  | some f => exact onlyRaises_ok _

/-- The check of a dictionary. -/
theorem indexIsFresh_raises (e : Interp) (kvs : List (Str × Json)) (t : Tree) (chunkChars : Int) :
    OnlyCaught (indexIsFresh e (.obj kvs) t chunkChars) := by
  unfold indexIsFresh
  refine onlyRaises_bind (onlyRaises_ok _) fun version _ => ?_
  refine onlyRaises_bind (onlyRaises_ok _) fun chars _ => ?_
  split_ifs
  · refine onlyRaises_bind (onlyRaises_ok _) fun v _ => ?_
    refine onlyRaises_bind (iterate_raises e v) fun sources _ => ?_
    refine onlyRaises_bind (indexed_raises sources) fun d _ => ?_
    exact onlyRaises_bind (collectSourceFingerprints_raises t) fun fps _ => onlyRaises_pure _
  · exact onlyRaises_pure _

theorem loadedChunk_raises (e : Interp) (c : Json) : OnlyCaught (loadedChunk e c) := by
  unfold loadedChunk
  refine onlyRaises_bind (subscript_raises c "doc_id") fun docId _ => ?_
  refine onlyRaises_bind (subscript_raises c "text") fun text _ => ?_
  exact onlyRaises_bind (subscript_raises c "source") fun source _ => onlyRaises_pure _

/-- The chunks of a dictionary. -/
theorem loadedChunks_raises (e : Interp) (kvs : List (Str × Json)) :
    OnlyCaught (loadedChunks e (.obj kvs)) := by
  unfold loadedChunks
  refine onlyRaises_bind (onlyRaises_ok _) fun v _ => ?_
  exact onlyRaises_bind (iterate_raises e v) fun rows _ =>
    onlyRaises_mapM fun c _ => loadedChunk_raises e c

/-! ## The file -/

/-- The file is text that is either no JSON or a dictionary. -/
def Readable (e : Interp) (bytes : Bytes) : Prop :=
  ∃ text, readText bytes = some text ∧
    (Json.loads e.jsonDepth text = .error .decode ∨
      ∃ kvs, Json.loads e.jsonDepth text = .ok (.obj kvs))

/-- The chunks come from the index, which was accepted, or they are those of the folder. -/
def LoadsOne (e : Interp) (index : Option Bytes) (t : Tree) (chunkChars : Int) : Prop :=
  ∃ l, load e index t chunkChars = .ok l ∧
    ((l.fromIndex = true ∧
        ∃ bytes, index = some bytes ∧ fromIndex e bytes t chunkChars = .ok (some l.chunks)) ∨
      (l.fromIndex = false ∧ chunksFromRoot t chunkChars = .ok l.chunks))

theorem fromIndex_raises {bytes : Bytes} (h : Readable e bytes) :
    OnlyCaught (fromIndex e bytes t chunkChars) := by
  obtain ⟨text, htext, hjson⟩ := h
  unfold fromIndex
  rw [htext]
  refine onlyRaises_bind (onlyRaises_ok text) fun text' htext' => ?_
  obtain rfl : text = text' := Except.ok.inj htext'
  rcases hjson with hdecode | ⟨kvs, hobj⟩
  · rw [hdecode]
    exact onlyRaises_bind (onlyRaises_error rfl) fun payload hpayload => by cases hpayload
  · rw [hobj]
    refine onlyRaises_bind (onlyRaises_ok (Json.obj kvs)) fun payload hpayload => ?_
    obtain rfl : Json.obj kvs = payload := Except.ok.inj hpayload
    refine onlyRaises_bind (indexIsFresh_raises e kvs t chunkChars) fun fresh _ => ?_
    split_ifs
    · exact onlyRaises_bind (loadedChunks_raises e kvs) fun chunks _ => onlyRaises_pure _
    · exact onlyRaises_pure _

theorem indexIsFresh_not_obj {payload : Json} (h : ∀ kvs, payload ≠ .obj kvs) :
    indexIsFresh e payload t chunkChars = .error .attribute := by
  cases payload with
  | obj kvs => exact absurd rfl (h kvs)
  | arr xs => rfl
  | str s => rfl
  | null => rfl
  | bool b => rfl
  | int n => rfl
  | float l => rfl

theorem fromIndex_not_readable (t : Tree) (chunkChars : Int) {bytes : Bytes}
    (h : ¬ Readable e bytes) :
    ∃ x, fromIndex e bytes t chunkChars = .error x ∧ x.caught = false := by
  unfold fromIndex
  cases htext : readText bytes with
  | none => exact ⟨.value, rfl, rfl⟩
  | some text =>
    cases hjson : Json.loads e.jsonDepth text with
    | error err =>
      cases err with
      | decode => exact absurd ⟨text, htext, .inl hjson⟩ h
      | recursion =>
        refine ⟨.recursion, ?_, rfl⟩
        show ((Json.loads e.jsonDepth text).mapError loadExc >>= _) = _
        rw [hjson]
        rfl
      | intDigits =>
        refine ⟨.value, ?_, rfl⟩
        show ((Json.loads e.jsonDepth text).mapError loadExc >>= _) = _
        rw [hjson]
        rfl
    | ok payload =>
      have hobj : ∀ kvs, payload ≠ .obj kvs := by
        intro kvs hkvs
        rw [hkvs] at hjson
        exact h ⟨text, htext, .inr ⟨kvs, hjson⟩⟩
      refine ⟨.attribute, ?_, rfl⟩
      show ((Json.loads e.jsonDepth text).mapError loadExc >>= _) = _
      rw [hjson]
      show (indexIsFresh e payload t chunkChars >>= _) = _
      rw [indexIsFresh_not_obj hobj]
      rfl

/-! ## Loading -/

theorem loadSlow_eq {chunks : List DocumentChunk} (h : chunksFromRoot t chunkChars = .ok chunks) :
    loadSlow t chunkChars = .ok ⟨chunks, false⟩ := by
  unfold loadSlow
  rw [h]
  rfl

/-- A folder that is not there has no chunks. -/
theorem chunksFromRoot_no_dir (h : t.isDir = false) : chunksFromRoot t chunkChars = .ok [] := by
  unfold chunksFromRoot discover
  rw [h]
  rfl

/-- `load` returns, with the chunks of an accepted index or with those of the folder,
exactly if there is no folder, no index file, or a readable one. -/
theorem load_safe_iff (e : Interp) (index : Option Bytes) (t : Tree) (h : 1 ≤ chunkChars) :
    LoadsOne e index t chunkChars ↔
      (t.isDir = true → ∀ bytes, index = some bytes → Readable e bytes) := by
  obtain ⟨chunks, hchunks⟩ := chunksFromRoot_returns t h
  have hslow := loadSlow_eq hchunks
  unfold LoadsOne load
  cases hdir : t.isDir with
  | false =>
    refine iff_of_true ⟨⟨[], false⟩, rfl, .inr ⟨rfl, ?_⟩⟩ nofun
    exact chunksFromRoot_no_dir hdir
  | true =>
    cases index with
    | none => exact iff_of_true ⟨_, hslow, .inr ⟨rfl, hchunks⟩⟩ nofun
    | some bytes =>
      dsimp only
      rw [if_pos rfl]
      by_cases hread : Readable e bytes
      · refine iff_of_true ?_ fun _ bytes' hbytes => Option.some.inj hbytes ▸ hread
        cases hindex : fromIndex e bytes t chunkChars with
        | error x =>
          dsimp only
          rw [fromIndex_raises hread x hindex]
          exact ⟨_, hslow, .inr ⟨rfl, hchunks⟩⟩
        | ok loaded =>
          cases loaded with
          | none => exact ⟨_, hslow, .inr ⟨rfl, hchunks⟩⟩
          | some cs => exact ⟨_, rfl, .inl ⟨rfl, bytes, rfl, hindex⟩⟩
      · refine iff_of_false ?_ fun hall => hread (hall rfl bytes rfl)
        obtain ⟨x, hx, hcaught⟩ := fromIndex_not_readable t chunkChars hread
        rw [hx]
        dsimp only
        rw [hcaught]
        intro hload
        obtain ⟨l, hl, -⟩ := hload
        cases hl

/-- An index that gives its sources as a number. -/
def oddSources : Str := "\x7b\"version\": 1, \"chunk_chars\": 600, \"sources\": 7\x7d"

theorem oddSources_passed : LoadsOne demoInterp (some (writeText oddSources)) demoTree 600 := by
  refine (load_safe_iff demoInterp _ demoTree (by decide)).2 fun _ bytes hbytes => ?_
  obtain rfl := Option.some.inj hbytes
  refine ⟨oddSources, readText_writeText (by decide), .inr ?_⟩
  exact ⟨[("version", .int 1), ("chunk_chars", .int 600), ("sources", .int 7)], by rfl⟩

/-- A list in the index file ends the start-up with an `AttributeError`, a byte that is no
UTF-8 with a `ValueError`. -/
theorem listIndex_raises :
    load demoInterp (some (writeText "[]")) demoTree 600 = .error .attribute ∧
      load demoInterp (some [0xff]) demoTree 600 = .error .value ∧
      ¬ LoadsOne demoInterp (some (writeText "[]")) demoTree 600 := by
  have hlist : load demoInterp (some (writeText "[]")) demoTree 600 = .error .attribute := by
    decide +kernel
  refine ⟨hlist, by decide +kernel, ?_⟩
  intro h
  obtain ⟨l, hl, -⟩ := h
  rw [hlist] at hl
  cases hl

end AiPipelines.Knowledge

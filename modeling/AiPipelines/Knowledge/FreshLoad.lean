import AiPipelines.Knowledge.Build
import AiPipelines.Knowledge.Fresh
import AiPipelines.PyStd.Raise

/-!
# An index that is accepted is the folder

The invariant of the runs in which no build is disturbed.  While a build reads,
what it has read is still in the folder, and it knows of every file (`Reading`);
so the second listing is the first one.  While it stamps, a file that is still to
be stamped has the content that was read (`Stamping`).  An index that is written
at the end has therefore the chunks and the fingerprints of the same versions of
the files (`GoodIndex`), and a folder with these fingerprints has these contents.

`fresh_load_faithful` is the result, and `late_edit_not_faithful` a run outside of
its condition.
-/

namespace AiPipelines.Knowledge

open PyStd Transition

/-! ## What a build knows -/

/-- What was read of a file: its path and its bytes. -/
def Version.content (v : Version) : Str × Bytes := (v.path, v.file.content)

def Version.fingerprint (v : Version) : Fingerprint := sourceFingerprint v.path v.file

/-- The chunks of the contents that were read. -/
def Cut (chunkChars : Int) (contents : List (Str × Bytes)) (chunks : List DocumentChunk) : Prop :=
  (contents.mapM fun pc => fileChunks chunkChars pc.1 pc.2).map List.flatten = .ok chunks

/-- The paths are those that a listing can give, in its order. -/
structure IsListing (paths : List Str) : Prop where
  sorted : paths.Pairwise pathLe
  nodup : paths.Nodup
  supported : ∀ path ∈ paths, supported path = true

/-- The first pass.  Every file of the folder was listed, and what was read is
still there. -/
structure Reading (t : Tree) (chunkChars : Int) (todo : List Str) (chunks : List DocumentChunk)
    (done : List (Str × Bytes)) : Prop where
  cut : Cut chunkChars done chunks
  listing : IsListing (done.map Prod.fst ++ todo)
  complete : ∀ path ∈ discover t, path ∈ done.map Prod.fst ++ todo
  there : ∀ pc ∈ done, (t.files.get? pc.1).map File.content = some pc.2

/-- The second pass.  A file that is still to be stamped has the content that was
read, if it is there. -/
structure Stamping (known : List Version) (t : Tree) (chunkChars : Int)
    (chunks : List DocumentChunk) (todo : List Str) (sources : List Fingerprint)
    (stamped : List Version) (rest : List (Str × Bytes)) : Prop where
  sources_eq : sources = stamped.map Version.fingerprint
  todo_eq : todo = rest.map Prod.fst
  cut : Cut chunkChars (stamped.map Version.content ++ rest) chunks
  listing : IsListing (stamped.map Version.path ++ rest.map Prod.fst)
  known : ∀ v ∈ stamped, v ∈ known
  there : ∀ pc ∈ rest, ∀ f, t.files.get? pc.1 = some f → f.content = pc.2

/-- The index was written with the chunks and the fingerprints of the same
versions. -/
def GoodIndex (e : Interp) (known : List Version) (bytes : Bytes) : Prop :=
  ∃ (chunkChars : Int) (knowledgeDir builtAt : Str) (chunks : List DocumentChunk)
    (stamped : List Version),
    indexFile e (indexPayload chunkChars knowledgeDir builtAt (stamped.map Version.fingerprint)
      chunks) = .ok bytes ∧
    Cut chunkChars (stamped.map Version.content) chunks ∧
    IsListing (stamped.map Version.path) ∧ ∀ v ∈ stamped, v ∈ known

/-- What holds in every state of an undisturbed run. -/
structure Inv (e : Interp) (known : List Version) (s : State) : Prop where
  tree : ∀ v ∈ s.tree.versions, v ∈ known
  builder : match s.builder with
    | .idle => True
    | .reading chunkChars todo chunks => ∃ done, Reading s.tree chunkChars todo chunks done
    | .stamping chunkChars chunks todo sources =>
      ∃ stamped rest, Stamping known s.tree chunkChars chunks todo sources stamped rest
  index : ∀ bytes, s.index = some bytes → GoodIndex e known bytes

variable {e : Interp} {known : List Version} {t : Tree} {chunkChars : Int}
  {chunks : List DocumentChunk}

/-! ## An accepted index -/

theorem mem_versions {path : Str} {f : File} (h : t.files.get? path = some f) :
    ⟨path, f⟩ ∈ t.versions :=
  List.mem_map.mpr ⟨(path, f), Dict.mem_of_get? h, rfl⟩

theorem statFile_eq_ok {path : Str} {s : Fingerprint} (h : statFile t path = .ok s) :
    ∃ f, t.files.get? path = some f ∧ s = sourceFingerprint path f := by
  unfold statFile at h
  cases hget : t.files.get? path with
  | none =>
    rw [hget] at h
    cases h
  | some f =>
    rw [hget] at h
    exact ⟨f, rfl, (Except.ok.inj h).symm⟩

theorem readChunks_of_get? {path : Str} {f : File} (h : t.files.get? path = some f) :
    readChunks chunkChars t path = fileChunks chunkChars path f.content := by
  rw [readChunks, h]

/-- The fingerprints of the folder are those of its files. -/
theorem mem_fingerprints {sources : List Fingerprint}
    (h : collectSourceFingerprints t = .ok sources) :
    sources.map Fingerprint.path = discover t ∧
      ∀ s ∈ sources, ∃ f, t.files.get? s.path = some f ∧ s = sourceFingerprint s.path f := by
  have hfiles := mapM_eq_ok_iff.mp h
  generalize discover t = paths at hfiles ⊢
  clear h
  induction hfiles with
  | nil => exact ⟨rfl, fun s hs => absurd hs List.not_mem_nil⟩
  | cons hs _ ih =>
    obtain ⟨f, hget, rfl⟩ := statFile_eq_ok hs
    obtain ⟨hpaths, hmem⟩ := ih
    refine ⟨congrArg (_ :: ·) hpaths, ?_⟩
    intro s' hs'
    rcases List.mem_cons.mp hs' with rfl | hs'
    · exact ⟨f, hget, rfl⟩
    · exact hmem s' hs'

/-- The chunks of the folder are cut from its files. -/
theorem chunksFromRoot_of_cut {contents : List (Str × Bytes)}
    (hpaths : contents.map Prod.fst = discover t)
    (hthere : ∀ pc ∈ contents, (t.files.get? pc.1).map File.content = some pc.2)
    (hcut : Cut chunkChars contents chunks) : chunksFromRoot t chunkChars = .ok chunks := by
  have hread : (contents.map Prod.fst).mapM (readChunks chunkChars t) =
      contents.mapM fun pc => fileChunks chunkChars pc.1 pc.2 := by
    clear hpaths hcut
    induction contents with
    | nil => rfl
    | cons pc contents ih =>
      obtain ⟨f, hget, hcontent⟩ := Option.map_eq_some_iff.mp (hthere pc List.mem_cons_self)
      have hrest := ih fun pc' hpc' => hthere pc' (List.mem_cons_of_mem pc hpc')
      rw [List.map_cons, List.mapM_cons, List.mapM_cons, hrest, readChunks_of_get? hget, hcontent]
  unfold chunksFromRoot
  rw [← hpaths, hread]
  exact hcut

/-- The files that a good index was made of are those of the folder, as soon as
`load` accepts it. -/
theorem GoodIndex.faithful {bytes : Bytes} (hgood : GoodIndex e known bytes)
    (hstamped : Stamped known) (htree : ∀ v ∈ t.versions, v ∈ known)
    (hload : load e (some bytes) t chunkChars = .ok ⟨chunks, true⟩) :
    chunksFromRoot t chunkChars = .ok chunks := by
  obtain ⟨chunkChars, knowledgeDir, builtAt, chunks, stamped, hfile, hcut, hlisting, hknown⟩ :=
    hgood
  have hpaths : (stamped.map Version.fingerprint).map Fingerprint.path =
      stamped.map Version.path := by
    rw [List.map_map]
    rfl
  have hnodup : ((stamped.map Version.fingerprint).map Fingerprint.path).Nodup := by
    rw [hpaths]
    exact hlisting.nodup
  obtain ⟨rfl, rfl, sources, hcollect, hsame⟩ := load_accepts hnodup hfile hload
  obtain ⟨hdiscover, hfiles⟩ := mem_fingerprints hcollect
  obtain ⟨hlen, hmem⟩ := mem_of_sameSources (by rw [hdiscover]; exact discover_nodup t) hsame
  -- the file of a stamped version has its fingerprint, and so its content
  have hversion : ∀ v ∈ stamped, v.path ∈ discover t ∧
      (t.files.get? v.path).map File.content = some v.file.content := by
    intro v hv
    have hv' := hmem v.fingerprint (List.mem_map_of_mem hv)
    obtain ⟨f, hget, hfp⟩ := hfiles v.fingerprint hv'
    change t.files.get? v.path = some f at hget
    have hcontent : f.content = v.file.content :=
      hstamped ⟨v.path, f⟩ (htree _ (mem_versions hget)) v (hknown v hv) rfl
        (congrArg Fingerprint.mtimeNs hfp).symm (congrArg Fingerprint.size hfp).symm
    refine ⟨?_, ?_⟩
    · rw [← hdiscover]
      exact List.mem_map_of_mem hv'
    · rw [hget, Option.map_some, hcontent]
  have hperm : (stamped.map Version.path).Perm (discover t) := by
    refine (List.subperm_of_subset hlisting.nodup ?_).perm_of_length_le ?_
    · intro path hpath
      obtain ⟨v, hv, rfl⟩ := List.mem_map.mp hpath
      exact (hversion v hv).1
    · rw [← hdiscover, List.length_map, List.length_map, ← hlen, List.length_map]
  have hlist : stamped.map Version.path = discover t :=
    eq_discover hlisting.sorted hlisting.nodup fun _ => hperm.mem_iff
  refine chunksFromRoot_of_cut ?_ ?_ hcut
  · rw [List.map_map]
    exact hlist
  · intro pc hpc
    obtain ⟨v, hv, rfl⟩ := List.mem_map.mp hpc
    exact (hversion v hv).2

/-! ## Changes of the folder -/

theorem get?_write (path path' : Str) (f : File) :
    (t.write path f).files.get? path' = if path = path' then some f else t.files.get? path' :=
  Dict.get?_set t.files path path' f

theorem get?_remove (path path' : Str) :
    (t.remove path).files.get? path' = if path = path' then none else t.files.get? path' :=
  Dict.get?_pop t.files path path'

theorem mem_versions_iff {v : Version} : v ∈ t.versions ↔ t.files.get? v.path = some v.file := by
  constructor
  · intro h
    obtain ⟨kv, hkv, rfl⟩ := List.mem_map.mp h
    exact Dict.get?_of_mem t.nodup hkv
  · intro h
    exact mem_versions h

theorem Reading.not_todo {todo : List Str} {done : List (Str × Bytes)}
    (h : Reading t chunkChars todo chunks done) {pc : Str × Bytes} (hpc : pc ∈ done) :
    pc.1 ∉ todo := by
  intro htodo
  have hnodup := List.nodup_append.mp h.listing.nodup
  exact hnodup.2.2 pc.1 (List.mem_map_of_mem hpc) pc.1 htodo rfl

theorem Reading.supported {todo : List Str} {done : List (Str × Bytes)}
    (h : Reading t chunkChars todo chunks done) {pc : Str × Bytes} (hpc : pc ∈ done) :
    supported pc.1 = true :=
  h.listing.supported pc.1 (List.mem_append_left _ (List.mem_map_of_mem hpc))

theorem Reading.write {todo : List Str} {done : List (Str × Bytes)} {path : Str} {f : File}
    (h : Reading t chunkChars todo chunks done)
    (hok : Knowledge.supported path = true → path ∈ todo ∨ t.keeps path f) :
    Reading (t.write path f) chunkChars todo chunks done where
  cut := h.cut
  listing := h.listing
  complete := by
    intro path' hpath'
    obtain ⟨hsup, hsome⟩ := mem_discover.mp hpath'
    rw [get?_write] at hsome
    split_ifs at hsome with heq
    · subst heq
      rcases hok hsup with htodo | hkeeps
      · exact List.mem_append_right _ htodo
      · obtain ⟨f', hget, -⟩ := Option.map_eq_some_iff.mp hkeeps
        exact h.complete path (mem_discover.mpr ⟨hsup, by rw [hget]; rfl⟩)
    · exact h.complete path' (mem_discover.mpr ⟨hsup, hsome⟩)
  there := by
    intro pc hpc
    have hold := h.there pc hpc
    rw [get?_write]
    split_ifs with heq
    · subst heq
      rcases hok (h.supported hpc) with htodo | hkeeps
      · exact absurd htodo (h.not_todo hpc)
      · rw [← hold]
        exact hkeeps.symm
    · exact hold

theorem Reading.remove {todo : List Str} {done : List (Str × Bytes)} {path : Str}
    (h : Reading t chunkChars todo chunks done)
    (hok : Knowledge.supported path = true → path ∈ todo) :
    Reading (t.remove path) chunkChars todo chunks done where
  cut := h.cut
  listing := h.listing
  complete := by
    intro path' hpath'
    obtain ⟨hsup, hsome⟩ := mem_discover.mp hpath'
    rw [get?_remove] at hsome
    split_ifs at hsome with heq
    · cases hsome
    · exact h.complete path' (mem_discover.mpr ⟨hsup, hsome⟩)
  there := by
    intro pc hpc
    have hne : path ≠ pc.1 := by
      intro heq
      exact h.not_todo hpc (heq ▸ hok (heq ▸ h.supported hpc))
    rw [get?_remove, if_neg hne]
    exact h.there pc hpc

section Stamping

variable {todo : List Str} {sources : List Fingerprint} {stamped : List Version}
  {rest : List (Str × Bytes)} {path : Str} {f : File}

theorem Stamping.write (h : Stamping known t chunkChars chunks todo sources stamped rest)
    (hok : path ∈ todo → t.keeps path f) :
    Stamping known (t.write path f) chunkChars chunks todo sources stamped rest where
  sources_eq := h.sources_eq
  todo_eq := h.todo_eq
  cut := h.cut
  listing := h.listing
  known := h.known
  there := by
    intro pc hpc f' hget
    rw [get?_write] at hget
    split_ifs at hget with heq
    · subst heq
      obtain rfl := Option.some.inj hget
      have htodo : pc.1 ∈ todo := by
        rw [h.todo_eq]
        exact List.mem_map_of_mem hpc
      obtain ⟨f₀, hget₀, hcontent⟩ := Option.map_eq_some_iff.mp (hok htodo)
      rw [← hcontent]
      exact h.there pc hpc f₀ hget₀
    · exact h.there pc hpc f' hget

theorem Stamping.remove (h : Stamping known t chunkChars chunks todo sources stamped rest) :
    Stamping known (t.remove path) chunkChars chunks todo sources stamped rest where
  sources_eq := h.sources_eq
  todo_eq := h.todo_eq
  cut := h.cut
  listing := h.listing
  known := h.known
  there := by
    intro pc hpc f' hget
    rw [get?_remove] at hget
    split_ifs at hget with heq
    exact h.there pc hpc f' hget

end Stamping

variable {s s' : State}

/-- Writing a file keeps the invariant, unless it disturbs a build. -/
theorem Inv.write {path : Str} {f : File} (h : Inv e known s) (hknown : ⟨path, f⟩ ∈ known)
    (hok : Undisturbed s (.write path f)) : Inv e known { s with tree := s.tree.write path f } where
  tree := by
    intro v hv
    have hget := mem_versions_iff.mp hv
    rw [get?_write] at hget
    split_ifs at hget with heq
    · obtain ⟨p, f'⟩ := v
      obtain rfl : path = p := heq
      obtain rfl : f = f' := Option.some.inj hget
      exact hknown
    · exact h.tree v (mem_versions_iff.mpr hget)
  builder := by
    have hbuilder := h.builder
    unfold Undisturbed at hok
    cases hb : s.builder with
    | idle => trivial
    | reading n todo chunks =>
      simp only [hb] at hbuilder hok
      obtain ⟨done, hreading⟩ := hbuilder
      exact ⟨done, hreading.write hok⟩
    | stamping n chunks todo sources =>
      simp only [hb] at hbuilder hok
      obtain ⟨stamped, rest, hstamping⟩ := hbuilder
      exact ⟨stamped, rest, hstamping.write hok⟩
  index := h.index

/-- Removing a file keeps the invariant, unless it disturbs a build. -/
theorem Inv.remove {path : Str} (h : Inv e known s) (hok : Undisturbed s (.remove path)) :
    Inv e known { s with tree := s.tree.remove path } where
  tree := by
    intro v hv
    have hget := mem_versions_iff.mp hv
    rw [get?_remove] at hget
    split_ifs at hget with heq
    exact h.tree v (mem_versions_iff.mpr hget)
  builder := by
    have hbuilder := h.builder
    unfold Undisturbed at hok
    cases hb : s.builder with
    | idle => trivial
    | reading n todo chunks =>
      simp only [hb] at hbuilder hok
      obtain ⟨done, hreading⟩ := hbuilder
      exact ⟨done, hreading.remove hok⟩
    | stamping n chunks todo sources =>
      simp only [hb] at hbuilder
      obtain ⟨stamped, rest, hstamping⟩ := hbuilder
      exact ⟨stamped, rest, hstamping.remove⟩
  index := h.index

/-! ## Steps of a build -/

theorem isListing_discover (t : Tree) : IsListing (discover t) where
  sorted := discover_sorted t
  nodup := discover_nodup t
  supported := fun _ hpath => (mem_discover.mp hpath).1

theorem Reading.start (t : Tree) (chunkChars : Int) :
    Reading t chunkChars (discover t) [] [] where
  cut := rfl
  listing := isListing_discover t
  complete := fun _ hpath => hpath
  there := fun _ hpc => absurd hpc List.not_mem_nil

theorem Cut.snoc {contents : List (Str × Bytes)} {more : List DocumentChunk} {path : Str}
    {content : Bytes} (h : Cut chunkChars contents chunks)
    (hmore : fileChunks chunkChars path content = .ok more) :
    Cut chunkChars (contents ++ [(path, content)]) (chunks ++ more) := by
  unfold Cut at h ⊢
  rw [List.mapM_append, List.mapM_cons, hmore, List.mapM_nil]
  cases hparts : contents.mapM fun pc => fileChunks chunkChars pc.1 pc.2 with
  | error x =>
    rw [hparts] at h
    cases h
  | ok parts =>
    rw [hparts] at h
    have hchunks : parts.flatten = chunks := Except.ok.inj h
    show Except.ok (parts ++ [more]).flatten = .ok (chunks ++ more)
    rw [List.flatten_append, hchunks]
    simp

theorem Reading.read {path : Str} {todo : List Str} {done : List (Str × Bytes)}
    {more : List DocumentChunk} (h : Reading t chunkChars (path :: todo) chunks done)
    (hmore : readChunks chunkChars t path = .ok more) :
    ∃ done, Reading t chunkChars todo (chunks ++ more) done := by
  cases hget : t.files.get? path with
  | none =>
    rw [readChunks, hget] at hmore
    cases hmore
  | some f =>
    rw [readChunks_of_get? hget] at hmore
    have hpaths : (done ++ [(path, f.content)]).map Prod.fst ++ todo =
        done.map Prod.fst ++ path :: todo := by
      simp
    refine ⟨done ++ [(path, f.content)], h.cut.snoc hmore, ?_, ?_, ?_⟩
    · rw [hpaths]
      exact h.listing
    · rw [hpaths]
      exact h.complete
    · intro pc hpc
      rcases List.mem_append.mp hpc with hpc | hpc
      · exact h.there pc hpc
      · rw [List.mem_singleton.mp hpc, hget]
        rfl

/-- When all is read, the second listing is the first one. -/
theorem Reading.relist {done : List (Str × Bytes)} (h : Reading t chunkChars [] chunks done)
    (known : List Version) : Stamping known t chunkChars chunks (discover t) [] [] done := by
  have hlisting := h.listing
  rw [List.append_nil] at hlisting
  have hpaths : done.map Prod.fst = discover t := by
    refine eq_discover hlisting.sorted hlisting.nodup fun path => ⟨?_, ?_⟩
    · intro hpath
      obtain ⟨pc, hpc, rfl⟩ := List.mem_map.mp hpath
      obtain ⟨f, hget, -⟩ := Option.map_eq_some_iff.mp (h.there pc hpc)
      exact mem_discover.mpr ⟨h.supported hpc, by rw [hget]; rfl⟩
    · intro hpath
      have hlisted := h.complete path hpath
      rwa [List.append_nil] at hlisted
  refine ⟨rfl, hpaths.symm, h.cut, hlisting, fun v hv => absurd hv List.not_mem_nil, ?_⟩
  intro pc hpc f hget
  have hthere := h.there pc hpc
  rw [hget] at hthere
  exact Option.some.inj hthere

theorem Stamping.stamp {path : Str} {todo : List Str} {sources : List Fingerprint}
    {stamped : List Version} {rest : List (Str × Bytes)} {fp : Fingerprint}
    (h : Stamping known t chunkChars chunks (path :: todo) sources stamped rest)
    (htree : ∀ v ∈ t.versions, v ∈ known) (hstat : statFile t path = .ok fp) :
    ∃ stamped rest, Stamping known t chunkChars chunks todo (sources ++ [fp]) stamped rest := by
  obtain ⟨f, hget, rfl⟩ := statFile_eq_ok hstat
  cases rest with
  | nil => exact absurd h.todo_eq (List.cons_ne_nil path todo)
  | cons pc rest =>
    obtain ⟨hpath, htodo⟩ := List.cons.inj h.todo_eq
    have hcontent : f.content = pc.2 := h.there pc List.mem_cons_self f (hpath ▸ hget)
    have hpc : Version.content ⟨path, f⟩ = pc := by
      rw [Version.content, hcontent, hpath]
    refine ⟨stamped ++ [⟨path, f⟩], rest, ?_, htodo, ?_, ?_, ?_, ?_⟩
    · rw [h.sources_eq, List.map_append]
      rfl
    · rw [List.map_append, List.append_assoc, List.map_singleton, hpc]
      exact h.cut
    · have hlisting := h.listing
      rw [List.map_cons, ← hpath] at hlisting
      rw [List.map_append, List.append_assoc]
      exact hlisting
    · intro v hv
      rcases List.mem_append.mp hv with hv | hv
      · exact h.known v hv
      · rw [List.mem_singleton.mp hv]
        exact htree _ (mem_versions hget)
    · exact fun pc' hpc' => h.there pc' (List.mem_cons_of_mem pc hpc')

theorem Stamping.save {sources : List Fingerprint} {stamped : List Version}
    {rest : List (Str × Bytes)} {knowledgeDir builtAt : Str} {bytes : Bytes}
    (h : Stamping known t chunkChars chunks [] sources stamped rest)
    (hfile : indexFile e (indexPayload chunkChars knowledgeDir builtAt sources chunks) =
      .ok bytes) :
    GoodIndex e known bytes := by
  obtain rfl : rest = [] := List.map_eq_nil_iff.mp h.todo_eq.symm
  refine ⟨chunkChars, knowledgeDir, builtAt, chunks, stamped, ?_, ?_, ?_, h.known⟩
  · rw [← h.sources_eq]
    exact hfile
  · simpa using h.cut
  · simpa using h.listing

/-- All that a step of a build can do. -/
theorem buildStep_cases {a : Action} (hs : buildStep e s a = some s') :
    s' = { s with builder := .idle } ∨
    (∃ n, s' = { s with builder := .reading n (discover s.tree) [] }) ∨
    (∃ n path todo chunks more, s.builder = .reading n (path :: todo) chunks ∧
      readChunks n s.tree path = .ok more ∧
      s' = { s with builder := .reading n todo (chunks ++ more) }) ∨
    (∃ n chunks, s.builder = .reading n [] chunks ∧
      s' = { s with builder := .stamping n chunks (discover s.tree) [] }) ∨
    (∃ n chunks path todo sources fp, s.builder = .stamping n chunks (path :: todo) sources ∧
      statFile s.tree path = .ok fp ∧
      s' = { s with builder := .stamping n chunks todo (sources ++ [fp]) }) ∨
    (∃ n chunks sources knowledgeDir builtAt bytes, s.builder = .stamping n chunks [] sources ∧
      indexFile e (indexPayload n knowledgeDir builtAt sources chunks) = .ok bytes ∧
      s' = { s with builder := .idle, index := some bytes }) := by
  cases a with
  | start n =>
    simp only [buildStep] at hs
    split at hs
    · exact .inr (.inl ⟨n, (Option.some.inj hs).symm⟩)
    · cases hs
  | read =>
    simp only [buildStep] at hs
    split at hs
    · next n path todo chunks hb =>
      split at hs
      · next more hmore =>
        exact .inr (.inr (.inl ⟨n, path, todo, chunks, more, hb, hmore, (Option.some.inj hs).symm⟩))
      · exact .inl (Option.some.inj hs).symm
    · cases hs
  | relist =>
    simp only [buildStep] at hs
    split at hs
    · next n chunks hb =>
      exact .inr (.inr (.inr (.inl ⟨n, chunks, hb, (Option.some.inj hs).symm⟩)))
    · cases hs
  | stamp =>
    simp only [buildStep] at hs
    split at hs
    · next n chunks path todo sources hb =>
      split at hs
      · next fp hstat =>
        exact .inr (.inr (.inr (.inr (.inl ⟨n, chunks, path, todo, sources, fp, hb, hstat,
          (Option.some.inj hs).symm⟩))))
      · exact .inl (Option.some.inj hs).symm
    · cases hs
  | save knowledgeDir builtAt =>
    simp only [buildStep] at hs
    split at hs
    · next n chunks sources hb =>
      split at hs
      · next bytes hfile =>
        exact .inr (.inr (.inr (.inr (.inr ⟨n, chunks, sources, knowledgeDir, builtAt, bytes, hb,
          hfile, (Option.some.inj hs).symm⟩))))
      · exact .inl (Option.some.inj hs).symm
    · cases hs
  | write path f => cases hs
  | remove path => cases hs
  | load n => cases hs

/-- A step of a build keeps the invariant. -/
theorem Inv.buildStep {a : Action} (h : Inv e known s) (hs : buildStep e s a = some s') :
    Inv e known s' := by
  have hbuilder := h.builder
  rcases buildStep_cases hs with rfl | ⟨n, rfl⟩ | ⟨n, path, todo, chunks, more, hb, hmore, rfl⟩ |
    ⟨n, chunks, hb, rfl⟩ | ⟨n, chunks, path, todo, sources, fp, hb, hstat, rfl⟩ |
    ⟨n, chunks, sources, knowledgeDir, builtAt, bytes, hb, hfile, rfl⟩
  · exact ⟨h.tree, trivial, h.index⟩
  · exact ⟨h.tree, ⟨[], Reading.start s.tree n⟩, h.index⟩
  · simp only [hb] at hbuilder
    obtain ⟨done, hreading⟩ := hbuilder
    exact ⟨h.tree, hreading.read hmore, h.index⟩
  · simp only [hb] at hbuilder
    obtain ⟨done, hreading⟩ := hbuilder
    exact ⟨h.tree, ⟨[], done, hreading.relist known⟩, h.index⟩
  · simp only [hb] at hbuilder
    obtain ⟨stamped, rest, hstamping⟩ := hbuilder
    exact ⟨h.tree, hstamping.stamp h.tree hstat, h.index⟩
  · simp only [hb] at hbuilder
    obtain ⟨stamped, rest, hstamping⟩ := hbuilder
    refine ⟨h.tree, trivial, ?_⟩
    intro bytes' hbytes'
    rw [← Option.some.inj hbytes']
    exact hstamping.save hfile

/-! ## Runs -/

/-- What a step writes is a known version. -/
def WritesKnown (known : List Version) : Action → Prop
  | .write path f => ⟨path, f⟩ ∈ known
  | _ => True

/-- An undisturbed step keeps the invariant, and a load that it takes is
faithful. -/
theorem step_inv (hstamped : Stamped known) {a : Action} {evs : List Event} (h : Inv e known s)
    (hok : Undisturbed s a ∧ WritesKnown known a) (hs : step e s a = some (s', evs)) :
    Inv e known s' ∧ ∀ ev ∈ evs, ev.Faithful := by
  have hbuild : (buildStep e s a).map (fun s' => (s', ([] : List Event))) = some (s', evs) →
      Inv e known s' ∧ ∀ ev ∈ evs, ev.Faithful := by
    intro hs
    obtain ⟨s₁, hs₁, heq⟩ := Option.map_eq_some_iff.mp hs
    obtain ⟨rfl, rfl⟩ := Prod.mk.inj heq
    exact ⟨h.buildStep hs₁, fun ev hev => absurd hev List.not_mem_nil⟩
  cases a with
  | write path f =>
    obtain ⟨rfl, rfl⟩ := Prod.mk.inj (Option.some.inj hs)
    exact ⟨h.write hok.2 hok.1, fun ev hev => absurd hev List.not_mem_nil⟩
  | remove path =>
    simp only [step] at hs
    split_ifs at hs
    obtain ⟨rfl, rfl⟩ := Prod.mk.inj (Option.some.inj hs)
    exact ⟨h.remove hok.1, fun ev hev => absurd hev List.not_mem_nil⟩
  | load n =>
    obtain ⟨rfl, rfl⟩ := Prod.mk.inj (Option.some.inj hs)
    refine ⟨h, ?_⟩
    intro ev hev chunks hresult
    obtain rfl := List.mem_singleton.mp hev
    obtain ⟨bytes, hindex, -⟩ := load_fromIndex hresult
    exact (h.index bytes hindex).faithful hstamped h.tree (hindex ▸ hresult)
  | start n => exact hbuild hs
  | read => exact hbuild hs
  | relist => exact hbuild hs
  | stamp => exact hbuild hs
  | save knowledgeDir builtAt => exact hbuild hs

theorem writesKnown_of_mem {as : List Action} {a : Action} (ha : a ∈ as) :
    WritesKnown (t.versions ++ written as) a := by
  cases a with
  | write path f =>
    exact List.mem_append_right _ (List.mem_filterMap.mpr ⟨.write path f, ha, rfl⟩)
  | _ => trivial

/-- Where a file with the same path, time and size has the same content, and no
build is disturbed, every load that takes its chunks from the index takes those of
the folder. -/
theorem fresh_load_faithful (e : Interp) (t : Tree) (as : List Action) (s : State)
    (evs : List Event) (hstamped : Stamped (t.versions ++ written as))
    (hok : AllSteps (step e) Undisturbed (State.init t) as)
    (hrun : run (step e) (State.init t) as = some (s, evs)) : ∀ ev ∈ evs, ev.Faithful := by
  have hinit : Inv e (t.versions ++ written as) (State.init t) :=
    ⟨fun v hv => List.mem_append_left _ hv, trivial, fun bytes hbytes => by cases hbytes⟩
  have hwrites : AllSteps (step e) (fun _ a => WritesKnown (t.versions ++ written as) a)
      (State.init t) as :=
    AllSteps.of_forall fun a ha => writesKnown_of_mem ha
  exact (run_invariant (fun s a s₁ es hI hok hs => step_inv hstamped hI hok hs) hinit
    (hok.and hwrites) hrun).2

/-! ## Two runs -/

/-- The action changes the folder. -/
def Action.changes : Action → Bool
  | .write _ _ | .remove _ => true
  | _ => false

/-- Where nothing is changed, nothing is disturbed. -/
theorem undisturbed_of_no_change {as : List Action} (h : ∀ a ∈ as, a.changes = false) (s : State) :
    AllSteps (step e) Undisturbed s as := by
  induction as generalizing s with
  | nil => trivial
  | cons a as ih =>
    have ha := h a List.mem_cons_self
    refine ⟨?_, fun s₁ es _ => ih (fun b hb => h b (List.mem_cons_of_mem a hb)) s₁⟩
    cases a with
    | write path f => cases ha
    | remove path => cases ha
    | _ => trivial

def demoInterp : Interp where
  printer := ⟨fun s => '"' :: s ++ ['"'], fun l => l⟩
  floats := .verbatim
  floatEq l n := l == Json.intLiteral n ++ ".0"
  jsonDepth := 100

/-- A folder with one file. -/
def demoTree : Tree where
  isDir := true
  files := [("a.md", ⟨1, writeText "old"⟩)]
  nodup := List.nodup_singleton _
  isDir_of_mem := fun _ _ => rfl

/-- Another version of the file. -/
def demoEdit : Action := .write "a.md" ⟨2, writeText "new"⟩

/-- A build and a load, with changes before and after the file is read. -/
def demoRun (before after : List Action) : List Action :=
  .start 600 :: before ++ .read :: after ++ [.relist, .stamp, .save "/data" "", .load 600]

/-- What the loads of a run came to, and the chunks of the folder then. -/
def outcomes (evs : List Event) : List (Option Loaded × Option (List DocumentChunk)) :=
  evs.map fun ev => (ev.result.toOption, (chunksFromRoot ev.tree ev.chunkChars).toOption)

/-- The run has an event for each outcome. -/
theorem exists_run {as : List Action} {o : List (Option Loaded × Option (List DocumentChunk))}
    (h : (run (step e) (State.init t) as).map (fun r => outcomes r.2) = some o) :
    ∃ s evs, run (step e) (State.init t) as = some (s, evs) ∧ outcomes evs = o := by
  obtain ⟨r, hrun, ho⟩ := Option.map_eq_some_iff.mp h
  exact ⟨r.1, r.2, hrun, ho⟩

/-- A file that is changed before it is read does no harm. -/
theorem early_edit_faithful :
    ∃ s evs, run (step demoInterp) (State.init demoTree) (demoRun [demoEdit] []) = some (s, evs) ∧
      outcomes evs =
        [(some ⟨[⟨"a.md#0", "new", "a.md"⟩], true⟩, some [⟨"a.md#0", "new", "a.md"⟩])] ∧
      ∀ ev ∈ evs, ev.Faithful := by
  have hrun : (run (step demoInterp) (State.init demoTree) (demoRun [demoEdit] [])).map
      (fun r => outcomes r.2) =
        some [(some ⟨[⟨"a.md#0", "new", "a.md"⟩], true⟩, some [⟨"a.md#0", "new", "a.md"⟩])] := by
    decide +kernel
  obtain ⟨s, evs, hrun, hout⟩ := exists_run hrun
  refine ⟨s, evs, hrun, hout, fresh_load_faithful demoInterp demoTree _ s evs (by decide) ?_ hrun⟩
  refine AllSteps.cons rfl trivial (AllSteps.cons rfl ?_ (undisturbed_of_no_change (by decide) _))
  intro _
  exact Or.inl (by decide +kernel)

/-- A file that is changed after it was read leaves an index with its old text,
which is loaded as if it were fresh. -/
theorem late_edit_not_faithful :
    Stamped (demoTree.versions ++ written (demoRun [] [demoEdit])) ∧
      ∃ s evs, run (step demoInterp) (State.init demoTree) (demoRun [] [demoEdit]) =
        some (s, evs) ∧ ∃ ev ∈ evs, ¬ ev.Faithful := by
  have hrun : (run (step demoInterp) (State.init demoTree) (demoRun [] [demoEdit])).map
      (fun r => outcomes r.2) =
        some [(some ⟨[⟨"a.md#0", "old", "a.md"⟩], true⟩, some [⟨"a.md#0", "new", "a.md"⟩])] := by
    decide +kernel
  obtain ⟨s, evs, hrun, hout⟩ := exists_run hrun
  refine ⟨by decide, s, evs, hrun, ?_⟩
  cases evs with
  | nil => cases hout
  | cons ev evs =>
    refine ⟨ev, List.mem_cons_self, ?_⟩
    intro hfaithful
    obtain ⟨hresult, hroot⟩ := Prod.mk.inj (List.cons.inj hout).1
    have hload : ev.result = .ok ⟨[⟨"a.md#0", "old", "a.md"⟩], true⟩ := by
      cases hev : ev.result with
      | error x =>
        rw [hev] at hresult
        cases hresult
      | ok loaded =>
        rw [hev] at hresult
        exact congrArg Except.ok (Option.some.inj hresult)
    rw [hfaithful _ hload] at hroot
    exact absurd (Option.some.inj hroot) (by decide)

end AiPipelines.Knowledge

import AiPipelines.KvCache.HashChain
import AiPipelines.KvCache.ManagerInv

/-!
# Runs of the scheduler

`Scheduler.Inv` adds the requests to the invariant of the manager: only running
requests have blocks, and every request's hashes are those of its tokens.  Every
call keeps it and raises nothing (`step_inv`), and so does every run (`run_inv`).

The results about runs rest on a hash function without collisions.  With one, a
request could get a block twice, and would free it twice.
-/

namespace AiPipelines.KvCache

open PyStd

namespace Scheduler

variable {H : Type} [DecidableEq H]

/-- The block hashes of a request. -/
def hashes (requests : Dict String (Request H)) (id : String) : List H :=
  match requests.get? id with
  | none => []
  | some request => request.blockHashes

/-- The hashes of a request are those of its tokens, from inputs that the hash function has got. -/
def Hashes (hasher : Hasher H) (seen : HashInput H → Prop) (enableCaching : Bool) (r : Request H) :
    Prop :=
  if enableCaching then ∃ xs, r.Hashed hasher seen xs else r.blockHashes = []

omit [DecidableEq H] in
/-- The other fields do not matter. -/
theorem Hashes.congr {hasher : Hasher H} {seen : HashInput H → Prop} {enableCaching : Bool}
    {r : Request H} (h : Hashes hasher seen enableCaching r) (status : RequestStatus) (n : Nat) :
    Hashes hasher seen enableCaching { r with status := status, numComputedTokens := n } := by
  unfold Hashes at h ⊢
  split at h
  · next hon =>
    obtain ⟨xs, hxs⟩ := h
    rw [if_pos hon]
    exact ⟨xs, ⟨hxs.tokens, hxs.keys⟩, hxs.within, hxs.hashes, hxs.length⟩
  · next hoff =>
    rw [if_neg hoff]
    exact h

/-- The invariant of the scheduler. -/
structure Inv (hasher : Hasher H) (seen : HashInput H → Prop) (s : Scheduler H)
    (free : List Ref) : Prop where
  good : s.manager.Good (hashes s.requests) free
  blockSize : s.manager.blockSize = hasher.blockSize
  blocks : 0 < s.manager.blockPool.numGpuBlocks
  blockHasher : s.blockHasher = if s.manager.blockPool.enableCaching then some hasher else none
  ids : ∀ id r, s.requests.get? id = some r → r.requestId = id
  tokens : ∀ id r, s.requests.get? id = some r → r.numTokens ≠ 0
  hashed : ∀ id r, s.requests.get? id = some r →
    Hashes hasher seen s.manager.blockPool.enableCaching r
  holding : ∀ id, (s.manager.reqToBlocks.get? id).isSome → id ∈ s.running
  running : ∀ id, id ∈ s.running ↔ ∃ r, s.requests.get? id = some r ∧ r.status = .running
  distinct : s.running.Nodup

variable {hasher : Hasher H} {seen : HashInput H → Prop} {s s' : Scheduler H} {free : List Ref}
  {id : String} {r r' : Request H} {requests : Dict String (Request H)}

omit [DecidableEq H] in
theorem hashes_of_get (hget : requests.get? id = some r) : hashes requests id = r.blockHashes := by
  rw [hashes, hget]

omit [DecidableEq H] in
theorem hashes_set (id' : String) :
    hashes (requests.set id r) id' = if id = id' then r.blockHashes else hashes requests id' := by
  unfold hashes
  rw [Dict.get?_set]
  by_cases hid : id = id'
  · rw [if_pos hid, if_pos hid]
  · rw [if_neg hid, if_neg hid]

omit [DecidableEq H] in
theorem hashes_pop (id' : String) :
    hashes (requests.pop id) id' = if id = id' then [] else hashes requests id' := by
  unfold hashes
  rw [Dict.get?_pop]
  by_cases hid : id = id'
  · rw [if_pos hid, if_pos hid]
  · rw [if_neg hid, if_neg hid]

/-- The hashes of the requests tell the positions of the blocks. -/
theorem Inv.separated (hl : hasher.LosslessOn seen) (h : s.Inv hasher seen free) :
    KVCacheManager.Separated (hashes s.requests) := by
  intro id id' i j v hi hj
  cases hget : s.requests.get? id with
  | none => simp [hashes, hget] at hi
  | some r =>
    cases hget' : s.requests.get? id' with
    | none => simp [hashes, hget'] at hj
    | some r' =>
      rw [hashes_of_get hget] at hi
      rw [hashes_of_get hget'] at hj
      have hr := h.hashed id r hget
      have hr' := h.hashed id' r' hget'
      unfold Hashes at hr hr'
      split at hr
      · next hon =>
        rw [if_pos hon] at hr'
        obtain ⟨xs, hxs⟩ := hr
        obtain ⟨ys, hys⟩ := hr'
        exact (Request.Hashed.prefix_eq hl hxs hys hi hj).1
      · rw [hr] at hi
        simp at hi

/-- A request is hashed up to its last full block. -/
theorem Inv.length_blockHashes (h : s.Inv hasher seen free) (hget : s.requests.get? id = some r)
    (hon : s.manager.blockPool.enableCaching = true) :
    r.numTokens / s.manager.blockSize ≤ r.blockHashes.length := by
  have hr := h.hashed id r hget
  rw [Hashes, if_pos hon] at hr
  obtain ⟨xs, hxs⟩ := hr
  rw [hxs.hashes, Hasher.length_hashPrefixes, hxs.length, h.blockSize]

/-- Only running requests have an entry. -/
theorem Inv.no_entry (h : s.Inv hasher seen free) (hget : s.requests.get? id = some r)
    (hstatus : r.status ≠ .running) : s.manager.reqToBlocks.get? id = none := by
  rw [← Option.not_isSome_iff_eq_none]
  intro hsome
  obtain ⟨r', hget', hr'⟩ := (h.running id).1 (h.holding id hsome)
  rw [hget, Option.some.injEq] at hget'
  exact hstatus (hget' ▸ hr')

/-! ## The calls -/

/-- A new pool. -/
theorem init_inv (hasher : Hasher H) (seen : HashInput H → Prop) {numGpuBlocks : Nat}
    (hn : 0 < numGpuBlocks) (maxModelLen : Nat) (enableCaching useEagle reserveFullIsl : Bool)
    (numLookaheadTokens : Nat) :
    ∃ s free, init hasher numGpuBlocks maxModelLen enableCaching useEagle reserveFullIsl
      numLookaheadTokens = .ok s ∧ s.Inv hasher seen free ∧ s.numScheduledTokens = [] ∧
        s.requests = [] ∧
      ∀ b, (s.manager.blockPool.object b).blockHash = none := by
  obtain ⟨p, hinit, hgood, hnum, hcaching, hzero⟩ := BlockPool.init_good (H := H) hn enableCaching
  refine ⟨{
    manager := { blockSize := hasher.blockSize, maxModelLen := maxModelLen, useEagle := useEagle,
                 blockPool := p }
    blockHasher := if enableCaching then some hasher else none
    reserveFullIsl := reserveFullIsl
    numLookaheadTokens := numLookaheadTokens }, BlockPool.others numGpuBlocks, ?_, ?_, rfl, rfl,
    fun b => (hzero b).2⟩
  · simp only [init, hinit, bind, Except.bind, pure, Except.pure]
  have hno : ∀ (id : String) {V : Type} (v : V), Dict.get? ([] : Dict String V) id ≠ some v := by
    intro id V v hget
    cases hget
  constructor
  · constructor
    · exact hgood
    · exact List.nodup_nil
    · intro id hsome
      cases hsome
    · intro b
      rw [(hzero b).1]
      rfl
    · intro id bs hget
      exact absurd hget (hno id bs)
    · intro id bs hget
      exact absurd hget (hno id bs)
    · intro id bs i b key hget
      exact absurd hget (hno id bs)
    · intro id bs i b hget
      exact absurd hget (hno id bs)
    · intro id id' bs bs' i j b _ hget
      exact absurd hget (hno id bs)
  · rfl
  · exact hnum ▸ hn
  · rw [hcaching]
  · intro id r hget
    exact absurd hget (hno id r)
  · intro id r hget
    exact absurd hget (hno id r)
  · intro id r hget
    exact absurd hget (hno id r)
  · intro id hsome
    cases hsome
  · intro id
    simp
  · exact List.nodup_nil

/-- A request changes, but its status does not, and its hashes may grow. -/
theorem Inv.setRequest (h : s.Inv hasher seen free) (hget : s.requests.get? id = some r)
    (hid : r'.requestId = id) (hstatus : r'.status = r.status) (hne : r'.numTokens ≠ 0)
    (hhashed : Hashes hasher seen s.manager.blockPool.enableCaching r')
    (hext : ∀ (i : Nat) v, r.blockHashes[i]? = some v → r'.blockHashes[i]? = some v) :
    ({ s with requests := s.requests.set id r' } : Scheduler H).Inv hasher seen free := by
  have hcases : ∀ {id'' r''}, (s.requests.set id r').get? id'' = some r'' →
      (id = id'' ∧ r' = r'') ∨ s.requests.get? id'' = some r'' := by
    intro id'' r'' hget''
    rw [Dict.get?_set] at hget''
    split at hget''
    · next heq => exact .inl ⟨heq, Option.some.inj hget''⟩
    · exact .inr hget''
  constructor
  · apply h.good.of_hashes
    intro id' _ i v hv
    show (hashes (s.requests.set id r') id')[i]? = some v
    rw [hashes_set]
    split
    · next heq =>
      rw [← heq, hashes_of_get hget] at hv
      exact hext i v hv
    · exact hv
  · exact h.blockSize
  · exact h.blocks
  · exact h.blockHasher
  · intro id' r'' hget'
    rcases hcases hget' with ⟨rfl, rfl⟩ | hold
    · exact hid
    · exact h.ids id' r'' hold
  · intro id' r'' hget'
    rcases hcases hget' with ⟨rfl, rfl⟩ | hold
    · exact hne
    · exact h.tokens id' r'' hold
  · intro id' r'' hget'
    rcases hcases hget' with ⟨rfl, rfl⟩ | hold
    · exact hhashed
    · exact h.hashed id' r'' hold
  · exact h.holding
  · intro id'
    refine (h.running id').trans ?_
    show _ ↔ ∃ r'', (s.requests.set id r').get? id' = some r'' ∧ _
    rw [Dict.get?_set]
    split
    · next heq =>
      subst heq
      rw [hget]
      simp [hstatus]
    · rfl
  · exact h.distinct

/-- The hashes of a request that is given to the hasher. -/
theorem Inv.hashes_update (hb : 0 < hasher.blockSize) (h : s.Inv hasher seen free)
    (hr : r.blockHashes = []) (hseen : ∀ y ∈ r.hashInputs s.blockHasher, seen y) :
    Hashes hasher seen s.manager.blockPool.enableCaching (r.updateBlockHashes s.blockHasher) := by
  rw [h.blockHasher] at hseen ⊢
  rw [Hashes]
  split
  · next hon =>
    rw [if_pos hon] at hseen
    exact ⟨_, Request.hashed_new hb hr hseen⟩
  · exact hr

/-- What a call gives to the hash function. -/
def hashInputs (s : Scheduler H) : Action H → List (HashInput H)
  | .addRequest request =>
    ({ request with status := .waiting, numComputedTokens := 0, blockHashes := [] } :
      Request H).hashInputs s.blockHasher
  | .appendOutput requestId tokenIds =>
    match s.requests.get? requestId with
    | none => []
    | some request =>
      ({ request with allTokenIds := request.allTokenIds ++ tokenIds } :
        Request H).hashInputs s.blockHasher
  | _ => []

theorem addRequest_inv (hb : 0 < hasher.blockSize) (h : s.Inv hasher seen free)
    (hnew : s.requests.get? r.requestId = none) (hne : r.numTokens ≠ 0)
    (hseen : ∀ y ∈ s.hashInputs (.addRequest r), seen y) :
    (s.addRequest r).Inv hasher seen free := by
  obtain ⟨r₁, hr₁⟩ : ∃ r₁ : Request H, r₁ = ({ r with
      status := .waiting, numComputedTokens := 0, blockHashes := [] } : Request H).updateBlockHashes
        s.blockHasher := ⟨_, rfl⟩
  have hadd : s.addRequest r = { s with requests := s.requests.set r.requestId r₁ } := by
    rw [addRequest, hr₁]
  have hfields : r₁.requestId = r.requestId ∧ r₁.numTokens = r.numTokens ∧
      r₁.status = .waiting := by
    rw [hr₁]
    cases s.blockHasher <;> exact ⟨rfl, rfl, rfl⟩
  have hcases : ∀ {id'' r''}, (s.requests.set r.requestId r₁).get? id'' = some r'' →
      (r.requestId = id'' ∧ r₁ = r'') ∨ s.requests.get? id'' = some r'' := by
    intro id'' r'' hget''
    rw [Dict.get?_set] at hget''
    split at hget''
    · next heq => exact .inl ⟨heq, Option.some.inj hget''⟩
    · exact .inr hget''
  rw [hadd]
  constructor
  · apply h.good.of_hashes
    intro id' hsome i v hv
    show (hashes (s.requests.set r.requestId r₁) id')[i]? = some v
    rw [hashes_set]
    split
    · next heq =>
      rw [← heq, hashes, hnew] at hv
      simp at hv
    · exact hv
  · exact h.blockSize
  · exact h.blocks
  · exact h.blockHasher
  · intro id' r'' hget'
    rcases hcases hget' with ⟨rfl, rfl⟩ | hold
    · exact hfields.1
    · exact h.ids id' r'' hold
  · intro id' r'' hget'
    rcases hcases hget' with ⟨rfl, rfl⟩ | hold
    · rw [hfields.2.1]
      exact hne
    · exact h.tokens id' r'' hold
  · intro id' r'' hget'
    rcases hcases hget' with ⟨rfl, rfl⟩ | hold
    · show Hashes hasher seen s.manager.blockPool.enableCaching r₁
      rw [hr₁]
      exact h.hashes_update hb rfl hseen
    · exact h.hashed id' r'' hold
  · exact h.holding
  · intro id'
    refine (h.running id').trans ?_
    show _ ↔ ∃ r'', (s.requests.set r.requestId r₁).get? id' = some r'' ∧ _
    rw [Dict.get?_set]
    split
    · next heq =>
      subst heq
      rw [hnew]
      simp [hfields.2.2]
    · rfl
  · exact h.distinct

theorem appendOutput_inv (hb : 0 < hasher.blockSize) (h : s.Inv hasher seen free)
    (hget : s.requests.get? id = some r) (tokenIds : List Int)
    (hseen : ∀ y ∈ s.hashInputs (.appendOutput id tokenIds), seen y) :
    ({ s with requests := s.requests.set id (r.appendOutputTokenIds s.blockHasher tokenIds) } :
      Scheduler H).Inv hasher seen free := by
  have hr := h.hashed id r hget
  have hfields : (r.appendOutputTokenIds s.blockHasher tokenIds).requestId = r.requestId ∧
      (r.appendOutputTokenIds s.blockHasher tokenIds).status = r.status ∧
      (r.appendOutputTokenIds s.blockHasher tokenIds).numTokens =
        r.numTokens + tokenIds.length := by
    cases s.blockHasher <;> exact ⟨rfl, rfl, List.length_append⟩
  have hne := h.tokens id r hget
  refine h.setRequest hget (hfields.1.trans (h.ids id r hget)) hfields.2.1 (by omega) ?_ ?_
  · simp only [hashInputs, hget, h.blockHasher] at hseen
    rw [Hashes, h.blockHasher] at *
    split at hr
    · next hon =>
      obtain ⟨xs, hxs⟩ := hr
      rw [if_pos hon] at hseen
      rw [if_pos hon, if_pos hon]
      exact ⟨_, hxs.append hb tokenIds hseen⟩
    · next hoff =>
      rw [if_neg hoff, if_neg hoff]
      exact hr
  · intro i v hv
    cases s.blockHasher with
    | none => exact hv
    | some hasher' =>
      show (r.blockHashes ++ _)[i]? = some v
      rw [List.getElem?_append_left (List.getElem?_eq_some_iff.1 hv).1]
      exact hv

/-- The manager, the requests and the running ones change. -/
theorem Inv.rebuild {m' : KVCacheManager H} {free' : List Ref} {running' : List String}
    {scheduled' : Dict String Nat}
    (h : s.Inv hasher seen free) (hconf : s.manager.SameConfig m')
    (hgood : m'.Good (hashes requests) free')
    (hreqs : ∀ id r, requests.get? id = some r → r.requestId = id ∧ r.numTokens ≠ 0 ∧
      Hashes hasher seen s.manager.blockPool.enableCaching r)
    (hholding : ∀ id, (m'.reqToBlocks.get? id).isSome → id ∈ running')
    (hrunning : ∀ id, id ∈ running' ↔ ∃ r, requests.get? id = some r ∧ r.status = .running)
    (hdistinct : running'.Nodup) :
    ({ s with
      manager := m'
      requests := requests
      running := running'
      numScheduledTokens := scheduled' } : Scheduler H).Inv hasher seen free' := by
  have hcaching : m'.blockPool.enableCaching = s.manager.blockPool.enableCaching := hconf.2.2.2.2.1
  constructor
  · exact hgood
  · exact hconf.1.trans h.blockSize
  · show 0 < m'.blockPool.numGpuBlocks
    rw [hconf.2.2.2.1]
    exact h.blocks
  · show s.blockHasher = if m'.blockPool.enableCaching then some hasher else none
    rw [hcaching]
    exact h.blockHasher
  · intro id r hget
    exact (hreqs id r hget).1
  · intro id r hget
    exact (hreqs id r hget).2.1
  · intro id r hget
    show Hashes hasher seen m'.blockPool.enableCaching r
    rw [hcaching]
    exact (hreqs id r hget).2.2
  · exact hholding
  · exact hrunning
  · exact hdistinct

/-- What the invariant says of a request. -/
theorem Inv.request (h : s.Inv hasher seen free) (hget : s.requests.get? id = some r) :
    r.requestId = id ∧ r.numTokens ≠ 0 ∧ Hashes hasher seen s.manager.blockPool.enableCaching r :=
  ⟨h.ids id r hget, h.tokens id r hget, h.hashed id r hget⟩

/-- Only the blocks of running requests change. -/
theorem Inv.setManager {m' : KVCacheManager H} {free' : List Ref} {scheduled' : Dict String Nat}
    (h : s.Inv hasher seen free) (hconf : s.manager.SameConfig m')
    (hgood : m'.Good (hashes s.requests) free')
    (hholding : ∀ id, (m'.reqToBlocks.get? id).isSome → id ∈ s.running) :
    ({ s with manager := m', numScheduledTokens := scheduled' } : Scheduler H).Inv hasher seen
      free' :=
  h.rebuild hconf hgood (fun _ _ hget => h.request hget) hholding h.running h.distinct

/-! ## The step that is being made -/

/-- The number of tokens of the request in the step. -/
def scheduledTokens (s : Scheduler H) (id : String) : Nat := (s.numScheduledTokens.get? id).getD 0

/-- The step computes the token at position `p` of the request. -/
def Writes (s : Scheduler H) (id : String) (p : Nat) : Prop :=
  ∃ r n, s.requests.get? id = some r ∧ s.numScheduledTokens.get? id = some n ∧
    r.numComputedTokens ≤ p ∧ p < r.numComputedTokens + n

/-- The block of the token at position `p` of the request. -/
def blockAt (s : Scheduler H) (id : String) (p : Nat) : Option Ref :=
  (s.manager.reqBlocks id)[p / s.manager.blockSize]?

/-- The invariant of the step: what is cached is computed or will be, and every token of the step
has a block, which no token of another request of the step has. -/
structure Planned (s : Scheduler H) : Prop where
  keys : (Dict.keys s.numScheduledTokens).Nodup
  pending : ∀ id, (s.numScheduledTokens.get? id).isSome → id ∈ s.running
  committed : ∀ id r, s.requests.get? id = some r →
    s.manager.numCached id * s.manager.blockSize ≤ r.numTokens ∧
    s.manager.numCached id * s.manager.blockSize ≤ r.numComputedTokens + s.scheduledTokens id
  placed : ∀ id p, s.Writes id p → p < s.manager.maxModelLen → ∃ b, s.blockAt id p = some b
  apart : ∀ id id' p p' b, id ≠ id' → s.Writes id p → s.Writes id' p' → s.blockAt id p = some b →
    s.blockAt id' p' ≠ some b

omit [DecidableEq H] in
/-- Between two steps. -/
theorem Planned.of_nil (hnil : s.numScheduledTokens = [])
    (hcommitted : ∀ id r, s.requests.get? id = some r →
      s.manager.numCached id * s.manager.blockSize ≤ r.numTokens ∧
      s.manager.numCached id * s.manager.blockSize ≤ r.numComputedTokens) : s.Planned := by
  have hno : ∀ id p, ¬ s.Writes id p := by
    rintro id p ⟨r, n, -, hn, -⟩
    rw [hnil] at hn
    cases hn
  constructor
  · rw [hnil]
    exact List.nodup_nil
  · intro id hsome
    rw [hnil] at hsome
    cases hsome
  · intro id r hget
    obtain ⟨h₁, h₂⟩ := hcommitted id r hget
    exact ⟨h₁, by omega⟩
  · intro id p hw
    exact absurd hw (hno id p)
  · intro id id' p p' b _ hw
    exact absurd hw (hno id p)

omit [DecidableEq H] in
theorem Planned.committed_nil (h : s.Planned) (hnil : s.numScheduledTokens = [])
    (hget : s.requests.get? id = some r) :
    s.manager.numCached id * s.manager.blockSize ≤ r.numTokens ∧
      s.manager.numCached id * s.manager.blockSize ≤ r.numComputedTokens := by
  have hc := h.committed id r hget
  rw [scheduledTokens, hnil] at hc
  exact hc

omit [DecidableEq H] in
/-- The requests of the step stay as they are. -/
theorem Planned.of_same (h : s.Planned) (hsub : ∀ id n, s'.numScheduledTokens.get? id = some n →
      s.numScheduledTokens.get? id = some n ∧ id ∈ s'.running ∧
        s'.requests.get? id = s.requests.get? id ∧ s'.manager.reqBlocks id = s.manager.reqBlocks id)
    (hkeys : (Dict.keys s'.numScheduledTokens).Nodup)
    (hblock : s'.manager.blockSize = s.manager.blockSize)
    (hlen : s'.manager.maxModelLen = s.manager.maxModelLen)
    (hcommitted : ∀ id r, s'.requests.get? id = some r →
      s'.manager.numCached id * s'.manager.blockSize ≤ r.numTokens ∧
      s'.manager.numCached id * s'.manager.blockSize ≤
        r.numComputedTokens + s'.scheduledTokens id) :
    s'.Planned := by
  have hwrites : ∀ id p, s'.Writes id p → s.Writes id p ∧ s'.blockAt id p = s.blockAt id p := by
    rintro id p ⟨r, n, hget, hn, hp⟩
    obtain ⟨hold, -, hreq, hblocks⟩ := hsub id n hn
    exact ⟨⟨r, n, hreq ▸ hget, hold, hp⟩, by rw [blockAt, blockAt, hblocks, hblock]⟩
  constructor
  · exact hkeys
  · intro id hsome
    obtain ⟨n, hn⟩ := Option.isSome_iff_exists.1 hsome
    exact (hsub id n hn).2.1
  · exact hcommitted
  · intro id p hw hp
    obtain ⟨hold, heq⟩ := hwrites id p hw
    rw [heq]
    exact h.placed id p hold (hlen ▸ hp)
  · intro id id' p p' b hne hw hw' hb
    obtain ⟨hold, heq⟩ := hwrites id p hw
    obtain ⟨hold', heq'⟩ := hwrites id' p' hw'
    rw [heq] at hb
    rw [heq']
    exact h.apart id id' p p' b hne hold hold' hb

/-- Positions below `need` have a block. -/
theorem div_lt_cdiv {p need size : Nat} (hs : 0 < size) (hp : p < need) :
    p / size < cdiv need size := by
  have hadd : (p + size) / size = p / size + 1 := Nat.add_div_right p hs
  have hle : (p + size) / size ≤ (need + size - 1) / size := Nat.div_le_div_right (by omega)
  rw [cdiv]
  omega

/-- A request joins the step. -/
theorem Planned.schedule {m' : KVCacheManager H} {free' computed news : List Ref}
    {need toCache c n : Nat} {requests' : Dict String (Request H)} {running' : List String}
    (hb : 0 < s.manager.blockSize) (h : s.Planned) (hid : r.requestId = id)
    (hnum : r'.numTokens = r.numTokens) (hget' : requests'.get? id = some r')
    (hc : r'.numComputedTokens = c)
    (hothers : ∀ id', id ≠ id' → requests'.get? id' = s.requests.get? id')
    (hrunning : ∀ id', id' ∈ s.running → id' ∈ running') (hrun : id ∈ running')
    (halloc : s.manager.Allocated m' (hashes s.requests) free' r computed news need toCache)
    (hcached : (s.manager.numCached id + computed.length) * s.manager.blockSize ≤ c ∧
      (s.manager.numCached id + computed.length) * s.manager.blockSize ≤ r.numTokens)
    (hneed : ∀ p, c ≤ p → p < c + n → p < s.manager.maxModelLen → p < need)
    (hcache : toCache ≤ c + n ∧ toCache ≤ r.numTokens) :
    ({ s with
      manager := m'
      requests := requests'
      running := running'
      numScheduledTokens := s.numScheduledTokens.set id n } : Scheduler H).Planned := by
  have hsize : m'.blockSize = s.manager.blockSize := halloc.config.1
  have hentries : ∀ id', m'.reqBlocks id' =
      if id = id' then s.manager.reqBlocks id ++ computed ++ news else s.manager.reqBlocks id' := by
    intro id'
    rw [KVCacheManager.reqBlocks, halloc.entries, hid, Dict.get?_set]
    split
    · rfl
    · rfl
  have hnew : ∀ p, ({ s with
      manager := m'
      requests := requests'
      running := running'
      numScheduledTokens := s.numScheduledTokens.set id n } : Scheduler H).Writes id p →
        c ≤ p ∧ p < c + n := by
    rintro p ⟨r₀, n₀, hr₀, hn₀, hp⟩
    rw [hget', Option.some.injEq] at hr₀
    rw [Dict.get?_set_self, Option.some.injEq] at hn₀
    subst hr₀ hn₀
    rw [hc] at hp
    exact hp
  have hold : ∀ id' p, id ≠ id' → ({ s with
      manager := m'
      requests := requests'
      running := running'
      numScheduledTokens := s.numScheduledTokens.set id n } : Scheduler H).Writes id' p →
        s.Writes id' p := by
    rintro id' p hne ⟨r₀, n₀, hr₀, hn₀, hp⟩
    rw [Dict.get?_set_of_ne _ _ hne] at hn₀
    exact ⟨r₀, n₀, hothers id' hne ▸ hr₀, hn₀, hp⟩
  have hsingle : ∀ p b, c ≤ p →
      (s.manager.reqBlocks id ++ computed ++ news)[p / s.manager.blockSize]? = some b →
        (m'.blockPool.object b).refCnt = 1 := by
    -- A position that is not computed lies behind the cached blocks.
    intro p b hp hbp
    refine halloc.single (p / s.manager.blockSize) b ?_ (by rw [hid]; exact hbp)
    rw [hid, Nat.le_div_iff_mul_le hb]
    exact Nat.le_trans hcached.1 hp
  have hmine : m'.reqToBlocks.get? id = some (s.manager.reqBlocks id ++ computed ++ news) := by
    rw [halloc.entries, hid, Dict.get?_set_self]
  have hcross : ∀ id' p p' b, id ≠ id' → c ≤ p →
      (s.manager.reqBlocks id ++ computed ++ news)[p / s.manager.blockSize]? = some b →
        (s.manager.reqBlocks id')[p' / s.manager.blockSize]? ≠ some b := by
    intro id' p p' b hne hp hbp hbp'
    have hmem' := List.mem_of_getElem? hbp'
    have hentry' := KVCacheManager.get_of_mem_reqBlocks hmem'
    have hsame : m'.reqToBlocks.get? id' = some (s.manager.reqBlocks id') := by
      rw [halloc.entries, hid, Dict.get?_set_of_ne _ _ hne, hentry']
    exact halloc.good.not_held_twice (hsingle p b hp hbp) hmine (List.mem_of_getElem? hbp) hne hsame
      hmem'
  constructor
  · exact Dict.nodup_keys_set h.keys
  · intro id' hsome
    show id' ∈ running'
    rw [Dict.get?_set] at hsome
    split at hsome
    · next heq => exact heq ▸ hrun
    · exact hrunning id' (h.pending id' hsome)
  · intro id' r₀ hr₀
    show m'.numCached id' * m'.blockSize ≤ _ ∧ m'.numCached id' * m'.blockSize ≤ _
    rw [hsize, scheduledTokens, Dict.get?_set]
    by_cases heq : id = id'
    · subst heq
      obtain rfl : r' = r₀ := Option.some.inj (hget'.symm.trans hr₀)
      rw [if_pos rfl, Option.getD_some, hc, hnum]
      have hcount := halloc.count
      rw [hid] at hcount
      have hmul := Nat.mul_le_mul_right s.manager.blockSize hcount
      have hdiv := Nat.div_mul_le_self toCache s.manager.blockSize
      rcases Nat.le_total (s.manager.numCached id + computed.length) (toCache / s.manager.blockSize)
        with
        hle | hle
      · rw [Nat.max_eq_right hle] at hmul
        omega
      · rw [Nat.max_eq_left hle] at hmul
        omega
    · rw [if_neg heq, halloc.others id' (by rw [hid]; exact heq)]
      exact h.committed id' r₀ (hothers id' heq ▸ hr₀)
  · intro id' p hw hp
    show ∃ b, (m'.reqBlocks id')[p / m'.blockSize]? = some b
    have hp' : p < s.manager.maxModelLen := by
      rw [← halloc.config.2.1]
      exact hp
    rw [hsize, hentries]
    by_cases heq : id = id'
    · subst heq
      obtain ⟨h₁, h₂⟩ := hnew p hw
      rw [if_pos rfl]
      have hroom := halloc.room
      rw [hid] at hroom
      exact ⟨_, List.getElem?_eq_getElem
        (Nat.lt_of_lt_of_le (div_lt_cdiv hb (hneed p h₁ h₂ hp')) hroom)⟩
    · rw [if_neg heq]
      exact h.placed id' p (hold id' p heq hw) hp'
  · intro id₁ id₂ p₁ p₂ b hne hw₁ hw₂
    show (m'.reqBlocks id₁)[p₁ / m'.blockSize]? = some b →
      (m'.reqBlocks id₂)[p₂ / m'.blockSize]? ≠ some b
    rw [hsize, hentries, hentries]
    by_cases heq₁ : id = id₁
    · subst heq₁
      rw [if_pos rfl, if_neg hne]
      exact hcross id₂ p₁ p₂ b hne (hnew p₁ hw₁).1
    · rw [if_neg heq₁]
      by_cases heq₂ : id = id₂
      · subst heq₂
        rw [if_pos rfl]
        intro hb₁ hb₂
        exact hcross id₁ p₂ p₁ b heq₁ (hnew p₂ hw₂).1 hb₂ hb₁
      · rw [if_neg heq₂]
        exact h.apart id₁ id₂ p₁ p₂ b hne (hold id₁ p₁ heq₁ hw₁) (hold id₂ p₂ heq₂ hw₂)

/-! ## What a call changes -/

/-- The call gives a request the blocks `computed` and new ones, and `n` tokens of the step behind
the first `c`. -/
structure Joins (s s' : Scheduler H) (id : String) (r : Request H) (c n : Nat)
    (computed : List Ref) :
    Prop where
  requests : ∀ id', s'.requests.get? id' =
    if id = id' then some { r with status := .running, numComputedTokens := c }
      else s.requests.get? id'
  blocks : ∃ news, ∀ id', s'.manager.reqBlocks id' =
    if id = id' then s.manager.reqBlocks id ++ computed ++ news else s.manager.reqBlocks id'
  scheduled : s'.numScheduledTokens = s.numScheduledTokens.set id n
  config : s.manager.SameConfig s'.manager
  hash : ∀ b, b ∉ s'.manager.reqBlocks id →
    (s'.manager.blockPool.object b).blockHash = (s.manager.blockPool.object b).blockHash
  hit : computed = [] ∨ s.manager.reqBlocks id = [] ∧
    KVCacheManager.Hit s.manager.blockPool r.blockHashes computed
  tokens : c = r.numComputedTokens + computed.length * s.manager.blockSize

/-- The call computes and caches nothing, and leaves the requests of the step as they are. -/
structure Loosens (s s' : Scheduler H) : Prop where
  requests : ∀ id r', s'.requests.get? id = some r' → ∃ r, s.requests.get? id = some r ∧
    r' = { r with status := r'.status, numComputedTokens := r'.numComputedTokens } ∧
    (r'.numComputedTokens = 0 ∨ r'.status = r.status ∧ r'.numComputedTokens ≤ r.numComputedTokens ∧
      s'.manager.reqBlocks id = s.manager.reqBlocks id)
  step : ∀ id n, s.numScheduledTokens.get? id = some n →
    s'.numScheduledTokens.get? id = some n ∧ s'.requests.get? id = s.requests.get? id ∧
      s'.manager.reqBlocks id = s.manager.reqBlocks id
  config : s.manager.SameConfig s'.manager
  hash : ∀ b key, (s'.manager.blockPool.object b).blockHash = some key →
    (s.manager.blockPool.object b).blockHash = some key

omit [DecidableEq H] in
theorem Loosens.refl (s : Scheduler H) : s.Loosens s :=
  ⟨fun _ r hget => ⟨r, hget, rfl, .inr ⟨rfl, Nat.le_refl _, rfl⟩⟩, fun _ _ hn => ⟨hn, rfl, rfl⟩,
    ⟨rfl, rfl, rfl, rfl, rfl, rfl⟩, fun _ _ hkey => hkey⟩

omit [DecidableEq H] in
theorem Loosens.trans {s'' : Scheduler H} (h : s.Loosens s') (h' : s'.Loosens s'') :
    s.Loosens s'' := by
  constructor
  · intro id r'' hget''
    obtain ⟨r', hget', heq', hcases'⟩ := h'.requests id r'' hget''
    obtain ⟨r, hget, heq, hcases⟩ := h.requests id r' hget'
    refine ⟨r, hget, by rw [heq', heq], ?_⟩
    rcases hcases' with hzero | ⟨hstatus', hle', hblocks'⟩
    · exact .inl hzero
    · rcases hcases with hzero | ⟨hstatus, hle, hblocks⟩
      · exact .inl (by omega)
      · exact .inr ⟨hstatus'.trans hstatus, Nat.le_trans hle' hle, hblocks'.trans hblocks⟩
  · intro id n hn
    obtain ⟨hn', hreq, hblocks⟩ := h.step id n hn
    obtain ⟨hn'', hreq', hblocks'⟩ := h'.step id n hn'
    exact ⟨hn'', hreq'.trans hreq, hblocks'.trans hblocks⟩
  · exact h.config.trans h'.config
  · intro b key hkey
    exact h.hash b key (h'.hash b key hkey)

/-! ## Scheduling -/

/-- The number of blocks that a call of `allocate_slots` needs. -/
def needed (s : Scheduler H) (r : Request H) (numNewTokens numComputed : Nat) (computed : List Ref)
    (numLookahead : Nat) : Nat :=
  s.manager.neededBlocks r.requestId
    (s.manager.tokensNeedSlot r numNewTokens numComputed numLookahead) computed

omit [DecidableEq H] in
/-- The tokens of the step need slots. -/
theorem lt_tokensNeedSlot {m : KVCacheManager H} {n numComputed numLookahead p : Nat}
    (h₁ : r.numComputedTokens + numComputed ≤ p) (h₂ : p < r.numComputedTokens + numComputed + n)
    (h₃ : p < m.maxModelLen) : p < m.tokensNeedSlot r n numComputed numLookahead := by
  have hcomputed : r.numComputedTokens + numComputed ≤ m.maxModelLen := by omega
  rw [KVCacheManager.tokensNeedSlot, Nat.min_eq_left hcomputed]
  omega

/-- What `allocate_slots` changes. -/
theorem joins_of_allocated {free' computed news : List Ref}
    {need toCache c n : Nat}
    (halloc : s.manager.Allocated s'.manager (hashes s.requests) free' r computed
      news need toCache)
    (hid : r.requestId = id)
    (hrequests : ∀ id', s'.requests.get? id' =
      if id = id' then some { r with status := .running, numComputedTokens := c }
        else s.requests.get? id')
    (hscheduled : s'.numScheduledTokens = s.numScheduledTokens.set id n)
    (hhit : computed = [] ∨ s.manager.reqBlocks id = [] ∧
      KVCacheManager.Hit s.manager.blockPool r.blockHashes computed)
    (htokens : c = r.numComputedTokens + computed.length * s.manager.blockSize) :
    s.Joins s' id r c n computed := by
  have hblocks : ∀ id', s'.manager.reqBlocks id' =
      if id = id' then s.manager.reqBlocks id ++ computed ++ news else s.manager.reqBlocks id' := by
    intro id'
    rw [KVCacheManager.reqBlocks, halloc.entries, hid, Dict.get?_set]
    split
    · rfl
    · rfl
  refine ⟨hrequests, ⟨news, hblocks⟩, hscheduled, halloc.config, ?_, hhit, htokens⟩
  intro b hb
  rw [hblocks, if_pos rfl] at hb
  exact halloc.kept b (by rw [hid]; exact hb)

/-- Scheduling a running request: it gets new blocks behind its own, or nothing changes. -/
theorem scheduleRunning_inv (hl : hasher.LosslessOn seen) (hb : 0 < hasher.blockSize)
    (h : s.Inv hasher seen free) (hp : s.Planned) (hget : s.requests.get? id = some r)
    (hstatus : r.status = .running) (hfirst : s.numScheduledTokens.get? id = none) {n : Nat}
    (hn : 0 < n) :
    (free.length < s.needed r n 0 [] s.numLookaheadTokens ∧
        s.scheduleRunning r n = .ok (s, .notScheduled id)) ∨
      (s.needed r n 0 [] s.numLookaheadTokens ≤ free.length ∧
        ∃ s' news free', s.scheduleRunning r n = .ok (s', .scheduled id [] news) ∧
          s'.Inv hasher seen free' ∧ s'.Planned ∧ s.Joins s' id r r.numComputedTokens n []) := by
  have hid := h.ids id r hget
  have hplace : s.manager.Placeable r [] := .inl rfl
  by_cases hlack : free.length < s.needed r n 0 [] s.numLookaheadTokens
  · refine .inl ⟨hlack, ?_⟩
    have hnone := KVCacheManager.allocateSlots_none h.good hplace (by omega) hlack
    rw [scheduleRunning]
    simp only [hnone, hid, bind, Except.bind, pure, Except.pure]
  · have hroom : s.needed r n 0 [] s.numLookaheadTokens ≤ free.length := by omega
    obtain ⟨news, m', free', hsome, halloc⟩ := KVCacheManager.allocateSlots_some h.good
      (h.separated hl) hplace (by omega) (by rw [hid, hashes_of_get hget])
      (fun hon => h.length_blockHashes hget hon) hroom
    have hrun : id ∈ s.running := (h.running id).2 ⟨r, hget, hstatus⟩
    refine .inr ⟨hroom, { s with
      manager := m'
      numScheduledTokens := s.numScheduledTokens.set id n }, news, free', ?_,
      h.setManager halloc.config halloc.good ?_, ?_, ?_⟩
    · rw [scheduleRunning]
      simp only [hsome, hid, bind, Except.bind, pure, Except.pure]
    · intro id' hsome'
      rw [halloc.entries, Dict.get?_set] at hsome'
      split at hsome'
      · next heq =>
        rw [← heq, hid]
        exact hrun
      · exact h.holding id' hsome'
    · have hcommitted := hp.committed id r hget
      rw [scheduledTokens, hfirst] at hcommitted
      refine hp.schedule (by rw [h.blockSize]; exact hb) hid rfl hget rfl
        (fun _ _ => rfl) (fun _ hmem => hmem) hrun halloc ⟨hcommitted.2, hcommitted.1⟩ ?_ ?_
      · intro p h₁ h₂ h₃
        exact @lt_tokensNeedSlot _ r s.manager n 0 s.numLookaheadTokens p h₁ h₂ h₃
      · omega
    · refine joins_of_allocated halloc hid ?_ rfl (.inl rfl) (by simp)
      intro id'
      split
      · next heq => rw [← heq, hget, ← hstatus]
      · rfl

/-- The cached blocks that a waiting request finds. -/
theorem computedBlocks_inv (h : s.Inv hasher seen free) (hget : s.requests.get? id = some r)
    (hstatus : r.status ≠ .running) :
    ∃ computed numComputed, s.computedBlocks r = .ok (computed, numComputed) ∧
      s.manager.Placeable r computed ∧
      numComputed = computed.length * s.manager.blockSize ∧
      computed.length * s.manager.blockSize ≤ r.numTokens := by
  have hentry : s.manager.reqToBlocks.get? r.requestId = none := by
    rw [h.ids id r hget]
    exact h.no_entry hget hstatus
  rw [computedBlocks]
  split
  · obtain ⟨computed, heq, hhit, hlt, hoff⟩ :=
      KVCacheManager.getComputedBlocks_good h.good.pool (h.tokens id r hget)
    refine ⟨computed, _, heq, ?_, rfl, by omega⟩
    by_cases hon : s.manager.blockPool.enableCaching = true
    · exact .inr ⟨hon, hentry, hhit⟩
    · exact .inl (hoff (Bool.eq_false_iff.2 hon))
  · exact ⟨[], 0, rfl, .inl rfl, by simp, by simp⟩

/-- A waiting request runs. -/
theorem Inv.start {m' : KVCacheManager H} {free' bs : List Ref} {scheduled' : Dict String Nat}
    (h : s.Inv hasher seen free) (hget : s.requests.get? id = some r)
    (hstatus : r.status ≠ .running) (n : Nat) (hconf : s.manager.SameConfig m')
    (hgood : m'.Good (hashes s.requests) free')
    (hentries : m'.reqToBlocks = s.manager.reqToBlocks.set id bs) :
    ({ s with
      manager := m'
      requests := s.requests.set id { r with status := .running, numComputedTokens := n }
      running := s.running ++ [id]
      numScheduledTokens := scheduled' } : Scheduler H).Inv hasher seen free' := by
  have hhashes : ∀ id',
      hashes (s.requests.set id { r with status := .running, numComputedTokens := n })
      id' = hashes s.requests id' := by
    intro id'
    rw [hashes_set]
    split
    · next heq => rw [← heq, hashes_of_get hget]
    · rfl
  have hnot : id ∉ s.running := by
    intro hmem
    obtain ⟨r', hget', hr'⟩ := (h.running id).1 hmem
    rw [hget, Option.some.injEq] at hget'
    exact hstatus (hget' ▸ hr')
  refine h.rebuild hconf (hgood.of_hashes ?_) ?_ ?_ ?_ ?_
  · intro id' _ i v hv
    rw [hhashes]
    exact hv
  · intro id' r' hget'
    rw [Dict.get?_set] at hget'
    split at hget'
    · next heq =>
      obtain ⟨hid, hne, hhashed⟩ := h.request hget
      rw [← Option.some.inj hget', ← heq]
      exact ⟨hid, hne, hhashed.congr _ _⟩
    · exact h.request hget'
  · intro id' hsome
    rw [hentries, Dict.get?_set] at hsome
    rw [List.mem_append, List.mem_singleton]
    split at hsome
    · next heq => exact .inr heq.symm
    · exact .inl (h.holding id' hsome)
  · intro id'
    rw [List.mem_append, List.mem_singleton, h.running, Dict.get?_set]
    split
    · next heq =>
      rw [← heq]
      simp
    · next hne => simp [Ne.symm hne]
  · rw [List.nodup_append]
    refine ⟨h.distinct, List.nodup_singleton id, ?_⟩
    intro a ha b hb heq
    exact hnot (List.mem_singleton.1 hb ▸ heq ▸ ha)

/-- A request without an entry has no cached blocks. -/
theorem Inv.numCached_zero (h : s.Inv hasher seen free)
    (hentry : s.manager.reqToBlocks.get? id = none) :
    s.manager.numCached id = 0 := by
  have hnone : s.manager.numCachedBlock.get? id = none := by
    rw [← Option.not_isSome_iff_eq_none]
    intro hsome
    have hsome' := h.good.counted id hsome
    rw [hentry] at hsome'
    cases hsome'
  rw [KVCacheManager.numCached, hnone]
  rfl

/-- A waiting request gets cached blocks and new ones and runs, or nothing changes. -/
theorem placeWaiting_inv {computed : List Ref} {numComputed : Nat} (hl : hasher.LosslessOn seen)
    (hb : 0 < hasher.blockSize) (h : s.Inv hasher seen free) (hp : s.Planned)
    (hget : s.requests.get? id = some r) (hstatus : r.status ≠ .running)
    (hplace : s.manager.Placeable r computed)
    (hcomputed : numComputed = computed.length * s.manager.blockSize ∧
      computed.length * s.manager.blockSize ≤ r.numTokens) {n : Nat} (hn : 0 < n) :
    (free.length < s.needed r n numComputed computed
          (if r.numComputedTokens = 0 then 0 else s.numLookaheadTokens) ∧
        s.placeWaiting r computed numComputed n = .ok (s, .notScheduled id)) ∨
      (s.needed r n numComputed computed
          (if r.numComputedTokens = 0 then 0 else s.numLookaheadTokens) ≤ free.length ∧
        ∃ s' news free', s.placeWaiting r computed numComputed n =
          .ok (s', .scheduled id computed news) ∧
          s'.Inv hasher seen free' ∧ s'.Planned ∧
          s.Joins s' id r (r.numComputedTokens + numComputed) n computed) := by
  have hid := h.ids id r hget
  by_cases hlack : free.length < s.needed r n numComputed computed
      (if r.numComputedTokens = 0 then 0 else s.numLookaheadTokens)
  · refine .inl ⟨hlack, ?_⟩
    have hnone := KVCacheManager.allocateSlots_none h.good hplace (by omega) hlack
    rw [placeWaiting]
    simp only [hnone, hid, bind, Except.bind, pure, Except.pure]
  · have hroom := Nat.le_of_not_lt hlack
    obtain ⟨news, m', free', hsome, halloc⟩ := KVCacheManager.allocateSlots_some h.good
      (h.separated hl) hplace (by omega) (by rw [hid, hashes_of_get hget])
      (fun hon => h.length_blockHashes hget hon) hroom
    have hentries := halloc.entries
    rw [hid] at hentries
    refine .inr ⟨hroom, { s with
      manager := m'
      requests := s.requests.set id
        { r with status := .running, numComputedTokens := r.numComputedTokens + numComputed }
      running := s.running ++ [id]
      numScheduledTokens := s.numScheduledTokens.set id n }, news, free', ?_,
      h.start hget hstatus (r.numComputedTokens + numComputed) halloc.config halloc.good hentries,
      ?_, ?_⟩
    · rw [placeWaiting]
      simp only [hsome, bind, Except.bind, pure, Except.pure, hid]
    · have hzero := h.numCached_zero (h.no_entry hget hstatus)
      refine hp.schedule (r := r) (c := r.numComputedTokens + numComputed)
        (by rw [h.blockSize]; exact hb) hid (by rfl) (Dict.get?_set_self _ _ _) rfl
          (fun id' hne => Dict.get?_set_of_ne _ _ hne)
        (fun _ hmem => List.mem_append_left _ hmem) (by simp) halloc ?_ ?_ ?_
      · rw [hzero, Nat.zero_add]
        exact ⟨by omega, hcomputed.2⟩
      · intro p h₁ h₂ h₃
        exact lt_tokensNeedSlot h₁ h₂ h₃
      · omega
    · refine joins_of_allocated halloc hid (fun id' => Dict.get?_set _ _ _ _) rfl ?_
        (by rw [hcomputed.1])
      rcases hplace with hnil | ⟨-, hentry, hhit⟩
      · exact .inl hnil
      · refine .inr ⟨?_, hhit⟩
        rw [hid] at hentry
        rw [KVCacheManager.reqBlocks, hentry]
        rfl

/-- `can_fit_full_sequence` says whether the whole request finds enough free blocks. -/
theorem canFitFullSequence_inv {computed : List Ref} (h : s.Inv hasher seen free)
    (hplace : s.manager.Placeable r computed) :
    s.manager.canFitFullSequence r computed = .ok (decide (s.manager.neededBlocks r.requestId
      (min r.numTokens s.manager.maxModelLen) computed ≤ free.length)) := by
  have hneed := KVCacheManager.getNumBlocksToAllocate_good h.good hplace
    (min r.numTokens s.manager.maxModelLen)
  rw [KVCacheManager.canFitFullSequence]
  simp only [hneed, bind, Except.bind, pure, Except.pure, BlockPool.getNumFreeBlocks,
    h.good.pool.represents.num, Int.ofNat_le]

/-- Scheduling a waiting request. -/
theorem scheduleWaiting_inv (hl : hasher.LosslessOn seen) (hb : 0 < hasher.blockSize)
    (h : s.Inv hasher seen free) (hp : s.Planned) (hget : s.requests.get? id = some r)
    (hstatus : r.status ≠ .running) {n : Nat} (hn : 0 < n) :
    s.scheduleWaiting r n = .ok (s, .notScheduled id) ∨
      ∃ s' computed news free' c, s.scheduleWaiting r n = .ok (s', .scheduled id computed news) ∧
        s'.Inv hasher seen free' ∧ s'.Planned ∧ s.Joins s' id r c n computed := by
  have hid := h.ids id r hget
  obtain ⟨computed, numComputed, hcomputed, hplace, hle⟩ := computedBlocks_inv h hget hstatus
  have hplaced : s.placeWaiting r computed numComputed n = .ok (s, .notScheduled id) ∨
      ∃ s' hits news free' c, s.placeWaiting r computed numComputed n =
        .ok (s', .scheduled id hits news) ∧
        s'.Inv hasher seen free' ∧ s'.Planned ∧ s.Joins s' id r c n hits := by
    rcases placeWaiting_inv hl hb h hp hget hstatus hplace hle hn with
      ⟨-, hnone⟩ | ⟨-, s', news, free', hsome, hinv⟩
    · exact .inl hnone
    · exact .inr ⟨s', computed, news, free', _, hsome, hinv⟩
  unfold scheduleWaiting
  simp only [hcomputed, bind, Except.bind]
  split
  · rw [canFitFullSequence_inv h hplace]
    simp only
    split
    · exact hplaced
    · rw [hid]
      exact .inl rfl
  · exact hplaced

/-! ## The other calls -/

omit [DecidableEq H] in
/-- What is left of the step when a request leaves it. -/
theorem unschedule_sub {id' : String} {n : Nat}
    (hget : (s.unschedule id).numScheduledTokens.get? id' = some n) :
    id ≠ id' ∧ s.numScheduledTokens.get? id' = some n := by
  rw [unschedule, Dict.get?_pop] at hget
  split at hget
  · cases hget
  · next hne => exact ⟨hne, hget⟩

/-- A running request loses its blocks and waits again. -/
theorem preemptRequest_inv (h : s.Inv hasher seen free) (hp : s.Planned)
    (hget : s.requests.get? id = some r) (hrun : id ∈ s.running) :
    ∃ s' free', (s.unschedule id).preemptRequest r = .ok s' ∧ s'.Inv hasher seen free' ∧
      s'.Planned ∧
      s'.running = s.running.erase id ∧ s'.numScheduledTokens = s.numScheduledTokens.pop id ∧
      (s.numScheduledTokens.get? id = none → s.Loosens s') := by
  have hid := h.ids id r hget
  have hstatus : r.status = .running := by
    obtain ⟨r', hget', hr'⟩ := (h.running id).1 hrun
    rw [hget, Option.some.injEq] at hget'
    rw [hget', hr']
  obtain ⟨m', free', hfree, hgood, hconf, hentries, hcounts, hhash⟩ :=
    KVCacheManager.free_good h.good id
  have hblocks : ∀ id', id ≠ id' → m'.reqBlocks id' = s.manager.reqBlocks id' := by
    intro id' hne
    rw [KVCacheManager.reqBlocks, hentries, Dict.get?_pop, if_neg hne]
    rfl
  have hcount : ∀ id', m'.numCached id' = if id = id' then 0 else s.manager.numCached id' := by
    intro id'
    rw [KVCacheManager.numCached, hcounts, Dict.get?_pop]
    split
    · rfl
    · rfl
  refine ⟨{ s with
    manager := m'
    requests := s.requests.set id { r with status := .preempted, numComputedTokens := 0 }
    running := s.running.erase id
    numScheduledTokens := s.numScheduledTokens.pop id }, free', ?_, ?_, ?_, rfl, rfl, ?_⟩
  · rw [preemptRequest, if_pos hstatus, hid]
    have hmanager : (s.unschedule id).manager.free id = .ok m' := hfree
    simp only [hmanager, bind, Except.bind, pure, Except.pure]
    rfl
  · refine h.rebuild hconf (hgood.of_hashes ?_) ?_ ?_ ?_ (h.distinct.erase id)
    · intro id' _ i v hv
      rw [hashes_set]
      split
      · next heq =>
        rw [← heq, hashes_of_get hget] at hv
        exact hv
      · exact hv
    · intro id' r' hget'
      rw [Dict.get?_set] at hget'
      split at hget'
      · next heq =>
        obtain ⟨hid, hne, hhashed⟩ := h.request hget
        rw [← Option.some.inj hget', ← heq]
        exact ⟨hid, hne, hhashed.congr _ _⟩
      · exact h.request hget'
    · intro id' hsome
      rw [hentries, Dict.get?_pop] at hsome
      split at hsome
      · cases hsome
      · next hne => exact (h.distinct.mem_erase_iff).2 ⟨Ne.symm hne, h.holding id' hsome⟩
    · intro id'
      rw [h.distinct.mem_erase_iff, h.running, Dict.get?_set]
      split
      · next heq =>
        rw [← heq]
        simp
      · next hne => simp [Ne.symm hne]
  · refine hp.of_same ?_ (hp.keys.sublist (Dict.keys_pop_sublist _ _)) hconf.1 hconf.2.1 ?_
    · intro id' n hn
      obtain ⟨hne, hold⟩ := unschedule_sub hn
      have hrun' := hp.pending id' (by rw [hold]; rfl)
      exact ⟨hold, (h.distinct.mem_erase_iff).2 ⟨Ne.symm hne, hrun'⟩, Dict.get?_set_of_ne _ _ hne,
        hblocks id' hne⟩
    · intro id' r' hget'
      show m'.numCached id' * m'.blockSize ≤ _ ∧ m'.numCached id' * m'.blockSize ≤ _
      rw [hcount, hconf.1, scheduledTokens, Dict.get?_pop]
      rw [Dict.get?_set] at hget'
      split at hget'
      · next heq =>
        rw [if_pos heq, Nat.zero_mul]
        exact ⟨Nat.zero_le _, Nat.zero_le _⟩
      · next hne =>
        rw [if_neg hne, if_neg hne]
        exact hp.committed id' r' hget'
  · intro hidle
    refine ⟨?_, ?_, hconf, fun b key hkey => by rw [← hhash]; exact hkey⟩
    · intro id' r' hget'
      rw [Dict.get?_set] at hget'
      split at hget'
      · next heq =>
        obtain rfl := Option.some.inj hget'
        exact ⟨r, heq ▸ hget, rfl, .inl rfl⟩
      · next hne => exact ⟨r', hget', rfl, .inr ⟨rfl, Nat.le_refl _, hblocks id' hne⟩⟩
    · intro id' n hn
      have hne : id ≠ id' := by
        rintro rfl
        rw [hidle] at hn
        cases hn
      exact ⟨by rw [Dict.get?_pop, if_neg hne, hn], Dict.get?_set_of_ne _ _ hne, hblocks id' hne⟩

/-- A request leaves. -/
theorem freeBlocks_inv (h : s.Inv hasher seen free) (hp : s.Planned)
    (hnil : s.numScheduledTokens = []) (hget : s.requests.get? id = some r) :
    ∃ s' free', (s.unschedule id).freeBlocks r = .ok s' ∧ s'.Inv hasher seen free' ∧ s'.Planned ∧
      s.Loosens s' := by
  have hid := h.ids id r hget
  obtain ⟨m', free', hfree, hgood, hconf, hentries, hcounts, hhash⟩ :=
    KVCacheManager.free_good h.good id
  refine ⟨{ s with
    manager := m'
    requests := s.requests.pop id
    running := s.running.erase id
    numScheduledTokens := s.numScheduledTokens.pop id }, free', ?_, ?_, ?_, ?_⟩
  · have hmanager : (s.unschedule id).manager.free id = .ok m' := hfree
    rw [freeBlocks, hid]
    simp only [hmanager, bind, Except.bind, pure, Except.pure]
    rfl
  · have hold : ∀ {id' r'}, (s.requests.pop id).get? id' = some r' →
        id ≠ id' ∧ s.requests.get? id' = some r' := by
      intro id' r' hget'
      rw [Dict.get?_pop] at hget'
      split at hget'
      · cases hget'
      · next hne => exact ⟨hne, hget'⟩
    refine h.rebuild hconf (hgood.of_hashes ?_) ?_ ?_ ?_ (h.distinct.erase id)
    · intro id' hsome i v hv
      rw [hentries, Dict.get?_pop] at hsome
      rw [hashes_pop]
      split
      · next heq =>
        rw [if_pos heq] at hsome
        cases hsome
      · exact hv
    · intro id' r' hget'
      exact h.request (hold hget').2
    · intro id' hsome
      rw [hentries, Dict.get?_pop] at hsome
      split at hsome
      · cases hsome
      · next hne => exact (h.distinct.mem_erase_iff).2 ⟨Ne.symm hne, h.holding id' hsome⟩
    · intro id'
      rw [h.distinct.mem_erase_iff, h.running, Dict.get?_pop]
      split
      · next heq =>
        rw [← heq]
        simp
      · next hne => simp [Ne.symm hne]
  · apply Planned.of_nil
    · show Dict.pop s.numScheduledTokens id = []
      rw [hnil]
      rfl
    · intro id' r' hget'
      show m'.numCached id' * m'.blockSize ≤ _ ∧ m'.numCached id' * m'.blockSize ≤ _
      rw [Dict.get?_pop] at hget'
      split at hget'
      · cases hget'
      · next hne =>
        rw [KVCacheManager.numCached, hcounts, Dict.get?_pop, if_neg hne, hconf.1]
        exact hp.committed_nil hnil hget'
  · refine ⟨?_, ?_, hconf, fun b key hkey => by rw [← hhash]; exact hkey⟩
    · intro id' r' hget'
      rw [Dict.get?_pop] at hget'
      split at hget'
      · cases hget'
      · next hne =>
        refine ⟨r', hget', rfl, .inr ⟨rfl, Nat.le_refl _, ?_⟩⟩
        show m'.reqBlocks id' = s.manager.reqBlocks id'
        rw [KVCacheManager.reqBlocks, hentries, Dict.get?_pop, if_neg hne]
        rfl
    · intro id' n hn
      rw [hnil] at hn
      cases hn

omit [DecidableEq H] in
/-- What `_update_after_schedule` makes of the requests. -/
theorem advance_ok {scheduled : List (String × Nat)} (hkeys : (scheduled.map Prod.fst).Nodup)
    (hin : ∀ e ∈ scheduled, (requests.get? e.1).isSome) :
    ∃ requests', advance requests scheduled = .ok requests' ∧ ∀ id, requests'.get? id =
      (requests.get? id).map fun r => { r with
        numComputedTokens := r.numComputedTokens + (Dict.get? scheduled id).getD 0 } := by
  induction scheduled generalizing requests with
  | nil =>
    refine ⟨requests, rfl, ?_⟩
    intro id
    cases requests.get? id with
    | none => rfl
    | some r => rfl
  | cons e rest ih =>
    obtain ⟨id₀, n⟩ := e
    obtain ⟨hnot, hrest⟩ := List.nodup_cons.1 hkeys
    obtain ⟨r₀, hr₀⟩ := Option.isSome_iff_exists.1 (hin (id₀, n) List.mem_cons_self)
    obtain ⟨requests', hloop, hget⟩ := @ih (requests.set id₀
        { r₀ with numComputedTokens := r₀.numComputedTokens + n }) hrest (by
      intro e he
      rw [Dict.get?_set]
      split
      · rfl
      · exact hin e (List.mem_cons_of_mem _ he))
    refine ⟨requests', ?_, ?_⟩
    · rw [advance, hr₀]
      exact hloop
    · intro id
      rw [hget, Dict.get?_set, Dict.get?_cons]
      by_cases hid : id₀ = id
      · subst hid
        have hnone : Dict.get? rest id₀ = none := by
          rw [← Option.not_isSome_iff_eq_none, Dict.get?_isSome]
          exact hnot
        rw [if_pos rfl, if_pos rfl, hnone, hr₀]
        rfl
      · rw [if_neg hid, if_neg hid]

/-- The step is computed. -/
theorem updateAfterSchedule_inv (h : s.Inv hasher seen free) (hp : s.Planned) :
    ∃ s', s.updateAfterSchedule = .ok s' ∧ s'.Inv hasher seen free ∧ s'.Planned ∧
      s'.manager = s.manager ∧ s'.numScheduledTokens = [] ∧
      ∀ id, s'.requests.get? id = (s.requests.get? id).map fun r =>
        { r with numComputedTokens := r.numComputedTokens + s.scheduledTokens id } := by
  obtain ⟨requests', hadvance, hget⟩ := @advance_ok _ s.requests _ hp.keys (by
    intro e he
    have hsome : (s.numScheduledTokens.get? e.1).isSome := by
      rw [Dict.get?_isSome]
      exact List.mem_map_of_mem he
    obtain ⟨r, hr, -⟩ := (h.running e.1).1 (hp.pending e.1 hsome)
    rw [hr]
    rfl)
  refine ⟨{ s with requests := requests', numScheduledTokens := [] }, ?_, ?_, ?_, rfl, rfl, hget⟩
  · rw [updateAfterSchedule]
    simp only [hadvance, bind, Except.bind, pure, Except.pure]
  · refine h.rebuild ⟨rfl, rfl, rfl, rfl, rfl, rfl⟩ (h.good.of_hashes ?_) ?_ h.holding ?_ h.distinct
    · intro id' _ i v hv
      rw [hashes, hget]
      unfold hashes at hv
      cases hr : s.requests.get? id' with
      | none =>
        rw [hr] at hv
        simp at hv
      | some r =>
        rw [hr] at hv
        exact hv
    · intro id' r' hget'
      rw [hget, Option.map_eq_some_iff] at hget'
      obtain ⟨r, hr, rfl⟩ := hget'
      obtain ⟨hid, hne, hhashed⟩ := h.request hr
      exact ⟨hid, hne, hhashed.congr _ _⟩
    · intro id'
      rw [h.running, hget]
      cases s.requests.get? id' with
      | none => simp
      | some r => simp
  · apply Planned.of_nil rfl
    intro id' r' hget'
    rw [hget, Option.map_eq_some_iff] at hget'
    obtain ⟨r, hr, rfl⟩ := hget'
    exact hp.committed id' r hr

/-- The loop of `reset_prefix_cache` preempts all running requests. -/
theorem preemptAll_inv {rest : List String} (h : s.Inv hasher seen free) (hp : s.Planned)
    (hnil : s.numScheduledTokens = []) (hrest : s.running = rest.reverse) :
    ∃ s' free', preemptAll s rest = .ok s' ∧ s'.Inv hasher seen free' ∧ s'.Planned ∧
      s'.numScheduledTokens = [] ∧ s'.running = [] ∧ s.Loosens s' := by
  induction rest generalizing s free with
  | nil => exact ⟨s, free, rfl, h, hp, hnil, hrest, .refl s⟩
  | cons id rest ih =>
    have hmem : id ∈ s.running := by
      rw [hrest]
      simp
    obtain ⟨r, hget, -⟩ := (h.running id).1 hmem
    obtain ⟨s₁, free₁, hpreempt, hinv, hplan, hrunning, hscheduled, hloose⟩ :=
      preemptRequest_inv h hp hget hmem
    have hleft : s₁.running = rest.reverse := by
      have hnot : id ∉ rest.reverse := by
        have hnd := h.distinct
        rw [hrest, List.reverse_cons, List.nodup_append] at hnd
        intro hid
        exact hnd.2.2 id hid id (List.mem_singleton_self id) rfl
      rw [hrunning, hrest, List.reverse_cons, List.erase_append_right _ hnot]
      simp
    have hnil₁ : s₁.numScheduledTokens = [] := by
      rw [hscheduled, hnil]
      rfl
    have hidle : s.numScheduledTokens.get? id = none := by
      rw [hnil]
      rfl
    obtain ⟨s', free', hloop, hinv', hplan', hnil', hnone, hloose'⟩ := ih hinv hplan hnil₁ hleft
    refine ⟨s', free', ?_, hinv', hplan', hnil', hnone, (hloose hidle).trans hloose'⟩
    rw [preemptAll, hget]
    simp only [hpreempt, bind, Except.bind]
    exact hloop

/-- `reset_prefix_cache` succeeds exactly when no request holds a block, and always does after
preempting the running requests. -/
theorem resetPrefixCache_inv (h : s.Inv hasher seen free) (hp : s.Planned)
    (hnil : s.numScheduledTokens = []) (resetRunning : Bool) :
    ∃ s' success free', s.resetPrefixCache resetRunning = .ok (s', success) ∧
      s'.Inv hasher seen free' ∧
      s'.Planned ∧ (resetRunning = true → success = true ∧ s'.running = []) ∧
      (resetRunning = false →
        (success = true ↔ ∀ id bs, s.manager.reqToBlocks.get? id = some bs → bs = []) ∧
        (success = false → s' = s)) ∧
      (success = true → ∀ b, (s'.manager.blockPool.object b).blockHash = none) ∧ s.Loosens s' := by
  obtain ⟨s₁, free₁, hfirst, hinv, hplan, hnil₁, hloose, hnone, hsame⟩ : ∃ s₁ free₁,
      (if resetRunning = true then preemptAll s s.running.reverse else .ok s) = .ok s₁ ∧
      s₁.Inv hasher seen free₁ ∧ s₁.Planned ∧ s₁.numScheduledTokens = [] ∧ s.Loosens s₁ ∧
      (resetRunning = true → s₁.running = []) ∧ (resetRunning = false → s₁ = s) := by
    cases resetRunning with
    | false => exact ⟨s, free, rfl, h, hp, hnil, .refl s, by simp, fun _ => rfl⟩
    | true =>
      obtain ⟨s', free', hloop, hinv', hplan', hnil', hdone, hloose⟩ :=
        preemptAll_inv h hp hnil (List.reverse_reverse _).symm
      exact ⟨s', free', hloop, hinv', hplan', hnil', hloose, fun _ => hdone, by simp⟩
  obtain ⟨hiff, hfail, hgood, hconf, hentries, hcounts, hhash, hclear⟩ :=
    KVCacheManager.resetPrefixCache_good hinv.good hinv.blocks
  obtain ⟨success, m', hreset⟩ : ∃ success m', s₁.manager.resetPrefixCache = (success, m') :=
    ⟨_, _, rfl⟩
  rw [hreset] at hiff hfail hgood hconf hentries hcounts hhash hclear
  have hsuccess : resetRunning = true → success = true := by
    intro hreq
    refine hiff.2 ?_
    intro id bs hget
    have hmem := hinv.holding id (by rw [hget]; rfl)
    rw [hnone hreq] at hmem
    cases hmem
  refine ⟨{ s₁ with manager := m' }, success, free₁, ?_, hinv.setManager hconf hgood ?_, ?_, ?_, ?_,
    hclear, hloose.trans ?_⟩
  · have hno : ¬ (resetRunning = true ∧ ¬ success = true) := fun hc => hc.2 (hsuccess hc.1)
    rw [resetPrefixCache]
    simp only [bind, Except.bind]
    split at hfirst
    · next hreq =>
      rw [if_pos hreq, hfirst]
      simp only [hreset, if_neg hno, pure, Except.pure]
    · next hreq =>
      obtain rfl := Except.ok.inj hfirst
      rw [if_neg hreq]
      simp only [hreset, if_neg hno, pure, Except.pure]
  · intro id hsome
    rw [hentries] at hsome
    exact hinv.holding id hsome
  · refine Planned.of_nil (s := { s₁ with manager := m' }) hnil₁ ?_
    intro id r hget
    show m'.numCached id * m'.blockSize ≤ _ ∧ m'.numCached id * m'.blockSize ≤ _
    have hcount : m'.numCached id = s₁.manager.numCached id := by
      have heq : m'.numCachedBlock = s₁.manager.numCachedBlock := hcounts
      rw [KVCacheManager.numCached, heq]
      rfl
    have hsize : m'.blockSize = s₁.manager.blockSize := hconf.1
    rw [hcount, hsize]
    exact hplan.committed_nil hnil₁ hget
  · intro hreq
    exact ⟨hsuccess hreq, hnone hreq⟩
  · intro hreq
    obtain rfl := hsame hreq
    refine ⟨hiff, ?_⟩
    intro hfalse
    have hm : m' = s₁.manager := hfail hfalse
    rw [hm]
  · have hblocks : ∀ id, m'.reqBlocks id = s₁.manager.reqBlocks id := by
      intro id
      rw [KVCacheManager.reqBlocks, hentries]
      rfl
    refine ⟨fun id r hget => ⟨r, hget, rfl, .inr ⟨rfl, Nat.le_refl _, hblocks id⟩⟩,
      fun id n hn => ⟨hn, rfl, hblocks id⟩, hconf, ?_⟩
    intro b key hkey
    have hkey' : (m'.blockPool.object b).blockHash = some key := hkey
    rcases hhash b with hsame' | hgone
    · exact hsame' ▸ hkey'
    · rw [hgone] at hkey'
      cases hkey'

/-! ## Runs -/

/-- The event tells no error. -/
def Fine (e : Event) : Prop := ∀ err, e ≠ .raised err

/-- The call adds no request under an id that is in use. -/
def Fresh (s : Scheduler H) : Action H → Prop
  | .addRequest request => s.requests.get? request.requestId = none
  | _ => True

/-- The state of a scheduler between two calls. -/
def Sound (hasher : Hasher H) (seen : HashInput H → Prop) (s : Scheduler H) : Prop :=
  (∃ free, s.Inv hasher seen free) ∧ s.Planned

omit [DecidableEq H] in
theorem settle_error {err : PyError} {es : List Event}
    (hstep : settle s (.error err) = some (s', es)) : s = s' ∧ [.raised err] = es := by
  rw [settle, Option.some.injEq, Prod.mk.injEq] at hstep
  exact hstep

omit [DecidableEq H] in
theorem settle_ok {s₁ : Scheduler H} {es es' : List Event}
    (hstep : settle s (.ok (s₁, es)) = some (s', es')) : s₁ = s' ∧ es = es' := by
  rw [settle, Option.some.injEq, Prod.mk.injEq] at hstep
  exact hstep

/-- Every call keeps the invariant, and raises nothing when a new request has a new id. -/
theorem step_sound (hl : hasher.LosslessOn seen) (hb : 0 < hasher.blockSize)
    (h : s.Sound hasher seen) {a : Action H} {es : List Event}
    (hseen : ∀ y ∈ s.hashInputs a, seen y) (hstep : s.step a = some (s', es)) :
    s'.Sound hasher seen ∧ (s.Fresh a → ∀ e ∈ es, Fine e) := by
  obtain ⟨⟨free, h⟩, hp⟩ := h
  have hnil : ∀ {a}, s.Fresh a → ∀ e ∈ ([] : List Event), Fine e := by simp
  cases a with
  | addRequest request =>
    simp only [step] at hstep
    split at hstep
    · next hok =>
      by_cases hused : (s.requests.get? request.requestId).isNone = true
      case neg =>
        rw [if_neg hused] at hstep
        obtain ⟨rfl, rfl⟩ := settle_error hstep
        refine ⟨⟨⟨free, h⟩, hp⟩, fun hfresh => ?_⟩
        exact absurd (Option.isNone_iff_eq_none.2 hfresh) hused
      rw [if_pos hused] at hstep
      obtain ⟨rfl, rfl⟩ := settle_ok hstep
      have hnew := Option.isNone_iff_eq_none.1 hused
      have hother : ∀ {id r}, s.requests.get? id = some r → request.requestId ≠ id := by
        intro id r hget heq
        rw [← heq, hnew] at hget
        cases hget
      refine ⟨⟨⟨free, addRequest_inv hb h hnew hok hseen⟩, hp.of_same ?_ hp.keys rfl rfl ?_⟩, hnil⟩
      · intro id n hn
        have hrun := hp.pending id (by rw [show s.numScheduledTokens.get? id = some n from hn]; rfl)
        obtain ⟨r, hget, -⟩ := (h.running id).1 hrun
        exact ⟨hn, hrun, Dict.get?_set_of_ne _ _ (hother hget), rfl⟩
      · intro id r hget
        show s.manager.numCached id * s.manager.blockSize ≤ _ ∧
          s.manager.numCached id * s.manager.blockSize ≤ _
        rw [addRequest, Dict.get?_set] at hget
        split at hget
        · next heq =>
          have hentry : s.manager.reqToBlocks.get? id = none := by
            rw [← Option.not_isSome_iff_eq_none]
            intro hsome
            obtain ⟨r', hget', -⟩ := (h.running id).1 (h.holding id hsome)
            exact hother hget' heq
          rw [h.numCached_zero hentry, Nat.zero_mul]
          exact ⟨Nat.zero_le _, Nat.zero_le _⟩
        · exact hp.committed id r hget
    · cases hstep
  | scheduleWaiting id n =>
    simp only [step] at hstep
    split at hstep
    · cases hstep
    · next r hget =>
      split at hstep
      · next hok =>
        rcases scheduleWaiting_inv hl hb h hp hget hok.1 hok.2 with
          hnone | ⟨s₁, hits, news, free', c, hsome, hinv, hplan, -⟩
        · rw [hnone] at hstep
          obtain ⟨rfl, rfl⟩ := settle_ok hstep
          exact ⟨⟨⟨free, h⟩, hp⟩, by simp [Fine]⟩
        · rw [hsome] at hstep
          obtain ⟨rfl, rfl⟩ := settle_ok hstep
          exact ⟨⟨⟨free', hinv⟩, hplan⟩, by simp [Fine]⟩
      · cases hstep
  | scheduleRunning id n =>
    simp only [step] at hstep
    split at hstep
    · cases hstep
    · next r hget =>
      split at hstep
      · next hok =>
        rcases scheduleRunning_inv hl hb h hp hget hok.1 (Option.isNone_iff_eq_none.1 hok.2.2)
          hok.2.1 with
          ⟨-, hnone⟩ | ⟨-, s₁, news, free', hsome, hinv, hplan, -⟩
        · rw [hnone] at hstep
          obtain ⟨rfl, rfl⟩ := settle_ok hstep
          exact ⟨⟨⟨free, h⟩, hp⟩, by simp [Fine]⟩
        · rw [hsome] at hstep
          obtain ⟨rfl, rfl⟩ := settle_ok hstep
          exact ⟨⟨⟨free', hinv⟩, hplan⟩, by simp [Fine]⟩
      · cases hstep
  | preempt id =>
    simp only [step] at hstep
    split at hstep
    · cases hstep
    · next r hget =>
      split at hstep
      · next hrun =>
        obtain ⟨s₁, free', hpreempt, hinv, hplan, -⟩ := preemptRequest_inv h hp hget hrun
        rw [hpreempt] at hstep
        obtain ⟨rfl, rfl⟩ := settle_ok hstep
        exact ⟨⟨⟨free', hinv⟩, hplan⟩, hnil⟩
      · cases hstep
  | updateAfterSchedule =>
    simp only [step] at hstep
    obtain ⟨s₁, hupdate, hinv, hplan, -⟩ := updateAfterSchedule_inv h hp
    rw [hupdate] at hstep
    obtain ⟨rfl, rfl⟩ := settle_ok hstep
    exact ⟨⟨⟨free, hinv⟩, hplan⟩, hnil⟩
  | reject id n =>
    simp only [step] at hstep
    split at hstep
    · cases hstep
    · next r hget =>
      split at hstep
      · next hok =>
        obtain ⟨rfl, rfl⟩ := Prod.mk.inj (Option.some.inj hstep)
        obtain ⟨hid, hne, hhashed⟩ := h.request hget
        refine ⟨⟨⟨free, h.setRequest hget hid rfl hne (hhashed.congr _ _) (fun _ _ hv => hv)⟩, ?_⟩,
          hnil⟩
        refine Planned.of_nil hok.1 ?_
        intro id' r' hget'
        rw [Dict.get?_set] at hget'
        split at hget'
        · next heq =>
          -- The tokens of the request are computed, and the cached ones are among them.
          have hcommitted := hp.committed_nil hok.1 hget
          rw [← Option.some.inj hget', ← heq]
          refine ⟨hcommitted.1, ?_⟩
          show s.manager.numCached id * s.manager.blockSize ≤ r.numComputedTokens - n
          omega
        · exact hp.committed_nil hok.1 hget'
      · cases hstep
  | appendOutput id tokenIds =>
    simp only [step] at hstep
    split at hstep
    · cases hstep
    · next r hget =>
      split at hstep
      · next hok =>
        obtain ⟨rfl, rfl⟩ := Prod.mk.inj (Option.some.inj hstep)
        refine ⟨⟨⟨free, appendOutput_inv hb h hget tokenIds hseen⟩, ?_⟩, hnil⟩
        refine Planned.of_nil hok ?_
        intro id' r' hget'
        rw [Dict.get?_set] at hget'
        split at hget'
        · next heq =>
          have hcommitted := hp.committed_nil hok hget
          have hfields : (r.appendOutputTokenIds s.blockHasher tokenIds).numTokens =
                r.numTokens + tokenIds.length ∧
              (r.appendOutputTokenIds s.blockHasher tokenIds).numComputedTokens =
                r.numComputedTokens := by
            cases s.blockHasher <;> exact ⟨List.length_append, rfl⟩
          rw [← Option.some.inj hget', ← heq, hfields.1, hfields.2]
          exact ⟨Nat.le_trans hcommitted.1 (Nat.le_add_right _ _), hcommitted.2⟩
        · exact hp.committed_nil hok hget'
      · cases hstep
  | finish id =>
    simp only [step] at hstep
    split at hstep
    · cases hstep
    · next r hget =>
      split at hstep
      · next hok =>
        obtain ⟨s₁, free', hfree, hinv, hplan, -⟩ := freeBlocks_inv h hp hok hget
        rw [hfree] at hstep
        obtain ⟨rfl, rfl⟩ := settle_ok hstep
        exact ⟨⟨⟨free', hinv⟩, hplan⟩, hnil⟩
      · cases hstep
  | evict blockIds =>
    simp only [step] at hstep
    split at hstep
    · next hok =>
      obtain ⟨m', hevict, hgood, hconf, hentries, hcounts, -⟩ :=
        KVCacheManager.evictBlocks_good h.good hok.2
      rw [hevict] at hstep
      obtain ⟨rfl, rfl⟩ := settle_ok hstep
      refine ⟨⟨⟨free, h.setManager hconf hgood (fun id hsome => h.holding id (hentries ▸ hsome))⟩,
        ?_⟩, hnil⟩
      refine Planned.of_nil (s := { s with manager := m' }) hok.1 ?_
      intro id r hget
      show m'.numCached id * m'.blockSize ≤ _ ∧ m'.numCached id * m'.blockSize ≤ _
      rw [KVCacheManager.numCached, hcounts, hconf.1]
      exact hp.committed_nil hok.1 hget
    · cases hstep
  | reset resetRunning =>
    simp only [step] at hstep
    split at hstep
    · next hok =>
      obtain ⟨s₁, success, free', hreset, hinv, hplan, -, -, -⟩ :=
        resetPrefixCache_inv h hp hok resetRunning
      rw [hreset] at hstep
      obtain ⟨rfl, rfl⟩ := settle_ok hstep
      exact ⟨⟨⟨free', hinv⟩, hplan⟩, by simp [Fine]⟩
    · cases hstep

/-- A new scheduler. -/
theorem init_sound {hasher : Hasher H} {numGpuBlocks maxModelLen : Nat}
    {enableCaching useEagle reserveFullIsl : Bool} {numLookaheadTokens : Nat}
    (hinit : init hasher numGpuBlocks maxModelLen enableCaching useEagle reserveFullIsl
      numLookaheadTokens = .ok s) : s.Sound hasher seen := by
  have hn : 0 < numGpuBlocks := by
    by_contra hn
    simp only [init, BlockPool.init, if_neg hn, bind, Except.bind] at hinit
    cases hinit
  obtain ⟨s₀, free, hinit₀, hinv, hempty, hnone, -⟩ :=
    init_inv hasher seen hn maxModelLen enableCaching useEagle
    reserveFullIsl numLookaheadTokens
  rw [hinit₀] at hinit
  obtain rfl := Except.ok.inj hinit
  refine ⟨⟨free, hinv⟩, Planned.of_nil hempty ?_⟩
  intro id r hget
  rw [hnone] at hget
  cases hget

/-- What the calls give to the hash function. -/
def runHashInputs : Scheduler H → List (Action H) → List (HashInput H)
  | _, [] => []
  | s, a :: actions =>
    s.hashInputs a ++
      match s.step a with
      | none => []
      | some (s', _) => runHashInputs s' actions

/-- In each step of a run the hash function gets what it gets in the run. -/
theorem allSteps_hashInputs {actions : List (Action H)}
    (hseen : ∀ y ∈ s.runHashInputs actions, seen y) :
    Transition.AllSteps step (fun s a => ∀ y ∈ s.hashInputs a, seen y) s actions := by
  induction actions generalizing s with
  | nil => trivial
  | cons a actions ih =>
    rw [runHashInputs, List.forall_mem_append] at hseen
    refine ⟨hseen.1, ?_⟩
    intro s₁ es hstep
    apply ih
    rw [hstep] at hseen
    exact hseen.2

/-- Every run keeps the invariant. -/
theorem calls_sound (hl : hasher.LosslessOn seen) (hb : 0 < hasher.blockSize)
    (h : s.Sound hasher seen) {actions : List (Action H)} {es : List Event}
    (hseen : ∀ y ∈ s.runHashInputs actions, seen y)
    (hrun : Transition.run step s actions = some (s', es)) : s'.Sound hasher seen := by
  refine (Transition.run_invariant (I := fun s => s.Sound hasher seen) (Q := fun _ => True) ?_ h
    (allSteps_hashInputs hseen) hrun).1
  intro s a s₁ es hinv hseen hstep
  exact ⟨(step_sound hl hb hinv hseen hstep).1, fun _ _ => trivial⟩

end Scheduler

end AiPipelines.KvCache

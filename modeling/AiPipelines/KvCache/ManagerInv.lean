import AiPipelines.KvCache.Manager
import AiPipelines.KvCache.PoolInv
import Mathlib.Data.List.Perm.Subperm

/-!
# The invariant of the KV-cache manager

`KVCacheManager.Good m hashes free`: the pool is in order with the queue `free`,
and it agrees with the blocks that the requests hold.

* A block has as many references as there are requests that hold it.
* A cached block of a request is cached under the request's hash for its position.
* The blocks behind the cached ones of a request are its own, and not cached.
* A block that two requests hold stands at one position of both, and both have
  the same hash for that position.

`hashes` gives the block hashes of every request.  `Separated` is what the manager
needs of them: a hash tells the position.
-/

namespace AiPipelines.KvCache

open PyStd

namespace KVCacheManager

variable {H : Type}

/-- How many requests hold the block. -/
def holders (reqToBlocks : Dict String (List Ref)) (b : Ref) : Nat :=
  reqToBlocks.countP fun e => decide (b ∈ e.2)

/-- The number of cached blocks of a request. -/
def numCached (m : KVCacheManager H) (id : String) : Nat := (m.numCachedBlock.get? id).getD 0

/-- A hash tells the position of its block. -/
def Separated (hashes : String → List H) : Prop :=
  ∀ id id' (i j : Nat) v, (hashes id)[i]? = some v → (hashes id')[j]? = some v → i = j

variable [DecidableEq H]

/-- The invariant of the manager. -/
structure Good (m : KVCacheManager H) (hashes : String → List H) (free : List Ref) : Prop where
  pool : m.blockPool.Good free []
  keys : (Dict.keys m.reqToBlocks).Nodup
  counted : ∀ id, (m.numCachedBlock.get? id).isSome → (m.reqToBlocks.get? id).isSome
  refs : ∀ b, (m.blockPool.object b).refCnt = holders m.reqToBlocks b
  distinct : ∀ id bs, m.reqToBlocks.get? id = some bs → bs.Nodup
  usable : ∀ id bs, m.reqToBlocks.get? id = some bs → ∀ b ∈ bs, m.blockPool.Usable b
  hashed : ∀ id bs (i : Nat) b key, m.reqToBlocks.get? id = some bs → bs[i]? = some b →
    (m.blockPool.object b).blockHash = some key → key.2 = 0 ∧ (hashes id)[i]? = some key.1
  own : ∀ id bs (i : Nat) b, m.reqToBlocks.get? id = some bs → m.numCached id ≤ i →
    bs[i]? = some b →
    (m.blockPool.object b).blockHash = none ∧ (m.blockPool.object b).refCnt = 1
  shared : ∀ id id' bs bs' (i j : Nat) b, id ≠ id' → m.reqToBlocks.get? id = some bs →
    m.reqToBlocks.get? id' = some bs' → bs[i]? = some b → bs'[j]? = some b →
    i = j ∧ ∃ v, (hashes id)[i]? = some v ∧ (hashes id')[i]? = some v

variable {m : KVCacheManager H} {hashes hashes' : String → List H} {free : List Ref}
  {id id' : String} {bs bs' : List Ref} {b : Ref} {p : BlockPool H}

/-! ## Holders -/

omit [DecidableEq H] in
theorem holders_set : holders (m.reqToBlocks.set id bs) b + (if b ∈ m.reqBlocks id then 1 else 0) =
    holders m.reqToBlocks b + if b ∈ bs then 1 else 0 := by
  have hcount := Dict.countP_set m.reqToBlocks (fun e => decide (b ∈ e.2)) id bs
  simp only [decide_eq_true_eq] at hcount
  unfold holders reqBlocks
  rw [← hcount]
  cases m.reqToBlocks.get? id with
  | none => simp
  | some old => rfl

omit [DecidableEq H] in
theorem holders_pop (hkeys : (Dict.keys m.reqToBlocks).Nodup) :
    holders (m.reqToBlocks.pop id) b + (if b ∈ m.reqBlocks id then 1 else 0) =
      holders m.reqToBlocks b := by
  have hcount := Dict.countP_pop hkeys (fun e => decide (b ∈ e.2)) id
  simp only [decide_eq_true_eq] at hcount
  unfold holders reqBlocks
  rw [← hcount]
  cases m.reqToBlocks.get? id with
  | none => simp
  | some old => rfl

omit [DecidableEq H] in
theorem holders_pos {reqToBlocks : Dict String (List Ref)} (hget : reqToBlocks.get? id = some bs)
    (hb : b ∈ bs) : 0 < holders reqToBlocks b :=
  List.countP_pos_iff.2 ⟨(id, bs), Dict.mem_of_get? hget, by simpa using hb⟩

omit [DecidableEq H] in
theorem reqBlocks_of_get (hget : m.reqToBlocks.get? id = some bs) : m.reqBlocks id = bs := by
  rw [reqBlocks, hget]
  rfl

omit [DecidableEq H] in
theorem get_of_mem_reqBlocks (hb : b ∈ m.reqBlocks id) :
    m.reqToBlocks.get? id = some (m.reqBlocks id) := by
  unfold reqBlocks at hb ⊢
  cases hget : m.reqToBlocks.get? id with
  | none =>
    rw [hget] at hb
    cases hb
  | some bs => rfl

theorem Good.not_held (h : m.Good hashes free) (h0 : (m.blockPool.object b).refCnt = 0)
    (hget : m.reqToBlocks.get? id = some bs) : b ∉ bs := by
  intro hb
  have hpos := holders_pos hget hb
  have href := h.refs b
  omega

theorem Good.not_held_twice (h : m.Good hashes free) (h1 : (m.blockPool.object b).refCnt = 1)
    (hget : m.reqToBlocks.get? id = some bs) (hb : b ∈ bs) (hne : id ≠ id')
    (hget' : m.reqToBlocks.get? id' = some bs') : b ∉ bs' := by
  intro hb'
  have hpop := @holders_pop _ m id b h.keys
  rw [reqBlocks_of_get hget, if_pos hb] at hpop
  have hleft : (m.reqToBlocks.pop id).get? id' = some bs' := by
    rw [Dict.get?_pop, if_neg hne, hget']
  have hpos := holders_pos hleft hb'
  have href := h.refs b
  omega

theorem Good.held_pos (h : m.Good hashes free) (hget : m.reqToBlocks.get? id = some bs)
    (hb : b ∈ bs) : 0 < (m.blockPool.object b).refCnt := by
  have hpos := holders_pos hget hb
  have href := h.refs b
  omega

/-- The free blocks are the usable ones that no request holds. -/
theorem Good.free_iff (h : m.Good hashes free) :
    b ∈ free ↔ m.blockPool.Usable b ∧ holders m.reqToBlocks b = 0 := by
  have hunused := h.pool.unused b
  rw [List.append_nil] at hunused
  have href := h.refs b
  rw [hunused]
  constructor
  · rintro ⟨hU, h0⟩
    exact ⟨hU, by omega⟩
  · rintro ⟨hU, h0⟩
    exact ⟨hU, by omega⟩

/-- The requests' hashes may grow. -/
theorem Good.of_hashes (h : m.Good hashes free)
    (hext : ∀ id, (m.reqToBlocks.get? id).isSome → ∀ (i : Nat) v, (hashes id)[i]? = some v →
      (hashes' id)[i]? = some v) : m.Good hashes' free := by
  have hsome : ∀ {id bs}, m.reqToBlocks.get? id = some bs → (m.reqToBlocks.get? id).isSome := by
    intro id bs hget
    rw [hget]
    rfl
  constructor
  · exact h.pool
  · exact h.keys
  · exact h.counted
  · exact h.refs
  · exact h.distinct
  · exact h.usable
  · intro id bs i b key hget hi hkey
    obtain ⟨hgroup, hv⟩ := h.hashed id bs i b key hget hi hkey
    exact ⟨hgroup, hext id (hsome hget) i _ hv⟩
  · exact h.own
  · intro id id' bs bs' i j b hne hget hget' hi hj
    obtain ⟨hij, v, hv, hv'⟩ := h.shared id id' bs bs' i j b hne hget hget' hi hj
    exact ⟨hij, v, hext id (hsome hget) i v hv, hext id' (hsome hget') i v hv'⟩

/-! ## The operations -/

/-- The blocks are cached under the hashes in front of `blockHashes`. -/
def Hit (p : BlockPool H) (blockHashes : List H) (computed : List Ref) : Prop :=
  ∀ (i : Nat) b, computed[i]? = some b →
    ∃ v, (p.object b).blockHash = some (v, 0) ∧ blockHashes[i]? = some v

omit [DecidableEq H] in
/-- Cached blocks of one sequence of hashes are different. -/
theorem Hit.nodup {computed : List Ref} (hsep : Separated hashes)
    (hhit : Hit p (hashes id) computed) :
    computed.Nodup := by
  rw [List.nodup_iff_getElem?_ne_getElem?]
  intro i j hij hj heq
  obtain ⟨b, hb⟩ : ∃ b, computed[j]? = some b := ⟨_, List.getElem?_eq_getElem hj⟩
  obtain ⟨v, hv, hiv⟩ := hhit i b (heq.trans hb)
  obtain ⟨w, hw, hjw⟩ := hhit j b hb
  have hvw : v = w := by
    rw [hv, Option.some.injEq, Prod.mk.injEq] at hw
    exact hw.1
  have hsame := hsep id id i j v hiv (hvw ▸ hjw)
  omega

/-- `allocate_new_computed_blocks` gives the cached blocks to a request that has none. -/
theorem allocateNewComputedBlocks_good {computed : List Ref} (h : m.Good hashes free)
    (hsep : Separated hashes) (hon : m.blockPool.enableCaching = true)
    (hnew : m.reqToBlocks.get? id = none) (hhit : Hit m.blockPool (hashes id) computed) :
    ∃ p free', m.allocateNewComputedBlocks id computed = .ok { m with
        blockPool := p
        reqToBlocks := m.reqToBlocks.set id computed
        numCachedBlock := m.numCachedBlock.set id computed.length } ∧
      ({ m with
        blockPool := p
        reqToBlocks := m.reqToBlocks.set id computed
        numCachedBlock := m.numCachedBlock.set id computed.length } : KVCacheManager H).Good
          hashes free' ∧
      m.blockPool.SameSettings p ∧
      free.length ≤ free'.length + m.getNumEvictableBlocks computed ∧
      ∀ b, (p.object b).blockHash = (m.blockPool.object b).blockHash := by
  have hnocount : m.numCachedBlock.get? id = none := by
    rw [← Option.not_isSome_iff_eq_none]
    intro hsome
    have hentry := h.counted id hsome
    rw [hnew] at hentry
    cases hentry
  have hempty : m.reqBlocks id = [] := by
    rw [reqBlocks, hnew]
    rfl
  have hcached : ∀ b ∈ computed, ∃ v, (m.blockPool.object b).blockHash = some (v, 0) := by
    intro b hb
    obtain ⟨i, hi⟩ := List.getElem?_of_mem hb
    obtain ⟨v, hv, -⟩ := hhit i b hi
    exact ⟨v, hv⟩
  have hU : ∀ b ∈ computed, m.blockPool.Usable b := by
    intro b hb
    obtain ⟨v, hv⟩ := hcached b hb
    exact h.pool.usable_of_hash hv
  have hnd := hhit.nodup hsep
  obtain ⟨p, free', htouch, hgood, hset, href, hhash, hlen⟩ := BlockPool.touch_good h.pool hU
  have hevict : m.getNumEvictableBlocks computed =
      (computed.filter fun b => decide ((m.blockPool.object b).refCnt = 0)).length := by
    rw [getNumEvictableBlocks, List.countP_eq_length_filter]
    congr 1
    apply List.filter_congr
    intro b hb
    rw [h.pool.isNull_of_usable (hU b hb), Bool.not_false, Bool.and_true]
  refine ⟨p, free', ?_, ?_, hset, by rw [hevict]; exact hlen, hhash⟩
  · rw [allocateNewComputedBlocks, hnocount, hempty, if_neg (by simp)]
    simp only [List.length_nil, if_true, hon, htouch, bind, Except.bind, pure, Except.pure,
      List.nil_append]
  have hget : ∀ {id' bs}, (m.reqToBlocks.set id computed).get? id' = some bs →
      (id' = id ∧ bs = computed) ∨ (id' ≠ id ∧ m.reqToBlocks.get? id' = some bs) := by
    intro id' bs hbs
    rw [Dict.get?_set] at hbs
    split at hbs
    · next heq => exact .inl ⟨heq.symm, (Option.some.inj hbs).symm⟩
    · next hne => exact .inr ⟨Ne.symm hne, hbs⟩
  have hshare : ∀ {id' bs b} {i j : Nat}, id' ≠ id → m.reqToBlocks.get? id' = some bs →
      computed[i]? = some b →
      bs[j]? = some b → i = j ∧ ∃ v, (hashes id)[i]? = some v ∧ (hashes id')[i]? = some v := by
    -- A block that is both cached and held stands where its hash says.
    intro id' bs b i j hne hbs hi hj
    obtain ⟨v, hv, hiv⟩ := hhit i b hi
    obtain ⟨-, hjv⟩ := h.hashed id' bs j b _ hbs hj hv
    obtain rfl := hsep id id' i j v hiv hjv
    exact ⟨rfl, v, hiv, hjv⟩
  constructor
  · exact hgood
  · exact Dict.nodup_keys_set h.keys
  · intro id' hsome
    show ((m.reqToBlocks.set id computed).get? id').isSome
    rw [Dict.get?_set]
    split
    · rfl
    · next hne =>
      apply h.counted
      rw [Dict.get?_set, if_neg hne] at hsome
      exact hsome
  · intro b
    have hcount := @holders_set _ m id computed b
    rw [hempty, if_neg List.not_mem_nil] at hcount
    have hold := h.refs b
    show (p.object b).refCnt = (holders (m.reqToBlocks.set id computed) b : Nat)
    rw [href, hold, List.Nodup.count hnd]
    split <;> simp_all
  · intro id' bs hbs
    rcases hget hbs with ⟨rfl, rfl⟩ | ⟨-, hbs⟩
    · exact hnd
    · exact h.distinct id' bs hbs
  · intro id' bs hbs b hb
    rw [hset.usable]
    rcases hget hbs with ⟨rfl, rfl⟩ | ⟨-, hbs⟩
    · exact hU b hb
    · exact h.usable id' bs hbs b hb
  · intro id' bs i b key hbs hi hkey
    rw [hhash] at hkey
    rcases hget hbs with ⟨rfl, rfl⟩ | ⟨-, hbs⟩
    · obtain ⟨v, hv, hiv⟩ := hhit i b hi
      rw [hv, Option.some.injEq] at hkey
      rw [← hkey]
      exact ⟨rfl, hiv⟩
    · exact h.hashed id' bs i b key hbs hi hkey
  · intro id' bs i b hbs hi hb
    rw [numCached, Dict.get?_set] at hi
    rw [hhash, href]
    rcases hget hbs with ⟨rfl, rfl⟩ | ⟨hne, hbs⟩
    · -- All blocks are cached.
      rw [if_pos rfl] at hi
      have hlt := (List.getElem?_eq_some_iff.1 hb).1
      exact absurd hi (by simpa using hlt)
    · rw [if_neg (Ne.symm hne)] at hi
      obtain ⟨hnone, hone⟩ := h.own id' bs i b hbs hi hb
      have hnot : b ∉ computed := by
        intro hmem
        obtain ⟨v, hv⟩ := hcached b hmem
        rw [hnone] at hv
        cases hv
      exact ⟨hnone, by rw [List.count_eq_zero.2 hnot, hone]; rfl⟩
  · intro id₁ id₂ bs₁ bs₂ i j b hne hbs₁ hbs₂ hi hj
    rcases hget hbs₁ with ⟨rfl, rfl⟩ | ⟨hne₁, hold₁⟩
    · rcases hget hbs₂ with ⟨rfl, -⟩ | ⟨hne₂, hold₂⟩
      · exact absurd rfl hne
      · exact hshare hne₂ hold₂ hi hj
    · rcases hget hbs₂ with ⟨rfl, rfl⟩ | ⟨-, hold₂⟩
      · obtain ⟨hij, v, hv, hv'⟩ := hshare hne₁ hold₁ hj hi
        subst hij
        exact ⟨rfl, v, hv', hv⟩
      · exact h.shared id₁ id₂ bs₁ bs₂ i j b hne hold₁ hold₂ hi hj

/-- The settings of the manager do not change. -/
def SameConfig (m m' : KVCacheManager H) : Prop :=
  m'.blockSize = m.blockSize ∧ m'.maxModelLen = m.maxModelLen ∧ m'.useEagle = m.useEagle ∧
    m.blockPool.SameSettings m'.blockPool

omit [DecidableEq H] in
theorem SameConfig.trans {m' m'' : KVCacheManager H} (h : m.SameConfig m')
    (h' : m'.SameConfig m'') :
    m.SameConfig m'' :=
  ⟨h'.1.trans h.1, h'.2.1.trans h.2.1, h'.2.2.1.trans h.2.2.1, h.2.2.2.trans h'.2.2.2⟩

/-- The request gets blocks that nobody holds. -/
theorem Good.extend {news free' : List Ref} {m' : KVCacheManager H} (h : m.Good hashes free)
    (hpool : m'.blockPool.Good free' []) (hset : m.blockPool.SameSettings m'.blockPool)
    (hentries : m'.reqToBlocks = m.reqToBlocks.set id (m.reqBlocks id ++ news))
    (hcounts : m'.numCachedBlock = m.numCachedBlock) (hnd : news.Nodup)
    (hsub : ∀ b ∈ news, b ∈ free) (href : ∀ b, (m'.blockPool.object b).refCnt =
      if b ∈ news then 1 else (m.blockPool.object b).refCnt)
    (hhash : ∀ b, (m'.blockPool.object b).blockHash =
      if b ∈ news then none else (m.blockPool.object b).blockHash) : m'.Good hashes free' := by
  have hunused : ∀ b ∈ news, m.blockPool.Usable b ∧ (m.blockPool.object b).refCnt = 0 := by
    intro b hb
    exact (h.pool.unused b).1 (by rw [List.append_nil]; exact hsub b hb)
  have hnotin : ∀ {id' bs b}, m.reqToBlocks.get? id' = some bs → b ∈ bs → b ∉ news := by
    intro id' bs b hget hb hmem
    exact h.not_held (hunused b hmem).2 hget hb
  have hold : ∀ {b}, b ∈ m.reqBlocks id → b ∉ news := by
    intro b hb
    exact hnotin (get_of_mem_reqBlocks hb) hb
  have hget : ∀ {id' bs}, m'.reqToBlocks.get? id' = some bs →
      (id' = id ∧ bs = m.reqBlocks id ++ news) ∨ (id' ≠ id ∧ m.reqToBlocks.get? id' = some bs) := by
    intro id' bs hbs
    rw [hentries, Dict.get?_set] at hbs
    split at hbs
    · next heq => exact .inl ⟨heq.symm, (Option.some.inj hbs).symm⟩
    · next hne => exact .inr ⟨Ne.symm hne, hbs⟩
  have hcase : ∀ {i : Nat} {b}, (m.reqBlocks id ++ news)[i]? = some b →
      (m.reqToBlocks.get? id = some (m.reqBlocks id) ∧ (m.reqBlocks id)[i]? = some b ∧ b ∉ news) ∨
        b ∈ news := by
    -- A block of the request is an old one or a new one.
    intro i b hi
    rw [List.getElem?_append] at hi
    split at hi
    · have hb := List.mem_of_getElem? hi
      exact .inl ⟨get_of_mem_reqBlocks hb, hi, hold hb⟩
    · exact .inr (List.mem_of_getElem? hi)
  constructor
  · exact hpool
  · rw [hentries]
    exact Dict.nodup_keys_set h.keys
  · intro id' hsome
    rw [hcounts] at hsome
    rw [hentries, Dict.get?_set]
    split
    · rfl
    · exact h.counted id' hsome
  · intro b
    have hcount := @holders_set _ m id (m.reqBlocks id ++ news) b
    have hrefs := h.refs b
    rw [href, hentries]
    by_cases hb : b ∈ news
    · have h0 := (hunused b hb).2
      have hnot : b ∉ m.reqBlocks id := fun hmem => hold hmem hb
      rw [if_neg hnot, if_pos (List.mem_append_right _ hb)] at hcount
      rw [if_pos hb]
      omega
    · rw [if_neg hb]
      simp only [List.mem_append, hb, or_false] at hcount
      omega
  · intro id' bs hbs
    rcases hget hbs with ⟨rfl, rfl⟩ | ⟨-, hbs⟩
    · rw [List.nodup_append]
      refine ⟨?_, hnd, ?_⟩
      · cases hentry : m.reqToBlocks.get? id' with
        | none => simp [reqBlocks, hentry]
        | some old =>
          rw [reqBlocks_of_get hentry]
          exact h.distinct id' old hentry
      · intro a ha b hb heq
        exact hold ha (heq ▸ hb)
    · exact h.distinct id' bs hbs
  · intro id' bs hbs b hb
    rw [hset.usable]
    rcases hget hbs with ⟨rfl, rfl⟩ | ⟨-, hbs⟩
    · rcases List.mem_append.1 hb with hb | hb
      · exact h.usable id' _ (get_of_mem_reqBlocks hb) b hb
      · exact (hunused b hb).1
    · exact h.usable id' bs hbs b hb
  · intro id' bs i b key hbs hi hkey
    rw [hhash] at hkey
    rcases hget hbs with ⟨rfl, rfl⟩ | ⟨-, hbs⟩
    · rcases hcase hi with ⟨hentry, hi, hb⟩ | hb
      · rw [if_neg hb] at hkey
        exact h.hashed id' _ i b key hentry hi hkey
      · rw [if_pos hb] at hkey
        cases hkey
    · rw [if_neg (hnotin hbs (List.mem_of_getElem? hi))] at hkey
      exact h.hashed id' bs i b key hbs hi hkey
  · intro id' bs i b hbs hi hb
    rw [numCached, hcounts] at hi
    rw [hhash, href]
    rcases hget hbs with ⟨rfl, rfl⟩ | ⟨-, hbs⟩
    · rcases hcase hb with ⟨hentry, hb, hnot⟩ | hnew
      · rw [if_neg hnot, if_neg hnot]
        exact h.own id' _ i b hentry hi hb
      · rw [if_pos hnew, if_pos hnew]
        exact ⟨rfl, rfl⟩
    · have hnot := hnotin hbs (List.mem_of_getElem? hb)
      rw [if_neg hnot, if_neg hnot]
      exact h.own id' bs i b hbs hi hb
  · intro id₁ id₂ bs₁ bs₂ i j b hne hbs₁ hbs₂ hi hj
    have hin₁ := List.mem_of_getElem? hi
    have hin₂ := List.mem_of_getElem? hj
    rcases hget hbs₁ with ⟨rfl, rfl⟩ | ⟨hne₁, hold₁⟩
    · rcases hget hbs₂ with ⟨rfl, -⟩ | ⟨hne₂, hold₂⟩
      · exact absurd rfl hne
      · rcases hcase hi with ⟨hentry, hi, -⟩ | hnew
        · exact h.shared _ id₂ _ bs₂ i j b hne hentry hold₂ hi hj
        · exact absurd hnew (hnotin hold₂ hin₂)
    · rcases hget hbs₂ with ⟨rfl, rfl⟩ | ⟨-, hold₂⟩
      · rcases hcase hj with ⟨hentry, hj, -⟩ | hnew
        · exact h.shared id₁ _ bs₁ _ i j b hne hold₁ hentry hi hj
        · exact absurd hnew (hnotin hold₁ hin₁)
      · exact h.shared id₁ id₂ bs₁ bs₂ i j b hne hold₁ hold₂ hi hj

/-- `allocate_new_blocks` takes the first free blocks. -/
theorem allocateNewBlocks_good {numTokens : Nat} (h : m.Good hashes free) (id : String)
    (hlen : cdiv numTokens m.blockSize - (m.reqBlocks id).length ≤ free.length) :
    ∃ m', m.allocateNewBlocks id numTokens =
        .ok (free.take (cdiv numTokens m.blockSize - (m.reqBlocks id).length), m') ∧
      m'.Good hashes (free.drop (cdiv numTokens m.blockSize - (m.reqBlocks id).length)) ∧
      m.SameConfig m' ∧ m'.numCachedBlock = m.numCachedBlock ∧
      m'.reqToBlocks = m.reqToBlocks.set id (m.reqBlocks id ++
        free.take (cdiv numTokens m.blockSize - (m.reqBlocks id).length)) ∧
      ∀ b, b ∉ free.take (cdiv numTokens m.blockSize - (m.reqBlocks id).length) →
        (m'.blockPool.object b).blockHash = (m.blockPool.object b).blockHash := by
  obtain ⟨n, hn⟩ : ∃ n, n = cdiv numTokens m.blockSize - (m.reqBlocks id).length := ⟨_, rfl⟩
  rw [← hn] at hlen ⊢
  by_cases hle : cdiv numTokens m.blockSize ≤ (m.reqBlocks id).length
  · obtain rfl : n = 0 := by omega
    rw [List.take_zero, List.drop_zero, List.append_nil]
    refine ⟨{ m with reqToBlocks := m.reqToBlocks.set id (m.reqBlocks id) }, ?_, ?_,
      ⟨rfl, rfl, rfl, rfl, rfl, rfl⟩, rfl, rfl, fun _ _ => rfl⟩
    · rw [allocateNewBlocks]
      simp only [if_pos hle]
    · exact @Good.extend _ _ m hashes free id [] _ _ h h.pool ⟨rfl, rfl, rfl⟩
        (by rw [List.append_nil]) rfl
        List.nodup_nil (by simp) (by simp) (by simp)
  · obtain ⟨p, hnew, hgood, hset, href, hhash⟩ := BlockPool.getNewBlocks_good h.pool hlen
    refine ⟨{ m with
      blockPool := p
      reqToBlocks := m.reqToBlocks.set id (m.reqBlocks id ++ free.take n) }, ?_, ?_,
        ⟨rfl, rfl, rfl, hset⟩, rfl, rfl, fun b hb => by rw [hhash, if_neg hb]⟩
    · rw [allocateNewBlocks]
      simp only [if_neg hle, ← hn, hnew, Dict.set_set, bind, Except.bind, pure, Except.pure]
    · exact h.extend hgood hset rfl rfl (h.pool.nodup_free.sublist (List.take_sublist n free))
        (fun b hb => List.mem_of_mem_take hb) href hhash

/-- The blocks from `a` up to `b` with their hashes. -/
def fullBlocks (bs : List Ref) (blockHashes : List H) (a b : Nat) : List (Ref × H) :=
  ((bs.take b).drop a).zip (blockHashes.drop a)

omit [DecidableEq H] in
theorem getElem?_fullBlocks {blockHashes : List H} {a n k : Nat} {e : Ref × H} :
    (fullBlocks bs blockHashes a n)[k]? = some e ↔
      a + k < n ∧ bs[a + k]? = some e.1 ∧ blockHashes[a + k]? = some e.2 := by
  rw [fullBlocks, List.getElem?_zip_eq_some, List.getElem?_drop, List.getElem?_drop,
    List.getElem?_take]
  constructor
  · rintro ⟨h₁, h₂⟩
    split at h₁
    · next hlt => exact ⟨hlt, h₁, h₂⟩
    · cases h₁
  · rintro ⟨hlt, h₁, h₂⟩
    exact ⟨by rw [if_pos hlt]; exact h₁, h₂⟩

/-- `cache_blocks` caches the full blocks of a request that are not cached yet. -/
theorem cacheBlocks_good {request : Request H} {numTokens : Nat} (h : m.Good hashes free)
    (hon : m.blockPool.enableCaching = true)
    (hget : m.reqToBlocks.get? request.requestId = some bs)
    (hhashes : hashes request.requestId = request.blockHashes)
    (hfull : numTokens / m.blockSize ≤ request.blockHashes.length) :
    ∃ m', m.cacheBlocks request numTokens = .ok m' ∧ m'.Good hashes free ∧ m.SameConfig m' ∧
      m'.reqToBlocks = m.reqToBlocks ∧
      (∀ b, (m'.blockPool.object b).refCnt = (m.blockPool.object b).refCnt) ∧
      (∀ id, m'.numCached id = if request.requestId = id then
        max (m.numCached id) (numTokens / m.blockSize) else m.numCached id) ∧
      ∀ b, b ∉ bs → (m'.blockPool.object b).blockHash = (m.blockPool.object b).blockHash := by
  have hreq := reqBlocks_of_get hget
  obtain ⟨a, ha⟩ : ∃ a, a = m.numCached request.requestId := ⟨_, rfl⟩
  obtain ⟨n, hn⟩ : ∃ n, n = numTokens / m.blockSize := ⟨_, rfl⟩
  by_cases hle : n ≤ a
  · refine ⟨m, ?_, h, ⟨rfl, rfl, rfl, rfl, rfl, rfl⟩, rfl, fun _ => rfl, ?_, fun _ _ => rfl⟩
    · rw [ha, hn] at hle
      rw [cacheBlocks]
      exact if_pos hle
    · intro id
      split
      · next heq =>
        rw [← heq, ← ha, ← hn]
        omega
      · rfl
  · have hpair : ∀ e ∈ fullBlocks bs request.blockHashes a n, ∃ i, a ≤ i ∧ i < n ∧
        bs[i]? = some e.1 ∧
        request.blockHashes[i]? = some e.2 := by
      intro e he
      obtain ⟨k, hk⟩ := List.getElem?_of_mem he
      obtain ⟨hlt, h₁, h₂⟩ := getElem?_fullBlocks.1 hk
      exact ⟨a + k, by omega, hlt, h₁, h₂⟩
    have hown : ∀ e ∈ fullBlocks bs request.blockHashes a n,
        (m.blockPool.object e.1).blockHash = none ∧ (m.blockPool.object e.1).refCnt = 1 := by
      intro e he
      obtain ⟨i, hi, -, hb, -⟩ := hpair e he
      exact h.own _ bs i e.1 hget (ha ▸ hi) hb
    have hmem : ∀ e ∈ fullBlocks bs request.blockHashes a n, e.1 ∈ bs := by
      intro e he
      obtain ⟨i, -, -, hb, -⟩ := hpair e he
      exact List.mem_of_getElem? hb
    have hnd := h.distinct _ bs hget
    have hndpairs : ((fullBlocks bs request.blockHashes a n).map Prod.fst).Nodup := by
      rw [fullBlocks]
      refine List.Nodup.sublist ?_ hnd
      rw [List.map_fst_zip]
      · exact (List.drop_sublist _ _).trans (List.take_sublist _ _)
      · rw [List.length_drop, List.length_drop, List.length_take]
        omega
    obtain ⟨p, hloop, hgood, hset, href, hin, hout⟩ :=
      @BlockPool.cacheLoop_good _ _ _ _ _ _ 0 h.pool hon
      (fun e he => h.usable _ bs hget e.1 (hmem e he)) (fun e he => (hown e he).1) hndpairs
    have hother : ∀ {id' bs' b}, request.requestId ≠ id' → m.reqToBlocks.get? id' = some bs' →
        b ∈ bs' →
        (p.object b).blockHash = (m.blockPool.object b).blockHash := by
      -- The other requests hold none of these blocks.
      intro id' bs' b hne hget' hb
      apply hout
      intro hfst
      obtain ⟨e, he, rfl⟩ := List.mem_map.1 hfst
      exact h.not_held_twice (hown e he).2 hget (hmem e he) hne hget' hb
    refine ⟨{ m with
      blockPool := p
      numCachedBlock := m.numCachedBlock.set request.requestId n }, ?_, ?_,
      ⟨rfl, rfl, rfl, hset⟩, rfl, href, ?_, ?_⟩
    · have hcache : m.blockPool.cacheFullBlocks request.blockHashes bs a n 0 = .ok p := by
        rw [BlockPool.cacheFullBlocks, if_neg hle, if_pos (hn ▸ hfull)]
        exact hloop
      rw [ha, hn] at hle hcache
      unfold numCached at hle hcache
      rw [cacheBlocks, hreq]
      simp only [if_neg hle, hcache, bind, Except.bind, pure, Except.pure, hn]
    rotate_left
    · intro id
      rw [numCached, Dict.get?_set]
      split
      · next heq =>
        rw [← heq, ← ha, ← hn, Option.getD_some]
        omega
      · rfl
    · intro b hb
      apply hout
      intro hfst
      obtain ⟨e, he, rfl⟩ := List.mem_map.1 hfst
      exact hb (hmem e he)
    constructor
    · exact hgood
    · exact h.keys
    · intro id hsome
      rw [Dict.get?_set] at hsome
      split at hsome
      · next heq =>
        rw [← heq]
        show (m.reqToBlocks.get? request.requestId).isSome
        rw [hget]
        rfl
      · exact h.counted id hsome
    · intro b
      rw [href]
      exact h.refs b
    · exact h.distinct
    · intro id bs' hbs b hb
      rw [hset.usable]
      exact h.usable id bs' hbs b hb
    · intro id bs' i b key hbs hi hkey
      by_cases hid : request.requestId = id
      · subst hid
        obtain rfl : bs = bs' := Option.some.inj (hget.symm.trans hbs)
        by_cases hfst : b ∈ (fullBlocks bs request.blockHashes a n).map Prod.fst
        · obtain ⟨e, he, rfl⟩ := List.mem_map.1 hfst
          obtain ⟨j, -, -, hj, hjv⟩ := hpair e he
          obtain rfl : i = j :=
            (List.getElem?_inj (List.getElem?_eq_some_iff.1 hi).1 hnd).1 (hi.trans hj.symm)
          rw [hin e he, Option.some.injEq] at hkey
          rw [← hkey, hhashes]
          exact ⟨rfl, hjv⟩
        · rw [hout b hfst] at hkey
          exact h.hashed _ bs i b key hbs hi hkey
      · rw [hother hid hbs (List.mem_of_getElem? hi)] at hkey
        exact h.hashed id bs' i b key hbs hi hkey
    · intro id bs' i b hbs hi hb
      rw [href]
      rw [numCached, Dict.get?_set] at hi
      by_cases hid : request.requestId = id
      · subst hid
        rw [if_pos rfl, Option.getD_some] at hi
        obtain rfl : bs = bs' := Option.some.inj (hget.symm.trans hbs)
        have hnot : b ∉ (fullBlocks bs request.blockHashes a n).map Prod.fst := by
          intro hfst
          obtain ⟨e, he, rfl⟩ := List.mem_map.1 hfst
          obtain ⟨j, -, hjn, hj, -⟩ := hpair e he
          have hij :=
            (List.getElem?_inj (List.getElem?_eq_some_iff.1 hb).1 hnd).1 (hb.trans hj.symm)
          omega
        rw [hout b hnot]
        have hai : a ≤ i := by omega
        exact h.own _ bs i b hbs (ha ▸ hai) hb
      · rw [if_neg hid] at hi
        rw [hother hid hbs (List.mem_of_getElem? hb)]
        exact h.own id bs' i b hbs hi hb
    · exact h.shared

/-- `free` gives up the blocks of a request. -/
theorem free_good (h : m.Good hashes free) (id : String) :
    ∃ m' free', m.free id = .ok m' ∧ m'.Good hashes free' ∧ m.SameConfig m' ∧
      m'.reqToBlocks = m.reqToBlocks.pop id ∧ m'.numCachedBlock = m.numCachedBlock.pop id ∧
      ∀ b, (m'.blockPool.object b).blockHash = (m.blockPool.object b).blockHash := by
  have hpos : ∀ b ∈ (m.reqBlocks id).reverse, 0 < (m.blockPool.object b).refCnt := by
    intro b hb
    rw [List.mem_reverse] at hb
    exact h.held_pos (get_of_mem_reqBlocks hb) hb
  have hU : ∀ b ∈ (m.reqBlocks id).reverse, m.blockPool.Usable b := by
    intro b hb
    rw [List.mem_reverse] at hb
    exact h.usable id _ (get_of_mem_reqBlocks hb) b hb
  have hnd : (m.reqBlocks id).reverse.Nodup := by
    rw [List.nodup_reverse]
    cases hentry : m.reqToBlocks.get? id with
    | none => simp [reqBlocks, hentry]
    | some old =>
      rw [reqBlocks_of_get hentry]
      exact h.distinct id old hentry
  obtain ⟨p, hfree, hgood, hset, href, hhash⟩ := BlockPool.freeBlocks_good h.pool hU hpos hnd
  simp only [List.mem_reverse] at href
  have hget : ∀ {id' bs}, (m.reqToBlocks.pop id).get? id' = some bs →
      id ≠ id' ∧ m.reqToBlocks.get? id' = some bs := by
    intro id' bs hbs
    rw [Dict.get?_pop] at hbs
    split at hbs
    · cases hbs
    · next hne => exact ⟨hne, hbs⟩
  refine ⟨{ m with
    blockPool := p
    reqToBlocks := m.reqToBlocks.pop id
    numCachedBlock := m.numCachedBlock.pop id }, _, ?_, ⟨hgood, ?_, ?_, ?_, ?_, ?_, ?_, ?_, ?_⟩,
    ⟨rfl, rfl, rfl, hset⟩, rfl, rfl, hhash⟩
  · rw [KVCacheManager.free]
    simp only [hfree, bind, Except.bind, pure, Except.pure]
  · exact h.keys.sublist (Dict.keys_pop_sublist _ _)
  · intro id' hsome
    show ((m.reqToBlocks.pop id).get? id').isSome
    rw [Dict.get?_pop] at hsome ⊢
    split at hsome
    · cases hsome
    · next hne =>
      rw [if_neg hne]
      exact h.counted id' hsome
  · intro b
    have hcount := @holders_pop _ m id b h.keys
    have hrefs := h.refs b
    rw [href]
    show _ = (holders (m.reqToBlocks.pop id) b : Int)
    split
    · next hb =>
      rw [if_pos hb] at hcount
      omega
    · next hb =>
      rw [if_neg hb] at hcount
      omega
  · intro id' bs hbs
    exact h.distinct id' bs (hget hbs).2
  · intro id' bs hbs b hb
    rw [hset.usable]
    exact h.usable id' bs (hget hbs).2 b hb
  · intro id' bs i b key hbs hi hkey
    rw [hhash] at hkey
    exact h.hashed id' bs i b key (hget hbs).2 hi hkey
  · intro id' bs i b hbs hi hb
    obtain ⟨hne, hold⟩ := hget hbs
    rw [numCached, Dict.get?_pop, if_neg hne] at hi
    obtain ⟨hnone, hone⟩ := h.own id' bs i b hold hi hb
    have hnot : b ∉ m.reqBlocks id := by
      intro hmem
      exact h.not_held_twice hone hold (List.mem_of_getElem? hb) (Ne.symm hne)
        (get_of_mem_reqBlocks hmem) hmem
    exact ⟨by rw [hhash, hnone], by rw [href, if_neg hnot, hone]⟩
  · intro id₁ id₂ bs₁ bs₂ i j b hne hbs₁ hbs₂ hi hj
    exact h.shared id₁ id₂ bs₁ bs₂ i j b hne (hget hbs₁).2 (hget hbs₂).2 hi hj

/-- Blocks may leave the prefix cache. -/
theorem Good.of_pool (h : m.Good hashes free) (hgood : p.Good free [])
    (hset : m.blockPool.SameSettings p)
    (href : ∀ b, (p.object b).refCnt = (m.blockPool.object b).refCnt)
    (hhash : ∀ b, (p.object b).blockHash = (m.blockPool.object b).blockHash ∨
      (p.object b).blockHash = none) :
    ({ m with blockPool := p } : KVCacheManager H).Good hashes free := by
  constructor
  · exact hgood
  · exact h.keys
  · exact h.counted
  · intro b
    rw [href]
    exact h.refs b
  · exact h.distinct
  · intro id bs hbs b hb
    rw [hset.usable]
    exact h.usable id bs hbs b hb
  · intro id bs i b key hbs hi hkey
    rcases hhash b with hsame | hnone
    · rw [hsame] at hkey
      exact h.hashed id bs i b key hbs hi hkey
    · rw [hnone] at hkey
      cases hkey
  · intro id bs i b hbs hi hb
    obtain ⟨hnone, hone⟩ := h.own id bs i b hbs hi hb
    rw [href]
    refine ⟨?_, hone⟩
    rcases hhash b with hsame | hnone'
    · rw [hsame, hnone]
    · exact hnone'
  · exact h.shared

theorem evictBlocks_good {blockIds : List Nat} (h : m.Good hashes free)
    (hids : ∀ i ∈ blockIds, i < m.blockPool.numGpuBlocks) :
    ∃ m', m.evictBlocks blockIds = .ok m' ∧ m'.Good hashes free ∧ m.SameConfig m' ∧
      m'.reqToBlocks = m.reqToBlocks ∧ m'.numCachedBlock = m.numCachedBlock ∧
      ∀ b, (m'.blockPool.object b).blockHash = (m.blockPool.object b).blockHash ∨
        (m'.blockPool.object b).blockHash = none := by
  obtain ⟨p, hevict, hgood, hset, href, hhash⟩ := BlockPool.evictBlocks_good h.pool hids
  refine ⟨{ m with blockPool := p }, ?_, h.of_pool hgood hset href hhash, ⟨rfl, rfl, rfl, hset⟩,
    rfl, rfl, hhash⟩
  rw [evictBlocks]
  simp only [hevict, bind, Except.bind, pure, Except.pure]

theorem length_others {n : Nat} : (BlockPool.others n).length = n - 1 := by
  rw [BlockPool.others, List.length_map, List.length_range']

/-- The queue holds all blocks but the null block exactly when no request holds one. -/
theorem Good.all_free_iff (h : m.Good hashes free) (hn : 0 < m.blockPool.numGpuBlocks) :
    free.length + 1 = m.blockPool.numGpuBlocks ↔
      ∀ id bs, m.reqToBlocks.get? id = some bs → bs = [] := by
  have hsub : free ⊆ BlockPool.others m.blockPool.numGpuBlocks := by
    intro b hb
    exact BlockPool.mem_others.2 (h.free_iff.1 hb).1
  have hperm : free.Subperm (BlockPool.others m.blockPool.numGpuBlocks) :=
    List.subperm_of_subset h.pool.nodup_free hsub
  constructor
  · intro hlen id bs hget
    have hall := hperm.perm_of_length_le (by rw [length_others]; omega)
    apply List.eq_nil_iff_forall_not_mem.2
    intro b hb
    have hmem := hall.mem_iff.2 (BlockPool.mem_others.2 (h.usable id bs hget b hb))
    have hnone := (h.free_iff.1 hmem).2
    have hpos := holders_pos hget hb
    omega
  · intro hempty
    have hback : BlockPool.others m.blockPool.numGpuBlocks ⊆ free := by
      intro b hb
      refine h.free_iff.2 ⟨BlockPool.mem_others.1 hb, ?_⟩
      rw [holders, List.countP_eq_zero]
      intro e he
      have hget := Dict.get?_of_mem h.keys he
      rw [hempty e.1 e.2 hget]
      simp
    have hnd : (BlockPool.others m.blockPool.numGpuBlocks).Nodup :=
      BlockPool.nodup_map_block List.nodup_range'
    have hle := (List.subperm_of_subset hnd hback).length_le
    have hge := hperm.length_le
    rw [length_others] at hle hge
    omega

/-- `reset_prefix_cache` succeeds exactly when no request holds a block. -/
theorem resetPrefixCache_good (h : m.Good hashes free) (hn : 0 < m.blockPool.numGpuBlocks) :
    (m.resetPrefixCache.1 = true ↔ ∀ id bs, m.reqToBlocks.get? id = some bs → bs = []) ∧
      (m.resetPrefixCache.1 = false → m.resetPrefixCache.2 = m) ∧
      m.resetPrefixCache.2.Good hashes free ∧ m.SameConfig m.resetPrefixCache.2 ∧
      m.resetPrefixCache.2.reqToBlocks = m.reqToBlocks ∧
      m.resetPrefixCache.2.numCachedBlock = m.numCachedBlock ∧
      (∀ b, (m.resetPrefixCache.2.blockPool.object b).blockHash = (m.blockPool.object b).blockHash ∨
        (m.resetPrefixCache.2.blockPool.object b).blockHash = none) ∧
      (m.resetPrefixCache.1 = true → ∀ b, (m.resetPrefixCache.2.blockPool.object b).blockHash =
        none) := by
  obtain ⟨hiff, hfail, hgood, hset, href, hhash, hclear⟩ := BlockPool.resetPrefixCache_good h.pool
  refine ⟨hiff.trans (h.all_free_iff hn), ?_, h.of_pool hgood hset href hhash,
    ⟨rfl, rfl, rfl, hset⟩, rfl, rfl, hhash, hclear⟩
  intro hfalse
  show ({ m with blockPool := m.blockPool.resetPrefixCache.2 } : KVCacheManager H) = m
  rw [hfail hfalse]

/-! ## The prefix cache -/

theorem getCachedBlock_single {v : H} :
    p.getCachedBlock v [0] = (p.cachedBlockHashToBlock.getOneBlock (v, 0)).map ([·]) := by
  rw [BlockPool.getCachedBlock]
  cases p.cachedBlockHashToBlock.getOneBlock (v, 0) with
  | none => rfl
  | some b => rfl

/-- The loop of `find_longest_cache_hit` finds the cached blocks up to the first hash without
one. -/
theorem hitLoop_good (h : m.blockPool.Good free []) (blockHashes : List H) :
    Hit m.blockPool blockHashes (m.hitLoop blockHashes) ∧
      (m.hitLoop blockHashes).length ≤ blockHashes.length ∧
      ∀ v, blockHashes[(m.hitLoop blockHashes).length]? = some v →
        ∀ b, (m.blockPool.object b).blockHash ≠ some (v, 0) := by
  induction blockHashes with
  | nil => exact ⟨by intro i b hi; simp [hitLoop] at hi, Nat.le_refl 0, by simp [hitLoop]⟩
  | cons v blockHashes ih =>
    obtain ⟨hhit, hlen, hnext⟩ := ih
    rw [hitLoop, getCachedBlock_single]
    cases hone : m.blockPool.cachedBlockHashToBlock.getOneBlock (v, 0) with
    | none =>
      refine ⟨by intro i b hi; simp at hi, Nat.zero_le _, ?_⟩
      intro w hw b hb
      obtain rfl : v = w := by simpa using hw
      exact BlockHashToBlockMap.getOneBlock_eq_none h.cache hone ((h.hashed (v, 0) b).2 hb)
    | some cached =>
      refine ⟨?_, by simpa using hlen, ?_⟩
      · intro i b hi
        cases i with
        | zero =>
          obtain rfl : cached = b := by simpa using hi
          exact ⟨v, (h.hashed (v, 0) cached).1 (BlockHashToBlockMap.getOneBlock_holds hone), rfl⟩
        | succ i =>
          obtain ⟨w, hw, hiw⟩ := hhit i b (by simpa using hi)
          exact ⟨w, hw, by simpa using hiw⟩
      · intro w hw
        exact hnext w (by simpa using hw)

omit [DecidableEq H] in
theorem Hit.of_take {blockHashes : List H} {computed : List Ref} {n : Nat}
    (hhit : Hit p (blockHashes.take n) computed) : Hit p blockHashes computed := by
  intro i b hi
  obtain ⟨v, hv, hiv⟩ := hhit i b hi
  rw [List.getElem?_take] at hiv
  split at hiv
  · exact ⟨v, hv, hiv⟩
  · cases hiv

omit [DecidableEq H] in
theorem Hit.dropLast {blockHashes : List H} {computed : List Ref}
    (hhit : Hit p blockHashes computed) :
    Hit p blockHashes computed.dropLast := by
  intro i b hi
  rw [List.dropLast_eq_take, List.getElem?_take] at hi
  split at hi
  · exact hhit i b hi
  · cases hi

theorem findLongestCacheHit_good (h : m.blockPool.Good free []) (blockHashes : List H)
    (maxLength : Nat) :
    Hit m.blockPool blockHashes (m.findLongestCacheHit blockHashes maxLength) ∧
      (m.findLongestCacheHit blockHashes maxLength).length ≤ maxLength / m.blockSize := by
  obtain ⟨hhit, hlen, -⟩ := hitLoop_good (m := m) h (blockHashes.take (maxLength / m.blockSize))
  rw [List.length_take] at hlen
  unfold findLongestCacheHit
  simp only
  split
  · rw [List.length_dropLast]
    exact ⟨hhit.of_take.dropLast, by omega⟩
  · exact ⟨hhit.of_take, by omega⟩

/-- What a waiting request gets from the prefix cache leaves at least one token to compute. -/
theorem getComputedBlocks_good {request : Request H} (h : m.blockPool.Good free [])
    (hn : request.numTokens ≠ 0) :
    ∃ computed, m.getComputedBlocks request = .ok (computed, computed.length * m.blockSize) ∧
      Hit m.blockPool request.blockHashes computed ∧
      computed.length * m.blockSize < request.numTokens ∧
      (m.blockPool.enableCaching = false → computed = []) := by
  unfold getComputedBlocks
  split
  · refine ⟨[], by rw [List.length_nil, Nat.zero_mul], ?_, by simp; omega, fun _ => rfl⟩
    intro i b hi
    simp at hi
  · next hon =>
    obtain ⟨hhit, hlen⟩ := findLongestCacheHit_good h request.blockHashes (request.numTokens - 1)
    refine ⟨_, rfl, hhit, ?_, ?_⟩
    · have hmul := Nat.mul_le_mul_right m.blockSize hlen
      have hdiv := Nat.div_mul_le_self (request.numTokens - 1) m.blockSize
      omega
    · intro hoff
      rw [hoff] at hon
      simp at hon

/-! ## `allocate_slots` -/

/-- Cached blocks are given to a request without an entry only. -/
def Placeable (m : KVCacheManager H) (request : Request H) (computed : List Ref) : Prop :=
  computed = [] ∨ m.blockPool.enableCaching = true ∧
    m.reqToBlocks.get? request.requestId = none ∧ Hit m.blockPool request.blockHashes computed

/-- The number of blocks that a request needs: new ones, and cached ones that nobody holds. -/
def neededBlocks (m : KVCacheManager H) (id : String) (numTokens : Nat) (computed : List Ref) :
    Nat :=
  cdiv numTokens m.blockSize - (computed.length + (m.reqBlocks id).length) +
    m.getNumEvictableBlocks computed

theorem getNumBlocksToAllocate_good {request : Request H} {computed : List Ref}
    (h : m.Good hashes free) (hplace : m.Placeable request computed) (numTokens : Nat) :
    m.getNumBlocksToAllocate request.requestId numTokens computed =
      .ok (m.neededBlocks request.requestId numTokens computed) := by
  unfold getNumBlocksToAllocate
  by_cases hcount : (m.numCachedBlock.get? request.requestId).isSome
  · obtain rfl : computed = [] := by
      rcases hplace with hnil | ⟨-, hnone, -⟩
      · exact hnil
      · have hentry := h.counted _ hcount
        rw [hnone] at hentry
        cases hentry
    simp only [if_pos hcount, List.length_nil, if_true, neededBlocks, getNumEvictableBlocks,
      List.countP_nil, Nat.zero_add, Nat.add_zero]
  · simp only [if_neg hcount]
    rfl

/-- The number of tokens that need a slot. -/
def tokensNeedSlot (m : KVCacheManager H) (request : Request H)
    (numNewTokens numNewComputedTokens numLookaheadTokens : Nat) : Nat :=
  min (min (request.numComputedTokens + numNewComputedTokens) m.maxModelLen + numNewTokens +
    numLookaheadTokens) m.maxModelLen

/-- `allocate_slots` fails without a trace when there are not enough free blocks. -/
theorem allocateSlots_none {request : Request H} {computed : List Ref}
    {numNew numComputed numLookahead : Nat} (h : m.Good hashes free)
    (hplace : m.Placeable request computed) (hnew : numNew ≠ 0)
    (hlack : free.length < m.neededBlocks request.requestId
      (m.tokensNeedSlot request numNew numComputed numLookahead) computed) :
    m.allocateSlots request numNew numComputed computed numLookahead = .ok (none, m) := by
  have hneed := getNumBlocksToAllocate_good h hplace
    (m.tokensNeedSlot request numNew numComputed numLookahead)
  have hnum : m.blockPool.getNumFreeBlocks < (m.neededBlocks request.requestId
      (m.tokensNeedSlot request numNew numComputed numLookahead) computed : Nat) := by
    rw [BlockPool.getNumFreeBlocks, h.pool.represents.num]
    exact Int.ofNat_lt.2 hlack
  rw [tokensNeedSlot] at hneed hnum
  rw [allocateSlots, if_neg hnew]
  simp only [hneed, bind, Except.bind, if_pos hnum, pure, Except.pure]

/-- What `allocate_slots` leaves behind for a request that gets the blocks `computed` and `news`:
there are slots for `need` tokens, and the blocks that are not cached before have one holder. -/
structure Allocated (m m' : KVCacheManager H) (hashes : String → List H) (free' : List Ref)
    (request : Request H) (computed news : List Ref) (need toCache : Nat) : Prop where
  good : m'.Good hashes free'
  config : m.SameConfig m'
  entries : m'.reqToBlocks =
    m.reqToBlocks.set request.requestId (m.reqBlocks request.requestId ++ computed ++ news)
  room : cdiv need m.blockSize ≤ (m.reqBlocks request.requestId ++ computed ++ news).length
  count : m'.numCached request.requestId ≤
    max (m.numCached request.requestId + computed.length) (toCache / m.blockSize)
  others : ∀ id, request.requestId ≠ id → m'.numCached id = m.numCached id
  single : ∀ (i : Nat) b, m.numCached request.requestId + computed.length ≤ i →
    (m.reqBlocks request.requestId ++ computed ++ news)[i]? = some b →
      (m'.blockPool.object b).refCnt = 1
  kept : ∀ b, b ∉ m.reqBlocks request.requestId ++ computed ++ news →
    (m'.blockPool.object b).blockHash = (m.blockPool.object b).blockHash

/-- The first half of `allocate_slots`: the request gets the cached blocks. -/
theorem placeComputed_good {request : Request H} {computed : List Ref} (h : m.Good hashes free)
    (hsep : Separated hashes) (hplace : m.Placeable request computed)
    (hhashes : hashes request.requestId = request.blockHashes) :
    ∃ m₁ free₁,
      (if computed = [] then .ok m else m.allocateNewComputedBlocks request.requestId computed) =
        .ok m₁ ∧ m₁.Good hashes free₁ ∧ m.SameConfig m₁ ∧
      (∀ bs, m₁.reqToBlocks.set request.requestId bs = m.reqToBlocks.set request.requestId bs) ∧
      m₁.reqBlocks request.requestId = m.reqBlocks request.requestId ++ computed ∧
      free.length ≤ free₁.length + m.getNumEvictableBlocks computed ∧
      m₁.numCached request.requestId = m.numCached request.requestId + computed.length ∧
      (∀ id, request.requestId ≠ id → m₁.numCached id = m.numCached id) ∧
      ∀ b, (m₁.blockPool.object b).blockHash = (m.blockPool.object b).blockHash := by
  by_cases hnil : computed = []
  · subst hnil
    refine ⟨m, free, if_pos rfl, h, ⟨rfl, rfl, rfl, rfl, rfl, rfl⟩, fun _ => rfl, ?_, by omega, rfl,
      fun _ _ => rfl, fun _ => rfl⟩
    rw [List.append_nil]
  · rcases hplace with hnil' | ⟨hon, hentry, hhit⟩
    · exact absurd hnil' hnil
    · have hcount : m.numCached request.requestId = 0 := by
        have hnone : m.numCachedBlock.get? request.requestId = none := by
          rw [← Option.not_isSome_iff_eq_none]
          intro hsome
          have hsome' := h.counted _ hsome
          rw [hentry] at hsome'
          cases hsome'
        rw [numCached, hnone]
        rfl
      obtain ⟨p, free', heq, hgood, hset, hlen, hhash⟩ :=
        allocateNewComputedBlocks_good h hsep hon hentry (hhashes.symm ▸ hhit)
      refine ⟨_, free', by rw [if_neg hnil, heq], hgood, ⟨rfl, rfl, rfl, hset⟩, ?_, ?_, hlen, ?_,
        ?_, hhash⟩
      · intro bs
        exact Dict.set_set _ _ _ _
      · rw [reqBlocks, reqBlocks, Dict.get?_set_self, hentry]
        rfl
      · rw [hcount, numCached, Dict.get?_set_self, Option.getD_some, Nat.zero_add]
      · intro id hne
        rw [numCached, Dict.get?_set_of_ne _ _ hne]
        rfl

/-- Otherwise the request gets the cached blocks and new ones behind its own. -/
theorem allocateSlots_some {request : Request H} {computed : List Ref}
    {numNew numComputed numLookahead : Nat} (h : m.Good hashes free) (hsep : Separated hashes)
    (hplace : m.Placeable request computed) (hnew : numNew ≠ 0)
    (hhashes : hashes request.requestId = request.blockHashes)
    (hfull : m.blockPool.enableCaching = true →
      request.numTokens / m.blockSize ≤ request.blockHashes.length)
    (hroom : m.neededBlocks request.requestId
      (m.tokensNeedSlot request numNew numComputed numLookahead) computed ≤ free.length) :
    ∃ news m' free', m.allocateSlots request numNew numComputed computed numLookahead =
        .ok (some news, m') ∧
      m.Allocated m' hashes free' request computed news
        (m.tokensNeedSlot request numNew numComputed numLookahead)
        (min (min (request.numComputedTokens + numComputed) m.maxModelLen + numNew)
          request.numTokens) := by
  have hneed := getNumBlocksToAllocate_good h hplace
    (m.tokensNeedSlot request numNew numComputed numLookahead)
  have hnum : ¬ m.blockPool.getNumFreeBlocks < (m.neededBlocks request.requestId
      (m.tokensNeedSlot request numNew numComputed numLookahead) computed : Nat) := by
    rw [BlockPool.getNumFreeBlocks, h.pool.represents.num]
    omega
  obtain ⟨m₁, free₁, hcomputed, hgood₁, hconf₁, hset₁, hreq₁, hlen₁, hcount₁, hothers₁, hhash₁⟩ :=
    placeComputed_good h hsep hplace hhashes
  -- The new blocks.
  have hroom₁ : cdiv (m.tokensNeedSlot request numNew numComputed numLookahead) m₁.blockSize -
      (m₁.reqBlocks request.requestId).length ≤ free₁.length := by
    rw [neededBlocks] at hroom
    rw [hconf₁.1, hreq₁, List.length_append]
    omega
  obtain ⟨m₂, hnews, hgood₂, hconf₂, hcount₂, hreq₂, hhash₂⟩ :=
    allocateNewBlocks_good hgood₁ request.requestId hroom₁
  obtain ⟨news, hnewsEq⟩ : ∃ news, news = free₁.take
      (cdiv (m.tokensNeedSlot request numNew numComputed numLookahead) m₁.blockSize -
        (m₁.reqBlocks request.requestId).length) := ⟨_, rfl⟩
  have hlong : cdiv (m.tokensNeedSlot request numNew numComputed numLookahead) m.blockSize ≤
      (m.reqBlocks request.requestId ++ computed ++ news).length := by
    rw [List.length_append, ← hreq₁, hnewsEq, List.length_take, ← hconf₁.1]
    omega
  rw [← hnewsEq] at hnews hreq₂ hhash₂
  rw [hset₁, hreq₁] at hreq₂
  have hconf : m.SameConfig m₂ := hconf₁.trans hconf₂
  have hcount : ∀ id, m₂.numCached id = m₁.numCached id := by
    intro id
    rw [numCached, hcount₂]
    rfl
  have hentry : m₂.reqToBlocks.get? request.requestId =
      some (m.reqBlocks request.requestId ++ computed ++ news) := by
    rw [hreq₂, Dict.get?_set_self]
  have hsingle : ∀ (i : Nat) b, m.numCached request.requestId + computed.length ≤ i →
      (m.reqBlocks request.requestId ++ computed ++ news)[i]? = some b →
        (m₂.blockPool.object b).refCnt = 1 := by
    intro i b hi hb
    exact (hgood₂.own _ _ i b hentry (by rw [hcount, hcount₁]; exact hi) hb).2
  have hkept : ∀ b, b ∉ m.reqBlocks request.requestId ++ computed ++ news →
      (m₂.blockPool.object b).blockHash = (m.blockPool.object b).blockHash := by
    intro b hb
    rw [hhash₂ b (fun hnew => hb (List.mem_append_right _ hnew)), hhash₁]
  rw [tokensNeedSlot] at hneed hnum hnews
  by_cases hon : m.blockPool.enableCaching = true
  · -- The full blocks are cached.
    have hon₂ : m₂.blockPool.enableCaching = true := by rw [hconf.2.2.2.2.1, hon]
    have hcap : min (min (request.numComputedTokens + numComputed) m.maxModelLen + numNew)
        request.numTokens / m₂.blockSize ≤ request.blockHashes.length := by
      rw [hconf.1]
      exact Nat.le_trans (Nat.div_le_div_right (Nat.min_le_right _ _)) (hfull hon)
    obtain ⟨m₃, hcache, hgood₃, hconf₃, hreq₃, href₃, hcount₃, hhash₃⟩ :=
      cacheBlocks_good hgood₂ hon₂ hentry hhashes hcap
    refine ⟨news, m₃, _, ?_, hgood₃, hconf.trans hconf₃, by rw [hreq₃, hreq₂], hlong, ?_, ?_, ?_,
      fun b hb => by rw [hhash₃ b hb, hkept b hb]⟩
    · rw [allocateSlots, if_neg hnew]
      split at hcomputed
      · next hnil =>
        obtain rfl := Except.ok.inj hcomputed
        simp only [hneed, bind, Except.bind, if_neg hnum, if_pos hnil, hnews, hon₂,
          not_true_eq_false, if_false, hcache, pure, Except.pure]
      · next hnil =>
        simp only [hneed, bind, Except.bind, if_neg hnum, if_neg hnil, hcomputed, hnews, hon₂,
          not_true_eq_false, if_false, hcache, pure, Except.pure]
    · rw [hcount₃, if_pos rfl, hcount, hcount₁, hconf.1]
    · intro id hne
      rw [hcount₃, if_neg hne, hcount, hothers₁ id hne]
    · intro i b hi hb
      rw [href₃]
      exact hsingle i b hi hb
  · have hoff₂ : ¬ m₂.blockPool.enableCaching = true := by
      rw [hconf.2.2.2.2.1]
      exact hon
    refine ⟨news, m₂, _, ?_, hgood₂, hconf, hreq₂, hlong, ?_, ?_, hsingle, hkept⟩
    · rw [allocateSlots, if_neg hnew]
      split at hcomputed
      · next hnil =>
        obtain rfl := Except.ok.inj hcomputed
        simp only [hneed, bind, Except.bind, if_neg hnum, if_pos hnil, hnews,
          if_pos hoff₂, pure, Except.pure]
      · next hnil =>
        simp only [hneed, bind, Except.bind, if_neg hnum, if_neg hnil, hcomputed, hnews,
          if_pos hoff₂, pure, Except.pure]
    · rw [hcount, hcount₁]
      omega
    · intro id hne
      rw [hcount, hothers₁ id hne]

/-! ## Common prefixes -/

theorem takeWhile_inside {q : Ref → Bool} {i : Nat} (hi : i < (bs.takeWhile q).length)
    (hb : bs[i]? = some b) : q b = true := by
  induction bs generalizing i with
  | nil => simp at hb
  | cons c bs ih =>
    rw [List.takeWhile_cons] at hi
    split at hi
    · next hc =>
      cases i with
      | zero =>
        obtain rfl : c = b := by simpa using hb
        exact hc
      | succ i => exact ih (by simpa using hi) (by simpa using hb)
    · simp at hi

theorem takeWhile_end {q : Ref → Bool} (hb : bs[(bs.takeWhile q).length]? = some b) :
    q b = false := by
  induction bs with
  | nil => simp at hb
  | cons c bs ih =>
    rw [List.takeWhile_cons] at hb
    split at hb
    · exact ih (by simpa using hb)
    · next hc =>
      obtain rfl : c = b := by simpa using hb
      exact Bool.eq_false_iff.2 hc

/-- `get_num_common_prefix_blocks` is the number of blocks that all requests with blocks have in
common in front. -/
theorem getNumCommonPrefixBlocks_good (h : m.Good hashes free)
    (hon : m.blockPool.enableCaching = true) (hget : m.reqToBlocks.get? id = some bs) :
    ∃ n, m.getNumCommonPrefixBlocks id = (n, m) ∧ n ≤ bs.length ∧
      (∀ id' bs', m.reqToBlocks.get? id' = some bs' → bs'.take n = bs.take n) ∧
      ∀ b, bs[n]? = some b → ∃ id' bs', m.reqToBlocks.get? id' = some bs' ∧ b ∉ bs' := by
  have hset : m.reqToBlocks.set id bs = m.reqToBlocks := Dict.set_eq_self hget
  obtain ⟨q, hq⟩ : ∃ q : Ref → Bool, q = fun block =>
      decide ((m.blockPool.object block).refCnt = m.reqToBlocks.length) := ⟨_, rfl⟩
  have hall : ∀ b, q b = true ↔ ∀ e ∈ m.reqToBlocks, b ∈ e.2 := by
    -- As many references as there are requests: each of them holds the block.
    intro b
    rw [hq, decide_eq_true_iff, h.refs, Int.ofNat_inj, holders, List.countP_eq_length]
    simp only [decide_eq_true_eq]
  refine ⟨(bs.takeWhile q).length, ?_, (List.takeWhile_prefix q).length_le, ?_, ?_⟩
  · simp only [getNumCommonPrefixBlocks, if_pos hon, reqBlocks_of_get hget, hset, hq]
  · intro id' bs' hget'
    by_cases hid : id = id'
    · subst hid
      rw [hget, Option.some.injEq] at hget'
      rw [hget']
    · apply List.ext_getElem?
      intro i
      rw [List.getElem?_take, List.getElem?_take]
      split
      · next hi =>
        have hlt : i < bs.length := Nat.lt_of_lt_of_le hi (List.takeWhile_prefix q).length_le
        obtain ⟨b, hbs⟩ : ∃ b, bs[i]? = some b := ⟨_, List.getElem?_eq_getElem hlt⟩
        have hqb := takeWhile_inside hi hbs
        have hmem := (hall b).1 hqb (id', bs') (Dict.mem_of_get? hget')
        obtain ⟨j, hj⟩ := List.getElem?_of_mem hmem
        obtain ⟨rfl, -⟩ := h.shared id id' bs bs' i j b hid hget hget' hbs hj
        rw [hbs, hj]
      · rfl
  · intro b hb
    have hnot : ¬ q b = true := Bool.eq_false_iff.1 (takeWhile_end hb)
    rw [hall] at hnot
    push Not at hnot
    obtain ⟨e, he, hnotin⟩ := hnot
    exact ⟨e.1, e.2, Dict.get?_of_mem h.keys he, hnotin⟩

end KVCacheManager

end AiPipelines.KvCache

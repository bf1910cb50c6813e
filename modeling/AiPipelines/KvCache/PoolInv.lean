import AiPipelines.KvCache.BlockPool
import AiPipelines.KvCache.Deque

/-!
# The invariant of the block pool

`BlockPool.Good p free out` is the invariant of the pool.  The free queue is the
list `free`; the usable blocks without a reference are those of `free` and of
`out`, which holds the blocks that an operation has taken from the queue or has
released and not yet passed on; a block is in the prefix cache exactly under the
hash that it carries.  Between operations `out` is empty.

There are three groups.

* `BlockHashToBlockMap`: which blocks a key holds after `insert` and `popBlock`.
* Moves of one block: `Good.take`, `Good.share`, `Good.release`, `Good.evict`,
  `Good.cache`.
* One lemma for each operation of the pool, made from the moves.
-/

namespace AiPipelines.KvCache

open PyStd

/-! ## `BlockHashToBlockMap` -/

/-- The blocks of a value. -/
def CachedBlocks.list : CachedBlocks → List Ref
  | .one block => [block]
  | .many blocks => blocks.map Prod.snd

namespace BlockHashToBlockMap

variable {K : Type} [DecidableEq K] {cache : BlockHashToBlockMap K} {blockId : Ref → Int}
  {U : Ref → Prop} {key key' : K} {r block : Ref}

/-- The block is cached under the key. -/
def Holds (cache : BlockHashToBlockMap K) (key : K) (r : Ref) : Prop :=
  ∃ bs, cache.get? key = some bs ∧ r ∈ bs.list

/-- Cached blocks are in `U`, and the dictionaries have the block ids as their keys. -/
structure Ok (cache : BlockHashToBlockMap K) (blockId : Ref → Int) (U : Ref → Prop) : Prop where
  usable : ∀ key r, cache.Holds key r → U r
  keyed : ∀ key blocks, cache.get? key = some (.many blocks) →
    blocks ≠ [] ∧ (Dict.keys blocks).Nodup ∧ ∀ e ∈ blocks, e.1 = blockId e.2

theorem ok_nil : Ok ([] : BlockHashToBlockMap K) blockId U := by
  constructor
  · rintro key r ⟨bs, hget, -⟩
    cases hget
  · intro key blocks hget
    cases hget

theorem getOneBlock_holds (h : cache.getOneBlock key = some r) : cache.Holds key r := by
  unfold getOneBlock at h
  split at h
  · cases h
  · next b hget =>
      exact ⟨_, hget, by rw [CachedBlocks.list, Option.some.inj h]; exact List.mem_cons_self⟩
  · next bs hget => exact ⟨_, hget, List.mem_of_head? h⟩

theorem getOneBlock_eq_none (hok : cache.Ok blockId U) (h : cache.getOneBlock key = none) :
    ¬ cache.Holds key r := by
  rintro ⟨bs, hget, hr⟩
  rw [getOneBlock, hget] at h
  cases bs with
  | one b => cases h
  | many blocks =>
    have hne := (hok.keyed key blocks hget).1
    rw [List.head?_eq_none_iff, List.map_eq_nil_iff] at h
    exact hne h

/-- A value under one key replaced. -/
theorem holds_set {bs : CachedBlocks} :
    Holds (Dict.set cache key bs) key' r ↔
      if key = key' then r ∈ bs.list else cache.Holds key' r := by
  unfold Holds
  rw [Dict.get?_set]
  split
  · simp
  · rfl

theorem holds_pop : Holds (Dict.pop cache key) key' r ↔ key ≠ key' ∧ cache.Holds key' r := by
  unfold Holds
  rw [Dict.get?_pop]
  split
  · next h => simp [h]
  · next h => simp [h]

/-- The values of a dictionary after an assignment of a block to its id. -/
theorem mem_values_set {blocks : Dict Int Ref} (hkeyed : ∀ e ∈ blocks, e.1 = blockId e.2)
    (hinj : ∀ s ∈ blocks.map Prod.snd, blockId s = blockId block → s = block) :
    r ∈ (blocks.set (blockId block) block).map Prod.snd ↔ r ∈ blocks.map Prod.snd ∨ r = block := by
  induction blocks with
  | nil => simp [Dict.set]
  | cons e blocks ih =>
    obtain ⟨id, s⟩ := e
    have hrest := ih (fun e he => hkeyed e (List.mem_cons_of_mem _ he))
      (fun s hs => hinj s (List.mem_cons_of_mem _ hs))
    by_cases hid : id = blockId block
    · have hs : s = block := by
        apply hinj s List.mem_cons_self
        rw [← hid]
        exact (hkeyed (id, s) List.mem_cons_self).symm
      rw [Dict.set, if_pos hid]
      simp only [List.map_cons, List.mem_cons, hs]
      exact ⟨.inl, fun h => h.elim (fun h => h) .inl⟩
    · rw [Dict.set, if_neg hid]
      simp only [List.map_cons, List.mem_cons, hrest]
      exact or_assoc.symm

/-- What `insert` adds. -/
theorem insert_ok (hok : cache.Ok blockId U) (hU : U block)
    (hinj : ∀ s, U s → blockId s = blockId block → s = block) :
    (cache.insert blockId key block).Ok blockId U ∧
      ∀ key' r, (cache.insert blockId key block).Holds key' r ↔
        cache.Holds key' r ∨ (key' = key ∧ r = block) := by
  have hfinish : ∀ bs : CachedBlocks, cache.insert blockId key block = Dict.set cache key bs →
      (∀ r, r ∈ bs.list ↔ cache.Holds key r ∨ r = block) →
      (∀ blocks, bs = .many blocks →
        blocks ≠ [] ∧ (Dict.keys blocks).Nodup ∧ ∀ e ∈ blocks, e.1 = blockId e.2) →
      (cache.insert blockId key block).Ok blockId U ∧
        ∀ key' r, (cache.insert blockId key block).Holds key' r ↔
          cache.Holds key' r ∨ (key' = key ∧ r = block) := by
    intro bs hset hmem hkeyed
    have hholds : ∀ key' r, (cache.insert blockId key block).Holds key' r ↔
        cache.Holds key' r ∨ (key' = key ∧ r = block) := by
      intro key' r
      rw [hset, holds_set]
      by_cases hk : key = key'
      · subst hk
        simp [hmem r]
      · simp [hk, Ne.symm hk]
    refine ⟨⟨?_, ?_⟩, hholds⟩
    · intro key' r hr
      rcases (hholds key' r).1 hr with hr | ⟨-, rfl⟩
      · exact hok.usable key' r hr
      · exact hU
    · intro key' blocks hget
      rw [hset, Dict.get?_set] at hget
      split at hget
      · exact hkeyed blocks (Option.some.inj hget)
      · exact hok.keyed key' blocks hget
  have hin : ∀ bs, cache.get? key = some bs → ∀ r, cache.Holds key r ↔ r ∈ bs.list := by
    intro bs hget r
    simp [Holds, hget]
  cases hget : cache.get? key with
  | none =>
    apply hfinish (.one block)
    · rw [insert, hget]
    · intro r
      simp [CachedBlocks.list, Holds, hget]
    · intro blocks hbs
      cases hbs
  | some bs =>
    cases bs with
    | one old =>
      have hold : U old := hok.usable key old ⟨_, hget, List.mem_cons_self⟩
      have hkeyed : ∀ e ∈ ([(blockId old, old)] : Dict Int Ref), e.1 = blockId e.2 := by simp
      apply hfinish (.many (Dict.set [(blockId old, old)] (blockId block) block))
      · rw [insert, hget]
      · intro r
        rw [CachedBlocks.list, mem_values_set hkeyed, hin _ hget]
        · simp [CachedBlocks.list]
        · intro s hs
          obtain rfl : s = old := by simpa using hs
          exact hinj s hold
      · intro blocks hbs
        obtain rfl := CachedBlocks.many.inj hbs
        refine ⟨?_, Dict.nodup_keys_set (List.nodup_singleton _), ?_⟩
        · rw [Dict.set]
          split <;> exact List.cons_ne_nil _ _
        · intro e he
          rcases Dict.mem_set he with rfl | he
          · rfl
          · exact hkeyed e he
    | many blocks =>
      obtain ⟨hne, hnd, hkeyed⟩ := hok.keyed key blocks hget
      apply hfinish (.many (blocks.set (blockId block) block))
      · rw [insert, hget]
      · intro r
        rw [CachedBlocks.list, mem_values_set hkeyed, hin _ hget]
        · rfl
        · intro s hs
          exact hinj s (hok.usable key s ⟨_, hget, hs⟩)
      · intro blocks' hbs
        obtain rfl := CachedBlocks.many.inj hbs
        refine ⟨?_, Dict.nodup_keys_set hnd, ?_⟩
        · cases blocks with
          | nil => exact absurd rfl hne
          | cons e blocks =>
            rw [Dict.set]
            split <;> exact List.cons_ne_nil _ _
        · intro e he
          rcases Dict.mem_set he with rfl | he
          · rfl
          · exact hkeyed e he

/-- What `popBlock` takes away, for a block that is cached under the key. -/
theorem popBlock_holds (hok : cache.Ok blockId U) (hr : cache.Holds key block)
    (hinj : ∀ s, U s → blockId s = blockId block → s = block) :
    (cache.popBlock blockId key (blockId block)).1 = some block ∧
      (cache.popBlock blockId key (blockId block)).2.Ok blockId U ∧
      ∀ key' r, (cache.popBlock blockId key (blockId block)).2.Holds key' r ↔
        cache.Holds key' r ∧ ¬ (key' = key ∧ r = block) := by
  obtain ⟨bs, hget, hmem⟩ := hr
  have hin : ∀ r, cache.Holds key r ↔ r ∈ bs.list := by
    intro r
    simp [Holds, hget]
  have hpop : Ok (Dict.pop cache key) blockId U := by
    constructor
    · intro key' r hr
      exact hok.usable key' r (holds_pop.1 hr).2
    · intro key' blocks hget'
      rw [Dict.get?_pop] at hget'
      split at hget'
      · cases hget'
      · exact hok.keyed key' blocks hget'
  cases bs with
  | one b =>
    obtain rfl : block = b := List.mem_singleton.1 hmem
    have heq : cache.popBlock blockId key (blockId block) = (some block, Dict.pop cache key) := by
      rw [popBlock, hget]
      exact if_pos rfl
    rw [heq]
    refine ⟨rfl, hpop, ?_⟩
    intro key' r
    rw [holds_pop]
    by_cases hk : key = key'
    · subst hk
      simp [hin, CachedBlocks.list]
    · simp [hk, Ne.symm hk]
  | many blocks =>
    obtain ⟨hne, hnd, hkeyed⟩ := hok.keyed key blocks hget
    obtain ⟨e, he, rfl⟩ := List.mem_map.1 hmem
    have hfound : blocks.get? (blockId e.2) = some e.2 := by
      rw [← hkeyed e he]
      exact Dict.get?_of_mem hnd he
    have hleft : ∀ r, r ∈ (blocks.pop (blockId e.2)).map Prod.snd ↔
        r ∈ blocks.map Prod.snd ∧ r ≠ e.2 := by
      intro r
      constructor
      · intro hr
        obtain ⟨e', he', rfl⟩ := List.mem_map.1 hr
        obtain ⟨he', hid⟩ := List.mem_filter.1 he'
        refine ⟨List.mem_map_of_mem he', ?_⟩
        intro heq
        simp [hkeyed e' he', heq] at hid
      · rintro ⟨hr, hne'⟩
        obtain ⟨e', he', rfl⟩ := List.mem_map.1 hr
        apply List.mem_map_of_mem
        apply List.mem_filter.2
        refine ⟨he', ?_⟩
        rw [decide_eq_true_iff, hkeyed e' he']
        intro hid
        exact hne' (hinj e'.2 (hok.usable key e'.2 ⟨_, hget, hr⟩) hid)
    by_cases hlen : 0 < (blocks.pop (blockId e.2)).length
    · have heq : cache.popBlock blockId key (blockId e.2) =
          (some e.2, Dict.set (Dict.pop cache key) key (.many (blocks.pop (blockId e.2)))) := by
        rw [popBlock, hget]
        simp only [hfound, if_pos hlen]
      rw [heq]
      refine ⟨rfl, ⟨?_, ?_⟩, ?_⟩
      · intro key' r hr
        rw [holds_set] at hr
        split at hr
        · exact hok.usable key r ((hin r).2 ((hleft r).1 hr).1)
        · exact hpop.usable key' r hr
      · intro key' blocks' hget'
        rw [Dict.get?_set] at hget'
        split at hget'
        · obtain rfl := CachedBlocks.many.inj (Option.some.inj hget')
          refine ⟨List.ne_nil_of_length_pos hlen, ?_, ?_⟩
          · exact (Dict.keys_pop_sublist blocks _).nodup hnd
          · intro e' he'
            exact hkeyed e' (List.mem_of_mem_filter he')
        · exact hpop.keyed key' blocks' hget'
      · intro key' r
        rw [holds_set]
        by_cases hk : key = key'
        · subst hk
          rw [if_pos rfl, hin]
          simp only [true_and]
          exact hleft r
        · rw [if_neg hk, holds_pop]
          simp [hk, Ne.symm hk]
    · have heq : cache.popBlock blockId key (blockId e.2) = (some e.2, Dict.pop cache key) := by
        rw [popBlock, hget]
        simp only [hfound, if_neg hlen]
      have hempty : blocks.pop (blockId e.2) = [] := List.eq_nil_of_length_eq_zero (by omega)
      rw [heq]
      refine ⟨rfl, hpop, ?_⟩
      intro key' r
      rw [holds_pop]
      by_cases hk : key = key'
      · subst hk
        have hnone := hleft r
        rw [hempty] at hnone
        simp only [List.map_nil, List.not_mem_nil, false_iff] at hnone
        simp only [ne_eq, not_true_eq_false, false_and, hin, true_and, false_iff]
        exact hnone
      · simp [hk, Ne.symm hk]

end BlockHashToBlockMap

/-! ## The invariant -/

namespace BlockPool

variable {H : Type}

/-- A block that the pool hands out: every block but the null block. -/
def Usable (p : BlockPool H) (r : Ref) : Prop := ∃ i, 0 < i ∧ i < p.numGpuBlocks ∧ r = .block i

/-- The settings of the pool and its number of blocks do not change. -/
def SameSettings (p p' : BlockPool H) : Prop :=
  p'.numGpuBlocks = p.numGpuBlocks ∧ p'.enableCaching = p.enableCaching ∧ p'.nullBlock = p.nullBlock

variable [DecidableEq H]

/-- The invariant of the pool. -/
structure Good (p : BlockPool H) (free out : List Ref) : Prop where
  represents : p.freeBlockQueue.Represents free
  ids : ∀ i, (p.object (.block i)).blockId = i
  isNull : ∀ r, (p.object r).isNull = decide (r = .block 0)
  nullBlock : p.nullBlock = .block 0
  unused : ∀ r, r ∈ free ++ out ↔ p.Usable r ∧ (p.object r).refCnt = 0
  distinct : (free ++ out).Nodup
  nonneg : ∀ r, 0 ≤ (p.object r).refCnt
  cache : p.cachedBlockHashToBlock.Ok (fun r => (p.object r).blockId) p.Usable
  hashed : ∀ key r, p.cachedBlockHashToBlock.Holds key r ↔ (p.object r).blockHash = some key
  off : p.enableCaching = false → ∀ r, (p.object r).blockHash = none

variable {p p' : BlockPool H} {r s : Ref} {free out : List Ref} {n : Int}
  {f : KVCacheBlock (BlockHashWithGroupId H) → KVCacheBlock (BlockHashWithGroupId H)}
  {queue : FreeKVCacheBlockQueue (BlockHashWithGroupId H)}

omit [DecidableEq H] in
theorem SameSettings.usable (h : p.SameSettings p') : p'.Usable r ↔ p.Usable r := by
  unfold Usable
  rw [h.1]

omit [DecidableEq H] in
theorem SameSettings.trans {p'' : BlockPool H} (h : p.SameSettings p') (h' : p'.SameSettings p'') :
    p.SameSettings p'' :=
  ⟨h'.1.trans h.1, h'.2.1.trans h.2.1, h'.2.2.trans h.2.2⟩

/-! ### Fields of the blocks -/

omit [DecidableEq H] in
theorem modify_object : (p.modify r f).object s = if s = r then f (p.object r) else p.object s :=
  FreeKVCacheBlockQueue.setObject_objects

omit [DecidableEq H] in
/-- A change that leaves the links of a block alone leaves the queue alone. -/
theorem modify_represents (hf : ∀ b, (f b).nextFreeBlock = b.nextFreeBlock ∧
    (f b).prevFreeBlock = b.prevFreeBlock) (h : p.freeBlockQueue.Represents free) :
    (p.modify r f).freeBlockQueue.Represents free := by
  have hlinks : (p.modify r f).freeBlockQueue.links = p.freeBlockQueue.links := by
    rw [Links.mk.injEq]
    constructor
    · funext s
      show ((p.modify r f).object s).nextFreeBlock = (p.object s).nextFreeBlock
      rw [modify_object]
      split
      · next heq => rw [heq, (hf _).1]
      · rfl
    · funext s
      show ((p.modify r f).object s).prevFreeBlock = (p.object s).prevFreeBlock
      rw [modify_object]
      split
      · next heq => rw [heq, (hf _).2]
      · rfl
  exact ⟨hlinks ▸ h.between, h.num⟩

omit [DecidableEq H] in
/-- The methods of the queue change links only. -/
theorem object_of_info (h : queue.info = p.freeBlockQueue.info) (r : Ref) :
    ({ p with freeBlockQueue := queue }.object r).blockId = (p.object r).blockId ∧
      ({ p with freeBlockQueue := queue }.object r).refCnt = (p.object r).refCnt ∧
      ({ p with freeBlockQueue := queue }.object r).blockHash = (p.object r).blockHash ∧
      ({ p with freeBlockQueue := queue }.object r).isNull = (p.object r).isNull := by
  have hr := congrFun h r
  simp only [FreeKVCacheBlockQueue.info, KVCacheBlock.mk.injEq] at hr
  exact ⟨hr.1, hr.2.1, hr.2.2.1, hr.2.2.2.2.2⟩

omit [DecidableEq H] in
theorem addRef_refCnt : ((p.addRef r n).object s).refCnt =
    if s = r then (p.object r).refCnt + n else (p.object s).refCnt := by
  rw [addRef, modify_object]
  split <;> rfl

omit [DecidableEq H] in
theorem addRef_fields : ((p.addRef r n).object s).blockId = (p.object s).blockId ∧
    ((p.addRef r n).object s).blockHash = (p.object s).blockHash ∧
    ((p.addRef r n).object s).isNull = (p.object s).isNull := by
  rw [addRef, modify_object]
  split
  · next h => rw [h]; exact ⟨rfl, rfl, rfl⟩
  · exact ⟨rfl, rfl, rfl⟩

/-! ### Moves of one block -/

/-- A change that concerns the references and the queue only. -/
theorem Good.of_refs {free' out' : List Ref} (h : p.Good free out) (hset : p.SameSettings p')
    (hcache : p'.cachedBlockHashToBlock = p.cachedBlockHashToBlock)
    (hfields : ∀ r, (p'.object r).blockId = (p.object r).blockId ∧
      (p'.object r).blockHash = (p.object r).blockHash ∧ (p'.object r).isNull = (p.object r).isNull)
    (hrep : p'.freeBlockQueue.Represents free')
    (hunused : ∀ r, r ∈ free' ++ out' ↔ p.Usable r ∧ (p'.object r).refCnt = 0)
    (hdistinct : (free' ++ out').Nodup) (hnonneg : ∀ r, 0 ≤ (p'.object r).refCnt) :
    p'.Good free' out' := by
  have hids : (fun r => (p'.object r).blockId) = fun r => (p.object r).blockId := by
    funext r
    exact (hfields r).1
  have hU : p'.Usable = p.Usable := by
    funext r
    exact propext hset.usable
  constructor
  · exact hrep
  · intro i
    rw [(hfields _).1, h.ids]
  · intro r
    rw [(hfields r).2.2, h.isNull]
  · rw [hset.2.2, h.nullBlock]
  · intro r
    rw [hunused, hset.usable]
  · exact hdistinct
  · exact hnonneg
  · rw [hcache, hids, hU]
    exact h.cache
  · intro key r
    rw [hcache, h.hashed, (hfields r).2.1]
  · intro hoff r
    rw [(hfields r).2.1]
    exact h.off (hset.2.1 ▸ hoff) r

/-- Unused blocks pass between the queue and the hands of an operation. -/
theorem Good.moveQueue {free' out' : List Ref} (h : p.Good free out)
    (hinfo : queue.info = p.freeBlockQueue.info) (hrep : queue.Represents free')
    (hperm : (free' ++ out').Perm (free ++ out)) :
    ({ p with freeBlockQueue := queue } : BlockPool H).Good free' out' := by
  have hfields := object_of_info hinfo
  refine h.of_refs ⟨rfl, rfl, rfl⟩ rfl
    (fun r => ⟨(hfields r).1, (hfields r).2.2.1, (hfields r).2.2.2⟩) hrep ?_ ?_ ?_
  · intro r
    rw [hperm.mem_iff, h.unused, (hfields r).2.1]
  · exact hperm.nodup_iff.2 h.distinct
  · intro r
    rw [(hfields r).2.1]
    exact h.nonneg r

/-- An unused block gets its first reference. -/
theorem Good.take (h : p.Good free (r :: out)) : (p.addRef r 1).Good free out := by
  have hr : p.Usable r ∧ (p.object r).refCnt = 0 := (h.unused r).1 (by simp)
  have hperm : (free ++ r :: out).Perm (r :: (free ++ out)) := List.perm_middle
  have hdistinct := List.nodup_cons.1 (hperm.nodup_iff.1 h.distinct)
  refine h.of_refs ⟨rfl, rfl, rfl⟩ rfl (fun s => addRef_fields)
    (modify_represents (fun b => ⟨rfl, rfl⟩) h.represents) ?_ ?_ ?_
  · intro s
    have hs := h.unused s
    rw [hperm.mem_iff, List.mem_cons] at hs
    rw [addRef_refCnt]
    by_cases hsr : s = r
    · rw [if_pos hsr, hr.2, hsr]
      simp [hdistinct.1]
    · rw [if_neg hsr, ← hs]
      simp [hsr]
  · exact hdistinct.2
  · intro s
    rw [addRef_refCnt]
    split
    · have hnn := h.nonneg r
      omega
    · exact h.nonneg s

/-- A block in use changes its number of references and stays in use. -/
theorem Good.share (h : p.Good free out) (hr : 0 < (p.object r).refCnt)
    (hn : 0 < (p.object r).refCnt + n) : (p.addRef r n).Good free out := by
  refine h.of_refs ⟨rfl, rfl, rfl⟩ rfl (fun s => addRef_fields)
    (modify_represents (fun b => ⟨rfl, rfl⟩) h.represents) ?_ ?_ ?_
  · intro s
    rw [h.unused, addRef_refCnt]
    by_cases hsr : s = r
    · rw [if_pos hsr, hsr]
      constructor
      · rintro ⟨-, h0⟩
        omega
      · rintro ⟨-, h0⟩
        omega
    · rw [if_neg hsr]
  · exact h.distinct
  · intro s
    rw [addRef_refCnt]
    split
    · omega
    · exact h.nonneg s

/-- A block loses its last reference. -/
theorem Good.release (h : p.Good free out) (hU : p.Usable r) (hr : (p.object r).refCnt = 1) :
    (p.addRef r (-1)).Good free (out ++ [r]) := by
  have hnot : r ∉ free ++ out := by
    intro hmem
    have h0 := ((h.unused r).1 hmem).2
    omega
  refine h.of_refs ⟨rfl, rfl, rfl⟩ rfl (fun s => addRef_fields)
    (modify_represents (fun b => ⟨rfl, rfl⟩) h.represents) ?_ ?_ ?_
  · intro s
    rw [← List.append_assoc, List.mem_append, h.unused, addRef_refCnt]
    by_cases hsr : s = r
    · rw [if_pos hsr, hsr, hr]
      simp [hU]
    · rw [if_neg hsr]
      simp [hsr]
  · rw [← List.append_assoc, List.nodup_append]
    refine ⟨h.distinct, List.nodup_singleton r, ?_⟩
    intro a ha b hb heq
    exact hnot (List.mem_singleton.1 hb ▸ heq ▸ ha)
  · intro s
    rw [addRef_refCnt]
    split
    · omega
    · exact h.nonneg s

/-- A change that concerns the hashes and the prefix cache only. -/
theorem Good.of_hashes (h : p.Good free out) (hset : p.SameSettings p')
    (hfields : ∀ r, (p'.object r).blockId = (p.object r).blockId ∧
      (p'.object r).refCnt = (p.object r).refCnt ∧ (p'.object r).isNull = (p.object r).isNull)
    (hrep : p'.freeBlockQueue.Represents free)
    (hcache : p'.cachedBlockHashToBlock.Ok (fun r => (p.object r).blockId) p.Usable)
    (hhashed : ∀ key r, p'.cachedBlockHashToBlock.Holds key r ↔ (p'.object r).blockHash = some key)
    (hoff : p.enableCaching = false → ∀ r, (p'.object r).blockHash = none) : p'.Good free out := by
  have hids : (fun r => (p'.object r).blockId) = fun r => (p.object r).blockId := by
    funext r
    exact (hfields r).1
  have hU : p'.Usable = p.Usable := by
    funext r
    exact propext hset.usable
  constructor
  · exact hrep
  · intro i
    rw [(hfields _).1, h.ids]
  · intro r
    rw [(hfields r).2.2, h.isNull]
  · rw [hset.2.2, h.nullBlock]
  · intro r
    rw [hset.usable, (hfields r).2.1, h.unused]
  · exact h.distinct
  · intro r
    rw [(hfields r).2.1]
    exact h.nonneg r
  · rw [hids, hU]
    exact hcache
  · exact hhashed
  · intro hc
    exact hoff (hset.2.1 ▸ hc)

/-- Usable blocks have different ids. -/
theorem Good.eq_of_id (h : p.Good free out) (hr : p.Usable r) (hs : p.Usable s)
    (hid : (p.object s).blockId = (p.object r).blockId) : s = r := by
  obtain ⟨i, -, -, rfl⟩ := hr
  obtain ⟨j, -, -, rfl⟩ := hs
  rw [h.ids, h.ids] at hid
  rw [Int.ofNat.inj hid]

/-- A block with a hash is usable. -/
theorem Good.usable_of_hash {key : BlockHashWithGroupId H} (h : p.Good free out)
    (hr : (p.object r).blockHash = some key) : p.Usable r :=
  h.cache.usable key r ((h.hashed key r).2 hr)

/-- What `_maybe_evict_cached_block` changes: the block is in the prefix cache no longer. -/
theorem Good.evict (h : p.Good free out) (r : Ref) :
    (p.maybeEvictCachedBlock r).2.Good free out ∧ p.SameSettings (p.maybeEvictCachedBlock r).2 ∧
      (∀ s, ((p.maybeEvictCachedBlock r).2.object s).refCnt = (p.object s).refCnt) ∧
      ∀ s, ((p.maybeEvictCachedBlock r).2.object s).blockHash =
        if s = r then none else (p.object s).blockHash := by
  cases hhash : (p.object r).blockHash with
  | none =>
    have heq : (p.maybeEvictCachedBlock r).2 = p := by
      rw [maybeEvictCachedBlock, hhash]
    rw [heq]
    refine ⟨h, ⟨rfl, rfl, rfl⟩, fun _ => rfl, ?_⟩
    intro s
    split
    · next hs => rw [hs, hhash]
    · rfl
  | some key =>
    have hU := h.usable_of_hash hhash
    obtain ⟨hfound, hok, hholds⟩ := BlockHashToBlockMap.popBlock_holds h.cache
      ((h.hashed key r).2 hhash) (fun s hs hid => h.eq_of_id hU hs hid)
    obtain ⟨found, cache, hpop⟩ : ∃ found cache, p.cachedBlockHashToBlock.popBlock
        (fun r => (p.object r).blockId) key (p.object r).blockId = (found, cache) := ⟨_, _, rfl⟩
    rw [hpop] at hfound hok hholds
    obtain rfl : found = some r := hfound
    have heq : (p.maybeEvictCachedBlock r).2 =
        ({ p with cachedBlockHashToBlock := cache } : BlockPool H).resetHash r := by
      simp only [maybeEvictCachedBlock, hhash, hpop]
    have hobject : ∀ s, ((({ p with cachedBlockHashToBlock := cache } : BlockPool H).resetHash
        r).object s) = if s = r then { p.object r with blockHash := none } else p.object s := by
      intro s
      rw [resetHash, modify_object]
      rfl
    rw [heq]
    refine ⟨?_, ⟨rfl, rfl, rfl⟩, ?_, ?_⟩
    · refine h.of_hashes ⟨rfl, rfl, rfl⟩ ?_ (modify_represents (fun b => ⟨rfl, rfl⟩) h.represents)
        hok ?_ ?_
      · intro s
        rw [hobject]
        split
        · next hs => rw [hs]; exact ⟨rfl, rfl, rfl⟩
        · exact ⟨rfl, rfl, rfl⟩
      · intro key' s
        rw [hobject]
        refine (hholds key' s).trans ?_
        rw [h.hashed]
        by_cases hs : s = r
        · rw [if_pos hs, hs, hhash]
          simp [eq_comm]
        · rw [if_neg hs]
          simp [hs]
      · intro hoff s
        rw [hobject]
        split
        · rfl
        · exact h.off hoff s
    · intro s
      rw [hobject]
      split
      · next hs => rw [hs]
      · rfl
    · intro s
      rw [hobject]
      split <;> rfl

/-- A full block without a hash gets one and enters the prefix cache. -/
theorem Good.cacheBlock {key : BlockHashWithGroupId H} (h : p.Good free out) (hr : p.Usable r)
    (hnone : (p.object r).blockHash = none) (hon : p.enableCaching = true) :
    ∃ p₁, p.setHash r key = .ok p₁ ∧
      ({ p₁ with
          cachedBlockHashToBlock :=
            p₁.cachedBlockHashToBlock.insert (fun r => (p₁.object r).blockId) key r } :
        BlockPool H).Good free out ∧
      p.SameSettings p₁ ∧ (∀ s, (p₁.object s).refCnt = (p.object s).refCnt) ∧
      ∀ s, (p₁.object s).blockHash = if s = r then some key else (p.object s).blockHash := by
  obtain ⟨p₁, hp₁⟩ : ∃ p₁, p₁ = p.modify r fun block => { block with blockHash := some key } :=
    ⟨_, rfl⟩
  have hset : p.setHash r key = .ok p₁ := by
    rw [setHash, if_pos hnone, hp₁]
  have hobject : ∀ s, p₁.object s =
      if s = r then { p.object r with blockHash := some key } else p.object s := by
    intro s
    rw [hp₁, modify_object]
  have hids : (fun r => (p₁.object r).blockId) = fun r => (p.object r).blockId := by
    funext s
    rw [hobject]
    split
    · next hs => rw [hs]
    · rfl
  have hhash : ∀ s, (p₁.object s).blockHash = if s = r then some key
      else (p.object s).blockHash := by
    intro s
    rw [hobject]
    split <;> rfl
  have hcached : p₁.cachedBlockHashToBlock = p.cachedBlockHashToBlock := by rw [hp₁]; rfl
  obtain ⟨hok, hholds⟩ := @BlockHashToBlockMap.insert_ok _ _ _ _ _ key _ h.cache hr
    (fun s hs hid => h.eq_of_id hr hs hid)
  have hsettings : p.SameSettings p₁ := by
    rw [hp₁]
    exact ⟨rfl, rfl, rfl⟩
  refine ⟨p₁, hset, ?_, hsettings, ?_, hhash⟩
  · refine h.of_hashes hsettings ?_ ?_ ?_ ?_ ?_
    · intro s
      show (p₁.object s).blockId = _ ∧ (p₁.object s).refCnt = _ ∧ (p₁.object s).isNull = _
      rw [hobject]
      split
      · next hs => rw [hs]; exact ⟨rfl, rfl, rfl⟩
      · exact ⟨rfl, rfl, rfl⟩
    · show p₁.freeBlockQueue.Represents free
      rw [hp₁]
      exact modify_represents (fun b => ⟨rfl, rfl⟩) h.represents
    · rw [hids, hcached]
      exact hok
    · intro key' s
      show _ ↔ (p₁.object s).blockHash = some key'
      rw [hids, hcached, hhash]
      refine (hholds key' s).trans ?_
      rw [h.hashed]
      by_cases hs : s = r
      · rw [if_pos hs, hs, hnone]
        simp [eq_comm]
      · rw [if_neg hs]
        simp [hs]
    · intro hoff
      rw [hon] at hoff
      cases hoff
  · intro s
    rw [hobject]
    split
    · next hs => rw [hs]
    · rfl

/-! ### The operations -/

theorem Good.nodup_free (h : p.Good free out) : free.Nodup := (List.nodup_append.1 h.distinct).1

omit [DecidableEq H] in
/-- A usable block is no end of the free list. -/
theorem usable_ne (hr : p.Usable r) : r ≠ .fakeFreeListHead ∧ r ≠ .fakeFreeListTail := by
  obtain ⟨i, -, -, rfl⟩ := hr
  exact ⟨(by simp), (by simp)⟩

theorem Good.isNull_of_usable (h : p.Good free out) (hr : p.Usable r) :
    (p.object r).isNull = false := by
  obtain ⟨i, hi, -, rfl⟩ := hr
  rw [h.isNull]
  exact decide_eq_false (fun heq => Nat.ne_of_gt hi (Ref.block.inj heq))

/-- The blocks behind the null block. -/
def others (n : Nat) : List Ref := (List.range' 1 (n - 1)).map Ref.block

theorem mem_others {n : Nat} : r ∈ others n ↔ ∃ i, 0 < i ∧ i < n ∧ r = .block i := by
  simp only [others, List.mem_map, List.mem_range'_1]
  constructor
  · rintro ⟨i, hi, rfl⟩
    exact ⟨i, by omega, by omega, rfl⟩
  · rintro ⟨i, h0, hn, rfl⟩
    exact ⟨i, by omega, rfl⟩

theorem nodup_map_block {is : List Nat} (h : is.Nodup) : (is.map Ref.block).Nodup :=
  h.map fun _ _ heq => Ref.block.inj heq

/-- A new pool: every block but the null block is free. -/
theorem init_good {n : Nat} (hn : 0 < n) (enableCaching : Bool) :
    ∃ p : BlockPool H, init n enableCaching = .ok p ∧ p.Good (others n) [] ∧ p.numGpuBlocks = n ∧
      p.enableCaching = enableCaching ∧ ∀ r, (p.object r).refCnt = 0 ∧
      (p.object r).blockHash = none := by
  have hblocks : (List.range n).map Ref.block = .block 0 :: others n := by
    obtain ⟨m, rfl⟩ : ∃ m, n = m + 1 := ⟨n - 1, by omega⟩
    rw [List.range_eq_range', List.range'_succ, List.map_cons]
    rfl
  have hunlinked : FreeKVCacheBlockQueue.Unlinked (newObjects (H := H)) := by
    intro r
    cases r <;> exact ⟨rfl, rfl⟩
  have hnew : FreeKVCacheBlockQueue.New [] ((List.range n).map Ref.block) := by
    refine ⟨nodup_map_block List.nodup_range, ?_⟩
    intro c hc
    obtain ⟨i, -, rfl⟩ := List.mem_map.1 hc
    simp
  obtain ⟨hrep, hblock, hhead, htail⟩ := FreeKVCacheBlockQueue.init_represents hunlinked hnew
  rw [hblocks] at hrep
  obtain ⟨queue, hpop, hrep', hinfo⟩ := FreeKVCacheBlockQueue.popleft_cons hrep
  have hobjects : ∀ r, queue.info r = newObjects (H := H) r := by
    intro r
    rw [hinfo, ← hblocks]
    cases r with
    | fakeFreeListHead => exact hhead
    | fakeFreeListTail => exact htail
    | block i => exact hblock i
  obtain ⟨p, hp⟩ : ∃ p : BlockPool H,
      p = (⟨n, enableCaching, queue, [], .block 0⟩ : BlockPool H).modify
      (.block 0) fun block => { block with isNull := true } := ⟨_, rfl⟩
  have hinit : init n enableCaching = .ok p := by
    rw [init, if_pos hn, hblocks]
    simp only [hpop, hp]
    rfl
  have hfields : ∀ r, (p.object r).blockId = (newObjects (H := H) r).blockId ∧
      (p.object r).refCnt = 0 ∧
      (p.object r).blockHash = none ∧ (p.object r).isNull = decide (r = .block 0) := by
    intro r
    have hr := hobjects r
    have hold : (queue.objects r).blockId = (newObjects (H := H) r).blockId ∧
        (queue.objects r).refCnt = 0 ∧ (queue.objects r).blockHash = none ∧
        (queue.objects r).isNull = false := by
      simp only [FreeKVCacheBlockQueue.info] at hr
      cases r <;>
      · simp only [newObjects, KVCacheBlock.mk.injEq] at hr ⊢
        exact ⟨hr.1, hr.2.1, hr.2.2.1, hr.2.2.2.2.2⟩
    rw [hp, modify_object]
    by_cases h0 : r = .block 0
    · rw [if_pos h0]
      subst h0
      exact ⟨hold.1, hold.2.1, hold.2.2.1, by simp⟩
    · rw [if_neg h0]
      refine ⟨hold.1, hold.2.1, hold.2.2.1, ?_⟩
      rw [decide_eq_false h0]
      exact hold.2.2.2
  have hcached : p.cachedBlockHashToBlock = [] := by rw [hp]; rfl
  have hnum : p.numGpuBlocks = n := by rw [hp]; rfl
  refine ⟨p, hinit, ?_, hnum, by rw [hp]; rfl, fun r => ⟨(hfields r).2.1, (hfields r).2.2.1⟩⟩
  constructor
  · rw [hp]
    exact modify_represents (fun b => ⟨rfl, rfl⟩) hrep'
  · intro i
    rw [(hfields _).1]
    rfl
  · intro r
    exact (hfields r).2.2.2
  · rw [hp]
    rfl
  · intro r
    rw [List.append_nil, mem_others, Usable, hnum]
    simp [(hfields r).2.1]
  · rw [List.append_nil]
    exact nodup_map_block List.nodup_range'
  · intro r
    exact Int.le_of_eq (hfields r).2.1.symm
  · rw [hcached]
    exact BlockHashToBlockMap.ok_nil
  · intro key r
    rw [hcached, (hfields r).2.2.1]
    simp [BlockHashToBlockMap.Holds]
  · intro _ r
    exact (hfields r).2.2.1

/-- The loop of `get_new_blocks` gives every block its first reference and takes it out of the
prefix cache. -/
theorem allocLoop_good {rs : List Ref} (h : p.Good free rs) :
    ∃ p', allocLoop p rs = .ok p' ∧ p'.Good free [] ∧ p.SameSettings p' ∧
      (∀ s, (p'.object s).refCnt = if s ∈ rs then 1 else (p.object s).refCnt) ∧
      ∀ s, (p'.object s).blockHash = if s ∈ rs then none else (p.object s).blockHash := by
  induction rs generalizing p with
  | nil => exact ⟨p, rfl, h, ⟨rfl, rfl, rfl⟩, by simp, by simp⟩
  | cons r rs ih =>
    obtain ⟨p₁, hp₁⟩ : ∃ p₁, p₁ = if p.enableCaching then (p.maybeEvictCachedBlock r).2 else p :=
      ⟨_, rfl⟩
    obtain ⟨hgood, hset, href, hhash⟩ : p₁.Good free (r :: rs) ∧ p.SameSettings p₁ ∧
        (∀ s, (p₁.object s).refCnt = (p.object s).refCnt) ∧
        ∀ s, (p₁.object s).blockHash = if s = r then none else (p.object s).blockHash := by
      rw [hp₁]
      by_cases hc : p.enableCaching = true
      · rw [if_pos hc]
        exact h.evict r
      · rw [if_neg hc]
        refine ⟨h, ⟨rfl, rfl, rfl⟩, fun _ => rfl, ?_⟩
        intro s
        have hoff := h.off (Bool.eq_false_iff.2 hc)
        rw [hoff s, ite_self]
    have hzero : (p₁.object r).refCnt = 0 := ((hgood.unused r).1 (by simp)).2
    have hr : r ∉ rs := (List.nodup_cons.1 (List.nodup_append.1 h.distinct).2.1).1
    obtain ⟨p', hloop, hgood', hset', href', hhash'⟩ := ih hgood.take
    refine ⟨p', ?_, hgood', hset.trans hset', ?_, ?_⟩
    · rw [allocLoop]
      simp only [← hp₁, if_pos hzero]
      exact hloop
    · intro s
      rw [href', addRef_refCnt, href, href]
      by_cases hsr : s = r
      · obtain rfl := hsr
        rw [if_neg hr, if_pos rfl, if_pos List.mem_cons_self, ← href, hzero]
        rfl
      · rw [if_neg hsr]
        simp [hsr]
    · intro s
      rw [hhash', addRef_fields.2.1, hhash]
      by_cases hsr : s = r
      · obtain rfl := hsr
        rw [if_pos rfl, if_pos List.mem_cons_self, ite_self]
      · rw [if_neg hsr]
        simp [hsr]

/-- `get_new_blocks` hands out the first free blocks: each had no reference and is in the prefix
cache no longer. -/
theorem getNewBlocks_good {n : Nat} (h : p.Good free []) (hn : n ≤ free.length) :
    ∃ p', p.getNewBlocks n = .ok (free.take n, p') ∧ p'.Good (free.drop n) [] ∧ p.SameSettings p' ∧
      (∀ s, (p'.object s).refCnt = if s ∈ free.take n then 1 else (p.object s).refCnt) ∧
      ∀ s, (p'.object s).blockHash = if s ∈ free.take n then none else (p.object s).blockHash := by
  have hnum : ¬ p.getNumFreeBlocks < (n : Int) := by
    rw [getNumFreeBlocks, h.represents.num]
    omega
  obtain ⟨queue, hpop, hrep, hinfo⟩ := FreeKVCacheBlockQueue.popleftN_le h.represents hn
  have hgood :
      ({ p with freeBlockQueue := queue } : BlockPool H).Good (free.drop n) (free.take n) := by
    refine h.moveQueue hinfo hrep ?_
    rw [List.append_nil]
    exact List.perm_append_comm.trans (by rw [List.take_append_drop])
  obtain ⟨p', hloop, hgood', hset, href, hhash⟩ := allocLoop_good hgood
  refine ⟨p', ?_, hgood', hset, ?_, ?_⟩
  · rw [getNewBlocks, if_neg hnum, hpop]
    simp only [bind, Except.bind, hloop, pure, Except.pure]
  · intro s
    rw [href, (object_of_info hinfo s).2.1]
  · intro s
    rw [hhash, (object_of_info hinfo s).2.2.1]

/-- `get_new_blocks` raises when there are not enough free blocks. -/
theorem getNewBlocks_gt {n : Nat} (h : p.Good free out) (hn : free.length < n) :
    p.getNewBlocks n = .error .valueError := by
  have hnum : p.getNumFreeBlocks < (n : Int) := by
    rw [getNumFreeBlocks, h.represents.num]
    omega
  rw [getNewBlocks, if_pos hnum]

/-- `touch` gives every block one more reference, and takes the free ones out of the queue. -/
theorem touch_good {rs : List Ref} (h : p.Good free []) (hU : ∀ r ∈ rs, p.Usable r) :
    ∃ p' free', p.touch rs = .ok p' ∧ p'.Good free' [] ∧ p.SameSettings p' ∧
      (∀ s, (p'.object s).refCnt = (p.object s).refCnt + rs.count s) ∧
      (∀ s, (p'.object s).blockHash = (p.object s).blockHash) ∧
      free.length ≤
        free'.length + (rs.filter fun r => decide ((p.object r).refCnt = 0)).length := by
  induction rs generalizing p free with
  | nil => exact ⟨p, free, rfl, h, ⟨rfl, rfl, rfl⟩, by simp, fun _ => rfl, by simp⟩
  | cons r rs ih =>
    have hr := hU r List.mem_cons_self
    have hnull := h.isNull_of_usable hr
    have hcount : ∀ p₁ : BlockPool H, (∀ s, (p₁.object s).refCnt = (p.object s).refCnt) → ∀ s,
        ((p₁.addRef r 1).object s).refCnt + (rs.count s : Int) =
          (p.object s).refCnt + ((r :: rs).count s : Int) := by
      intro p₁ hp₁ s
      rw [addRef_refCnt, List.count_cons, hp₁, hp₁]
      by_cases hsr : s = r
      · subst hsr
        simp only [if_true, beq_self_eq_true]
        omega
      · rw [if_neg hsr, if_neg (by simpa using Ne.symm hsr), Nat.add_zero]
    have hfilter : ∀ p₁ : BlockPool H, (∀ s, (p₁.object s).refCnt = (p.object s).refCnt) →
        (rs.filter fun s => decide (((p₁.addRef r 1).object s).refCnt = 0)).length ≤
          (rs.filter fun s => decide ((p.object s).refCnt = 0)).length := by
      intro p₁ hp₁
      apply List.Sublist.length_le
      apply List.monotone_filter_right
      intro s hs
      have hnn := h.nonneg r
      rw [decide_eq_true_iff] at hs ⊢
      rw [addRef_refCnt, hp₁, hp₁] at hs
      split at hs
      · omega
      · exact hs
    by_cases h0 : (p.object r).refCnt = 0
    · -- A free block leaves the queue and gets its first reference.
      have hmem : r ∈ free := by
        have hin := (h.unused r).2 ⟨hr, h0⟩
        rwa [List.append_nil] at hin
      obtain ⟨queue, hremove, hrep, hinfo⟩ := FreeKVCacheBlockQueue.remove_mem h.represents hmem
      have hmoved : ({ p with freeBlockQueue := queue } : BlockPool H).Good (free.erase r) [r] := by
        refine h.moveQueue hinfo hrep ?_
        rw [List.append_nil]
        exact List.perm_append_comm.trans (List.perm_cons_erase hmem).symm
      have hfields := object_of_info hinfo
      obtain ⟨p', free', htouch, hgood, hset, href, hhash, hlen⟩ := ih hmoved.take
        (fun s hs => hU s (List.mem_cons_of_mem r hs))
      refine ⟨p', free', ?_, hgood, hset, ?_, ?_, ?_⟩
      · rw [touch, if_pos ⟨h0, by rw [hnull]; decide⟩]
        simp only [hremove, bind, Except.bind]
        exact htouch
      · intro s
        rw [href]
        exact hcount _ (fun s => (hfields s).2.1) s
      · intro s
        rw [hhash, addRef_fields.2.1, (hfields s).2.2.1]
      · have hle := hfilter _ (fun s => (hfields s).2.1)
        have herase := List.length_erase_of_mem hmem
        have hpos := List.length_pos_of_mem hmem
        rw [List.filter_cons_of_pos (by simpa using h0), List.length_cons]
        omega
    · -- A block in use gets one more.
      have hpos : 0 < (p.object r).refCnt := by
        have hnn := h.nonneg r
        omega
      obtain ⟨p', free', htouch, hgood, hset, href, hhash, hlen⟩ :=
        ih (h.share (n := 1) hpos (by omega))
        (fun s hs => hU s (List.mem_cons_of_mem r hs))
      refine ⟨p', free', ?_, hgood, hset, ?_, ?_, ?_⟩
      · rw [touch, if_neg (fun hc => h0 hc.1)]
        exact htouch
      · intro s
        rw [href]
        exact hcount p (fun _ => rfl) s
      · intro s
        rw [hhash, addRef_fields.2.1]
      · have hle := hfilter p (fun _ => rfl)
        rw [List.filter_cons_of_neg (by simpa using h0)]
        omega

/-- The first loop of `free_blocks` takes a reference from every block. -/
theorem releaseAll_good {rs : List Ref} (h : p.Good free out) (hU : ∀ r ∈ rs, p.Usable r)
    (hpos : ∀ r ∈ rs, 0 < (p.object r).refCnt) (hnd : rs.Nodup) :
    (p.releaseAll rs).Good free (out ++ rs.filter fun r => decide ((p.object r).refCnt = 1)) ∧
      p.SameSettings (p.releaseAll rs) ∧
      (∀ s, ((p.releaseAll rs).object s).refCnt =
        if s ∈ rs then (p.object s).refCnt - 1 else (p.object s).refCnt) ∧
      ∀ s, ((p.releaseAll rs).object s).blockHash = (p.object s).blockHash := by
  induction rs generalizing p out with
  | nil =>
    refine ⟨?_, ⟨rfl, rfl, rfl⟩, by simp [releaseAll], fun _ => rfl⟩
    rw [List.filter_nil, List.append_nil]
    exact h
  | cons r rs ih =>
    obtain ⟨hr, hrest⟩ := List.nodup_cons.1 hnd
    have hposr := hpos r List.mem_cons_self
    have hother : ∀ s ∈ rs, ((p.addRef r (-1)).object s).refCnt = (p.object s).refCnt := by
      intro s hs
      rw [addRef_refCnt, if_neg (ne_of_mem_of_not_mem hs hr)]
    have hfilter : (rs.filter fun s => decide (((p.addRef r (-1)).object s).refCnt = 1)) =
        rs.filter fun s => decide ((p.object s).refCnt = 1) :=
      List.filter_congr fun s hs => by rw [hother s hs]
    obtain ⟨out₁, hout₁, hgood⟩ : ∃ out₁, out₁ = out ++ [r].filter (fun r =>
        decide ((p.object r).refCnt = 1)) ∧ (p.addRef r (-1)).Good free out₁ := by
      refine ⟨_, rfl, ?_⟩
      by_cases h1 : (p.object r).refCnt = 1
      · rw [List.filter_cons_of_pos (by simpa using h1), List.filter_nil]
        exact h.release (hU r List.mem_cons_self) h1
      · rw [List.filter_cons_of_neg (by simpa using h1), List.filter_nil, List.append_nil]
        exact h.share hposr (by omega)
    obtain ⟨hgood', hset, href, hhash⟩ := ih hgood
      (fun s hs => hU s (List.mem_cons_of_mem r hs))
      (fun s hs => by rw [hother s hs]; exact hpos s (List.mem_cons_of_mem r hs)) hrest
    refine ⟨?_, hset, ?_, ?_⟩
    · rw [hfilter, hout₁, List.append_assoc, ← List.filter_append] at hgood'
      exact hgood'
    · intro s
      show (((p.addRef r (-1)).releaseAll rs).object s).refCnt = _
      rw [href, addRef_refCnt]
      by_cases hsr : s = r
      · obtain rfl := hsr
        rw [if_neg hr, if_pos rfl, if_pos List.mem_cons_self]
        rfl
      · rw [if_neg hsr]
        simp [hsr]
    · intro s
      show (((p.addRef r (-1)).releaseAll rs).object s).blockHash = _
      rw [hhash, addRef_fields.2.1]

/-- `free_blocks` takes a reference from every block and puts those without another one at the
end of the queue, in the given order. -/
theorem freeBlocks_good {rs : List Ref} (h : p.Good free []) (hU : ∀ r ∈ rs, p.Usable r)
    (hpos : ∀ r ∈ rs, 0 < (p.object r).refCnt) (hnd : rs.Nodup) :
    ∃ p', p.freeBlocks rs = .ok p' ∧
      p'.Good (free ++ rs.filter fun r => decide ((p.object r).refCnt = 1)) [] ∧ p.SameSettings p' ∧
      (∀ s, (p'.object s).refCnt =
        if s ∈ rs then (p.object s).refCnt - 1 else (p.object s).refCnt) ∧
      ∀ s, (p'.object s).blockHash = (p.object s).blockHash := by
  obtain ⟨hgood, hset, href, hhash⟩ := releaseAll_good h hU hpos hnd
  rw [List.nil_append] at hgood
  have hback : (rs.filter fun r => decide (((p.releaseAll rs).object r).refCnt = 0) &&
      !((p.releaseAll rs).object r).isNull) =
        rs.filter fun r => decide ((p.object r).refCnt = 1) := by
    apply List.filter_congr
    intro r hr
    rw [hgood.isNull_of_usable (hset.usable.2 (hU r hr)), href, if_pos hr, Bool.not_false,
      Bool.and_true, decide_eq_decide]
    omega
  have hnew :
      FreeKVCacheBlockQueue.New free (rs.filter fun r => decide ((p.object r).refCnt = 1)) := by
    refine ⟨hnd.filter _, ?_⟩
    intro r hr
    have hne := usable_ne (hU r (List.mem_of_mem_filter hr))
    have hnot : r ∉ free := by
      intro hmem
      exact (List.nodup_append.1 hgood.distinct).2.2 r hmem r hr rfl
    simp [hne.1, hne.2, hnot]
  obtain ⟨queue, happend, hrep, hinfo⟩ :=
    FreeKVCacheBlockQueue.appendN_new hgood.represents hnew
  have hfields := object_of_info hinfo
  refine ⟨_, ?_, hgood.moveQueue hinfo hrep (by rw [List.append_nil]), hset, ?_, ?_⟩
  · rw [freeBlocks, hback, happend]
    rfl
  · intro s
    rw [(hfields s).2.1, href]
  · intro s
    rw [(hfields s).2.2.1, hhash]

/-- The loop of `cache_full_blocks` gives every block its hash and caches it. -/
theorem cacheLoop_good {pairs : List (Ref × H)} {groupId : Nat} (h : p.Good free out)
    (hon : p.enableCaching = true) (hU : ∀ e ∈ pairs, p.Usable e.1)
    (hnone : ∀ e ∈ pairs, (p.object e.1).blockHash = none) (hnd : (pairs.map Prod.fst).Nodup) :
    ∃ p', cacheLoop groupId p pairs = .ok p' ∧ p'.Good free out ∧ p.SameSettings p' ∧
      (∀ s, (p'.object s).refCnt = (p.object s).refCnt) ∧
      (∀ e ∈ pairs, (p'.object e.1).blockHash = some (e.2, groupId)) ∧
      ∀ s, s ∉ pairs.map Prod.fst → (p'.object s).blockHash = (p.object s).blockHash := by
  induction pairs generalizing p with
  | nil => exact ⟨p, rfl, h, ⟨rfl, rfl, rfl⟩, fun _ => rfl, by simp, fun _ _ => rfl⟩
  | cons e pairs ih =>
    obtain ⟨r, hash⟩ := e
    have hr : p.Usable r := hU _ List.mem_cons_self
    have hrnone : (p.object r).blockHash = none := hnone _ List.mem_cons_self
    obtain ⟨hnot, hrest⟩ := List.nodup_cons.1 hnd
    obtain ⟨p₁, hsethash, hgood, hset, href, hhash⟩ :=
      @Good.cacheBlock _ _ _ _ _ _ (hash, groupId) h hr hrnone hon
    obtain ⟨p₂, hp₂⟩ : ∃ p₂ : BlockPool H, p₂ = { p₁ with
        cachedBlockHashToBlock :=
          p₁.cachedBlockHashToBlock.insert (fun r => (p₁.object r).blockId) (hash, groupId) r } :=
      ⟨_, rfl⟩
    rw [← hp₂] at hgood
    have hobject : ∀ s, p₂.object s = p₁.object s := by
      intro s
      rw [hp₂]
      rfl
    have hset₂ : p.SameSettings p₂ := by
      rw [hp₂]
      exact hset
    obtain ⟨p', hloop, hgood', hset', href', hin, hout⟩ := ih hgood
      (by rw [hset₂.2.1, hon])
      (fun e he => hset₂.usable.2 (hU e (List.mem_cons_of_mem _ he)))
      (fun e he => by
        have hne : e.1 ≠ r := ne_of_mem_of_not_mem (List.mem_map_of_mem he) hnot
        rw [hobject, hhash, if_neg hne]
        exact hnone e (List.mem_cons_of_mem _ he))
      hrest
    refine ⟨p', ?_, hgood', hset₂.trans hset', ?_, ?_, ?_⟩
    · rw [cacheLoop, if_neg (by rw [h.isNull_of_usable hr]; decide), if_pos hrnone]
      simp only [hsethash, bind, Except.bind]
      rw [← hp₂]
      exact hloop
    · intro s
      rw [href', hobject, href]
    · intro e he
      rcases List.mem_cons.1 he with rfl | he
      · rw [hout _ hnot, hobject, hhash, if_pos rfl]
      · exact hin e he
    · intro s hs
      rw [List.map_cons, List.mem_cons, not_or] at hs
      rw [hout s hs.2, hobject, hhash, if_neg hs.1]

/-- `evict_blocks` takes the blocks out of the prefix cache. -/
theorem evictBlocks_good {ids : List Nat} (h : p.Good free out)
    (hids : ∀ i ∈ ids, i < p.numGpuBlocks) :
    ∃ p', p.evictBlocks ids = .ok p' ∧ p'.Good free out ∧ p.SameSettings p' ∧
      (∀ s, (p'.object s).refCnt = (p.object s).refCnt) ∧
      ∀ s, (p'.object s).blockHash = (p.object s).blockHash ∨ (p'.object s).blockHash = none := by
  induction ids generalizing p with
  | nil => exact ⟨p, rfl, h, ⟨rfl, rfl, rfl⟩, fun _ => rfl, fun _ => .inl rfl⟩
  | cons i ids ih =>
    obtain ⟨hgood, hset, href, hhash⟩ := h.evict (.block i)
    obtain ⟨p', hloop, hgood', hset', href', hhash'⟩ := ih hgood
      (fun j hj => hset.1.symm ▸ hids j (List.mem_cons_of_mem i hj))
    refine ⟨p', ?_, hgood', hset.trans hset', ?_, ?_⟩
    · rw [evictBlocks, if_pos (hids i List.mem_cons_self)]
      exact hloop
    · intro s
      rw [href', href]
    · intro s
      rcases hhash' s with hs | hs
      · rw [hs, hhash]
        split
        · exact .inr rfl
        · exact .inl rfl
      · exact .inr hs

omit [DecidableEq H] in
theorem foldl_resetHash {rs : List Ref} :
    p.SameSettings (rs.foldl (fun p r => p.resetHash r) p) ∧
      (rs.foldl (fun p r => p.resetHash r) p).cachedBlockHashToBlock = p.cachedBlockHashToBlock ∧
      (p.freeBlockQueue.Represents free →
        (rs.foldl (fun p r => p.resetHash r) p).freeBlockQueue.Represents free) ∧
      ∀ s, ((rs.foldl (fun p r => p.resetHash r) p).object s).blockId = (p.object s).blockId ∧
        ((rs.foldl (fun p r => p.resetHash r) p).object s).refCnt = (p.object s).refCnt ∧
        ((rs.foldl (fun p r => p.resetHash r) p).object s).isNull = (p.object s).isNull ∧
        ((rs.foldl (fun p r => p.resetHash r) p).object s).blockHash =
          if s ∈ rs then none else (p.object s).blockHash := by
  induction rs generalizing p with
  | nil => exact ⟨⟨rfl, rfl, rfl⟩, rfl, fun h => h, fun s => ⟨rfl, rfl, rfl, by simp⟩⟩
  | cons r rs ih =>
    obtain ⟨hset, hcache, hrep, hfields⟩ := ih (p := p.resetHash r)
    have hobject : ∀ s, (p.resetHash r).object s =
        if s = r then { p.object r with blockHash := none } else p.object s := by
      intro s
      rw [resetHash, modify_object]
    refine ⟨hset, hcache, fun h => hrep (modify_represents (fun b => ⟨rfl, rfl⟩) h), ?_⟩
    intro s
    obtain ⟨hid, href, hnull, hhash⟩ := hfields s
    rw [List.foldl_cons, hid, href, hnull, hhash, hobject]
    by_cases hs : s = r
    · rw [if_pos hs, hs]
      simp
    · rw [if_neg hs]
      simp [hs]

/-- `reset_prefix_cache` succeeds when only the null block is in use, and then no block has a
hash. -/
theorem resetPrefixCache_good (h : p.Good free []) :
    (p.resetPrefixCache.1 = true ↔ free.length + 1 = p.numGpuBlocks) ∧
      (p.resetPrefixCache.1 = false → p.resetPrefixCache.2 = p) ∧
      p.resetPrefixCache.2.Good free [] ∧ p.SameSettings p.resetPrefixCache.2 ∧
      (∀ s, (p.resetPrefixCache.2.object s).refCnt = (p.object s).refCnt) ∧
      (∀ s, (p.resetPrefixCache.2.object s).blockHash = (p.object s).blockHash ∨
        (p.resetPrefixCache.2.object s).blockHash = none) ∧
      (p.resetPrefixCache.1 = true → ∀ s, (p.resetPrefixCache.2.object s).blockHash = none) := by
  have hnum : p.getNumFreeBlocks = free.length := h.represents.num
  by_cases hfull : free.length + 1 = p.numGpuBlocks
  · have hone : ¬ (p.numGpuBlocks : Int) - p.getNumFreeBlocks ≠ 1 := by
      rw [hnum]
      omega
    obtain ⟨p', hp'⟩ : ∃ p', p' = p.blocks.foldl (fun p r => p.resetHash r)
        ({ p with cachedBlockHashToBlock := [] } : BlockPool H) := ⟨_, rfl⟩
    have heq : p.resetPrefixCache = (true, p') := by
      rw [resetPrefixCache, if_neg hone, hp']
      rfl
    obtain ⟨hset, hcache, hrep, hfields⟩ := @foldl_resetHash _
      ({ p with cachedBlockHashToBlock := [] } : BlockPool H) free p.blocks
    rw [← hp'] at hset hcache hrep hfields
    have hnone : ∀ s, (p'.object s).blockHash = none := by
      intro s
      rw [(hfields s).2.2.2]
      split
      · rfl
      · next hs =>
        cases hhash : (p.object s).blockHash with
        | none => exact hhash
        | some key =>
          obtain ⟨i, -, hi, rfl⟩ := h.usable_of_hash hhash
          exact absurd (List.mem_map_of_mem (List.mem_range.2 hi)) hs
    rw [heq]
    refine ⟨by simp [hfull], (by simp), ?_, hset, fun s => (hfields s).2.1, fun s => .inr (hnone s),
      fun _ => hnone⟩
    refine h.of_hashes hset (fun s => ⟨(hfields s).1, (hfields s).2.1, (hfields s).2.2.1⟩)
      (hrep h.represents) ?_ ?_ (fun _ => hnone)
    · rw [hcache]
      exact BlockHashToBlockMap.ok_nil
    · intro key s
      rw [hcache, hnone]
      simp [BlockHashToBlockMap.Holds]
  · have hone : (p.numGpuBlocks : Int) - p.getNumFreeBlocks ≠ 1 := by
      rw [hnum]
      omega
    have heq : p.resetPrefixCache = (false, p) := by
      rw [resetPrefixCache, if_pos hone]
    rw [heq]
    exact ⟨by simp [hfull], fun _ => rfl, h, ⟨rfl, rfl, rfl⟩, fun _ => rfl, fun _ => .inl rfl,
      (by simp)⟩

end BlockPool

end AiPipelines.KvCache

import AiPipelines.KvCache.Memory

/-!
# What holds in every run of the scheduler

The results for a scheduler that starts with an empty cache and gets any calls in
any order.

The hash function has no collision among the inputs that it gets in the run.

* `run_accounts`: nothing is raised, the reference counts are the numbers of
  holders, and the free queue is what no request holds.
* `shared_prefix`: requests share a block only for the same tokens.
* `slots_apart`: the tokens of a step get slots of their own.
* `schedule_progress`: a request that fits into the cache runs once the others
  are gone.
* `reset_clears`, `common_prefix`: the results of two calls.
* `serves_kv`: the memory holds what each request alone would compute.
-/

namespace AiPipelines.KvCache

open PyStd

namespace Scheduler

variable {H : Type} [DecidableEq H]

/-- Two requests with a common first block, in one step. -/
def twoRequests : List (Action Digest) :=
  [.addRequest { requestId := "a", allTokenIds := [1, 2, 3] },
    .addRequest { requestId := "b", allTokenIds := [1, 2, 4, 5] },
    .scheduleWaiting "a" 3, .updateAfterSchedule, .appendOutput "a" [6], .scheduleWaiting "b" 2,
    .scheduleRunning "a" 1]

variable {hasher : Hasher H} {numGpuBlocks maxModelLen : Nat}
  {enableCaching useEagle reserveFullIsl : Bool}
  {numLookaheadTokens : Nat} {s₀ s : Scheduler H} {actions : List (Action H)} {es : List Event}
  {free : List Ref}

/-- Two requests share a block only at one position, for the same tokens up to the end of the
block, and when neither has multi-modal items, under the same adapter and cache salt. -/
theorem shared_prefix (hl : hasher.LosslessOn (· ∈ s₀.runHashInputs actions))
    (hb : 0 < hasher.blockSize)
    (hinit : init hasher numGpuBlocks maxModelLen enableCaching useEagle reserveFullIsl
      numLookaheadTokens = .ok s₀)
    (hrun : Transition.run step s₀ actions = some (s, es)) {id id' : String} {r r' : Request H}
    {bs bs' : List Ref} {i j : Nat} {b : Ref} (hne : id ≠ id') (hr : s.requests.get? id = some r)
    (hr' : s.requests.get? id' = some r') (hbs : s.manager.reqToBlocks.get? id = some bs)
    (hbs' : s.manager.reqToBlocks.get? id' = some bs') (hi : bs[i]? = some b)
    (hj : bs'[j]? = some b) :
    i = j ∧ r.allTokenIds.take ((i + 1) * hasher.blockSize) =
        r'.allTokenIds.take ((i + 1) * hasher.blockSize) ∧
      (i + 1) * hasher.blockSize ≤ r.numTokens ∧
      (r.mmFeatures = [] → r'.mmFeatures = [] →
        ∀ k ≤ i, r.textKeys (k * hasher.blockSize) = r'.textKeys (k * hasher.blockSize)) := by
  obtain ⟨⟨free, h⟩, -⟩ := calls_sound hl hb (init_sound hinit) (fun _ hy => hy) hrun
  obtain ⟨rfl, v, hv, hv'⟩ := h.good.shared id id' bs bs' i j b hne hbs hbs' hi hj
  rw [hashes_of_get hr] at hv
  rw [hashes_of_get hr'] at hv'
  have hh := h.hashed id r hr
  have hh' := h.hashed id' r' hr'
  unfold Hashes at hh hh'
  split at hh
  · next hon =>
    rw [if_pos hon] at hh'
    obtain ⟨xs, hxs⟩ := hh
    obtain ⟨ys, hys⟩ := hh'
    obtain ⟨-, hinputs, htokens⟩ := Request.Hashed.prefix_eq hl hxs hys hv hv'
    have hlen : i < xs.length := by
      rw [hxs.hashes] at hv
      rw [← Hasher.length_hashPrefixes (h := hasher)]
      exact (List.getElem?_eq_some_iff.1 hv).1
    refine ⟨rfl, htokens, hxs.block_le hlen, ?_⟩
    intro hmm hmm' k hk
    exact hxs.prefix_keys hys hmm hmm' hinputs hlen hk
  · rw [hh] at hv
    simp at hv

theorem shared_prefix_demo : ∃ s₀ s : Scheduler Digest, ∃ es r r',
    Transition.run step s₀ twoRequests = some (s, es) ∧ s.requests.get? "a" = some r ∧
      s.requests.get? "b" = some r' ∧ r.allTokenIds.take 2 = r'.allTokenIds.take 2 := by
  have hdata : ∃ s₀ s : Scheduler Digest, ∃ es r r',
      init (symbolicHasher 2) 6 16 true false false 0 = .ok s₀ ∧
        Transition.run step s₀ twoRequests = some (s, es) ∧ s.requests.get? "a" = some r ∧
        s.requests.get? "b" = some r' ∧
        s.manager.reqToBlocks = [("a", [.block 1, .block 2]), ("b", [.block 1, .block 3])] :=
    ⟨_, _, _, _, _, rfl, rfl, rfl, rfl, by decide⟩
  obtain ⟨s₀, s, es, r, r', hinit, hrun, hr, hr', hblocks⟩ := hdata
  have hget : s.manager.reqToBlocks.get? "a" = some [.block 1, .block 2] := by rw [hblocks]; decide
  have hget' : s.manager.reqToBlocks.get? "b" = some [.block 1, .block 3] := by rw [hblocks]; decide
  obtain ⟨-, htokens, -⟩ := shared_prefix (i := 0) (j := 0) (b := .block 1)
    (symbolicHasher_lossless 2 _) (by decide) hinit hrun (by decide) hr hr' hget hget' rfl rfl
  exact ⟨s₀, s, es, r, r', hrun, hr, hr', htokens⟩

/-- What one request holds is not free, and the rest is. -/
theorem Inv.length_free {seen : HashInput H → Prop} (h : s.Inv hasher seen free) {id : String}
    (halone : ∀ id', id ≠ id' → s.manager.reqBlocks id' = []) :
    free.length + (s.manager.reqBlocks id).length + 1 = s.manager.blockPool.numGpuBlocks := by
  have hnd : (s.manager.reqBlocks id).Nodup := by
    cases hentry : s.manager.reqToBlocks.get? id with
    | none => simp [KVCacheManager.reqBlocks, hentry]
    | some bs =>
      rw [KVCacheManager.reqBlocks_of_get hentry]
      exact h.good.distinct id bs hentry
  have hperm : (free ++ s.manager.reqBlocks id).Perm
      (BlockPool.others s.manager.blockPool.numGpuBlocks) := by
    refine (List.perm_ext_iff_of_nodup ?_ (BlockPool.nodup_map_block List.nodup_range')).2 ?_
    · rw [List.nodup_append]
      refine ⟨h.good.pool.nodup_free, hnd, ?_⟩
      intro a ha b hb heq
      have hpos := KVCacheManager.holders_pos (KVCacheManager.get_of_mem_reqBlocks hb) hb
      have hnone := (h.good.free_iff.1 ha).2
      rw [heq] at hnone
      omega
    · intro b
      rw [List.mem_append, h.good.free_iff]
      refine Iff.trans ?_ BlockPool.mem_others.symm
      constructor
      · rintro (⟨hU, -⟩ | hb)
        · exact hU
        · exact h.good.usable id _ (KVCacheManager.get_of_mem_reqBlocks hb) b hb
      · intro hU
        by_cases hb : b ∈ s.manager.reqBlocks id
        · exact .inr hb
        · refine .inl ⟨hU, ?_⟩
          rw [KVCacheManager.holders, List.countP_eq_zero]
          intro e he
          have hget := KVCacheManager.reqBlocks_of_get (Dict.get?_of_mem h.good.keys he)
          rw [decide_eq_true_iff, ← hget]
          by_cases hid : id = e.1
          · rw [← hid]
            exact hb
          · rw [halone e.1 hid]
            exact List.not_mem_nil
  have hlen := hperm.length_eq
  rw [List.length_append, KVCacheManager.length_others] at hlen
  have hpos := h.blocks
  omega

/-- Scheduling a running request fails exactly when it needs more new blocks than there are free
ones, and then changes nothing; it succeeds whenever there are enough.  When no other request holds
a block, there are enough as soon as the request fits into the cache. -/
theorem schedule_progress (hl : hasher.LosslessOn (· ∈ s₀.runHashInputs actions))
    (hb : 0 < hasher.blockSize)
    (hinit : init hasher numGpuBlocks maxModelLen enableCaching useEagle reserveFullIsl
      numLookaheadTokens = .ok s₀)
    (hrun : Transition.run step s₀ actions = some (s, es)) {id : String} {r : Request H} {n : Nat}
    (hget : s.requests.get? id = some r) (hstatus : r.status = .running)
    (hfirst : s.numScheduledTokens.get? id = none) (hn : 0 < n) :
    (s.step (.scheduleRunning id n) = some (s, [.notScheduled id]) ↔
      s.manager.blockPool.getNumFreeBlocks <
        (cdiv (s.manager.tokensNeedSlot r n 0 s.numLookaheadTokens) s.manager.blockSize -
          (s.manager.reqBlocks id).length : Nat)) ∧
    ((cdiv (s.manager.tokensNeedSlot r n 0 s.numLookaheadTokens) s.manager.blockSize -
          (s.manager.reqBlocks id).length : Nat) ≤ s.manager.blockPool.getNumFreeBlocks →
      ∃ s' news, s.step (.scheduleRunning id n) = some (s', [.scheduled id [] news])) ∧
    ((∀ id', id ≠ id' → s.manager.reqBlocks id' = []) →
      cdiv (s.manager.tokensNeedSlot r n 0 s.numLookaheadTokens) s.manager.blockSize <
        s.manager.blockPool.numGpuBlocks →
      ∃ s' news, s.step (.scheduleRunning id n) = some (s', [.scheduled id [] news])) := by
  obtain ⟨⟨free, h⟩, hplan⟩ := calls_sound hl hb (init_sound hinit) (fun _ hy => hy) hrun
  have hid := h.ids id r hget
  have hneeded : s.needed r n 0 [] s.numLookaheadTokens =
      cdiv (s.manager.tokensNeedSlot r n 0 s.numLookaheadTokens) s.manager.blockSize -
        (s.manager.reqBlocks id).length := by
    rw [needed, KVCacheManager.neededBlocks, hid, List.length_nil, Nat.zero_add,
      KVCacheManager.getNumEvictableBlocks, List.countP_nil, Nat.add_zero]
  have hfree : s.manager.blockPool.getNumFreeBlocks = free.length := h.good.pool.represents.num
  have hstep : s.step (.scheduleRunning id n) =
      settle s ((s.scheduleRunning r n).map fun r => (r.1, [r.2])) := by
    have hall : r.status = .running ∧ 0 < n ∧ (s.numScheduledTokens.get? id).isNone := by
      rw [hfirst]
      exact ⟨hstatus, hn, rfl⟩
    simp only [step, hget]
    exact if_pos hall
  rw [hstep, hfree, ← hneeded]
  rcases scheduleRunning_inv hl hb h hplan hget hstatus hfirst hn with
    ⟨hlack, hnone⟩ | ⟨hroom, s', news, free', hsome, -⟩
  · rw [hnone]
    refine ⟨⟨fun _ => by omega, fun _ => rfl⟩, fun henough => by omega, ?_⟩
    intro halone hfits
    have hlen := h.length_free halone
    omega
  · rw [hsome]
    refine ⟨⟨?_, fun hlack => by omega⟩, fun _ => ⟨s', news, rfl⟩, fun _ _ => ⟨s', news, rfl⟩⟩
    intro heq
    obtain ⟨-, hevents⟩ := settle_ok heq
    cases hevents

theorem schedule_progress_demo : ∃ s₀ s : Scheduler Digest, ∃ es,
    Transition.run step s₀ twoRequests.dropLast = some (s, es) ∧
      s.step (.scheduleRunning "a" 1) ≠ some (s, [.notScheduled "a"]) := by
  have hdata : ∃ s₀ s : Scheduler Digest, ∃ es r,
      init (symbolicHasher 2) 6 16 true false false 0 = .ok s₀ ∧
        Transition.run step s₀ twoRequests.dropLast = some (s, es) ∧ s.requests.get? "a" = some r ∧
        r.status = .running ∧ s.numScheduledTokens.get? "a" = none ∧
        ¬ s.manager.blockPool.getNumFreeBlocks <
          (cdiv (s.manager.tokensNeedSlot r 1 0 s.numLookaheadTokens) s.manager.blockSize -
            (s.manager.reqBlocks "a").length : Nat) :=
    ⟨_, _, _, _, rfl, rfl, rfl, rfl, rfl, by decide⟩
  obtain ⟨s₀, s, es, r, hinit, hrun, hr, hstatus, hfirst, henough⟩ := hdata
  refine ⟨s₀, s, es, hrun, ?_⟩
  rw [Ne, (schedule_progress (symbolicHasher_lossless 2 _) (by decide) hinit hrun hr hstatus hfirst
    (by decide)).1]
  exact henough

/-- `reset_prefix_cache` of the running requests always succeeds; without that it succeeds exactly
when no request holds a block, and otherwise changes nothing.  After it no block is cached, and no
hash is found. -/
theorem reset_clears (hl : hasher.LosslessOn (· ∈ s₀.runHashInputs actions))
    (hb : 0 < hasher.blockSize)
    (hinit : init hasher numGpuBlocks maxModelLen enableCaching useEagle reserveFullIsl
      numLookaheadTokens = .ok s₀)
    (hrun : Transition.run step s₀ actions = some (s, es)) (hnil : s.numScheduledTokens = [])
    (resetRunning : Bool) :
    ∃ s' success, s.step (.reset resetRunning) = some (s', [.resetDone success]) ∧
      (resetRunning = true → success = true ∧ s'.running = [] ∧
        ∀ id, s'.manager.reqToBlocks.get? id = none) ∧
      (resetRunning = false →
        (success = true ↔ ∀ id bs, s.manager.reqToBlocks.get? id = some bs → bs = []) ∧
        (success = false → s' = s)) ∧
      (success = true → (∀ b, (s'.manager.blockPool.object b).blockHash = none) ∧
        ∀ v, s'.manager.blockPool.getCachedBlock v [0] = none) := by
  obtain ⟨⟨free, h⟩, hplan⟩ := calls_sound hl hb (init_sound hinit) (fun _ hy => hy) hrun
  obtain ⟨s', success, free', hreset, hinv, -, hforced, hplain, hclear, -⟩ :=
    resetPrefixCache_inv h hplan hnil resetRunning
  refine ⟨s', success, ?_, ?_, hplain, fun hdone => ⟨hclear hdone, ?_⟩⟩
  · simp only [step, if_pos hnil, hreset]
    rfl
  · intro hreq
    obtain ⟨hsuccess, hnone⟩ := hforced hreq
    refine ⟨hsuccess, hnone, ?_⟩
    intro id
    rw [← Option.not_isSome_iff_eq_none]
    intro hsome
    have hmem := hinv.holding id hsome
    rw [hnone] at hmem
    cases hmem
  · intro v
    rw [KVCacheManager.getCachedBlock_single, Option.map_eq_none_iff]
    cases hone : s'.manager.blockPool.cachedBlockHashToBlock.getOneBlock (v, 0) with
    | none => rfl
    | some b =>
      have hhash := (hinv.good.pool.hashed (v, 0) b).1 (BlockHashToBlockMap.getOneBlock_holds hone)
      rw [hclear hdone] at hhash
      cases hhash

theorem reset_clears_demo : ∃ s₀ s s' : Scheduler Digest, ∃ es,
    Transition.run step s₀ (twoRequests ++ [.updateAfterSchedule]) = some (s, es) ∧
      s.step (.reset true) = some (s', [.resetDone true]) ∧
      (s'.manager.blockPool.object (.block 1)).blockHash = none := by
  have hdata : ∃ s₀ s : Scheduler Digest, ∃ es,
      init (symbolicHasher 2) 6 16 true false false 0 = .ok s₀ ∧
        Transition.run step s₀ (twoRequests ++ [.updateAfterSchedule]) = some (s, es) ∧
        s.numScheduledTokens = [] :=
    ⟨_, _, _, rfl, rfl, rfl⟩
  obtain ⟨s₀, s, es, hinit, hrun, hnil⟩ := hdata
  obtain ⟨s', success, hstep, hforced, -, hclear⟩ :=
    reset_clears (symbolicHasher_lossless 2 _) (by decide) hinit hrun hnil true
  obtain ⟨rfl, -, -⟩ := hforced rfl
  exact ⟨s₀, s, s', es, hrun, hstep, (hclear rfl).1 (.block 1)⟩

/-- The common prefix blocks of a running request are the longest front that all requests with
blocks share, and their tokens are the same. -/
theorem common_prefix (hl : hasher.LosslessOn (· ∈ s₀.runHashInputs actions))
    (hb : 0 < hasher.blockSize)
    (hinit : init hasher numGpuBlocks maxModelLen enableCaching useEagle reserveFullIsl
      numLookaheadTokens = .ok s₀)
    (hrun : Transition.run step s₀ actions = some (s, es)) {id : String} {bs : List Ref}
    (hon : s.manager.blockPool.enableCaching = true)
    (hget : s.manager.reqToBlocks.get? id = some bs) :
    ∃ n, s.manager.getNumCommonPrefixBlocks id = (n, s.manager) ∧ n ≤ bs.length ∧
      (∀ id' bs', s.manager.reqToBlocks.get? id' = some bs' → bs'.take n = bs.take n) ∧
      (∀ b, bs[n]? = some b → ∃ id' bs', s.manager.reqToBlocks.get? id' = some bs' ∧ b ∉ bs') ∧
      ∀ id' r r', s.requests.get? id = some r → s.requests.get? id' = some r' →
        (s.manager.reqToBlocks.get? id').isSome →
          r.allTokenIds.take (n * hasher.blockSize) =
            r'.allTokenIds.take (n * hasher.blockSize) := by
  obtain ⟨⟨free, h⟩, hplan⟩ := calls_sound hl hb (init_sound hinit) (fun _ hy => hy) hrun
  obtain ⟨n, heq, hn, hsame, hmax⟩ := KVCacheManager.getNumCommonPrefixBlocks_good h.good hon hget
  refine ⟨n, heq, hn, hsame, hmax, ?_⟩
  intro id' r r' hr hr' hsome
  by_cases hid : id = id'
  · subst hid
    rw [hr, Option.some.injEq] at hr'
    rw [hr']
  · cases n with
    | zero => simp
    | succ i =>
      -- The last common block stands at one position of both requests.
      obtain ⟨bs', hbs'⟩ := Option.isSome_iff_exists.1 hsome
      obtain ⟨b, hb'⟩ : ∃ b, bs[i]? = some b := ⟨_, List.getElem?_eq_getElem hn⟩
      have hi : bs'[i]? = some b := by
        have hfront := congrArg (fun l : List Ref => l[i]?) (hsame id' bs' hbs')
        simp only [List.getElem?_take, if_pos (Nat.lt_succ_self i)] at hfront
        rw [hfront, hb']
      obtain ⟨-, v, hv, hv'⟩ := h.good.shared id id' bs bs' i i b hid hget hbs' hb' hi
      rw [hashes_of_get hr] at hv
      rw [hashes_of_get hr'] at hv'
      have hh := h.hashed id r hr
      have hh' := h.hashed id' r' hr'
      rw [Hashes, if_pos hon] at hh hh'
      obtain ⟨xs, hxs⟩ := hh
      obtain ⟨ys, hys⟩ := hh'
      exact (Request.Hashed.prefix_eq hl hxs hys hv hv').2.2

theorem common_prefix_demo : ∃ s₀ s : Scheduler Digest, ∃ es n,
    Transition.run step s₀ twoRequests = some (s, es) ∧
      s.manager.getNumCommonPrefixBlocks "a" = (n, s.manager) ∧
      ∀ id' bs', s.manager.reqToBlocks.get? id' = some bs' →
      bs'.take n = [Ref.block 1, .block 2].take n := by
  have hdata : ∃ s₀ s : Scheduler Digest, ∃ es,
      init (symbolicHasher 2) 6 16 true false false 0 = .ok s₀ ∧
        Transition.run step s₀ twoRequests = some (s, es) ∧
        s.manager.blockPool.enableCaching = true ∧
        s.manager.reqToBlocks.get? "a" = some [.block 1, .block 2] :=
    ⟨_, _, _, rfl, rfl, rfl, by decide⟩
  obtain ⟨s₀, s, es, hinit, hrun, hon, hget⟩ := hdata
  obtain ⟨n, heq, -, hsame, -⟩ :=
    common_prefix (symbolicHasher_lossless 2 _) (by decide) hinit hrun hon hget
  exact ⟨s₀, s, es, n, hrun, heq, hsame⟩

/-! ## The memory -/

variable {V : Type} {attend : Option String → List V → Int → V} {adapters : String → Prop}
  {draft₀ : String → Nat → Int} {mem₀ : Int → V}

omit [DecidableEq H] in
theorem fits_of_forall (h : ∀ e ∈ s.numScheduledTokens, ∀ r, s.requests.get? e.1 = some r →
    r.numComputedTokens + e.2 ≤ s.manager.maxModelLen) : s.Fits := by
  rintro id p ⟨r, n, hget, hn, -, hp⟩
  have hle := h (id, n) (Dict.mem_of_get? hn) r hget
  exact Nat.lt_of_lt_of_le hp hle

/-- Between two steps the slots of a request hold, for each computed token, the value that the
request alone would compute, whatever blocks it shares and whatever was in the memory before. -/
theorem serves_kv {seen : HashInput H → Prop} (hl : hasher.LosslessOn seen)
    (hb : 0 < hasher.blockSize)
    (hinit : init hasher numGpuBlocks maxModelLen enableCaching useEagle reserveFullIsl
      numLookaheadTokens = .ok s₀) {t : Serving H V}
    (hrun : Relation.ReflTransGen (Serves attend seen adapters) ⟨s₀, draft₀, mem₀⟩ t)
    (hnil : t.scheduler.numScheduledTokens = []) {id : String} {r : Request H} {p : Nat}
    (hget : t.scheduler.requests.get? id = some r) (hp : p < r.numComputedTokens)
    (hown : p < r.numTokens) (hlen : p < t.scheduler.manager.maxModelLen) :
    ∃ x, t.scheduler.slotId id p = some x ∧ t.memory x = r.kv attend p := by
  have hstart : Serving.Good attend hasher seen adapters ⟨s₀, draft₀, mem₀⟩ := init_good hinit
  obtain ⟨-, hcoherent, -⟩ := run_good hl hb hstart hrun
  obtain ⟨x, hx, hold⟩ := hcoherent.computed id r p hget hp hlen
  refine ⟨x, hx, ?_⟩
  rw [kv_own hget hown] at hold
  rcases hold with hmem | ⟨id', p', ⟨r', n, -, hn, -⟩, -⟩
  · exact hmem
  · rw [hnil] at hn
    cases hn

theorem serves_kv_demo : ∃ t : Serving Digest (List Int), ∃ r x,
    t.scheduler.requests.get? "b" = some r ∧ r.allTokenIds = [1, 2, 4, 5] ∧
      t.scheduler.slotId "b" 0 = some x ∧
      t.memory x = r.kv (fun _ values token => token :: values.flatten) 0 := by
  obtain ⟨attend, hattend⟩ : ∃ attend : Option String → List (List Int) → Int → List Int,
    attend = fun _ values token => token :: values.flatten := ⟨_, rfl⟩
  have hruns : ∃ s₀ s₁ s₂ s₃ s₄ s₅ s₆ : Scheduler Digest, ∃ es₂ es₅ r₂ r₅ r₆,
      init (symbolicHasher 2) 6 16 true false false 0 = .ok s₀ ∧
      s₀.step (.addRequest { requestId := "a", allTokenIds := [1, 2, 3] }) = some (s₁, []) ∧
      s₁.step (.scheduleWaiting "a" 3) = some (s₂, es₂) ∧
      s₂.step .updateAfterSchedule = some (s₃, []) ∧
      s₃.step (.addRequest { requestId := "b", allTokenIds := [1, 2, 4, 5] }) = some (s₄, []) ∧
      s₄.step (.scheduleWaiting "b" 2) = some (s₅, es₅) ∧
      s₅.step .updateAfterSchedule = some (s₆, []) ∧
      (s₁.numScheduledTokens = [] ∧ s₄.numScheduledTokens = [] ∧ s₆.numScheduledTokens = []) ∧
      (s₂.numScheduledTokens = [("a", 3)] ∧ s₂.requests.get? "a" = some r₂ ∧
        r₂.numComputedTokens = 0 ∧
        s₂.manager.maxModelLen = 16) ∧
      (s₅.numScheduledTokens = [("b", 2)] ∧ s₅.requests.get? "b" = some r₅ ∧
        r₅.numComputedTokens = 2 ∧
        s₅.manager.maxModelLen = 16) ∧
      s₆.requests.get? "b" = some r₆ ∧ r₆.allTokenIds = [1, 2, 4, 5] ∧ r₆.numComputedTokens = 4 ∧
        s₆.manager.maxModelLen = 16 :=
    ⟨_, _, _, _, _, _, _, _, _, _, _, _, rfl, rfl, rfl, rfl, rfl, rfl, rfl, ⟨rfl, rfl, rfl⟩,
      ⟨rfl, rfl, rfl, rfl⟩, ⟨rfl, rfl, rfl, rfl⟩, rfl, rfl, rfl, rfl⟩
  obtain ⟨s₀, s₁, s₂, s₃, s₄, s₅, s₆, es₂, es₅, r₂, r₅, r₆, hinit, h₁, h₂, h₃, h₄, h₅, h₆,
    ⟨hnil₁, hnil₄, hnil₆⟩, ⟨hn₂, hr₂, hc₂, hlen₂⟩, ⟨hn₅, hr₅, hc₅, hlen₅⟩, hr₆, htokens₆, hc₆,
    hlen₆⟩ := hruns
  have hl := symbolicHasher_lossless 2 fun _ => True
  have hb : 0 < (symbolicHasher 2).blockSize := by decide
  have hplain : ∀ r : Request Digest, r.mmFeatures = [] → r.loraName = none → r.cacheSalt = none →
      r.Plain fun _ => False := by
    intro r hmm hlora hsalt
    exact ⟨hmm, by simp [hlora], by simp [hsalt]⟩
  have hnilFits : ∀ s : Scheduler Digest, s.numScheduledTokens = [] → s.Fits := by
    intro s hnil
    exact fits_of_forall (by simp [hnil])
  -- The first request and its pass.
  have hrun₂ : ∀ mem, Relation.ReflTransGen (Serves attend (fun _ => True) fun _ => False)
      ⟨s₀, fun _ _ => 0, mem⟩ ⟨s₂, fun _ _ => 0, mem⟩ := by
    intro mem
    have hfits₂ : s₂.Fits := by
      apply fits_of_forall
      rw [hn₂]
      intro e he r hr
      obtain rfl := List.mem_singleton.1 he
      obtain rfl := Option.some.inj (hr₂.symm.trans hr)
      rw [hc₂, hlen₂]
      decide
    exact (Relation.ReflTransGen.single
      (.call (by simp) h₁ (by simp) (hplain _ rfl rfl rfl) (hnilFits s₁ hnil₁))).tail
      (.call (by simp) h₂ (by simp) trivial hfits₂)
  obtain ⟨hs₂, -, hf₂⟩ := run_good hl hb (init_good hinit) (hrun₂ fun _ => [])
  obtain ⟨mem₃, hpass₃⟩ := exists_pass attend hb hs₂ hf₂ (fun _ _ => 0) (fun _ => [])
  -- The second request finds the first block in the cache.
  have hrun₅ : Relation.ReflTransGen (Serves attend (fun _ => True) fun _ => False)
      ⟨s₀, fun _ _ => 0, fun _ => []⟩ ⟨s₅, fun _ _ => 0, mem₃⟩ := by
    have hfits₅ : s₅.Fits := by
      apply fits_of_forall
      rw [hn₅]
      intro e he r hr
      obtain rfl := List.mem_singleton.1 he
      obtain rfl := Option.some.inj (hr₅.symm.trans hr)
      rw [hc₅, hlen₅]
      decide
    exact (((hrun₂ fun _ => []).tail (.pass h₃ hpass₃)).tail
      (.call (by simp) h₄ (by simp) (hplain _ rfl rfl rfl) (hnilFits s₄ hnil₄))).tail
        (.call (by simp) h₅ (by simp) trivial hfits₅)
  obtain ⟨hs₅, -, hf₅⟩ := run_good hl hb (init_good hinit) hrun₅
  obtain ⟨mem₆, hpass₆⟩ := exists_pass attend hb hs₅ hf₅ (fun _ _ => 0) mem₃
  obtain ⟨x, hx, hmem⟩ := serves_kv hl hb hinit (hrun₅.tail (.pass h₆ hpass₆)) hnil₆ hr₆
    (p := 0) (by rw [hc₆]; decide) (by rw [Request.numTokens, htokens₆]; decide)
      (by rw [hlen₆]; decide)
  rw [hattend] at hmem
  exact ⟨_, r₆, x, hr₆, htokens₆, hx, hmem⟩

/-- A request that is preempted in the step that scheduled it leaves a block in the cache that was
never computed, which the next request takes for computed. -/
example : ∃ s₀ s : Scheduler Digest, ∃ es,
    init (symbolicHasher 2) 6 16 true false false 0 = .ok s₀ ∧
      Transition.run step s₀ [.addRequest { requestId := "a", allTokenIds := [1, 2, 3] },
        .addRequest { requestId := "b", allTokenIds := [1, 2, 4, 5] }, .scheduleWaiting "a" 3,
        .preempt "a", .updateAfterSchedule, .scheduleWaiting "b" 2] = some (s, es) ∧
      (s.requests.get? "b").map (·.numComputedTokens) = some 2 ∧
      s.numScheduledTokens = [("b", 2)] :=
  ⟨_, _, _, rfl, rfl, by decide, by decide⟩

end Scheduler

end AiPipelines.KvCache

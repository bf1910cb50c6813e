import AiPipelines.Causal
import AiPipelines.KvCache.Scheduling
import Mathlib.Logic.Relation

/-!
# What the cache memory holds

The memory of the KV cache has a cell for every slot, and the pass over the tokens
of a step writes the cells of the step's slots: the value at a position is computed
from the values in front of it, which the pass reads from the request's slots, and
from the token.  What the model computes is a parameter, `attend`.

`Coherent` is the invariant: every computed position of a request, and every slot of
a cached block, holds the value that the request alone would compute.  Within a
step it may instead be written by the pass to come.

* `Serves` is one call of the scheduler with its effect on the memory.
* `step_moves` says what a call changes, and the lemmas after it say that each kind
  of change keeps `Coherent`.
-/

namespace AiPipelines.KvCache

open PyStd

variable {H V : Type}

namespace Request

/-- The values of a request's tokens. -/
def kv (attend : Option String → List V → Int → V) (r : Request H) (p : Nat) : V :=
  Causal.value (attend r.loraName) (fun q => r.allTokenIds.getD q 0) p

/-- A request with text only, whose cache salt is not the name of an adapter. -/
structure Plain (adapters : String → Prop) (r : Request H) : Prop where
  text : r.mmFeatures = []
  adapter : ∀ name, r.loraName = some name → adapters name
  salt : ∀ salt, r.cacheSalt = some salt → ¬ adapters salt

variable {adapters : String → Prop} {r r' : Request H}

/-- The keys of the first block tell the adapter. -/
theorem Plain.loraName_eq (h : r.Plain adapters) (h' : r'.Plain adapters)
    (hkeys : r.textKeys 0 = r'.textKeys 0) : r.loraName = r'.loraName := by
  have hlist : r.genLoraExtraHashKeys ++ r.cacheSaltKeys 0 =
      r'.genLoraExtraHashKeys ++ r'.cacheSaltKeys 0 := by
    unfold textKeys tupleOrNone at hkeys
    split at hkeys
    · next hnil =>
      split at hkeys
      · next hnil' => rw [hnil, hnil']
      · cases hkeys
    · split at hkeys
      · cases hkeys
      · exact Option.some.inj hkeys
  have hsalt : ∀ {r : Request H} {name : String}, r.Plain adapters → adapters name →
      ExtraKey.text name ∉ r.cacheSaltKeys 0 := by
    intro r name hr hname hmem
    unfold cacheSaltKeys at hmem
    cases hs : r.cacheSalt with
    | none => simp [hs] at hmem
    | some salt =>
      simp only [hs] at hmem
      split at hmem
      · rw [List.mem_singleton, ExtraKey.text.injEq] at hmem
        exact hr.salt salt hs (hmem ▸ hname)
      · cases hmem
  cases hname : r.loraName with
  | none =>
    cases hname' : r'.loraName with
    | none => rfl
    | some name' =>
      have hmem : ExtraKey.text name' ∈ r.genLoraExtraHashKeys ++ r.cacheSaltKeys 0 := by
        rw [hlist, genLoraExtraHashKeys, hname']
        simp
      rw [genLoraExtraHashKeys, hname] at hmem
      exact absurd hmem (hsalt h (h'.adapter name' hname'))
  | some name =>
    cases hname' : r'.loraName with
    | none =>
      have hmem : ExtraKey.text name ∈ r'.genLoraExtraHashKeys ++ r'.cacheSaltKeys 0 := by
        rw [← hlist, genLoraExtraHashKeys, hname]
        simp
      rw [genLoraExtraHashKeys, hname'] at hmem
      exact absurd hmem (hsalt h' (h.adapter name hname))
    | some name' =>
      simp only [genLoraExtraHashKeys, hname, hname', List.singleton_append, List.cons.injEq,
        ExtraKey.text.injEq] at hlist
      rw [hlist.1]

/-- Requests with a block hash in common have the same values up to the end of the block. -/
theorem Hashed.kv_eq {hasher : Hasher H} {seen : HashInput H → Prop}
    {attend : Option String → List V → Int → V} {xs ys : List BlockInput} {i j p : Nat} {v : H}
    (hl : hasher.LosslessOn seen) (hr : r.Hashed hasher seen xs) (hr' : r'.Hashed hasher seen ys)
    (hplain : r.Plain adapters) (hplain' : r'.Plain adapters)
    (hi : r.blockHashes[i]? = some v) (hj : r'.blockHashes[j]? = some v)
    (hp : p < (i + 1) * hasher.blockSize) :
    i = j ∧ p < r.numTokens ∧ p < r'.numTokens ∧ r.kv attend p = r'.kv attend p := by
  obtain ⟨rfl, hinputs, htokens⟩ := Hashed.prefix_eq hl hr hr' hi hj
  have hlen : ∀ {r : Request H} {xs : List BlockInput}, r.Hashed hasher seen xs →
      r.blockHashes[i]? = some v →
      i < xs.length := by
    intro r xs hr hi
    rw [hr.hashes] at hi
    rw [← @Hasher.length_hashPrefixes _ hasher xs]
    exact (List.getElem?_eq_some_iff.1 hi).1
  have hfull := hr.block_le (hlen hr hi)
  have hfull' := hr'.block_le (hlen hr' hj)
  have hkeys := hr.prefix_keys hr' hplain.text hplain'.text hinputs (hlen hr hi) (Nat.zero_le i)
  rw [Nat.zero_mul] at hkeys
  refine ⟨rfl, Nat.lt_of_lt_of_le hp hfull, Nat.lt_of_lt_of_le hp hfull', ?_⟩
  rw [kv, kv, hplain.loraName_eq hplain' hkeys]
  apply Causal.value_congr
  intro q hq
  have hfront := congrArg (fun l : List Int => l[q]?) htokens
  simp only [List.getElem?_take, if_pos (Nat.lt_of_le_of_lt hq hp)] at hfront
  rw [List.getD_eq_getElem?_getD, List.getD_eq_getElem?_getD, hfront]

end Request

namespace Scheduler

/-! ## Slots -/

section Slots

variable [DecidableEq H]

/-- The slot of a block at an offset. -/
def slotOf (s : Scheduler H) (b : Ref) (o : Nat) : Int :=
  (s.manager.blockPool.object b).blockId * s.manager.blockSize + o

/-- The slot of the token at position `p` of the request. -/
def slotId (s : Scheduler H) (id : String) (p : Nat) : Option Int :=
  (s.blockAt id p).map fun b => s.slotOf b (p % s.manager.blockSize)

variable {hasher : Hasher H} {seen : HashInput H → Prop} {s s' : Scheduler H}
  {free free' : List Ref}
  {id id' : String} {b b' : Ref} {p p' o o' : Nat} {x : Int}

omit [DecidableEq H] in
theorem slotId_eq_some :
    s.slotId id p = some x ↔ ∃ b, s.blockAt id p = some b ∧
      s.slotOf b (p % s.manager.blockSize) = x := by
  rw [slotId, Option.map_eq_some_iff]

theorem Inv.slotOf_block (h : s.Inv hasher seen free) (i : Nat) :
    s.slotOf (.block i) o = i * s.manager.blockSize + o := by
  rw [slotOf, h.good.pool.ids]

/-- A slot tells its block and its offset. -/
theorem Inv.slotOf_inj (h : s.Inv hasher seen free) (hU : s.manager.blockPool.Usable b)
    (hU' : s.manager.blockPool.Usable b') (ho : o < s.manager.blockSize)
    (ho' : o' < s.manager.blockSize) (heq : s.slotOf b o = s.slotOf b' o') : b = b' ∧ o = o' := by
  obtain ⟨i, -, -, rfl⟩ := hU
  obtain ⟨j, -, -, rfl⟩ := hU'
  rw [h.slotOf_block, h.slotOf_block] at heq
  have hnat : i * s.manager.blockSize + o = j * s.manager.blockSize + o' := by exact_mod_cast heq
  have hdiv := congrArg (· / s.manager.blockSize) hnat
  simp only [Nat.mul_comm i, Nat.mul_comm j, Nat.mul_add_div (Nat.zero_lt_of_lt ho),
    Nat.div_eq_of_lt ho, Nat.div_eq_of_lt ho', Nat.add_zero] at hdiv
  subst hdiv
  exact ⟨rfl, by omega⟩

/-- Slots do not move. -/
theorem Inv.slotOf_congr (h : s.Inv hasher seen free) (h' : s'.Inv hasher seen free')
    (hU : s.manager.blockPool.Usable b) : s'.slotOf b o = s.slotOf b o := by
  obtain ⟨i, -, -, rfl⟩ := hU
  rw [h.slotOf_block, h'.slotOf_block, h.blockSize, h'.blockSize]

theorem Inv.usable_at (h : s.Inv hasher seen free) (hb : s.blockAt id p = some b) :
    s.manager.reqToBlocks.get? id = some (s.manager.reqBlocks id) ∧
      s.manager.blockPool.Usable b := by
  have hmem := List.mem_of_getElem? hb
  have hentry := KVCacheManager.get_of_mem_reqBlocks hmem
  exact ⟨hentry, h.good.usable id _ hentry b hmem⟩

/-- Two positions with one slot. -/
theorem Inv.slotId_inj (hb : 0 < hasher.blockSize) (h : s.Inv hasher seen free)
    (hx : s.slotId id p = some x) (hx' : s.slotId id' p' = some x) :
    p = p' ∧ (id ≠ id' → ∃ v, (hashes s.requests id)[p / s.manager.blockSize]? = some v ∧
      (hashes s.requests id')[p / s.manager.blockSize]? = some v) := by
  have hsize : 0 < s.manager.blockSize := by rw [h.blockSize]; exact hb
  obtain ⟨b, hblock, hslot⟩ := slotId_eq_some.1 hx
  obtain ⟨b', hblock', hslot'⟩ := slotId_eq_some.1 hx'
  obtain ⟨hentry, hU⟩ := h.usable_at hblock
  obtain ⟨hentry', hU'⟩ := h.usable_at hblock'
  obtain ⟨rfl, hmod⟩ := h.slotOf_inj hU hU' (Nat.mod_lt _ hsize) (Nat.mod_lt _ hsize)
    (hslot.trans hslot'.symm)
  have hposition : p / s.manager.blockSize = p' / s.manager.blockSize → p = p' := by
    intro hdiv
    rw [← Nat.div_add_mod p s.manager.blockSize, ← Nat.div_add_mod p' s.manager.blockSize, hdiv,
      hmod]
  by_cases hid : id = id'
  · subst hid
    -- The blocks of one request are different.
    have hsame := (List.getElem?_inj (List.getElem?_eq_some_iff.1 hblock).1
      (h.good.distinct id _ hentry)).1 (hblock.trans hblock'.symm)
    exact ⟨hposition hsame, fun hne => absurd rfl hne⟩
  · obtain ⟨hdiv, hv⟩ := h.good.shared id id' _ _ _ _ b hid hentry hentry' hblock hblock'
    exact ⟨hposition hdiv, fun _ => hv⟩

end Slots

/-! ## The memory -/

section Memory

variable [DecidableEq H]

/-- The adapter of a request. -/
def adapter (s : Scheduler H) (id : String) : Option String :=
  (s.requests.get? id).bind (·.loraName)

/-- The token at a position of a request.  Behind the request's own tokens these are `draft`. -/
def tokenAt (s : Scheduler H) (draft : String → Nat → Int) (id : String) (p : Nat) : Int :=
  match s.requests.get? id with
  | none => draft id p
  | some r => r.allTokenIds.getD p (draft id p)

/-- The value that the request alone would compute. -/
def kv (s : Scheduler H) (attend : Option String → List V → Int → V) (draft : String → Nat → Int)
    (id : String) (p : Nat) : V :=
  Causal.value (attend (s.adapter id)) (s.tokenAt draft id) p

/-- The invariant of the memory. -/
structure Coherent (attend : Option String → List V → Int → V) (hasher : Hasher H)
    (seen : HashInput H → Prop) (adapters : String → Prop) (s : Scheduler H)
    (draft : String → Nat → Int) (mem : Int → V) : Prop where
  plain : ∀ id r, s.requests.get? id = some r → r.Plain adapters
  idle : ∀ id r, s.requests.get? id = some r → r.status ≠ .running → r.numComputedTokens = 0
  computed : ∀ id r p, s.requests.get? id = some r → p < r.numComputedTokens →
    p < s.manager.maxModelLen →
      ∃ x, s.slotId id p = some x ∧ Causal.Holds s.slotId s.Writes mem x (s.kv attend draft id p)
  cached : ∀ b key (r : Request H) xs (i o : Nat),
    (s.manager.blockPool.object b).blockHash = some key → r.Hashed hasher seen xs →
    r.Plain adapters → r.blockHashes[i]? = some key.1 → o < s.manager.blockSize →
      Causal.Holds s.slotId s.Writes mem (s.slotOf b o) (r.kv attend (i * s.manager.blockSize + o))

variable {attend : Option String → List V → Int → V} {hasher : Hasher H}
  {seen : HashInput H → Prop} {adapters : String → Prop} {s s' : Scheduler H}
    {draft draft' : String → Nat → Int} {mem mem' : Int → V} {free free' : List Ref}
  {id id' : String} {r r' : Request H} {p q : Nat}

omit [DecidableEq H] in
theorem kv_of_get (hget : s.requests.get? id = some r) : s.kv attend draft id p =
    Causal.value (attend r.loraName) (fun q => r.allTokenIds.getD q (draft id q)) p := by
  have htoken : s.tokenAt draft id = fun q => r.allTokenIds.getD q (draft id q) := by
    funext q
    rw [tokenAt, hget]
  rw [kv, htoken, adapter, hget]
  rfl

omit [DecidableEq H] in
/-- At the request's own tokens there are no drafts. -/
theorem kv_own (hget : s.requests.get? id = some r) (hp : p < r.numTokens) :
    s.kv attend draft id p = r.kv attend p := by
  rw [kv_of_get hget, Request.kv]
  apply Causal.value_congr
  intro q hq
  have hlen : q < r.allTokenIds.length := Nat.lt_of_le_of_lt hq hp
  rw [List.getD_eq_getElem?_getD, List.getD_eq_getElem?_getD, List.getElem?_eq_getElem hlen]
  rfl

omit [DecidableEq H] in
/-- The value depends on the tokens up to the position. -/
theorem kv_congr (hadapter : s'.adapter id = s.adapter id)
    (htoken : ∀ q ≤ p, s'.tokenAt draft' id q = s.tokenAt draft id q) :
    s'.kv attend draft' id p = s.kv attend draft id p := by
  rw [kv, kv, hadapter]
  exact Causal.value_congr htoken

/-- A block hash of two requests in their blocks gives one value. -/
theorem Inv.kv_shared (attend : Option String → List V → Int → V) (draft : String → Nat → Int)
    (hl : hasher.LosslessOn seen) (h : s.Inv hasher seen free)
    (hplain : ∀ id r, s.requests.get? id = some r → r.Plain adapters) {xs : List BlockInput}
    {i j : Nat} {v : H} (hget : s.requests.get? id = some r) (hi : r.blockHashes[i]? = some v)
    (hr' : r'.Hashed hasher seen xs) (hplain' : r'.Plain adapters)
    (hj : r'.blockHashes[j]? = some v) (hp : p < (i + 1) * s.manager.blockSize) :
    i = j ∧ p < r.numTokens ∧ p < r'.numTokens ∧ s.kv attend draft id p = r'.kv attend p := by
  have hh := h.hashed id r hget
  unfold Hashes at hh
  split at hh
  · obtain ⟨ys, hys⟩ := hh
    rw [h.blockSize] at hp
    obtain ⟨hij, hlt, hlt', heq⟩ := hys.kv_eq hl hr' (hplain id r hget) hplain' hi hj hp
    exact ⟨hij, hlt, hlt', by rw [kv_own hget hlt, heq]⟩
  · rw [hh] at hi
    simp at hi

/-! ### What keeps the memory coherent -/

omit [DecidableEq H] in
theorem slotId_congr (hsize : s'.manager.blockSize = s.manager.blockSize)
    (hblock : s'.blockAt id p = s.blockAt id p)
    (hslot : ∀ b, s.blockAt id p = some b → ∀ o, s'.slotOf b o = s.slotOf b o) :
    s'.slotId id p = s.slotId id p := by
  rw [slotId, slotId, hblock, hsize]
  cases hb : s.blockAt id p with
  | none => rfl
  | some b => rw [Option.map_some, Option.map_some, hslot b hb]

/-- The slots of a request whose blocks stay. -/
theorem Inv.slotId_same (h : s.Inv hasher seen free) (h' : s'.Inv hasher seen free')
    (hblocks : s'.blockAt id p = s.blockAt id p) : s'.slotId id p = s.slotId id p := by
  refine slotId_congr (h'.blockSize.trans h.blockSize.symm) hblocks ?_
  intro b hb o
  exact h.slotOf_congr h' (h.usable_at hb).2

omit [DecidableEq H] in
theorem blockAt_congr (hsize : s'.manager.blockSize = s.manager.blockSize)
    (hblocks : s'.manager.reqBlocks id = s.manager.reqBlocks id) :
    s'.blockAt id p = s.blockAt id p := by
  rw [blockAt, blockAt, hblocks, hsize]

/-- What the pass will write before the call, it will write after it. -/
theorem Inv.holds_mono (h : s.Inv hasher seen free) (h' : s'.Inv hasher seen free')
    (hstep : ∀ id p, s.Writes id p → s'.Writes id p ∧ s'.blockAt id p = s.blockAt id p) {x : Int}
    {w : V} (hold : Causal.Holds s.slotId s.Writes mem x w) :
    Causal.Holds s'.slotId s'.Writes mem x w := by
  rcases hold with hmem | ⟨id, p, hw, hx⟩
  · exact .inl hmem
  · obtain ⟨hw', hblock⟩ := hstep id p hw
    exact .inr ⟨id, p, hw', by rw [h.slotId_same h' hblock, hx]⟩

/-- A call after which no more is computed and cached than before. -/
theorem Coherent.mono (hc : s.Coherent attend hasher seen adapters draft mem)
    (h : s.Inv hasher seen free) (h' : s'.Inv hasher seen free')
    (hconf : s.manager.SameConfig s'.manager)
    (hreq : ∀ id r', s'.requests.get? id = some r' → r'.Plain adapters ∧
      (r'.status ≠ .running → r'.numComputedTokens = 0) ∧
      (r'.numComputedTokens = 0 ∨ ∃ r, s.requests.get? id = some r ∧
        r'.numComputedTokens ≤ r.numComputedTokens ∧
        s'.manager.reqBlocks id = s.manager.reqBlocks id ∧
        ∀ p < r'.numComputedTokens, s'.kv attend draft id p = s.kv attend draft id p))
    (hstep : ∀ id p, s.Writes id p → s'.Writes id p ∧ s'.blockAt id p = s.blockAt id p)
    (hhash : ∀ b key, (s'.manager.blockPool.object b).blockHash = some key →
      (s.manager.blockPool.object b).blockHash = some key) :
    s'.Coherent attend hasher seen adapters draft mem := by
  constructor
  · intro id r' hget'
    exact (hreq id r' hget').1
  · intro id r' hget'
    exact (hreq id r' hget').2.1
  · intro id r' p hget' hp hlen
    rcases (hreq id r' hget').2.2 with hzero | ⟨r, hget, hle, hblocks, hkv⟩
    · omega
    · rw [hconf.2.1] at hlen
      obtain ⟨x, hx, hold⟩ := hc.computed id r p hget (Nat.lt_of_lt_of_le hp hle) hlen
      refine ⟨x, ?_, ?_⟩
      · rw [h.slotId_same h' (blockAt_congr hconf.1 hblocks), hx]
      · rw [hkv p hp]
        exact h.holds_mono h' hstep hold
  · intro b key r xs i o hkey hr hplain hi ho
    have hold := hhash b key hkey
    rw [hconf.1] at ho ⊢
    rw [h.slotOf_congr h' (h.good.pool.usable_of_hash hold)]
    exact h.holds_mono h' hstep (hc.cached b key r xs i o hold hr hplain hi ho)

theorem Coherent.loosen (hc : s.Coherent attend hasher seen adapters draft mem)
    (h : s.Inv hasher seen free) (h' : s'.Inv hasher seen free') (hl : s.Loosens s') :
    s'.Coherent attend hasher seen adapters draft mem := by
  refine hc.mono h h' hl.config ?_ ?_ hl.hash
  · intro id r' hget'
    obtain ⟨r, hget, heq, hcases⟩ := hl.requests id r' hget'
    have hplain := hc.plain id r hget
    have htext : r'.mmFeatures = r.mmFeatures ∧ r'.loraName = r.loraName ∧
        r'.cacheSalt = r.cacheSalt ∧
        r'.allTokenIds = r.allTokenIds := by
      rw [heq]
      exact ⟨rfl, rfl, rfl, rfl⟩
    obtain ⟨hmm, hlora, hsalt, htokens⟩ := htext
    refine ⟨⟨hmm ▸ hplain.text, hlora ▸ hplain.adapter, hsalt ▸ hplain.salt⟩, ?_, ?_⟩
    · intro hstatus
      rcases hcases with hzero | ⟨hsame, hle, -⟩
      · exact hzero
      · have hidle := hc.idle id r hget (hsame ▸ hstatus)
        omega
    · rcases hcases with hzero | ⟨-, hle, hblocks⟩
      · exact .inl hzero
      · refine .inr ⟨r, hget, hle, hblocks, ?_⟩
        intro p _
        rw [kv_of_get hget', kv_of_get hget, hlora, htokens]
  · rintro id p ⟨r, n, hget, hn, hp⟩
    obtain ⟨hn', hreq, hblocks⟩ := hl.step id n hn
    exact ⟨⟨r, n, hreq.trans hget, hn', hp⟩, blockAt_congr hl.config.1 hblocks⟩

/-- The step has no token behind the maximal length. -/
def Fits (s : Scheduler H) : Prop := ∀ id p, s.Writes id p → p < s.manager.maxModelLen

/-- A request joins the step. -/
theorem Coherent.join {c n : Nat} {computed : List Ref} (hl : hasher.LosslessOn seen)
    (hb : 0 < hasher.blockSize) (hc : s.Coherent attend hasher seen adapters draft mem)
    (h : s.Inv hasher seen free) (h' : s'.Inv hasher seen free') (hp' : s'.Planned)
    (hget : s.requests.get? id = some r) (hidle : computed ≠ [] → r.numComputedTokens = 0)
    (hfirst : s.numScheduledTokens.get? id = none) (hn : 0 < n) (hj : s.Joins s' id r c n computed)
    (hfits : s'.Fits) :
    s'.Coherent attend hasher seen adapters draft mem := by
  obtain ⟨news, hblocks⟩ := hj.blocks
  have hsize := hj.config.1
  have hpos : 0 < s.manager.blockSize := by rw [h.blockSize]; exact hb
  have hmine : s'.requests.get? id =
      some { r with status := .running, numComputedTokens := c } := by
    rw [hj.requests, if_pos rfl]
  have hothers : ∀ {id'}, id ≠ id' → s'.requests.get? id' = s.requests.get? id' := by
    intro id' hne
    rw [hj.requests, if_neg hne]
  have hown : s'.manager.reqBlocks id = s.manager.reqBlocks id ++ computed ++ news := by
    rw [hblocks, if_pos rfl]
  have hsame : ∀ {id' p}, id ≠ id' → s'.blockAt id' p = s.blockAt id' p := by
    intro id' p hne
    exact blockAt_congr hsize (by rw [hblocks, if_neg hne])
  have hkv : ∀ id' p, s'.kv attend draft id' p = s.kv attend draft id' p := by
    intro id' p
    by_cases hid : id = id'
    · subst hid
      rw [kv_of_get hmine, kv_of_get hget]
    · unfold kv adapter tokenAt
      rw [hothers hid]
  have hstep : ∀ id' p, s.Writes id' p → s'.Writes id' p ∧ s'.blockAt id' p = s.blockAt id' p := by
    rintro id' p ⟨r', n', hget', hn', hp⟩
    have hid : id ≠ id' := by
      rintro rfl
      rw [hfirst] at hn'
      cases hn'
    exact ⟨⟨r', n',
      (hothers hid).trans hget', by rw [hj.scheduled, Dict.get?_set_of_ne _ _ hid, hn'], hp⟩,
        hsame hid⟩
  have hwrites : ∀ p, c ≤ p → p < c + n → s'.Writes id p := by
    intro p h₁ h₂
    exact ⟨_, n, hmine, by rw [hj.scheduled, Dict.get?_set_self], h₁, h₂⟩
  have hlen : c + n ≤ s.manager.maxModelLen := by
    have hlast := hfits id (c + n - 1) (hwrites _ (by omega) (by omega))
    rw [hj.config.2.1] at hlast
    omega
  -- The computed tokens of the request: its own, or those of the cached blocks.
  have hcomputed : ∀ p, p < c → ∃ x, s'.slotId id p = some x ∧
      Causal.Holds s'.slotId s'.Writes mem x (s'.kv attend draft id p) := by
    intro p hp
    rw [hkv]
    rcases hj.hit with hnil | ⟨hempty, hhit⟩
    · have hc₀ : c = r.numComputedTokens := by rw [hj.tokens, hnil, List.length_nil]; omega
      obtain ⟨x, hx, hold⟩ := hc.computed id r p hget (hc₀ ▸ hp) (by omega)
      refine ⟨x, ?_, h.holds_mono h' hstep hold⟩
      obtain ⟨b, hblock, -⟩ := slotId_eq_some.1 hx
      rw [h.slotId_same h' ?_, hx]
      rw [hblock, blockAt, hown, hsize, hnil, List.append_nil]
      rw [List.getElem?_append_left (List.getElem?_eq_some_iff.1 hblock).1]
      exact hblock
    · by_cases hnil : computed = []
      · have hzero := hj.tokens
        rw [hnil, List.length_nil, Nat.zero_mul] at hzero
        obtain ⟨x, hx, -⟩ := hc.computed id r p hget (by omega) (by omega)
        obtain ⟨b, hblock, -⟩ := slotId_eq_some.1 hx
        rw [blockAt, hempty] at hblock
        cases hblock
      · have hc₀ : c = computed.length * s.manager.blockSize := by
          rw [hj.tokens, hidle hnil, Nat.zero_add]
        have hi : p / s.manager.blockSize < computed.length := by
          rw [Nat.div_lt_iff_lt_mul hpos, ← hc₀]
          exact hp
        obtain ⟨b, hbi⟩ : ∃ b, computed[p / s.manager.blockSize]? = some b :=
          ⟨_, List.getElem?_eq_getElem hi⟩
        obtain ⟨v, hv, hiv⟩ := hhit _ b hbi
        have hh := h.hashed id r hget
        unfold Hashes at hh
        split at hh
        · obtain ⟨xs, hxs⟩ := hh
          have hold :=
            hc.cached b (v, 0) r xs _ _ hv hxs (hc.plain id r hget) hiv (Nat.mod_lt p hpos)
          have hposition : p / s.manager.blockSize * s.manager.blockSize + p % s.manager.blockSize =
              p := by
            rw [Nat.mul_comm]
            exact Nat.div_add_mod p _
          have hnext : p < (p / s.manager.blockSize + 1) * s.manager.blockSize := by
            rw [Nat.succ_mul]
            have hmod := Nat.mod_lt p hpos
            omega
          rw [hposition] at hold
          rw [(h.kv_shared attend draft hl hc.plain hget hiv hxs
            (hc.plain id r hget) hiv hnext).2.2.2]
          refine ⟨_, slotId_eq_some.2 ⟨b, ?_, ?_⟩, h.holds_mono h' hstep hold⟩
          · rw [blockAt, hown, hsize, hempty, List.nil_append, List.getElem?_append_left hi, hbi]
          · rw [hsize, h.slotOf_congr h' (h.good.pool.usable_of_hash hv)]
        · rw [hh] at hiv
          simp at hiv
  constructor
  · intro id' r' hget'
    by_cases hid : id = id'
    · subst hid
      obtain rfl := Option.some.inj (hmine.symm.trans hget')
      have hplain := hc.plain id r hget
      exact ⟨hplain.text, hplain.adapter, hplain.salt⟩
    · exact hc.plain id' r' ((hothers hid).symm.trans hget')
  · intro id' r' hget' hstatus
    by_cases hid : id = id'
    · subst hid
      obtain rfl := Option.some.inj (hmine.symm.trans hget')
      exact absurd rfl hstatus
    · exact hc.idle id' r' ((hothers hid).symm.trans hget') hstatus
  · intro id' r' p hget' hp hmax
    by_cases hid : id = id'
    · subst hid
      obtain rfl := Option.some.inj (hmine.symm.trans hget')
      exact hcomputed p hp
    · rw [hj.config.2.1] at hmax
      obtain ⟨x, hx, hold⟩ := hc.computed id' r' p ((hothers hid).symm.trans hget') hp hmax
      refine ⟨x, by rw [h.slotId_same h' (hsame hid), hx], ?_⟩
      rw [hkv]
      exact h.holds_mono h' hstep hold
  · intro b key r₀ xs i o hkey hr₀ hplain₀ hi ho
    by_cases hmem : b ∈ s'.manager.reqBlocks id
    · -- The block is one of the request's: all its tokens are computed, or tokens of the step.
      obtain ⟨j, hj'⟩ := List.getElem?_of_mem hmem
      have hentry := KVCacheManager.get_of_mem_reqBlocks hmem
      obtain ⟨-, hjv⟩ := h'.good.hashed id _ j b key hentry hj' hkey
      rw [hashes_of_get hmine] at hjv
      have hcount : j < s'.manager.numCached id := by
        by_contra hge
        have hnone := (h'.good.own id _ j b hentry (by omega) hj').1
        rw [hkey] at hnone
        cases hnone
      have hcommitted := (hp'.committed id _ hmine).2
      have hscheduled : s'.scheduledTokens id = n := by
        rw [scheduledTokens, hj.scheduled, Dict.get?_set_self]
        rfl
      have hfull := Nat.mul_le_mul_right s'.manager.blockSize hcount
      rw [Nat.succ_mul] at hfull
      have hin : j * s'.manager.blockSize + o < (j + 1) * s'.manager.blockSize := by
        rw [Nat.succ_mul]
        omega
      have hplain' : ∀ id r, s'.requests.get? id = some r → r.Plain adapters := by
        intro id' r' hget'
        by_cases hid : id = id'
        · subst hid
          obtain rfl := Option.some.inj (hmine.symm.trans hget')
          have hplain := hc.plain id r hget
          exact ⟨hplain.text, hplain.adapter, hplain.salt⟩
        · exact hc.plain id' r' ((hothers hid).symm.trans hget')
      obtain ⟨rfl, -, -, heq⟩ := h'.kv_shared attend draft hl hplain' hmine hjv hr₀
        hplain₀ hi hin
      have hslot : s'.slotId id (j * s'.manager.blockSize + o) = some (s'.slotOf b o) := by
        have hdiv : (j * s'.manager.blockSize + o) / s'.manager.blockSize = j := by
          rw [Nat.mul_comm, Nat.mul_add_div (by omega), Nat.div_eq_of_lt ho, Nat.add_zero]
        have hmod : (j * s'.manager.blockSize + o) % s'.manager.blockSize = o := by
          rw [Nat.mul_comm, Nat.mul_add_mod, Nat.mod_eq_of_lt ho]
        rw [slotId_eq_some]
        exact ⟨b, by rw [blockAt, hdiv, hj'], by rw [hmod]⟩
      rw [← heq]
      by_cases hold : j * s'.manager.blockSize + o < c
      · obtain ⟨x, hx, hholds⟩ := hcomputed _ hold
        rw [hslot, Option.some.injEq] at hx
        rw [hx]
        exact hholds
      · refine .inr ⟨id, _, hwrites _ (by omega) ?_, hslot⟩
        have hc' : s'.manager.numCached id * s'.manager.blockSize ≤ c + n := by
          rw [← hscheduled]
          exact hcommitted
        omega
    · have hold : (s.manager.blockPool.object b).blockHash = some key := by
        rw [← hj.hash b hmem]
        exact hkey
      rw [hsize] at ho ⊢
      rw [h.slotOf_congr h' (h.good.pool.usable_of_hash hold)]
      exact h.holds_mono h' hstep (hc.cached b key r₀ xs i o hold hr₀ hplain₀ hi ho)

/-- The pass over the tokens of the step. -/
structure Computes (attend : Option String → List V → Int → V) (s : Scheduler H)
    (draft draft' : String → Nat → Int) (mem mem' : Int → V) : Prop where
  batch :
    Causal.Batch (fun id => attend (s.adapter id)) s.slotId (s.tokenAt draft') s.Writes mem mem'
  draft : ∀ id p, ¬ s.Writes id p → draft' id p = draft id p

/-- The position is computed, or will be in the step. -/
def Covers (s : Scheduler H) (id : String) (p : Nat) : Prop :=
  p < s.manager.maxModelLen ∧
    ∃ r, s.requests.get? id = some r ∧ p < r.numComputedTokens + s.scheduledTokens id

omit [DecidableEq H] in
theorem writes_iff (hget : s.requests.get? id = some r) :
    s.Writes id p ↔ r.numComputedTokens ≤ p ∧ p < r.numComputedTokens + s.scheduledTokens id := by
  rw [scheduledTokens]
  constructor
  · rintro ⟨r', n, hget', hn, h₁, h₂⟩
    obtain rfl := Option.some.inj (hget.symm.trans hget')
    rw [hn, Option.getD_some]
    exact ⟨h₁, h₂⟩
  · rintro ⟨h₁, h₂⟩
    cases hn : s.numScheduledTokens.get? id with
    | none =>
      rw [hn, Option.getD_none] at h₂
      omega
    | some n =>
      rw [hn, Option.getD_some] at h₂
      exact ⟨r, n, hget, hn, h₁, h₂⟩

/-- Two positions with one slot have one value, when the step writes the second. -/
theorem Coherent.agree (hl : hasher.LosslessOn seen) (hb : 0 < hasher.blockSize)
    (hc : s.Coherent attend hasher seen adapters draft mem) (h : s.Inv hasher seen free) {x : Int}
    (hi : s.Covers id p) (hw : s.Writes id' q) (hx : s.slotId id p = some x)
    (hx' : s.slotId id' q = some x) :
    p = q ∧ s.kv attend draft' id p = s.kv attend draft' id' q := by
  obtain ⟨rfl, hshared⟩ := h.slotId_inj hb hx hx'
  refine ⟨rfl, ?_⟩
  by_cases hid : id = id'
  · rw [hid]
  · obtain ⟨-, r, hget, -⟩ := hi
    obtain ⟨r', n, hget', -⟩ := hw
    obtain ⟨v, hv, hv'⟩ := hshared hid
    rw [hashes_of_get hget] at hv
    rw [hashes_of_get hget'] at hv'
    have hpos : 0 < s.manager.blockSize := by rw [h.blockSize]; exact hb
    have hnext : p < (p / s.manager.blockSize + 1) * s.manager.blockSize := by
      have hdiv := Nat.div_add_mod p s.manager.blockSize
      have hmod := Nat.mod_lt p hpos
      rw [Nat.mul_comm] at hdiv
      rw [Nat.succ_mul]
      omega
    have hh := h.hashed id' r' hget'
    unfold Hashes at hh
    split at hh
    · obtain ⟨xs, hxs⟩ := hh
      have hone :=
        h.kv_shared attend draft' hl hc.plain hget hv hxs (hc.plain id' r' hget') hv' hnext
      have htwo :=
        h.kv_shared attend draft' hl hc.plain hget' hv' hxs (hc.plain id' r' hget') hv' hnext
      rw [hone.2.2.2, htwo.2.2.2]
    · rw [hh] at hv'
      simp at hv'

/-- The pass leaves a coherent memory behind. -/
theorem Coherent.pass (hl : hasher.LosslessOn seen) (hb : 0 < hasher.blockSize)
    (hc : s.Coherent attend hasher seen adapters draft mem) (h : s.Inv hasher seen free)
    (hp : s.Planned) (hfits : s.Fits) (hpass : s.Computes attend draft draft' mem mem')
    (hm : s'.manager = s.manager)
    (hreqs : ∀ id, s'.requests.get? id = (s.requests.get? id).map fun r =>
      { r with numComputedTokens := r.numComputedTokens + s.scheduledTokens id }) :
    s'.Coherent attend hasher seen adapters draft' mem' := by
  have hold : ∀ {id r'}, s'.requests.get? id = some r' → ∃ r, s.requests.get? id = some r ∧
      r' = { r with numComputedTokens := r.numComputedTokens + s.scheduledTokens id } := by
    intro id r' hget'
    rw [hreqs, Option.map_eq_some_iff] at hget'
    obtain ⟨r, hget, heq⟩ := hget'
    exact ⟨r, hget, heq.symm⟩
  have hslot : ∀ id p, s'.slotId id p = s.slotId id p := by
    intro id p
    unfold slotId blockAt slotOf
    rw [hm]
  -- Computed positions keep their drafts.
  have hkv : ∀ {id r p}, s.requests.get? id = some r → p < r.numComputedTokens →
      s.kv attend draft' id p = s.kv attend draft id p := by
    intro id r p hget hlt
    apply kv_congr rfl
    intro q hq
    have hno : ¬ s.Writes id q := by
      rw [writes_iff hget]
      omega
    rw [tokenAt, tokenAt, hget]
    simp only [hpass.draft id q hno]
  have hkv' : ∀ {id r' p}, s'.requests.get? id = some r' →
      s'.kv attend draft' id p = s.kv attend draft' id p := by
    intro id r' p hget'
    obtain ⟨r, hget, rfl⟩ := hold hget'
    rw [kv_of_get hget', kv_of_get hget]
  have hplaced : ∀ id p q, s.Covers id p → q ≤ p → s.Covers id q ∧ ∃ x, s.slotId id q = some x := by
    rintro id p q ⟨hlen, r, hget, hlt⟩ hq
    refine ⟨⟨by omega, r, hget, by omega⟩, ?_⟩
    by_cases hcomputed : q < r.numComputedTokens
    · obtain ⟨x, hx, -⟩ := hc.computed id r q hget hcomputed (by omega)
      exact ⟨x, hx⟩
    · obtain ⟨b, hblock⟩ := hp.placed id q ((writes_iff hget).2 ⟨by omega, by omega⟩) (by omega)
      exact ⟨_, slotId_eq_some.2 ⟨b, hblock, rfl⟩⟩
  have hcovers : ∀ i p, s.Writes i p → s.Covers i p := by
    intro i p hw
    obtain ⟨r, n, hget, -⟩ := id hw
    exact ⟨hfits i p hw, r, hget, ((writes_iff hget).1 hw).2⟩
  have hsound : ∀ {id p x}, s.Covers id p → s.slotId id p = some x →
      mem' x = s.kv attend draft' id p := by
    intro id p x hi hx
    refine hpass.batch.sound hplaced hcovers ?_ ?_ hi hx
    · intro i p j q x hi hw hx hx'
      exact hc.agree hl hb h hi hw hx hx'
    · rintro i p x ⟨hlen, r, hget, hlt⟩ hx
      by_cases hcomputed : p < r.numComputedTokens
      · obtain ⟨y, hy, hholds⟩ := hc.computed i r p hget hcomputed hlen
        rw [hx, Option.some.injEq] at hy
        rw [hy]
        show Causal.Holds s.slotId s.Writes mem y (s.kv attend draft' i p)
        rw [hkv hget hcomputed]
        exact hholds
      · exact .inr ⟨i, p, (writes_iff hget).2 ⟨by omega, hlt⟩, hx⟩
  constructor
  · intro id r' hget'
    obtain ⟨r, hget, rfl⟩ := hold hget'
    have hplain := hc.plain id r hget
    exact ⟨hplain.text, hplain.adapter, hplain.salt⟩
  · intro id r' hget' hstatus
    obtain ⟨r, hget, rfl⟩ := hold hget'
    have hnone : s.numScheduledTokens.get? id = none := by
      rw [← Option.not_isSome_iff_eq_none]
      intro hsome
      obtain ⟨r₁, hget₁, hrun⟩ := (h.running id).1 (hp.pending id hsome)
      rw [hget, Option.some.injEq] at hget₁
      exact hstatus (hget₁ ▸ hrun)
    show r.numComputedTokens + s.scheduledTokens id = 0
    rw [scheduledTokens, hnone, hc.idle id r hget hstatus]
    rfl
  · intro id r' p hget' hlt hlen
    obtain ⟨r, hget, rfl⟩ := hold hget'
    rw [hm] at hlen
    have hcover : s.Covers id p := ⟨hlen, r, hget, hlt⟩
    obtain ⟨-, x, hx⟩ := hplaced id p p hcover (Nat.le_refl p)
    exact ⟨x, by rw [hslot, hx], .inl (by rw [hsound hcover hx, hkv' hget'])⟩
  · intro b key r xs i o hkey hr hplain hi ho
    rw [hm] at hkey ho
    have hbs : s'.manager.blockSize = s.manager.blockSize := by rw [hm]
    have hof : s'.slotOf b o = s.slotOf b o := by
      unfold slotOf
      rw [hm]
    rw [hbs, hof]
    refine .inl (hpass.batch.holds (hc.cached b key r xs i o hkey hr hplain hi ho) ?_)
    intro id p hw hx
    -- A cached block that is written stands where its hash says.
    obtain ⟨b', hblock, hslotb⟩ := slotId_eq_some.1 hx
    obtain ⟨hentry, hU⟩ := h.usable_at hblock
    have hpos : 0 < s.manager.blockSize := Nat.zero_lt_of_lt ho
    obtain ⟨rfl, hmod⟩ :=
      h.slotOf_inj hU (h.good.pool.usable_of_hash hkey) (Nat.mod_lt p hpos) ho hslotb
    obtain ⟨-, hv⟩ := h.good.hashed id _ _ b' key hentry hblock hkey
    have hcover := hcovers id p hw
    obtain ⟨-, r', hget', -⟩ := hcover
    rw [hashes_of_get hget'] at hv
    have hdiv := Nat.div_add_mod p s.manager.blockSize
    rw [Nat.mul_comm] at hdiv
    obtain ⟨hij, -, -, heq⟩ :=
      h.kv_shared attend draft' hl hc.plain hget' hv hr hplain hi (p := p) (by
        rw [Nat.succ_mul]
        omega)
    have hp : i * s.manager.blockSize + o = p := by
      rw [← hij, ← hmod]
      exact hdiv
    rw [hp, ← heq]
    exact hsound (hcovers id p hw) hx

/-! ### The calls -/

/-- What the scheduler makes sure of before a call: a request that is in the step is not preempted,
and drafts that are not rejected are the tokens that are appended. -/
def Sensible (adapters : String → Prop) (draft : String → Nat → Int) (s : Scheduler H) :
    Action H → Prop
  | .addRequest request => request.Plain adapters
  | .preempt requestId => s.numScheduledTokens.get? requestId = none
  | .appendOutput requestId tokenIds => ∀ r, s.requests.get? requestId = some r →
      ∀ k, r.numTokens + k < r.numComputedTokens →
      tokenIds[k]? = some (draft requestId (r.numTokens + k))
  | _ => True

theorem Coherent.addRequest (hc : s.Coherent attend hasher seen adapters draft mem)
    (h : s.Inv hasher seen free) (h' : (s.addRequest r).Inv hasher seen free')
    (hnew : s.requests.get? r.requestId = none) (hplain : r.Plain adapters) :
    (s.addRequest r).Coherent attend hasher seen adapters draft mem := by
  obtain ⟨r₁, hr₁⟩ : ∃ r₁ : Request H, r₁ = ({ r with
      status := .waiting, numComputedTokens := 0, blockHashes := [] } : Request H).updateBlockHashes
        s.blockHasher := ⟨_, rfl⟩
  have hfields : r₁.mmFeatures = r.mmFeatures ∧ r₁.loraName = r.loraName ∧
      r₁.cacheSalt = r.cacheSalt ∧
      r₁.numComputedTokens = 0 := by
    rw [hr₁]
    cases s.blockHasher <;> exact ⟨rfl, rfl, rfl, rfl⟩
  have hget : ∀ id', (s.addRequest r).requests.get? id' =
      if r.requestId = id' then some r₁ else s.requests.get? id' := by
    intro id'
    rw [hr₁]
    exact Dict.get?_set _ _ _ _
  refine hc.mono h h' ⟨rfl, rfl, rfl, rfl, rfl, rfl⟩ ?_ ?_ (fun _ _ hkey => hkey)
  · intro id' r' hget'
    rw [hget] at hget'
    split at hget'
    · obtain rfl := Option.some.inj hget'
      exact ⟨⟨hfields.1 ▸ hplain.text, hfields.2.1 ▸ hplain.adapter, hfields.2.2.1 ▸ hplain.salt⟩,
        fun _ => hfields.2.2.2, .inl hfields.2.2.2⟩
    · next hne =>
      refine ⟨hc.plain id' r' hget', hc.idle id' r' hget', .inr ⟨r', hget', Nat.le_refl _, rfl, ?_⟩⟩
      intro p _
      rw [kv_of_get hget', kv_of_get (by rw [hget, if_neg hne, hget'])]
  · rintro id' p ⟨r', n, hget', hn, hp⟩
    have hne : r.requestId ≠ id' := by
      rintro rfl
      rw [hnew] at hget'
      cases hget'
    exact ⟨⟨r', n, by rw [hget, if_neg hne, hget'], hn, hp⟩, rfl⟩

theorem Coherent.appendOutput {tokenIds : List Int}
    (hc : s.Coherent attend hasher seen adapters draft mem) (h : s.Inv hasher seen free)
    (h' :
      ({ s with requests := s.requests.set id (r.appendOutputTokenIds s.blockHasher tokenIds) } :
        Scheduler H).Inv hasher seen free') (hnil : s.numScheduledTokens = [])
    (hget : s.requests.get? id = some r)
    (hdraft : ∀ k, r.numTokens + k < r.numComputedTokens →
      tokenIds[k]? = some (draft id (r.numTokens + k))) :
    ({ s with requests := s.requests.set id (r.appendOutputTokenIds s.blockHasher tokenIds) } :
      Scheduler H).Coherent attend hasher seen adapters draft mem := by
  obtain ⟨r₁, hr₁⟩ : ∃ r₁, r₁ = r.appendOutputTokenIds s.blockHasher tokenIds := ⟨_, rfl⟩
  have hfields : r₁.mmFeatures = r.mmFeatures ∧ r₁.loraName = r.loraName ∧
      r₁.cacheSalt = r.cacheSalt ∧
      r₁.numComputedTokens = r.numComputedTokens ∧ r₁.status = r.status ∧
      r₁.allTokenIds = r.allTokenIds ++ tokenIds := by
    rw [hr₁]
    cases s.blockHasher <;> exact ⟨rfl, rfl, rfl, rfl, rfl, rfl⟩
  obtain ⟨hmm, hlora, hsalt, hcomputed, hstatus, htokens⟩ := hfields
  rw [← hr₁] at h' ⊢
  have hplain := hc.plain id r hget
  refine hc.mono h h' ⟨rfl, rfl, rfl, rfl, rfl, rfl⟩ ?_ ?_ (fun _ _ hkey => hkey)
  · intro id' r' hget'
    have hcases := hget'
    rw [Dict.get?_set] at hcases
    split at hcases
    · next heq =>
      subst heq
      obtain rfl := Option.some.inj hcases
      refine ⟨⟨hmm ▸ hplain.text, hlora ▸ hplain.adapter, hsalt ▸ hplain.salt⟩, ?_,
        .inr ⟨r, hget, Nat.le_of_eq hcomputed, rfl, ?_⟩⟩
      · rw [hstatus, hcomputed]
        exact hc.idle id r hget
      · intro p hp
        rw [kv_of_get hget', kv_of_get hget, hlora]
        apply Causal.value_congr
        intro q hq
        rw [htokens, List.getD_eq_getElem?_getD, List.getD_eq_getElem?_getD]
        by_cases hown : q < r.allTokenIds.length
        · rw [List.getElem?_append_left hown]
        · -- The token was a draft.
          have hk : r.numTokens + (q - r.allTokenIds.length) = q := by
            rw [Request.numTokens]
            omega
          have hq' := hdraft (q - r.allTokenIds.length) (by omega)
          rw [List.getElem?_append_right (by omega), hq', hk, List.getElem?_eq_none (by omega)]
          rfl
    · next hne =>
      refine ⟨hc.plain id' r' hcases, hc.idle id' r' hcases,
        .inr ⟨r', hcases, Nat.le_refl _, rfl, ?_⟩⟩
      intro p _
      rw [kv_of_get hget', kv_of_get hcases]
  · rintro id' p ⟨r', n, -, hn, -⟩
    rw [hnil] at hn
    cases hn

/-- Every call but the pass keeps the memory coherent. -/
theorem call_coherent (hl : hasher.LosslessOn seen) (hb : 0 < hasher.blockSize)
    (hs : s.Sound hasher seen) (hc : s.Coherent attend hasher seen adapters draft mem)
    {a : Action H} {es : List Event} (hne : a ≠ .updateAfterSchedule)
    (hseen : ∀ y ∈ s.hashInputs a, seen y) (hok : Sensible adapters draft s a) (hfits : s'.Fits)
    (hstep : s.step a = some (s', es)) :
    s'.Coherent attend hasher seen adapters draft mem := by
  obtain ⟨⟨⟨free', h'⟩, hp'⟩, -⟩ := step_sound hl hb hs hseen hstep
  obtain ⟨⟨free, h⟩, hp⟩ := hs
  cases a with
  | addRequest request =>
    simp only [step] at hstep
    split at hstep
    · by_cases hused : (s.requests.get? request.requestId).isNone = true
      · rw [if_pos hused] at hstep
        obtain ⟨rfl, -⟩ := settle_ok hstep
        exact hc.addRequest h h' (Option.isNone_iff_eq_none.1 hused) hok
      · rw [if_neg hused] at hstep
        obtain ⟨rfl, -⟩ := settle_error hstep
        exact hc
    · cases hstep
  | scheduleWaiting id n =>
    simp only [step] at hstep
    split at hstep
    · cases hstep
    · next r hget =>
      split at hstep
      · next hcond =>
        have hfirst : s.numScheduledTokens.get? id = none := by
          rw [← Option.not_isSome_iff_eq_none]
          intro hsome
          obtain ⟨r₁, hget₁, hrun⟩ := (h.running id).1 (hp.pending id hsome)
          rw [hget, Option.some.injEq] at hget₁
          exact hcond.1 (hget₁ ▸ hrun)
        rcases scheduleWaiting_inv hl hb h hp hget hcond.1 hcond.2 with
          hnone | ⟨s₁, hits, news, free₁, c, hsome, -, -, hjoin⟩
        · rw [hnone] at hstep
          obtain ⟨rfl, -⟩ := settle_ok hstep
          exact hc
        · rw [hsome] at hstep
          obtain ⟨rfl, -⟩ := settle_ok hstep
          exact hc.join hl hb h h' hp' hget
            (fun _ => hc.idle id r hget hcond.1) hfirst hcond.2 hjoin hfits
      · cases hstep
  | scheduleRunning id n =>
    simp only [step] at hstep
    split at hstep
    · cases hstep
    · next r hget =>
      split at hstep
      · next hcond =>
        have hfirst := Option.isNone_iff_eq_none.1 hcond.2.2
        rcases scheduleRunning_inv hl hb h hp hget hcond.1 hfirst hcond.2.1 with
          ⟨-, hnone⟩ | ⟨-, s₁, news, free₁, hsome, -, -, hjoin⟩
        · rw [hnone] at hstep
          obtain ⟨rfl, -⟩ := settle_ok hstep
          exact hc
        · rw [hsome] at hstep
          obtain ⟨rfl, -⟩ := settle_ok hstep
          exact hc.join hl hb h h' hp' hget
            (fun hhits => absurd rfl hhits) hfirst hcond.2.1 hjoin hfits
      · cases hstep
  | preempt id =>
    simp only [step] at hstep
    split at hstep
    · cases hstep
    · next r hget =>
      split at hstep
      · next hrun =>
        obtain ⟨s₁, free₁, hpreempt, -, -, -, -, hloose⟩ := preemptRequest_inv h hp hget hrun
        rw [hpreempt] at hstep
        obtain ⟨rfl, -⟩ := settle_ok hstep
        exact hc.loosen h h' (hloose hok)
      · cases hstep
  | updateAfterSchedule => exact absurd rfl hne
  | reject id n =>
    simp only [step] at hstep
    split at hstep
    · cases hstep
    · next r hget =>
      split at hstep
      · next hcond =>
        obtain ⟨rfl, -⟩ := Prod.mk.inj (Option.some.inj hstep)
        refine hc.loosen h h' ⟨?_, ?_, ⟨rfl, rfl, rfl, rfl, rfl, rfl⟩, fun _ _ hkey => hkey⟩
        · intro id' r' hget'
          rw [Dict.get?_set] at hget'
          split at hget'
          · next heq =>
            obtain rfl := Option.some.inj hget'
            exact ⟨r, heq ▸ hget, rfl, .inr ⟨rfl, Nat.sub_le _ _, rfl⟩⟩
          · exact ⟨r', hget', rfl, .inr ⟨rfl, Nat.le_refl _, rfl⟩⟩
        · intro id' n' hn
          rw [hcond.1] at hn
          cases hn
      · cases hstep
  | appendOutput id tokenIds =>
    simp only [step] at hstep
    split at hstep
    · cases hstep
    · next r hget =>
      split at hstep
      · next hcond =>
        obtain ⟨rfl, -⟩ := Prod.mk.inj (Option.some.inj hstep)
        exact hc.appendOutput h h' hcond hget (hok r hget)
      · cases hstep
  | finish id =>
    simp only [step] at hstep
    split at hstep
    · cases hstep
    · next r hget =>
      split at hstep
      · next hcond =>
        obtain ⟨s₁, free₁, hfree, -, -, hloose⟩ := freeBlocks_inv h hp hcond hget
        rw [hfree] at hstep
        obtain ⟨rfl, -⟩ := settle_ok hstep
        exact hc.loosen h h' hloose
      · cases hstep
  | evict blockIds =>
    simp only [step] at hstep
    split at hstep
    · next hcond =>
      obtain ⟨m', hevict, -, hconf, hentries, -, hhash⟩ :=
        KVCacheManager.evictBlocks_good h.good hcond.2
      rw [hevict] at hstep
      obtain ⟨rfl, -⟩ := settle_ok hstep
      have hblocks : ∀ id, m'.reqBlocks id = s.manager.reqBlocks id := by
        intro id
        rw [KVCacheManager.reqBlocks, hentries]
        rfl
      refine hc.loosen h h' ⟨fun id r hget => ⟨r, hget, rfl, .inr ⟨rfl, Nat.le_refl _, hblocks id⟩⟩,
        fun id n hn => ⟨hn, rfl, hblocks id⟩, hconf, ?_⟩
      intro b key hkey
      have hkey' : (m'.blockPool.object b).blockHash = some key := hkey
      rcases hhash b with hsame | hgone
      · exact hsame ▸ hkey'
      · rw [hgone] at hkey'
        cases hkey'
    · cases hstep
  | reset resetRunning =>
    simp only [step] at hstep
    split at hstep
    · next hcond =>
      obtain ⟨s₁, success, free₁, hreset, -, -, -, -, -, hloose⟩ :=
        resetPrefixCache_inv h hp hcond resetRunning
      rw [hreset] at hstep
      obtain ⟨rfl, -⟩ := settle_ok hstep
      exact hc.loosen h h' hloose
    · cases hstep

/-! ### Runs -/

/-- The scheduler with the memory of the cache and the drafts in it. -/
structure Serving (H V : Type) where
  scheduler : Scheduler H
  draft : String → Nat → Int
  memory : Int → V

/-- One call, with what it does to the memory.  The hash function gets `seen`. -/
inductive Serves (attend : Option String → List V → Int → V) (seen : HashInput H → Prop)
    (adapters : String → Prop) : Serving H V → Serving H V → Prop where
  | call {s s' : Scheduler H} {draft : String → Nat → Int} {mem : Int → V} {a : Action H}
      {es : List Event} (hne : a ≠ .updateAfterSchedule) (hstep : s.step a = some (s', es))
      (hseen : ∀ y ∈ s.hashInputs a, seen y) (hok : Sensible adapters draft s a)
      (hfits : s'.Fits) : Serves attend seen adapters ⟨s, draft, mem⟩ ⟨s', draft, mem⟩
  | pass {s s' : Scheduler H} {draft draft' : String → Nat → Int} {mem mem' : Int → V}
    {es : List Event}
      (hstep : s.step .updateAfterSchedule = some (s', es))
      (hpass : s.Computes attend draft draft' mem mem') :
      Serves attend seen adapters ⟨s, draft, mem⟩ ⟨s', draft', mem'⟩

/-- The invariant of the scheduler with its memory. -/
structure Serving.Good (attend : Option String → List V → Int → V) (hasher : Hasher H)
    (seen : HashInput H → Prop) (adapters : String → Prop) (t : Serving H V) : Prop where
  sound : t.scheduler.Sound hasher seen
  coherent : t.scheduler.Coherent attend hasher seen adapters t.draft t.memory
  fits : t.scheduler.Fits

theorem serves_good (hl : hasher.LosslessOn seen) (hb : 0 < hasher.blockSize) {t t' : Serving H V}
    (ht : t.Good attend hasher seen adapters) (hserves : Serves attend seen adapters t t') :
    t'.Good attend hasher seen adapters := by
  obtain ⟨hs, hc, hf⟩ := ht
  cases hserves with
  | call hne hstep hseen hok hfits =>
    exact ⟨(step_sound hl hb hs hseen hstep).1,
      call_coherent hl hb hs hc hne hseen hok hfits hstep, hfits⟩
  | pass hstep hpass =>
    refine ⟨(step_sound hl hb hs (by simp [hashInputs]) hstep).1, ?_, ?_⟩
    all_goals
      obtain ⟨⟨free, h⟩, hp⟩ := hs
      obtain ⟨s₁, hupdate, -, -, hm, hnil, hreqs⟩ := updateAfterSchedule_inv h hp
      simp only [step] at hstep
      rw [hupdate] at hstep
      obtain ⟨rfl, -⟩ := settle_ok hstep
    · exact hc.pass hl hb h hp hf hpass hm hreqs
    · rintro id p ⟨r, n, -, hn, -⟩
      rw [hnil] at hn
      cases hn

theorem init_good {hasher : Hasher H} {numGpuBlocks maxModelLen numLookaheadTokens : Nat}
    {enableCaching useEagle reserveFullIsl : Bool}
    (hinit : init hasher numGpuBlocks maxModelLen enableCaching useEagle reserveFullIsl
      numLookaheadTokens = .ok s) : Serving.Good attend hasher seen adapters ⟨s, draft, mem⟩ := by
  have hn : 0 < numGpuBlocks := by
    by_contra hn
    simp only [init, BlockPool.init, if_neg hn, bind, Except.bind] at hinit
    cases hinit
  obtain ⟨s₀, free, hinit₀, -, hempty, hnone, hclear⟩ :=
    init_inv hasher seen hn maxModelLen enableCaching
    useEagle reserveFullIsl numLookaheadTokens
  have hsound : s.Sound hasher seen := init_sound hinit
  rw [hinit₀] at hinit
  obtain rfl := Except.ok.inj hinit
  refine ⟨hsound, ⟨?_, ?_, ?_, ?_⟩, ?_⟩
  · intro id r hget
    rw [hnone] at hget
    cases hget
  · intro id r hget
    rw [hnone] at hget
    cases hget
  · intro id r p hget
    rw [hnone] at hget
    cases hget
  · intro b key r xs i o hkey
    rw [hclear] at hkey
    cases hkey
  · rintro id p ⟨r, n, hget, -⟩
    rw [hnone] at hget
    cases hget

theorem run_good (hl : hasher.LosslessOn seen) (hb : 0 < hasher.blockSize) {t t' : Serving H V}
    (ht : t.Good attend hasher seen adapters)
    (hrun : Relation.ReflTransGen (Serves attend seen adapters) t t') :
    t'.Good attend hasher seen adapters := by
  induction hrun with
  | refl => exact ht
  | tail _ hserves ih => exact serves_good hl hb ih hserves

/-- The pass has a result. -/
theorem exists_pass (attend : Option String → List V → Int → V) (hb : 0 < hasher.blockSize)
    (hs : s.Sound hasher seen) (hf : s.Fits) (draft : String → Nat → Int) (mem : Int → V) :
    ∃ mem', s.Computes attend draft draft mem mem' := by
  obtain ⟨⟨free, h⟩, hp⟩ := hs
  have hapart : ∀ id p id' p' x, s.Writes id p → s.Writes id' p' → s.slotId id p = some x →
      s.slotId id' p' = some x → id = id' ∧ p = p' := by
    intro id p id' p' x hw hw' hx hx'
    obtain ⟨rfl, -⟩ := h.slotId_inj hb hx hx'
    refine ⟨?_, rfl⟩
    by_contra hid
    obtain ⟨b, hblock, hslot⟩ := slotId_eq_some.1 hx
    obtain ⟨b', hblock', hslot'⟩ := slotId_eq_some.1 hx'
    have hpos : 0 < s.manager.blockSize := by rw [h.blockSize]; exact hb
    obtain ⟨rfl, -⟩ :=
      h.slotOf_inj (h.usable_at hblock).2 (h.usable_at hblock').2 (Nat.mod_lt p hpos)
      (Nat.mod_lt p hpos) (hslot.trans hslot'.symm)
    exact hp.apart id id' p p b hid hw hw' hblock hblock'
  have hread : ∀ id p q id' k x, s.Writes id p → q < p → s.slotId id q = some x → s.Writes id' k →
      s.slotId id' k = some x → q = k := by
    intro id p q id' k x _ _ hx _ hx'
    exact (h.slotId_inj hb hx hx').1
  obtain ⟨mem', hbatch⟩ : ∃ mem', Causal.Batch (fun id => attend (s.adapter id)) s.slotId
      (s.tokenAt draft) s.Writes mem mem' := Causal.exists_batch hf hapart hread
  exact ⟨mem', hbatch, fun _ _ _ => rfl⟩

end Memory

end Scheduler

end AiPipelines.KvCache

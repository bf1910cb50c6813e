import AiPipelines.Jetson.SlotMapping

/-!
# The Triton kernel that the patch replaces

`_compute_slot_mapping_kernel` of vLLM's `block_table.py` and its launch.  The
grid has `num_reqs + 1` programs.  Program `r` maps the tokens of request `r`
in tiles of 1024 lanes, and the last program pads the buffer behind the batch.
A tile computes in all its lanes; `mask` keeps the lanes behind the end from
reading a position and from storing.

Pointers are offsets into the buffers, and a read or a store outside of a
buffer is an error.  Unlike PyTorch's, `//` and `%` of Triton round towards
zero.

The programs of a grid run in no particular order.  `torch_refines_kernel` says
that the patch leaves what the kernel leaves in any order.
-/

namespace AiPipelines.Jetson

/-- `BLOCK_SIZE` of the launch. -/
def tileSize : Nat := 1024

/-- `range(start, stop, BLOCK_SIZE)`. -/
def tileStarts (start stop : Nat) : List Nat :=
  (List.range ((stop - start + (tileSize - 1)) / tileSize)).map fun k => start + k * tileSize

/-- `i + tl.arange(0, BLOCK_SIZE)`. -/
def tileOffsets (i : Nat) : List Nat := (List.range tileSize).map fun k => i + k

/-- `tl.load(ptr + offset)`. -/
def tlLoad {α : Type} (buf : List α) (offset : Int) : Except TensorError α :=
  if 0 ≤ offset then
    match buf[offset.toNat]? with
    | some v => .ok v
    | none => .error .indexError
  else .error .indexError

/-- One lane of `tl.load(ptr + offsets, mask=offsets < stop, other=0)`. -/
def tlLoadMasked (stop : Nat) (buf : List Int) (offset : Nat) : Except TensorError Int :=
  if offset < stop then tlLoad buf offset else .ok 0

/-- One lane of `tl.store(ptr + offsets, values, mask=offsets < stop)`. -/
def storeLane (stop : Nat) (buf : List Int) (lane : Nat × Int) : Except TensorError (List Int) :=
  if lane.1 < stop then
    if lane.1 < buf.length then .ok (buf.set lane.1 lane.2) else .error .indexError
  else .ok buf

/-- `tl.store(ptr + offsets, values, mask=offsets < stop)`. -/
def tlStore (stop : Nat) (buf : List Int) (lanes : List (Nat × Int)) :
    Except TensorError (List Int) :=
  lanes.foldlM (storeLane stop) buf

namespace BlockTable

variable (bt : BlockTable)

/-- The slot that the lane at `offset` computes for program `reqIdx`. -/
def laneSlot (positions : List Int) (reqIdx endIdx offset : Nat) : Except TensorError Int := do
  let pos ← tlLoadMasked endIdx positions offset
  let blockIndex := pos.tdiv bt.virtualBlockSize
  let rowOffset := reqIdx * bt.maxNumBlocksPerReq
  let blockNumber ← tlLoad bt.table (rowOffset + blockIndex)
  let virtualBlockOffset := pos - blockIndex * bt.virtualBlockSize
  let isLocal := (virtualBlockOffset.tdiv bt.cpKvCacheInterleaveSize).tmod bt.totalCpWorldSize =
    bt.totalCpRank
  let localBlockOffset :=
    virtualBlockOffset.tdiv (bt.totalCpWorldSize * bt.cpKvCacheInterleaveSize) *
        bt.cpKvCacheInterleaveSize +
      virtualBlockOffset.tmod bt.cpKvCacheInterleaveSize
  return if isLocal then blockNumber * bt.blockSize + localBlockOffset else padSlotId

/-- One round of the loop over the tiles of a request. -/
def slotTile (positions : List Int) (reqIdx endIdx : Nat) (buf : List Int) (i : Nat) :
    Except TensorError (List Int) := do
  let slotIds ← (tileOffsets i).mapM (bt.laneSlot positions reqIdx endIdx)
  tlStore endIdx buf ((tileOffsets i).zip slotIds)

/-- One round of the loop of the padding program. -/
def padTile (buf : List Int) (i : Nat) : Except TensorError (List Int) :=
  tlStore bt.maxNumBatchedTokens buf ((tileOffsets i).map fun o => (o, padSlotId))

/-- `_compute_slot_mapping_kernel`, as program `pid` of the grid. -/
def slotMappingKernel (numReqs : Nat) (queryStartLoc : List Nat) (positions : List Int)
    (buf : List Int) (pid : Nat) : Except TensorError (List Int) :=
  if pid = numReqs then
    (tileStarts positions.length bt.maxNumBatchedTokens).foldlM bt.padTile buf
  else do
    let startIdx ← tlLoad queryStartLoc pid
    let endIdx ← tlLoad queryStartLoc (pid + 1 : Nat)
    (tileStarts startIdx endIdx).foldlM (bt.slotTile positions pid endIdx) buf

/-- `compute_slot_mapping`: the kernel with its programs run in the given
order. -/
def computeSlotMapping (numReqs : Nat) (queryStartLoc : List Nat) (positions : List Int)
    (order : List Nat) : Except TensorError (List Int) :=
  order.foldlM (bt.slotMappingKernel numReqs queryStartLoc positions) bt.slotMapping

/-! ## Tiles -/

variable {bt} {numReqs r o : Nat} {queryStartLoc : List Nat} {positions : List Int}

theorem mem_tileOffsets {i : Nat} : o ∈ tileOffsets i ↔ i ≤ o ∧ o < i + tileSize := by
  simp only [tileOffsets, List.mem_map, List.mem_range]
  constructor
  · intro ⟨k, hk, ho⟩
    omega
  · intro ⟨hlo, hhi⟩
    exact ⟨o - i, by omega, by omega⟩

/-- The tiles of a range cover it. -/
theorem tileStarts_cover {start stop : Nat} :
    (∃ i ∈ tileStarts start stop, i ≤ o ∧ o < i + tileSize ∧ o < stop) ↔
      start ≤ o ∧ o < stop := by
  simp only [tileStarts, List.mem_map, List.mem_range, exists_exists_and_eq_and, tileSize]
  constructor
  · intro ⟨k, hk, hlo, hhi, hstop⟩
    omega
  · intro ⟨hlo, hhi⟩
    exact ⟨(o - start) / 1024, by omega, by omega, by omega, hhi⟩

/-- A tile begins inside the range. -/
theorem tileStarts_lt {start stop i : Nat} (hi : i ∈ tileStarts start stop) :
    start ≤ i ∧ i < stop := by
  simp only [tileStarts, List.mem_map, List.mem_range, tileSize] at hi
  obtain ⟨k, hk, rfl⟩ := hi
  omega

/-- A masked store writes the lanes before `stop`. -/
theorem tlStore_fills {f : Nat → Int} {stop : Nat} {buf : List Int} {lanes : List (Nat × Int)}
    (hstop : stop ≤ buf.length) (hlanes : ∀ l ∈ lanes, l.1 < stop → l.2 = f l.1) :
    ∃ buf', tlStore stop buf lanes = .ok buf' ∧
      Fills (fun o => ∃ l ∈ lanes, o = l.1 ∧ l.1 < stop) f buf buf' := by
  have hlane : ∀ l ∈ lanes, ∀ b : List Int, b.length = buf.length →
      ∃ b', storeLane stop b l = .ok b' ∧ Fills (fun o => o = l.1 ∧ l.1 < stop) f b b' := by
    intro l hl b hb
    unfold storeLane
    by_cases hmask : l.1 < stop
    · rw [if_pos hmask, if_pos (by omega), hlanes l hl hmask]
      exact ⟨_, rfl, (Fills.set l.1).congr fun o _ => by simp [hmask]⟩
    · rw [if_neg hmask]
      exact ⟨b, rfl, .nothing fun o ho => hmask ho.2⟩
  exact Fills.foldlM hlane

/-! ## Programs -/

theorem tlLoad_eq {α : Type} {buf : List α} {k : Nat} {v : α} (h : buf[k]? = some v) :
    tlLoad buf (k : Int) = .ok v := by
  have hk : 0 ≤ (k : Int) := by omega
  simp [tlLoad, hk, h]

theorem tlLoad_startLoc (hlen : r < queryStartLoc.length) :
    tlLoad queryStartLoc (r : Int) = .ok (startLoc queryStartLoc r) := by
  apply tlLoad_eq
  rw [startLoc, List.getD_eq_getElem?_getD, List.getElem?_eq_getElem hlen]
  rfl

/-- The block number at an index of a row, read from the flat table. -/
theorem tlLoad_table {k : Nat} (hr : r < bt.maxNumReqs) (hk : k < bt.maxNumBlocksPerReq) :
    tlLoad bt.table (((r * bt.maxNumBlocksPerReq : Nat) : Int) + (k : Int)) =
      .ok (bt.blockNumber r k) := by
  have hrow : r * bt.maxNumBlocksPerReq + bt.maxNumBlocksPerReq ≤
      bt.maxNumReqs * bt.maxNumBlocksPerReq := by
    rw [← Nat.succ_mul]
    exact Nat.mul_le_mul_right _ hr
  have hlen : r * bt.maxNumBlocksPerReq + k < bt.table.length := by
    rw [bt.table_length]
    omega
  rw [← Int.natCast_add]
  apply tlLoad_eq
  rw [blockNumber, List.getD_eq_getElem?_getD, List.getElem?_eq_getElem hlen]
  rfl

/-- A lane that has the position `p` computes its slot. -/
theorem laneSlot_eq {endIdx p : Nat} (hr : r < bt.maxNumReqs)
    (hp : p / bt.virtualBlockSize < bt.maxNumBlocksPerReq)
    (hpos : tlLoadMasked endIdx positions o = .ok (p : Int)) :
    bt.laneSlot positions r endIdx o = .ok (bt.slot r p) := by
  simp only [laneSlot, hpos, bind, Except.bind, pure, Except.pure]
  rw [← Int.ofNat_tdiv, tlLoad_table hr hp]
  simp only [offset_eq, slot, Interleave.owner, Interleave.index]
  rw [← Int.natCast_mul, ← Int.ofNat_tdiv, ← Int.ofNat_tdiv, ← Int.ofNat_tmod, ← Int.ofNat_tmod]
  norm_cast

/-- The lanes of a tile compute the slots of the tokens.  A lane behind the
end of the request computes the slot of position 0. -/
theorem laneSlot_tile (h : bt.Batch numReqs queryStartLoc positions) (hr : r < numReqs) {i : Nat}
    (hi : i ∈ tileStarts (startLoc queryStartLoc r) (startLoc queryStartLoc (r + 1)))
    (ho : o ∈ tileOffsets i) :
    ∃ s, bt.laneSlot positions r (startLoc queryStartLoc (r + 1)) o = .ok s ∧
      (o < startLoc queryStartLoc (r + 1) → s = bt.cell numReqs queryStartLoc positions o) := by
  obtain ⟨hstart, hstop⟩ := tileStarts_lt hi
  obtain ⟨hlo, hhi⟩ := mem_tileOffsets.mp ho
  by_cases hmask : o < startLoc queryStartLoc (r + 1)
  · obtain ⟨p, hp, hrow, hcov, hcell⟩ := h.position ⟨hr, Nat.le_trans hstart hlo, hmask⟩
    refine ⟨bt.slot r p, laneSlot_eq hrow hcov ?_, fun _ => hcell.symm⟩
    rw [tlLoadMasked, if_pos hmask, tlLoad_eq hp]
  · -- the first lane of the tile is a token, so the row has an entry 0
    obtain ⟨p, -, hrow, hcov, -⟩ := h.position ⟨hr, hstart, hstop⟩
    have hzero : 0 / bt.virtualBlockSize < bt.maxNumBlocksPerReq := by
      rw [Nat.zero_div]
      exact Nat.lt_of_le_of_lt (Nat.zero_le _) hcov
    refine ⟨bt.slot r 0, laneSlot_eq hrow hzero ?_, fun hlt => absurd hlt hmask⟩
    rw [tlLoadMasked, if_neg hmask]
    rfl

theorem mapM_zip {α β ε : Type} {f : α → Except ε β} {Q : α → β → Prop} {xs : List α}
    (h : ∀ x ∈ xs, ∃ y, f x = .ok y ∧ Q x y) :
    ∃ ys, xs.mapM f = .ok ys ∧ (∀ x ∈ xs, ∃ y, (x, y) ∈ xs.zip ys) ∧
      ∀ l ∈ xs.zip ys, Q l.1 l.2 := by
  obtain ⟨ys, hys⟩ := PyStd.returns_mapM.mpr fun x hx => (h x hx).imp fun _ hy => hy.1
  have hall := PyStd.mapM_eq_ok_iff.mp hys
  refine ⟨ys, hys, ?_, ?_⟩
  · intro x hx
    obtain ⟨k, hk, rfl⟩ := List.getElem_of_mem hx
    have hk' : k < ys.length := hall.length_eq ▸ hk
    have hlt : k < (xs.zip ys).length := by
      rw [List.length_zip]
      omega
    exact ⟨ys[k], List.mem_iff_getElem.mpr ⟨k, hlt, List.getElem_zip⟩⟩
  · intro l hl
    obtain ⟨y, hy, hQ⟩ := h l.1 (List.of_mem_zip hl).1
    have hok : f l.1 = .ok l.2 := List.forall₂_zip hall hl
    rw [hok, Except.ok.injEq] at hy
    exact hy ▸ hQ

/-- One tile writes its tokens. -/
theorem slotTile_fills (h : bt.Batch numReqs queryStartLoc positions) (hr : r < numReqs) {i : Nat}
    (hi : i ∈ tileStarts (startLoc queryStartLoc r) (startLoc queryStartLoc (r + 1)))
    {buf : List Int} (hbuf : buf.length = bt.slotMapping.length) :
    ∃ buf', bt.slotTile positions r (startLoc queryStartLoc (r + 1)) buf i = .ok buf' ∧
      Fills (fun o => i ≤ o ∧ o < i + tileSize ∧ o < startLoc queryStartLoc (r + 1))
        (bt.cell numReqs queryStartLoc positions) buf buf' := by
  obtain ⟨slots, hslots, hall, hlanes⟩ := mapM_zip fun o ho => laneSlot_tile h hr hi ho
  have hend : startLoc queryStartLoc (r + 1) ≤ buf.length := by
    have hmono : startLoc queryStartLoc (r + 1) ≤ startLoc queryStartLoc numReqs :=
      h.startLoc_mono hr (Nat.le_refl _)
    have hlast := h.last
    have hfits := h.fits
    have hmax := bt.slotMapping_length
    omega
  obtain ⟨buf', hstore, hfill⟩ := tlStore_fills hend hlanes
  simp only [slotTile, hslots, bind, Except.bind]
  refine ⟨buf', hstore, hfill.congr fun o _ => ?_⟩
  constructor
  · intro ⟨l, hl, hol, hmask⟩
    have hmem := mem_tileOffsets.mp (List.of_mem_zip hl).1
    exact ⟨by omega, by omega, by omega⟩
  · intro ⟨hlo, hhi, hstop⟩
    obtain ⟨s, hs⟩ := hall o (mem_tileOffsets.mpr ⟨hlo, hhi⟩)
    exact ⟨(o, s), hs, rfl, hstop⟩

/-- Program `r` writes the tokens of request `r`. -/
theorem slotProgram_fills (h : bt.Batch numReqs queryStartLoc positions) (hr : r < numReqs)
    {buf : List Int} (hbuf : buf.length = bt.slotMapping.length) :
    ∃ buf', bt.slotMappingKernel numReqs queryStartLoc positions buf r = .ok buf' ∧
      Fills (IsTokenOf queryStartLoc numReqs r) (bt.cell numReqs queryStartLoc positions) buf
        buf' := by
  have hlocs := h.locs
  have hround : ∀ i ∈ tileStarts (startLoc queryStartLoc r) (startLoc queryStartLoc (r + 1)),
      ∀ b : List Int, b.length = buf.length →
        ∃ b', bt.slotTile positions r (startLoc queryStartLoc (r + 1)) b i = .ok b' ∧
          Fills (fun o => i ≤ o ∧ o < i + tileSize ∧ o < startLoc queryStartLoc (r + 1))
            (bt.cell numReqs queryStartLoc positions) b b' :=
    fun i hi b hb => slotTile_fills h hr hi (hb.trans hbuf)
  obtain ⟨buf', hrun, hfill⟩ := Fills.foldlM hround
  refine ⟨buf', ?_, hfill.congr fun o _ => ?_⟩
  · rw [slotMappingKernel, if_neg (by omega), tlLoad_startLoc (by omega),
      tlLoad_startLoc (by omega)]
    exact hrun
  · rw [tileStarts_cover]
    exact ⟨fun ho => ⟨hr, ho⟩, fun ho => ho.2⟩

/-- The last program pads. -/
theorem padProgram_fills (queryStartLoc : List Nat) (positions : List Int) {buf : List Int}
    (hbuf : buf.length = bt.slotMapping.length) :
    ∃ buf', bt.slotMappingKernel numReqs queryStartLoc positions buf numReqs = .ok buf' ∧
      Fills (fun o => positions.length ≤ o) (bt.cell numReqs queryStartLoc positions) buf
        buf' := by
  have hmax := bt.slotMapping_length
  have hround : ∀ i ∈ tileStarts positions.length bt.maxNumBatchedTokens,
      ∀ b : List Int, b.length = buf.length →
        ∃ b', bt.padTile b i = .ok b' ∧
          Fills (fun o => i ≤ o ∧ o < i + tileSize ∧ o < bt.maxNumBatchedTokens)
            (bt.cell numReqs queryStartLoc positions) b b' := by
    intro i hi b hb
    obtain ⟨hstart, -⟩ := tileStarts_lt hi
    have hlanes : ∀ l ∈ (tileOffsets i).map fun o => (o, padSlotId),
        l.1 < bt.maxNumBatchedTokens → l.2 = bt.cell numReqs queryStartLoc positions l.1 := by
      intro l hl _
      obtain ⟨o, ho, rfl⟩ := List.mem_map.mp hl
      have hlo := (mem_tileOffsets.mp ho).1
      show padSlotId = _
      rw [cell, if_neg (by omega)]
    have hlen : bt.maxNumBatchedTokens ≤ b.length := by omega
    obtain ⟨b', hstore, hfill⟩ := tlStore_fills hlen hlanes
    refine ⟨b', hstore, hfill.congr fun o _ => ?_⟩
    simp only [List.mem_map, exists_exists_and_eq_and, mem_tileOffsets]
    constructor
    · intro hlane
      obtain ⟨k, hk, hok, hmask⟩ := hlane
      omega
    · intro hlane
      obtain ⟨hlo, hhi, hstop⟩ := hlane
      exact ⟨o, ⟨hlo, hhi⟩, rfl, hstop⟩
  obtain ⟨buf', hrun, hfill⟩ := Fills.foldlM hround
  refine ⟨buf', ?_, hfill.congr fun o ho => ?_⟩
  · rw [slotMappingKernel, if_pos rfl]
    exact hrun
  · rw [tileStarts_cover]
    omega

/-- The cells that program `pid` writes. -/
def programCells (numReqs : Nat) (queryStartLoc : List Nat) (positions : List Int) (pid o : Nat) :
    Prop :=
  if pid = numReqs then positions.length ≤ o else IsTokenOf queryStartLoc numReqs pid o

/-- The kernel writes the slots of the tokens and pads the rest, in whatever
order its programs run. -/
theorem computeSlotMapping_fills (h : bt.Batch numReqs queryStartLoc positions) {order : List Nat}
    (horder : order.Perm (List.range (numReqs + 1))) :
    ∃ sm, bt.computeSlotMapping numReqs queryStartLoc positions order = .ok sm ∧
      Fills (Written numReqs queryStartLoc positions) (bt.cell numReqs queryStartLoc positions)
        bt.slotMapping sm := by
  have hprogram : ∀ pid ∈ order, ∀ buf : List Int, buf.length = bt.slotMapping.length →
      ∃ buf', bt.slotMappingKernel numReqs queryStartLoc positions buf pid = .ok buf' ∧
        Fills (programCells numReqs queryStartLoc positions pid)
          (bt.cell numReqs queryStartLoc positions) buf buf' := by
    intro pid hpid buf hbuf
    have hlt := List.mem_range.mp (horder.mem_iff.mp hpid)
    unfold programCells
    by_cases hlast : pid = numReqs
    · subst hlast
      simp only [if_true]
      exact padProgram_fills queryStartLoc positions hbuf
    · simp only [if_neg hlast]
      exact slotProgram_fills h (by omega) hbuf
  obtain ⟨sm, hrun, hfill⟩ := Fills.foldlM hprogram
  refine ⟨sm, hrun, hfill.congr fun o _ => ?_⟩
  unfold Written
  rw [← h.requests_iff]
  constructor
  · intro ⟨pid, hpid, ho⟩
    have hlt := List.mem_range.mp (horder.mem_iff.mp hpid)
    unfold programCells at ho
    split_ifs at ho with hlast
    · exact .inr ho
    · exact .inl ⟨pid, List.mem_range.mpr (by omega), ho⟩
  · intro ho
    rcases ho with ⟨r, hr, ho⟩ | ho
    · have hlt := List.mem_range.mp hr
      refine ⟨r, horder.mem_iff.mpr (List.mem_range.mpr (by omega)), ?_⟩
      rw [programCells, if_neg (by omega)]
      exact ho
    · refine ⟨numReqs, horder.mem_iff.mpr (List.mem_range.mpr (by omega)), ?_⟩
      rw [programCells, if_pos rfl]
      exact ho

/-! ## The patch and the kernel -/

/-- On every batch, and whatever `slot_mapping` held before, the patch leaves
the buffer that the kernel leaves, in whatever order its programs run. -/
theorem torch_refines_kernel (bt : BlockTable) (numReqs : Nat) (queryStartLoc : List Nat)
    (positions : List Int) (order : List Nat) (h : bt.Batch numReqs queryStartLoc positions)
    (horder : order.Perm (List.range (numReqs + 1))) :
    ∃ sm, computeSlotMappingTorch bt numReqs queryStartLoc positions = .ok sm ∧
      bt.computeSlotMapping numReqs queryStartLoc positions order = .ok sm ∧
      sm.length = bt.maxNumBatchedTokens := by
  obtain ⟨sm, htorch, hfill⟩ := computeSlotMappingTorch_fills h
  obtain ⟨sm', hkernel, hfill'⟩ := computeSlotMapping_fills h horder
  obtain rfl := hfill.unique hfill'
  exact ⟨sm, htorch, hkernel, hfill.length.trans bt.slotMapping_length⟩

end BlockTable

theorem demo_refined :
    computeSlotMappingTorch demoTable 3 demoStartLoc demoPositions =
        .ok [15, -1, 6, -1, 10, 95, -1, -1] ∧
      demoTable.computeSlotMapping 3 demoStartLoc demoPositions [3, 1, 0, 2] =
        .ok [15, -1, 6, -1, 10, 95, -1, -1] := by
  obtain ⟨sm, htorch, hkernel, -⟩ := BlockTable.torch_refines_kernel demoTable 3 demoStartLoc
    demoPositions [3, 1, 0, 2] demo_batch (by decide)
  have hsm : computeSlotMappingTorch demoTable 3 demoStartLoc demoPositions =
      .ok [15, -1, 6, -1, 10, 95, -1, -1] := by decide
  rw [hsm] at htorch
  obtain rfl := Except.ok.inj htorch
  exact ⟨hsm, hkernel⟩

end AiPipelines.Jetson

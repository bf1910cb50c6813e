import AiPipelines.Ragged
import AiPipelines.SpecDecode.RejectionSampler

/-!
# A batch in the rejection sampler

`Row` is what the flat tensors have of one request, and `Row.kept` what the sampler
should make of it: the drafts that are accepted, and one token more.

* `metadata_eq`: the indices of `_calc_spec_decode_metadata` lead to the last tokens of
  every request.
* `sampleKernel_fills`: a program writes what its row keeps, and nothing else.
* `rejectionSample_rows`: so do the two grids, in any order.
* `getElem?_validSampledTokenIds`: this is what the scheduler gets.
-/

namespace AiPipelines.SpecDecode

open Jetson Ragged

/-! ## Indices -/

theorem indexSelect_eq {α : Type} {t vals : List α} {is : List Nat}
    (h : is.map (fun i => t[i]?) = vals.map some) : indexSelect t is = .ok vals := by
  induction is generalizing vals with
  | nil =>
    cases vals with
    | nil => rfl
    | cons v vals => cases h
  | cons i is ih =>
    cases vals with
    | nil => cases h
    | cons v vals =>
      obtain ⟨hi, hrest⟩ := List.cons.inj h
      have hselect := ih hrest
      rw [indexSelect] at hselect ⊢
      rw [List.mapM_cons, BlockTable.tlLoad_eq hi, hselect]
      rfl

theorem length_cumsumFrom {acc : Nat} {xs : List Nat} : (cumsumFrom acc xs).length = xs.length := by
  induction xs generalizing acc with
  | nil => rfl
  | cons x xs ih => rw [cumsumFrom, List.length_cons, List.length_cons, ih]

theorem getElem?_cumsumFrom {acc r : Nat} {xs : List Nat} (hr : r < xs.length) :
    (cumsumFrom acc xs)[r]? = some (acc + start xs (r + 1)) := by
  induction xs generalizing acc r with
  | nil => simp at hr
  | cons x xs ih =>
    cases r with
    | zero => simp [cumsumFrom, start]
    | succ r =>
      rw [cumsumFrom, List.getElem?_cons_succ, ih (by simpa using hr), start, start,
        List.take_succ_cons (i := r + 1), List.sum_cons, Nat.add_assoc]

theorem getLastD_cumsum {xs : List Nat} : (cumsum xs).getLastD 0 = xs.sum := by
  rw [cumsum, List.getLastD_eq_getLast?, List.getLast?_eq_getElem?, length_cumsumFrom]
  cases xs with
  | nil => rfl
  | cons x xs =>
    rw [getElem?_cumsumFrom (by simp), Option.getD_some, start, List.length_cons,
      Nat.add_sub_cancel, Nat.zero_add, ← List.length_cons, List.take_length]

/-- The batched `arange`. -/
theorem arange_eq {counts : List Nat} :
    (getCumsumAndArange counts).2 = counts.flatMap List.range := by
  have hall : ∀ acc, (List.range' acc counts.sum).zipWith (· - ·)
      (npRepeat ((cumsumFrom acc counts).zipWith (· - ·) counts) counts) =
        counts.flatMap List.range := by
    induction counts with
    | nil => intro acc; rfl
    | cons n counts ih =>
      intro acc
      have hstep : List.range' acc (n + counts.sum) =
          List.range' acc n ++ List.range' (acc + n) counts.sum := by
        rw [List.range'_append_1]
      have hfront : (List.range' acc n).zipWith (· - ·) (List.replicate n acc) = List.range n := by
        apply List.ext_getElem?
        intro i
        by_cases hi : i < n
        · simp [hi]
        · simp [hi]
      rw [List.sum_cons, hstep, cumsumFrom, List.zipWith_cons_cons, Nat.add_sub_cancel, npRepeat,
        List.zipWith_append (by simp), hfront, ih, List.flatMap_cons]
  rw [getCumsumAndArange]
  show (List.range ((cumsum counts).getLastD 0)).zipWith (· - ·) _ = _
  rw [getLastD_cumsum, List.range_eq_range']
  exact hall 0

/-- Indices that begin `sub` entries before the end of a row. -/
theorem repeat_eq_indices {rows : List (Nat × Nat × Nat)} (acc : Nat)
    (hsub : ∀ r ∈ rows, r.2.1 ≤ r.1) :
    (npRepeat ((cumsumFrom acc (rows.map (·.1))).zipWith (· - ·) (rows.map (·.2.1)))
      (rows.map (·.2.2))).zipWith
        (· + ·) ((rows.map (·.2.2)).flatMap List.range) =
      indices acc (rows.map fun r => (r.1, (List.range r.2.2).map (r.1 - r.2.1 + ·))) := by
  induction rows generalizing acc with
  | nil => rfl
  | cons r rows ih =>
    obtain ⟨length, sub, count⟩ := r
    have hle : sub ≤ length := hsub _ List.mem_cons_self
    have hfront : (List.replicate count (acc + length - sub)).zipWith (· + ·) (List.range count) =
        ((List.range count).map (length - sub + ·)).map (acc + ·) := by
      apply List.ext_getElem?
      intro i
      by_cases hi : i < count
      · simp only [List.getElem?_zipWith, List.getElem?_replicate, List.getElem?_range hi,
          List.getElem?_map, if_pos hi, Option.map_some, Option.some.injEq]
        omega
      · simp [hi]
    simp only [List.map_cons, List.flatMap_cons, cumsumFrom, List.zipWith_cons_cons, npRepeat]
    rw [List.zipWith_append (by simp), hfront,
      ih (acc + length) fun r hr => hsub r (List.mem_cons_of_mem _ hr)]
    rfl

/-- The indices of the last entries. -/
theorem cumsum_sub_one {lengths : List Nat} (acc : Nat) (hpos : ∀ n ∈ lengths, 0 < n) :
    (cumsumFrom acc lengths).map (· - 1) = indices acc (lengths.map fun n => (n, [n - 1])) := by
  induction lengths generalizing acc with
  | nil => rfl
  | cons n lengths ih =>
    have hn := hpos n List.mem_cons_self
    rw [cumsumFrom, List.map_cons, ih (acc + n) fun m hm => hpos m (List.mem_cons_of_mem n hm),
      List.map_cons, indices, List.map_singleton, List.singleton_append, Nat.add_sub_assoc hn]

/-! ## Rows -/

/-- What is kept of tokens that come with a mark if they end the row, or `bonus`
behind all of them. -/
def keepUntil : List (Int × Bool) → Int → List Int
  | [], bonus => [bonus]
  | (tokenId, rejected) :: rest, bonus =>
    if rejected then [tokenId] else tokenId :: keepUntil rest bonus

/-- One request of the batch. -/
structure Row where
  tokenIds : List Int
  numDraftTokens : Nat
  targetArgmax : List Int
  accepted : List Bool
  recovered : List Int
  bonus : Int
  greedy : Bool
  drafts_lt : numDraftTokens < tokenIds.length
  length_targetArgmax : targetArgmax.length = numDraftTokens
  length_accepted : accepted.length = numDraftTokens
  length_recovered : recovered.length = numDraftTokens

namespace Row

variable (r : Row)

/-- The drafts are the last tokens. -/
def drafts : List Int := r.tokenIds.drop (r.tokenIds.length - r.numDraftTokens)

/-- The tokens whose logits are sampled. -/
def sampled : List Int := r.tokenIds.drop (r.tokenIds.length - (r.numDraftTokens + 1))

/-- The token behind each draft's position, with the mark of a rejection. -/
def items : List (Int × Bool) :=
  if r.greedy then r.drafts.zipWith
    (fun draft target => (target, decide (draft ≠ target))) r.targetArgmax
  else r.drafts.zipWith (fun draft p => if p.1 then (draft, false) else (p.2, true))
    (r.accepted.zip r.recovered)

/-- The tokens that the sampler keeps. -/
def kept : List Int := keepUntil r.items r.bonus

theorem length_drafts : r.drafts.length = r.numDraftTokens := by
  have hlt := r.drafts_lt
  rw [drafts, List.length_drop]
  omega

theorem length_sampled : r.sampled.length = r.numDraftTokens + 1 := by
  have hlt := r.drafts_lt
  rw [sampled, List.length_drop]
  omega

/-- The drafts stand behind the first of them. -/
theorem sampled_drop : r.sampled.drop 1 = r.drafts := by
  have hlt := r.drafts_lt
  rw [sampled, drafts, List.drop_drop]
  congr 1
  omega

theorem length_items : r.items.length = r.numDraftTokens := by
  rw [items]
  split
  · rw [List.length_zipWith, r.length_drafts, r.length_targetArgmax, Nat.min_self]
  · rw [List.length_zipWith, List.length_zip, r.length_drafts, r.length_accepted,
      r.length_recovered, Nat.min_self, Nat.min_self]

/-- A greedy request keeps the drafts that the model would have chosen, and its next choice. -/
theorem kept_greedy (h : r.greedy = true) :
    r.kept = Speculation.verify r.drafts r.targetArgmax r.bonus := by
  have hall : ∀ (drafts targets : List Int), drafts.length = targets.length →
      keepUntil (drafts.zipWith (fun draft target => (target, decide (draft ≠ target))) targets)
        r.bonus =
        Speculation.verify drafts targets r.bonus := by
    intro drafts
    induction drafts with
    | nil => intro targets _; rfl
    | cons draft drafts ih =>
      intro targets hlen
      cases targets with
      | nil => cases hlen
      | cons target targets =>
        rw [List.zipWith_cons_cons, keepUntil, Speculation.verify]
        by_cases heq : draft = target
        · rw [if_neg (by simp [heq]), if_pos heq, ih targets (Nat.succ.inj hlen)]
        · rw [if_pos (by simp [heq]), if_neg heq]
  rw [kept, items, if_pos h]
  exact hall _ _ (by rw [r.length_drafts, r.length_targetArgmax])

end Row

theorem length_keepUntil {items : List (Int × Bool)} {bonus : Int} :
    (keepUntil items bonus).length ≤ items.length + 1 := by
  induction items with
  | nil => exact Nat.le_refl 1
  | cons item items ih =>
    obtain ⟨tokenId, rejected⟩ := item
    rw [keepUntil]
    split
    · simp
    · rw [List.length_cons, List.length_cons]
      omega

/-! ## The metadata of a batch -/

/-- The last entries, by their indices. -/
theorem range_eq_drop {α : Type} {row : List α} {k : Nat} (hk : k ≤ row.length) :
    (List.range k).map (fun i => row[row.length - k + i]?) =
    (row.drop (row.length - k)).map some := by
  apply List.ext_getElem?
  intro i
  by_cases hi : i < k
  · rw [List.getElem?_map, List.getElem?_range hi, Option.map_some, List.getElem?_map,
      List.getElem?_drop]
    have hlt : row.length - k + i < row.length := by omega
    rw [List.getElem?_eq_getElem hlt]
    rfl
  · rw [List.getElem?_eq_none (by simp; omega), List.getElem?_eq_none (by simp; omega)]

variable {batch : List Row}

/-- `_calc_spec_decode_metadata`, on the tensors of the batch. -/
theorem metadata_eq :
    calcSpecDecodeMetadata (batch.map Row.tokenIds).flatten (batch.map Row.numDraftTokens)
      (cumsum (batch.map fun r => r.tokenIds.length)) = .ok {
      draftTokenIds := (batch.map Row.drafts).flatten
      numDraftTokens := batch.map Row.numDraftTokens
      cuNumDraftTokens := cumsum (batch.map Row.numDraftTokens)
      targetLogitsIndices :=
        indices 0 (batch.map fun r => (r.numDraftTokens + 1, List.range r.numDraftTokens))
      bonusLogitsIndices :=
        indices 0 (batch.map fun r => (r.numDraftTokens + 1, [r.numDraftTokens]))
      logitsIndices := indices 0 (batch.map fun r =>
        (r.tokenIds.length, (List.range (r.numDraftTokens + 1)).map
          (r.tokenIds.length - (r.numDraftTokens + 1) + ·))) } := by
  have hlogits := @repeat_eq_indices
    (batch.map fun r => (r.tokenIds.length, r.numDraftTokens + 1, r.numDraftTokens + 1)) 0 (by
      intro p hp
      obtain ⟨r, -, rfl⟩ := List.mem_map.1 hp
      exact r.drafts_lt)
  have htarget := @repeat_eq_indices
    (batch.map fun r => (r.numDraftTokens + 1, r.numDraftTokens + 1, r.numDraftTokens)) 0 (by
      intro p hp
      obtain ⟨r, -, rfl⟩ := List.mem_map.1 hp
      exact Nat.le_refl _)
  have hbonus := @cumsum_sub_one (batch.map fun r => r.numDraftTokens + 1) 0 (by
    intro n hn
    obtain ⟨r, -, rfl⟩ := List.mem_map.1 hn
    exact Nat.succ_pos _)
  simp only [List.map_map, Function.comp_def, Nat.sub_self, Nat.zero_add, Nat.add_sub_cancel,
    List.map_id'] at hlogits htarget hbonus
  -- The tokens at the logits, and the drafts among them.
  have hselected : indexSelect (batch.map Row.tokenIds).flatten
      (indices 0 (batch.map fun r => (r.tokenIds.length,
        (List.range (r.numDraftTokens + 1)).map
          (r.tokenIds.length - (r.numDraftTokens + 1) + ·)))) =
      .ok (batch.map Row.sampled).flatten := by
    apply indexSelect_eq
    apply select
    intro r _
    rw [List.map_map]
    exact range_eq_drop r.drafts_lt
  have hdrafts : indexSelect (batch.map Row.sampled).flatten
      (indices 0
        (batch.map fun r => (r.numDraftTokens + 1, (List.range r.numDraftTokens).map (· + 1)))) =
      .ok (batch.map Row.drafts).flatten := by
    apply indexSelect_eq
    simp only [← Row.length_sampled]
    apply select
    intro r _
    rw [List.map_map, ← r.sampled_drop]
    have hle : r.numDraftTokens ≤ r.sampled.length := by
      rw [r.length_sampled]
      exact Nat.le_succ _
    have hlast := range_eq_drop hle
    rw [r.length_sampled, Nat.add_sub_cancel_left] at hlast
    rw [← hlast]
    exact List.map_congr_left fun i _ => by rw [Function.comp_apply, Nat.add_comm]
  simp only [calcSpecDecodeMetadata, arange_eq, List.map_map, Function.comp_def]
  have hcumsum : ∀ xs, (getCumsumAndArange xs).1 = cumsum xs := fun xs => rfl
  simp only [hcumsum, cumsum, hlogits, htarget, hbonus, hselected, map_indices, List.map_map,
    Function.comp_def, hdrafts, bind, Except.bind, pure, Except.pure]

/-! ## Programs -/

/-- After a rejection the loop does nothing. -/
theorem foldlM_rejected {sample : Nat → Except TensorError (Int × Bool)} {row startIdx : Nat}
    {buf : List Int} {ps : List Nat} :
    ps.foldlM (sampleRound sample row startIdx) (buf, true) = .ok (buf, true) := by
  induction ps with
  | nil => rfl
  | cons p ps ih =>
    rw [List.foldlM_cons]
    exact ih

theorem tlStoreOne_fills {f : Nat → Int} {buf : List Int} {o : Nat} (ho : o < buf.length) :
    tlStoreOne buf o (f o) = .ok (buf.set o (f o)) ∧
      Fills (fun k => k = o) f buf (buf.set o (f o)) :=
  ⟨if_pos ho, .set o⟩

/-- The loop from `pos` on, and the bonus token behind it. -/
theorem sampleLoop_fills {sample : Nat → Except TensorError (Int × Bool)} {f : Nat → Int}
    {row startIdx pos : Nat} {items : List (Int × Bool)} {bonus : Int} {buf : List Int}
    (hsample : ∀ i item, items[i]? = some item → sample (startIdx + (pos + i)) = .ok item)
    (hcells : ∀ i t, (keepUntil items bonus)[i]? = some t → f (row + (pos + i)) = t)
    (hfit : row + (pos + items.length) < buf.length) :
    ∃ st buf', (List.range' pos items.length).foldlM (sampleRound sample row startIdx)
      (buf, false) = .ok st ∧
      (if st.2 then .ok st.1 else tlStoreOne st.1 (row + (pos + items.length)) bonus) = .ok buf' ∧
      Fills (fun o => row + pos ≤ o ∧ o < row + (pos + (keepUntil items bonus).length)) f buf
        buf' := by
  induction items generalizing pos buf with
  | nil =>
    obtain rfl := hcells 0 bonus rfl
    obtain ⟨hstore, hfill⟩ := @tlStoreOne_fills f buf (row + pos) hfit
    refine ⟨(buf, false), _, rfl, hstore, hfill.congr fun o _ => ?_⟩
    rw [keepUntil, List.length_singleton]
    omega
  | cons item items ih =>
    obtain ⟨tokenId, rejected⟩ := item
    have hfirst := hsample 0 (tokenId, rejected) rfl
    have hcell : f (row + pos) = tokenId := by
      refine hcells 0 tokenId ?_
      rw [keepUntil]
      split <;> rfl
    subst hcell
    rw [List.length_cons] at hfit
    obtain ⟨hstore, hfill⟩ := @tlStoreOne_fills f buf (row + pos) (by omega)
    have hround : sampleRound sample row startIdx (buf, false) pos =
        .ok (buf.set (row + pos) (f (row + pos)), rejected) := by
      rw [Nat.add_zero] at hfirst
      simp only [sampleRound, Bool.false_eq_true, if_false, hfirst, hstore, bind, Except.bind, pure,
        Except.pure]
    rw [List.length_cons, List.range'_succ, List.foldlM_cons, hround]
    cases rejected with
    | true =>
      refine ⟨_, _, foldlM_rejected, rfl, hfill.congr fun o _ => ?_⟩
      rw [keepUntil, if_pos rfl, List.length_singleton]
      omega
    | false =>
      rw [keepUntil, if_neg Bool.false_ne_true] at hcells ⊢
      have hsample' : ∀ i item, items[i]? = some item →
          sample (startIdx + (pos + 1 + i)) = .ok item := by
        intro i item hi
        rw [Nat.add_assoc pos, Nat.add_comm 1 i]
        exact hsample (i + 1) item hi
      have hcells' : ∀ i t, (keepUntil items bonus)[i]? = some t → f (row + (pos + 1 + i)) = t := by
        intro i t hi
        rw [Nat.add_assoc pos, Nat.add_comm 1 i]
        exact hcells (i + 1) t hi
      have hfit' : row + (pos + 1 + items.length) <
          (buf.set (row + pos) (f (row + pos))).length := by
        rw [List.length_set]
        omega
      obtain ⟨st, buf', hloop, hend, hrest⟩ := ih hsample' hcells' hfit'
      refine ⟨st, buf', hloop, ?_, (hfill.trans hrest).congr fun o _ => ?_⟩
      · rwa [Nat.add_right_comm pos, Nat.add_assoc pos] at hend
      · rw [List.length_cons]
        omega

/-- The last column of the running sums is where the next row begins. -/
theorem tlLoad_cumsum {xs : List Nat} {r : Nat} (hr : r < xs.length) :
    tlLoad (cumsum xs) (r : Int) = .ok (start xs (r + 1)) := by
  have hsum := @getElem?_cumsumFrom 0 r xs hr
  rw [Nat.zero_add] at hsum
  exact BlockTable.tlLoad_eq hsum

/-- So is where row `r` begins, for what a program does with it. -/
theorem bind_start {α : Type} {xs : List Nat} {r : Nat} (hr : r < xs.length)
    (next : Nat → Except TensorError α) :
    (if r = 0 then Except.ok 0 >>= next else tlLoad (cumsum xs) ((r - 1 : Nat) : Int) >>= next) =
      next (start xs r) := by
  cases r with
  | zero => rfl
  | succ r =>
    rw [if_neg (Nat.succ_ne_zero r), Nat.add_sub_cancel, tlLoad_cumsum (Nat.lt_of_succ_lt hr)]
    rfl

variable {r : Row} {reqIdx maxSpecLen : Nat}

/-- An entry of a tensor with one entry for each draft. -/
theorem tlLoad_draft {α : Type} {column : Row → List α}
    (hcolumn : ∀ r, (column r).length = r.numDraftTokens) (hrow : batch[reqIdx]? = some r) {i : Nat}
    {v : α} (hv : (column r)[i]? = some v) :
    tlLoad (batch.map column).flatten
      ((start (batch.map Row.numDraftTokens) reqIdx + i : Nat) : Int) = .ok v := by
  apply BlockTable.tlLoad_eq
  have hrow' : (batch.map column)[reqIdx]? = some (column r) := by
    rw [List.getElem?_map, hrow, Option.map_some]
  have hlengths : (batch.map column).map List.length = batch.map Row.numDraftTokens := by
    rw [List.map_map]
    exact List.map_congr_left fun r _ => hcolumn r
  rw [← hlengths, getElem?_flatten hrow' (List.getElem?_eq_some_iff.1 hv).1, hv]

/-- An entry of a tensor with one entry for each request. -/
theorem tlLoad_request {α : Type} {column : Row → α} (hrow : batch[reqIdx]? = some r) :
    tlLoad (batch.map column) (reqIdx : Int) = .ok (column r) := by
  apply BlockTable.tlLoad_eq
  rw [List.getElem?_map, hrow, Option.map_some]

/-- The output of the batch, cell by cell. -/
def cell (batch : List Row) (maxSpecLen o : Nat) : Int :=
  ((batch[o / (maxSpecLen + 1)]?.bind fun r => r.kept[o % (maxSpecLen + 1)]?)).getD
    placeholderTokenId

theorem row_of_offset {i : Nat} (hi : i < maxSpecLen + 1) :
    (reqIdx * (maxSpecLen + 1) + i) / (maxSpecLen + 1) = reqIdx := by
  rw [Nat.mul_comm, Nat.mul_add_div (Nat.succ_pos _), Nat.div_eq_of_lt hi, Nat.add_zero]

theorem cell_eq (hrow : batch[reqIdx]? = some r) {i : Nat} (hi : i < maxSpecLen + 1) :
    cell batch maxSpecLen (reqIdx * (maxSpecLen + 1) + i) = r.kept[i]?.getD placeholderTokenId := by
  have hmod : (reqIdx * (maxSpecLen + 1) + i) % (maxSpecLen + 1) = i := by
    rw [Nat.mul_comm, Nat.mul_add_mod, Nat.mod_eq_of_lt hi]
  rw [cell, row_of_offset hi, hmod, hrow, Option.bind_some]

/-- The cells that the program of a request writes. -/
def Row.cells (r : Row) (reqIdx maxSpecLen o : Nat) : Prop :=
  reqIdx * (maxSpecLen + 1) ≤ o ∧ o < reqIdx * (maxSpecLen + 1) + r.kept.length

theorem Row.length_kept : r.kept.length ≤ r.numDraftTokens + 1 := by
  have hle := @length_keepUntil r.items r.bonus
  rwa [r.length_items] at hle

/-- A program writes what its row keeps. -/
theorem sampleKernel_fills {sample : Nat → Except TensorError (Int × Bool)} {buf : List Int}
    (hrow : batch[reqIdx]? = some r) (hspec : r.numDraftTokens ≤ maxSpecLen)
    (hbuf : buf.length = batch.length * (maxSpecLen + 1))
    (hsample : ∀ i item, r.items[i]? = some item →
      sample (start (batch.map Row.numDraftTokens) reqIdx + i) = .ok item) :
    ∃ buf', sampleKernel sample (cumsum (batch.map Row.numDraftTokens))
      (batch.map Row.bonus) maxSpecLen buf
        reqIdx = .ok buf' ∧
      Fills (r.cells reqIdx maxSpecLen) (cell batch maxSpecLen) buf buf' := by
  have hlt : reqIdx < batch.length := (List.getElem?_eq_some_iff.1 hrow).1
  have hlt' : reqIdx < (batch.map Row.numDraftTokens).length := by rwa [List.length_map]
  have hcells : ∀ i t, r.kept[i]? = some t →
      cell batch maxSpecLen (reqIdx * (maxSpecLen + 1) + (0 + i)) = t := by
    intro i t hi
    have hkept : i < r.kept.length := (List.getElem?_eq_some_iff.1 hi).1
    have hle := r.length_kept
    rw [Nat.zero_add, cell_eq hrow (by omega), hi, Option.getD_some]
  have hfit : reqIdx * (maxSpecLen + 1) + (0 + r.items.length) < buf.length := by
    have hnext : (reqIdx + 1) * (maxSpecLen + 1) ≤ batch.length * (maxSpecLen + 1) :=
      Nat.mul_le_mul_right _ hlt
    rw [Nat.succ_mul] at hnext
    rw [r.length_items]
    omega
  have hsample' : ∀ i item, r.items[i]? = some item →
      sample (start (batch.map Row.numDraftTokens) reqIdx + (0 + i)) = .ok item := by
    simpa only [Nat.zero_add] using hsample
  obtain ⟨st, buf', hloop, hend, hfill⟩ := sampleLoop_fills hsample' hcells hfit
  refine ⟨buf', ?_, hfill.congr fun o _ => by rw [Row.cells, Row.kept, Nat.add_zero, Nat.zero_add]⟩
  have hnum : start (batch.map Row.numDraftTokens) (reqIdx + 1) -
      start (batch.map Row.numDraftTokens) reqIdx =
      r.items.length := by
    have hcount : (batch.map Row.numDraftTokens)[reqIdx]? = some r.numDraftTokens := by
      rw [List.getElem?_map, hrow, Option.map_some]
    rw [start_succ hcount, Nat.add_sub_cancel_left, r.length_items]
  rw [sampleKernel, bind_start hlt', tlLoad_cumsum hlt']
  simp only [bind, Except.bind, pure, Except.pure, hnum, List.range_eq_range', hloop,
    tlLoad_request hrow]
  rwa [Nat.zero_add] at hend

theorem item_greedy (h : r.greedy = true) {i : Nat} {item : Int × Bool}
    (hi : r.items[i]? = some item) :
    ∃ draft target, r.drafts[i]? = some draft ∧ r.targetArgmax[i]? = some target ∧
      item = (target, decide (draft ≠ target)) := by
  rw [Row.items, if_pos h, List.getElem?_zipWith_eq_some] at hi
  obtain ⟨draft, target, hdraft, htarget, heq⟩ := hi
  exact ⟨draft, target, hdraft, htarget, heq.symm⟩

theorem item_random (h : r.greedy = false) {i : Nat} {item : Int × Bool}
    (hi : r.items[i]? = some item) :
    ∃ draft accept recovered, r.drafts[i]? = some draft ∧ r.accepted[i]? = some accept ∧
      r.recovered[i]? = some recovered ∧ item = if accept then (draft, false)
        else (recovered, true) := by
  rw [Row.items, if_neg (by simp [h]), List.getElem?_zipWith_eq_some] at hi
  obtain ⟨draft, p, hdraft, hp, heq⟩ := hi
  obtain ⟨haccept, hrecovered⟩ := List.getElem?_zip_eq_some.1 hp
  exact ⟨draft, p.1, p.2, hdraft, haccept, hrecovered, heq.symm⟩

/-- The greedy kernel serves the greedy requests. -/
theorem greedyProgram_fills {flags : Option (List Bool)} {buf : List Int}
    (hrow : batch[reqIdx]? = some r) (hspec : r.numDraftTokens ≤ maxSpecLen)
    (hbuf : buf.length = batch.length * (maxSpecLen + 1))
    (hflags : flags = none ∧ r.greedy = true ∨ flags = some (batch.map Row.greedy)) :
    ∃ buf', rejectionGreedySampleKernel (cumsum (batch.map Row.numDraftTokens))
      (batch.map Row.drafts).flatten
        (batch.map Row.targetArgmax).flatten (batch.map Row.bonus) flags maxSpecLen buf reqIdx =
          .ok buf' ∧
      Fills (fun o => r.greedy = true ∧ r.cells reqIdx maxSpecLen o)
        (cell batch maxSpecLen) buf buf' := by
  let sample (idx : Nat) : Except TensorError (Int × Bool) := do
    let draftTokenId ← tlLoad (batch.map Row.drafts).flatten (idx : Nat)
    let targetArgmaxId ← tlLoad (batch.map Row.targetArgmax).flatten (idx : Nat)
    return (targetArgmaxId, draftTokenId ≠ targetArgmaxId)
  have hkernel : rejectionGreedySampleKernel (cumsum (batch.map Row.numDraftTokens))
      (batch.map Row.drafts).flatten (batch.map Row.targetArgmax).flatten
        (batch.map Row.bonus) flags maxSpecLen
      buf reqIdx = if r.greedy then sampleKernel sample (cumsum (batch.map Row.numDraftTokens))
        (batch.map Row.bonus) maxSpecLen buf reqIdx else .ok buf := by
    rcases hflags with ⟨rfl, h⟩ | rfl
    · rw [h]
      rfl
    · rw [rejectionGreedySampleKernel, tlLoad_request hrow]
      rfl
  rw [hkernel]
  cases hr : r.greedy with
  | false => exact ⟨buf, rfl, .nothing fun o ho => Bool.false_ne_true ho.1⟩
  | true =>
    have hsample : ∀ i item, r.items[i]? = some item →
        sample (start (batch.map Row.numDraftTokens) reqIdx + i) = .ok item := by
      intro i item hi
      obtain ⟨draft, target, hdraft, htarget, rfl⟩ := item_greedy hr hi
      simp only [sample, tlLoad_draft Row.length_drafts hrow hdraft,
        tlLoad_draft Row.length_targetArgmax hrow htarget]
      rfl
    obtain ⟨buf', hrun, hfill⟩ := sampleKernel_fills hrow hspec hbuf hsample
    exact ⟨buf', hrun, hfill.congr fun o _ => (and_iff_right rfl).symm⟩

/-- The random kernel serves the others. -/
theorem randomProgram_fills {buf : List Int} (hrow : batch[reqIdx]? = some r)
    (hspec : r.numDraftTokens ≤ maxSpecLen) (hbuf : buf.length = batch.length * (maxSpecLen + 1)) :
    ∃ buf', rejectionRandomSampleKernel (cumsum (batch.map Row.numDraftTokens))
      (batch.map Row.drafts).flatten
        (batch.map Row.accepted).flatten (batch.map Row.bonus) (batch.map Row.recovered).flatten
        (batch.map Row.greedy) maxSpecLen buf reqIdx = .ok buf' ∧
      Fills (fun o => r.greedy = false ∧ r.cells reqIdx maxSpecLen o)
        (cell batch maxSpecLen) buf buf' := by
  let sample (idx : Nat) : Except TensorError (Int × Bool) := do
    let draftTokenId ← tlLoad (batch.map Row.drafts).flatten (idx : Nat)
    let accept ← tlLoad (batch.map Row.accepted).flatten (idx : Nat)
    if accept then return (draftTokenId, false)
    else do
      let recovered ← tlLoad (batch.map Row.recovered).flatten (idx : Nat)
      return (recovered, true)
  have hkernel : rejectionRandomSampleKernel (cumsum (batch.map Row.numDraftTokens))
      (batch.map Row.drafts).flatten (batch.map Row.accepted).flatten (batch.map Row.bonus)
      (batch.map Row.recovered).flatten (batch.map Row.greedy) maxSpecLen buf reqIdx =
        if r.greedy then .ok buf else sampleKernel sample (cumsum (batch.map Row.numDraftTokens))
          (batch.map Row.bonus) maxSpecLen buf reqIdx := by
    rw [rejectionRandomSampleKernel, tlLoad_request hrow]
    rfl
  rw [hkernel]
  cases hr : r.greedy with
  | true => exact ⟨buf, rfl, .nothing fun o ho => Bool.false_ne_true ho.1.symm⟩
  | false =>
    have hsample : ∀ i item, r.items[i]? = some item →
        sample (start (batch.map Row.numDraftTokens) reqIdx + i) = .ok item := by
      intro i item hi
      obtain ⟨draft, accept, recovered, hdraft, haccept, hrecovered, rfl⟩ := item_random hr hi
      simp only [sample, tlLoad_draft Row.length_drafts hrow hdraft,
        tlLoad_draft Row.length_accepted hrow haccept,
        tlLoad_draft Row.length_recovered hrow hrecovered]
      cases accept <;> rfl
    obtain ⟨buf', hrun, hfill⟩ := sampleKernel_fills hrow hspec hbuf hsample
    exact ⟨buf', hrun, hfill.congr fun o _ => (and_iff_right rfl).symm⟩

/-! ## The grids -/

/-- The cells of the requests that are greedy, or of those that are not. -/
def GridCells (batch : List Row) (maxSpecLen : Nat) (greedy : Bool) (o : Nat) : Prop :=
  ∃ (reqIdx : Nat) (r : Row), batch[reqIdx]? = some r ∧ r.greedy = greedy ∧
    r.cells reqIdx maxSpecLen o

/-- A grid whose programs each serve the requests of one kind, in any order. -/
theorem grid_fills {kernel : List Int → Nat → Except TensorError (List Int)} {greedy : Bool}
    {order : List Nat} {buf : List Int} (horder : order.Perm (List.range batch.length))
    (hkernel : ∀ reqIdx r, batch[reqIdx]? = some r → ∀ b : List Int, b.length = buf.length →
      ∃ b', kernel b reqIdx = .ok b' ∧
        Fills (fun o => r.greedy = greedy ∧ r.cells reqIdx maxSpecLen o)
          (cell batch maxSpecLen) b b') :
    ∃ buf', order.foldlM kernel buf = .ok buf' ∧
      Fills (GridCells batch maxSpecLen greedy) (cell batch maxSpecLen) buf buf' := by
  have hprogram : ∀ reqIdx ∈ order, ∀ b : List Int, b.length = buf.length →
      ∃ b', kernel b reqIdx = .ok b' ∧
      Fills
        (fun o => ∃ r, batch[reqIdx]? = some r ∧ r.greedy = greedy ∧ r.cells reqIdx maxSpecLen o)
        (cell batch maxSpecLen) b b' := by
    intro reqIdx hmem b hb
    have hlt : reqIdx < batch.length := List.mem_range.1 (horder.mem_iff.1 hmem)
    have hrow := List.getElem?_eq_getElem hlt
    obtain ⟨b', hrun, hfill⟩ := hkernel reqIdx _ hrow b hb
    refine ⟨b', hrun, hfill.congr fun o _ => ?_⟩
    rw [hrow]
    constructor
    · intro ho
      exact ⟨_, rfl, ho⟩
    · intro ⟨r, hr, ho⟩
      obtain rfl := Option.some.inj hr
      exact ho
  obtain ⟨buf', hrun, hfill⟩ := Fills.foldlM hprogram
  refine ⟨buf', hrun, hfill.congr fun o _ => ?_⟩
  constructor
  · intro ⟨reqIdx, _, r, h⟩
    exact ⟨reqIdx, r, h⟩
  · intro ⟨reqIdx, r, hrow, h⟩
    have hlt : reqIdx < batch.length := (List.getElem?_eq_some_iff.1 hrow).1
    exact ⟨reqIdx, horder.mem_iff.2 (List.mem_range.2 hlt), r, hrow, h⟩

/-- The grid of the greedy kernel, or none at all where there are no greedy requests. -/
theorem greedyGrid_fills {order : List Nat} {buf : List Int}
    (hspec : ∀ r ∈ batch, r.numDraftTokens ≤ maxSpecLen)
    (hbuf : buf.length = batch.length * (maxSpecLen + 1))
    (horder : order.Perm (List.range batch.length)) :
    ∃ buf', (if (batch.map Row.greedy).all not then .ok buf
        else order.foldlM (rejectionGreedySampleKernel (cumsum (batch.map Row.numDraftTokens))
          (batch.map Row.drafts).flatten (batch.map Row.targetArgmax).flatten (batch.map Row.bonus)
          (if (batch.map Row.greedy).all id then none else some (batch.map Row.greedy)) maxSpecLen)
            buf) =
        .ok buf' ∧
      Fills (GridCells batch maxSpecLen true) (cell batch maxSpecLen) buf buf' := by
  split
  · next hall =>
    refine ⟨buf, rfl, .nothing fun o ho => ?_⟩
    obtain ⟨reqIdx, r, hrow, hr, -⟩ := ho
    have hnot := List.all_eq_true.1 hall r.greedy (List.mem_map_of_mem (List.mem_of_getElem? hrow))
    rw [hr] at hnot
    cases hnot
  · refine grid_fills horder fun reqIdx r hrow b hb => ?_
    have hmem : r ∈ batch := List.mem_of_getElem? hrow
    apply greedyProgram_fills hrow (hspec r hmem) (hb.trans hbuf)
    split
    · next hall => exact .inl ⟨rfl, List.all_eq_true.1 hall r.greedy (List.mem_map_of_mem hmem)⟩
    · exact .inr rfl

/-- The grid of the random kernel, or none at all where there are only greedy requests. -/
theorem randomGrid_fills {order : List Nat} {buf : List Int}
    (hspec : ∀ r ∈ batch, r.numDraftTokens ≤ maxSpecLen)
    (hbuf : buf.length = batch.length * (maxSpecLen + 1))
    (horder : order.Perm (List.range batch.length)) :
    ∃ buf', (if (batch.map Row.greedy).all id ∧ ¬ (batch.map Row.greedy).all not then .ok buf
        else order.foldlM (rejectionRandomSampleKernel (cumsum (batch.map Row.numDraftTokens))
          (batch.map Row.drafts).flatten (batch.map Row.accepted).flatten (batch.map Row.bonus)
          (batch.map Row.recovered).flatten (batch.map Row.greedy) maxSpecLen) buf) = .ok buf' ∧
      Fills (GridCells batch maxSpecLen false) (cell batch maxSpecLen) buf buf' := by
  split
  · next hall =>
    refine ⟨buf, rfl, .nothing fun o ho => ?_⟩
    obtain ⟨reqIdx, r, hrow, hr, -⟩ := ho
    have hyes :=
      List.all_eq_true.1 hall.1 r.greedy (List.mem_map_of_mem (List.mem_of_getElem? hrow))
    rw [hr] at hyes
    cases hyes
  · exact grid_fills horder fun reqIdx r hrow b hb =>
      randomProgram_fills hrow (hspec r (List.mem_of_getElem? hrow)) (hb.trans hbuf)

/-- `rejection_sample` writes the cells of all requests. -/
theorem rejectionSample_fills {greedyOrder randomOrder : List Nat}
    (hspec : ∀ r ∈ batch, r.numDraftTokens ≤ maxSpecLen)
    (hgreedy : greedyOrder.Perm (List.range batch.length))
    (hrandom : randomOrder.Perm (List.range batch.length)) :
    ∃ out, rejectionSample (batch.map Row.drafts).flatten (batch.map Row.numDraftTokens) maxSpecLen
        (cumsum (batch.map Row.numDraftTokens)) (batch.map Row.accepted).flatten
        (batch.map Row.targetArgmax).flatten (batch.map Row.bonus) (batch.map Row.recovered).flatten
        (batch.map Row.greedy) greedyOrder randomOrder = .ok out ∧
      Fills (fun o => GridCells batch maxSpecLen true o ∨ GridCells batch maxSpecLen false o)
        (cell batch maxSpecLen)
    (List.replicate (batch.length * (maxSpecLen + 1)) placeholderTokenId) out := by
  have hlen : (List.replicate (batch.length * (maxSpecLen + 1)) placeholderTokenId).length =
      batch.length * (maxSpecLen + 1) := List.length_replicate
  obtain ⟨b₁, h₁, hfill₁⟩ := greedyGrid_fills hspec hlen hgreedy
  obtain ⟨b₂, h₂, hfill₂⟩ := randomGrid_fills hspec (hfill₁.length.trans hlen) hrandom
  refine ⟨b₂, ?_, hfill₁.trans hfill₂⟩
  rw [rejectionSample, List.length_map]
  cases hall : (batch.map Row.greedy).all not with
  | true =>
    rw [hall, if_pos rfl] at h₁
    obtain rfl := Except.ok.inj h₁
    rw [hall] at h₂
    exact h₂
  | false =>
    rw [hall, if_neg Bool.false_ne_true] at h₁
    rw [hall] at h₂
    simp only [Bool.false_eq_true, if_false, h₁, bind, Except.bind] at h₂ ⊢
    exact h₂

/-! ## The output -/

/-- The row of a request in the output: what it keeps, and placeholders. -/
def Row.output (r : Row) (maxSpecLen : Nat) : List Int :=
  r.kept ++ List.replicate (maxSpecLen + 1 - r.kept.length) placeholderTokenId

theorem Row.getElem?_output {i : Nat} (hi : i < maxSpecLen + 1) :
    (r.output maxSpecLen)[i]? = some (r.kept[i]?.getD placeholderTokenId) := by
  rw [Row.output]
  by_cases hkept : i < r.kept.length
  · rw [List.getElem?_append_left hkept, List.getElem?_eq_getElem hkept, Option.getD_some]
  · rw [List.getElem?_append_right (by omega), List.getElem?_replicate, if_pos (by omega),
      List.getElem?_eq_none (by omega), Option.getD_none]

theorem Row.length_output (hspec : r.numDraftTokens ≤ maxSpecLen) :
    (r.output maxSpecLen).length = maxSpecLen + 1 := by
  have hle := r.length_kept
  rw [Row.output, List.length_append, List.length_replicate]
  omega

/-- A cell that was written has its value, and any other is a placeholder. -/
theorem getElem?_out {out : List Int} (hrow : batch[reqIdx]? = some r)
    (hspec : ∀ r ∈ batch, r.numDraftTokens ≤ maxSpecLen)
    (hfill : Fills (fun o => GridCells batch maxSpecLen true o ∨ GridCells batch maxSpecLen false o)
      (cell batch maxSpecLen)
      (List.replicate (batch.length * (maxSpecLen + 1)) placeholderTokenId) out)
    {i : Nat} (hi : i < maxSpecLen + 1) :
    out[reqIdx * (maxSpecLen + 1) + i]? = some (r.kept[i]?.getD placeholderTokenId) := by
  have hlt : reqIdx < batch.length := (List.getElem?_eq_some_iff.1 hrow).1
  have hnext : (reqIdx + 1) * (maxSpecLen + 1) ≤ batch.length * (maxSpecLen + 1) :=
    Nat.mul_le_mul_right _ hlt
  rw [Nat.succ_mul] at hnext
  have hin : reqIdx * (maxSpecLen + 1) + i <
      (List.replicate (batch.length * (maxSpecLen + 1)) placeholderTokenId).length := by
    rw [List.length_replicate]
    omega
  by_cases hkept : i < r.kept.length
  · have hcells : r.cells reqIdx maxSpecLen (reqIdx * (maxSpecLen + 1) + i) :=
      ⟨Nat.le_add_right _ _, Nat.add_lt_add_left hkept _⟩
    rw [← cell_eq hrow hi]
    apply hfill.written _ hin
    cases hr : r.greedy with
    | true => exact .inl ⟨reqIdx, r, hrow, hr, hcells⟩
    | false => exact .inr ⟨reqIdx, r, hrow, hr, hcells⟩
  · have hnot : ∀ greedy, ¬ GridCells batch maxSpecLen greedy (reqIdx * (maxSpecLen + 1) + i) := by
      rintro greedy ⟨reqIdx', r', hrow', -, hlo, hhi⟩
      have hle' := r'.length_kept
      have hspec' := hspec r' (List.mem_of_getElem? hrow')
      have hsame : reqIdx' = reqIdx := by
        obtain ⟨k, hk⟩ := Nat.exists_eq_add_of_le hlo
        have hdiv := @row_of_offset reqIdx maxSpecLen i hi
        have hdiv' := @row_of_offset reqIdx' maxSpecLen k (by omega)
        rw [hk] at hdiv
        exact hdiv'.symm.trans hdiv
      subst hsame
      obtain rfl := Option.some.inj (hrow.symm.trans hrow')
      omega
    rw [hfill.kept _ hin (not_or.2 ⟨hnot true, hnot false⟩),
      List.getElem?_eq_none (Nat.not_lt.1 hkept), Option.getD_none, List.getElem?_replicate,
      if_pos (by rwa [List.length_replicate] at hin)]

/-- Every row of the output is that of its request, in whatever order the programs run. -/
theorem rejectionSample_rows {greedyOrder randomOrder : List Nat}
    (hspec : ∀ r ∈ batch, r.numDraftTokens ≤ maxSpecLen)
    (hgreedy : greedyOrder.Perm (List.range batch.length))
    (hrandom : randomOrder.Perm (List.range batch.length)) :
    ∃ out, rejectionSample (batch.map Row.drafts).flatten (batch.map Row.numDraftTokens) maxSpecLen
        (cumsum (batch.map Row.numDraftTokens)) (batch.map Row.accepted).flatten
        (batch.map Row.targetArgmax).flatten (batch.map Row.bonus) (batch.map Row.recovered).flatten
        (batch.map Row.greedy) greedyOrder randomOrder = .ok out ∧
      rows (maxSpecLen + 1) batch.length out = batch.map fun r => r.output maxSpecLen := by
  obtain ⟨out, hrun, hfill⟩ := rejectionSample_fills hspec hgreedy hrandom
  refine ⟨out, hrun, List.ext_getElem? fun reqIdx => ?_⟩
  by_cases hlt : reqIdx < batch.length
  · have hrow := List.getElem?_eq_getElem hlt
    rw [rows, List.getElem?_map, List.getElem?_range hlt, Option.map_some, List.getElem?_map, hrow,
      Option.map_some]
    congr 1
    apply List.ext_getElem?
    intro i
    by_cases hi : i < maxSpecLen + 1
    · rw [List.getElem?_take_of_lt hi, List.getElem?_drop, getElem?_out hrow hspec hfill hi,
        Row.getElem?_output hi]
    · have hlen := Row.length_output (hspec _ (List.getElem_mem hlt))
      rw [List.getElem?_eq_none (by rw [List.length_take]; omega), List.getElem?_eq_none (by omega)]
  · rw [List.getElem?_eq_none (by simpa [rows] using hlt),
      List.getElem?_eq_none (by simpa using hlt)]

theorem keepUntil_pos {items : List (Int × Bool)} {bonus : Int} :
    0 < (keepUntil items bonus).length := by
  cases items with
  | nil => exact Nat.one_pos
  | cons item items =>
    rw [keepUntil]
    split <;> exact Nat.succ_pos _

/-- The placeholders are taken out again. -/
theorem getElem?_validSampledTokenIds {vocabSize : Nat} {discardReqIndices : List Nat}
    (hrow : batch[reqIdx]? = some r)
    (hvalid : ∀ t ∈ r.kept, t ≠ placeholderTokenId ∧ t < vocabSize) :
    (validSampledTokenIds (batch.map fun r => r.output maxSpecLen) (maxSpecLen + 1) vocabSize
      discardReqIndices)[reqIdx]? = some (if reqIdx ∈ discardReqIndices then [] else r.kept) := by
  rw [validSampledTokenIds]
  split
  · next hone =>
    -- without drafts there are no placeholders
    have hpos : 0 < r.kept.length := keepUntil_pos
    have houtput : r.output maxSpecLen = r.kept := by
      rw [Row.output, Nat.sub_eq_zero_of_le (by omega), List.replicate_zero, List.append_nil]
    rw [List.getElem?_mapIdx, List.getElem?_map, hrow, Option.map_some, Option.map_some, houtput]
  · have hkept : r.kept.filter (fun t => decide (t ≠ placeholderTokenId ∧ t < vocabSize)) =
        r.kept :=
      List.filter_eq_self.2 fun t ht => decide_eq_true (hvalid t ht)
    rw [parseOutput, List.getElem?_mapIdx, List.getElem?_map, hrow, Option.map_some,
      Option.map_some, Row.output, List.filter_append, hkept,
      List.filter_eq_nil_iff.2 fun t ht => by simp [List.eq_of_mem_replicate ht], List.append_nil]

end AiPipelines.SpecDecode

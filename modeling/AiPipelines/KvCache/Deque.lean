import AiPipelines.KvCache.FreeQueue

/-!
# The free queue is a list

What the methods of `FreeKVCacheBlockQueue` do, seen as operations on the list
of the free blocks.  `Represents q xs` says that the links between the fake head
and the fake tail are exactly the list `xs` and that the counter is its length;
every method keeps this, and raises exactly when the operation on the list does
not exist.  No method touches a field of a block other than its links (`info`).

`queue_refines` puts the methods together: over any run of calls the queue
answers as the list does.
-/

namespace AiPipelines.KvCache

variable {K : Type}

namespace FreeKVCacheBlockQueue

/-- The links are the list `xs` of free blocks, and the counter is its length. -/
structure Represents (q : FreeKVCacheBlockQueue K) (xs : List Ref) : Prop where
  between : q.links.Between .fakeFreeListHead xs .fakeFreeListTail
  num : q.numFreeBlocks = xs.length

variable {q : FreeKVCacheBlockQueue K} {r c : Ref} {xs ys cs blocks : List Ref} {n : Nat}

/-! ## Taking blocks from the front -/

theorem popleft_nil (h : q.Represents []) : q.popleft = .error .valueError := by
  have hnext : (q.objects .fakeFreeListHead).nextFreeBlock = some .fakeFreeListTail :=
    h.between.next_head
  have hnum : q.numFreeBlocks = 0 := h.num
  simp only [popleft, hnext, if_pos, hnum]

theorem popleft_cons (h : q.Represents (r :: xs)) :
    ∃ q', q.popleft = .ok (r, q') ∧ q'.Represents xs ∧ q'.info = q.info := by
  have hbetween : q.links.Between .fakeFreeListHead ([] ++ r :: xs) .fakeFreeListTail := h.between
  obtain ⟨p, s, hprev, hnext, hrest⟩ := hbetween.remove
  have hp : p = .fakeFreeListHead := by
    have hn := (Links.linked_cons_cons.1 h.between.linked).1.2
    rw [hn] at hprev
    exact (Option.some.inj hprev).symm
  subst hp
  have hfirst : (q.objects .fakeFreeListHead).nextFreeBlock = some r := h.between.next_head
  have hsecond : (q.objects r).nextFreeBlock = some s := hnext
  have hne : r ≠ .fakeFreeListTail := by
    intro heq
    exact h.between.tail_not_mem (heq ▸ List.mem_cons_self)
  have hpop : q.popleft = .ok (r, ((((q.setNext .fakeFreeListHead (some s)).setPrev s
      (some .fakeFreeListHead)).setPrev r none).setNext r none).addFree (-1)) := by
    simp only [popleft, hfirst, hsecond, if_neg hne]
  refine ⟨_, hpop, ⟨?_, ?_⟩, ?_⟩
  · simp only [addFree_links, setNext_links, setPrev_links]
    exact hrest
  · have hnum := h.num
    simp only [List.length_cons] at hnum
    simp only [addFree_numFreeBlocks, setNext_numFreeBlocks, setPrev_numFreeBlocks, hnum]
    omega
  · simp

/-- The loop of `popleft_n` gives the blocks in front and takes their links away. -/
theorem popLoop_eq (h : q.links.Linked (cs ++ ys ++ [.fakeFreeListTail]))
    (hnd : (cs ++ ys ++ [Ref.fakeFreeListTail]).Nodup) :
    ∃ q', popLoop cs.length q (some ((cs ++ ys).headD .fakeFreeListTail)) =
        .ok (cs, some (ys.headD .fakeFreeListTail), q') ∧
      q'.links = q.links.clearAll cs ∧ q'.info = q.info ∧ q'.numFreeBlocks = q.numFreeBlocks := by
  induction cs generalizing q with
  | nil => exact ⟨q, rfl, rfl, rfl, rfl⟩
  | cons c cs ih =>
    obtain ⟨hc, hrest⟩ := List.nodup_cons.1 hnd
    have hnext : q.links.next c = some ((cs ++ ys).headD .fakeFreeListTail) := by
      cases hcs : cs ++ ys with
      | nil =>
        simp only [List.cons_append, hcs, List.nil_append] at h
        exact (Links.linked_cons_cons.1 h).1.1
      | cons d ds =>
        simp only [List.cons_append, hcs] at h
        exact (Links.linked_cons_cons.1 h).1.1
    have hlinked : ((q.setPrev c none).setNext c none).links.Linked
        (cs ++ ys ++ [.fakeFreeListTail]) := by
      have hcons : q.links.Linked ([c] ++ (cs ++ ys ++ [.fakeFreeListTail])) := h
      have htail := hcons.right
      rw [setNext_links, setPrev_links]
      apply htail.congr
      · intro d hd
        exact Links.clear_next.trans (if_neg (ne_of_mem_of_not_mem hd hc))
      · intro d hd
        exact Links.clear_prev.trans (if_neg (ne_of_mem_of_not_mem hd hc))
    obtain ⟨q', hpop, hlinks, hinfo, hnum⟩ := ih hlinked hrest
    refine ⟨q', ?_, ?_, ?_, ?_⟩
    · rw [List.cons_append, List.headD_cons, List.length_cons, popLoop, nextFreeBlock_eq, hnext,
        hpop]
      rfl
    · rw [hlinks, setNext_links, setPrev_links]
      rfl
    · rw [hinfo, setNext_info, setPrev_info]
    · rw [hnum, setNext_numFreeBlocks, setPrev_numFreeBlocks]

theorem popleftN_append (h : q.Represents (cs ++ ys)) :
    ∃ q', q.popleftN cs.length = .ok (cs, q') ∧ q'.Represents ys ∧ q'.info = q.info := by
  by_cases hcs : cs.length = 0
  · obtain rfl := List.eq_nil_of_length_eq_zero hcs
    exact ⟨q, rfl, h, rfl⟩
  · have hlt : ¬ q.numFreeBlocks < (cs.length : Int) := by
      rw [h.num, List.length_append]
      omega
    have hnext : ((q.addFree (-cs.length)).objects .fakeFreeListHead).nextFreeBlock =
        some ((cs ++ ys).headD .fakeFreeListTail) := h.between.next_head
    obtain ⟨q₁, hpop, hlinks, hinfo, hnum⟩ := popLoop_eq (q := q.addFree (-cs.length))
      h.between.linked_rest (List.nodup_cons.1 h.between.nodup).2
    have hpopn : q.popleftN cs.length = .ok (cs, (q₁.setNext .fakeFreeListHead
        (some (ys.headD .fakeFreeListTail))).setPrev (ys.headD .fakeFreeListTail)
        (some .fakeFreeListHead)) := by
      rw [popleftN, if_neg hcs, if_neg hlt]
      simp only [hnext, hpop]
      rfl
    refine ⟨_, hpopn, ⟨?_, ?_⟩, ?_⟩
    · rw [setPrev_links, setNext_links, hlinks]
      exact h.between.dropFront
    · rw [setPrev_numFreeBlocks, setNext_numFreeBlocks, hnum, addFree_numFreeBlocks, h.num,
        List.length_append]
      omega
    · rw [setPrev_info, setNext_info, hinfo, addFree_info]

/-- `popleft_n` gives the first `n` free blocks. -/
theorem popleftN_le (h : q.Represents xs) (hn : n ≤ xs.length) :
    ∃ q', q.popleftN n = .ok (xs.take n, q') ∧ q'.Represents (xs.drop n) ∧ q'.info = q.info := by
  have hsplit : xs.take n ++ xs.drop n = xs := List.take_append_drop n xs
  have happ := popleftN_append (hsplit.symm ▸ h)
  rw [List.length_take_of_le hn] at happ
  exact happ

theorem popleftN_gt (h : q.Represents xs) (hn : xs.length < n) :
    q.popleftN n = .error .assertionError := by
  have hnum : q.numFreeBlocks < (n : Int) := by
    rw [h.num]
    omega
  rw [popleftN, if_neg (by omega), if_pos hnum]

/-! ## Taking a block from the middle -/

theorem remove_mem (h : q.Represents xs) (hr : r ∈ xs) :
    ∃ q', q.remove r = .ok q' ∧ q'.Represents (xs.erase r) ∧ q'.info = q.info := by
  obtain ⟨as, bs, hnot, hxs, herase⟩ := List.exists_erase_eq hr
  rw [hxs] at h
  obtain ⟨p, s, hprev, hnext, hrest⟩ := h.between.remove
  have hp : (q.objects r).prevFreeBlock = some p := hprev
  have hs : (q.objects r).nextFreeBlock = some s := hnext
  have hremove : q.remove r = .ok (((((q.setNext p (some s)).setPrev s (some p)).setPrev r
      none).setNext r none).addFree (-1)) := by
    simp only [remove, hp, hs]
  refine ⟨_, hremove, ⟨?_, ?_⟩, ?_⟩
  · simp only [addFree_links, setNext_links, setPrev_links, herase]
    exact hrest
  · have hnum := h.num
    rw [List.length_append, List.length_cons] at hnum
    simp only [addFree_numFreeBlocks, setNext_numFreeBlocks, setPrev_numFreeBlocks, hnum, herase,
      List.length_append]
    omega
  · simp only [addFree_info, setNext_info, setPrev_info]

theorem remove_not_mem (h : q.Represents xs) (hr : r ∉ xs) : q.remove r = .error .runtimeError := by
  by_cases hhead : r = .fakeFreeListHead
  · have hprev : (q.objects r).prevFreeBlock = none := hhead ▸ h.between.prev_head
    simp only [remove, hprev]
  · have hnext : (q.objects r).nextFreeBlock = none := by
      by_cases htail : r = .fakeFreeListTail
      · exact htail ▸ h.between.next_tail
      · exact (h.between.next_eq_none_iff hhead htail).2 hr
    cases hprev : (q.objects r).prevFreeBlock with
    | none => simp only [remove, hprev]
    | some p => simp only [remove, hprev, hnext]

/-! ## Putting blocks at the end -/

/-- The loop of `append_n` links the blocks one behind the other. -/
theorem appendLoop_eq :
    (appendLoop q c cs).1.links = q.links.linkFrom c cs ∧
      (appendLoop q c cs).2 = (c :: cs).getLast (by simp) ∧
      (appendLoop q c cs).1.info = q.info ∧
      (appendLoop q c cs).1.numFreeBlocks = q.numFreeBlocks := by
  induction cs generalizing q c with
  | nil => exact ⟨rfl, rfl, rfl, rfl⟩
  | cons d ds ih =>
    obtain ⟨hlinks, hlast, hinfo, hnum⟩ :=
      ih (q := (q.setPrev d (some c)).setNext c (some d)) (c := d)
    refine ⟨?_, ?_, ?_, ?_⟩
    · rw [appendLoop, hlinks, setNext_links, setPrev_links]
      rfl
    · rw [appendLoop, hlast]
      exact (List.getLast_cons (List.cons_ne_nil d ds)).symm
    · rw [appendLoop, hinfo, setNext_info, setPrev_info]
    · rw [appendLoop, hnum, setNext_numFreeBlocks, setPrev_numFreeBlocks]

/-- Blocks that may be put back: distinct, and neither free nor an end of the list. -/
def New (xs cs : List Ref) : Prop :=
  cs.Nodup ∧ ∀ c ∈ cs, c ∉ Ref.fakeFreeListHead :: xs ++ [.fakeFreeListTail]

instance (xs cs : List Ref) : Decidable (New xs cs) := by
  unfold New
  infer_instance

theorem appendN_new (h : q.Represents xs) (hnew : New xs cs) :
    ∃ q', q.appendN cs = .ok q' ∧ q'.Represents (xs ++ cs) ∧ q'.info = q.info := by
  by_cases hcs : cs.length = 0
  · obtain rfl := List.eq_nil_of_length_eq_zero hcs
    exact ⟨q, rfl, by rwa [List.append_nil], rfl⟩
  · have hlast : (q.objects .fakeFreeListTail).prevFreeBlock = some _ := h.between.prev_tail
    obtain ⟨hlinks, hend, hinfo, hnum⟩ :=
      @appendLoop_eq _ q ((Ref.fakeFreeListHead :: xs).getLast (by simp)) cs
    obtain ⟨q₁, hq₁⟩ : ∃ q₁,
        q₁ = appendLoop q ((Ref.fakeFreeListHead :: xs).getLast (by simp)) cs :=
      ⟨_, rfl⟩
    rw [← hq₁] at hlinks hend hinfo hnum
    have happend : q.appendN cs = .ok (((q₁.1.setNext q₁.2 (some .fakeFreeListTail)).setPrev
        .fakeFreeListTail (some q₁.2)).addFree cs.length) := by
      simp only [appendN, if_neg hcs, hlast, hq₁]
    refine ⟨_, happend, ⟨?_, ?_⟩, ?_⟩
    · simp only [addFree_links, setNext_links, setPrev_links, hlinks, hend]
      exact h.between.pushBack hnew.1 hnew.2
    · simp only [addFree_numFreeBlocks, setNext_numFreeBlocks, setPrev_numFreeBlocks, hnum, h.num,
        List.length_append]
      omega
    · simp only [addFree_info, setNext_info, setPrev_info, hinfo]

theorem append_new (h : q.Represents xs) (hnew : New xs [r]) :
    ∃ q', q.append r = .ok q' ∧ q'.Represents (xs ++ [r]) ∧ q'.info = q.info := by
  have hlast : (q.objects .fakeFreeListTail).prevFreeBlock = some _ := h.between.prev_tail
  obtain ⟨p, hp⟩ : ∃ p, p = (Ref.fakeFreeListHead :: xs).getLast (by simp) := ⟨_, rfl⟩
  rw [← hp] at hlast
  have happend : q.append r = .ok (((((q.setNext p (some r)).setPrev r (some p)).setNext r
      (some .fakeFreeListTail)).setPrev .fakeFreeListTail (some r)).addFree 1) := by
    simp only [append, hlast]
  refine ⟨_, happend, ⟨?_, ?_⟩, ?_⟩
  · have hpush := h.between.pushBack hnew.1 hnew.2
    simp only [← hp] at hpush
    simp only [addFree_links, setNext_links, setPrev_links]
    exact hpush
  · simp only [addFree_numFreeBlocks, setNext_numFreeBlocks, setPrev_numFreeBlocks, h.num,
      List.length_append, List.length_singleton]
    omega
  · simp only [addFree_info, setNext_info, setPrev_info]

/-! ## All blocks -/

theorem collect_eq (h : q.links.Linked (xs ++ [.fakeFreeListTail]))
    (htail : q.links.next .fakeFreeListTail = none) (hn : xs.length < n) :
    q.collect n (xs.headD .fakeFreeListTail) = some xs := by
  induction xs generalizing n with
  | nil =>
    obtain ⟨m, rfl⟩ : ∃ m, n = m + 1 := ⟨n - 1, by omega⟩
    rw [List.headD_nil, collect, nextFreeBlock_eq, htail]
  | cons x xs ih =>
    obtain ⟨m, rfl⟩ : ∃ m, n = m + 1 := ⟨n - 1, by omega⟩
    have hlen : xs.length < m := by
      rw [List.length_cons] at hn
      omega
    have hnext : q.links.next x = some (xs.headD .fakeFreeListTail) := by
      cases xs with
      | nil => exact (Links.linked_cons_cons.1 h).1.1
      | cons y ys => exact (Links.linked_cons_cons.1 h).1.1
    rw [List.headD_cons, collect, nextFreeBlock_eq, hnext]
    have hcons : q.links.Linked ([x] ++ (xs ++ [.fakeFreeListTail])) := h
    simp only [ih hcons.right hlen, Option.map_some]

theorem getAllFreeBlocks_eq (h : q.Represents xs) (hn : xs.length < n) :
    q.getAllFreeBlocks n = .ok (some xs) := by
  have hnext : (q.objects .fakeFreeListHead).nextFreeBlock =
      some (xs.headD .fakeFreeListTail) := h.between.next_head
  simp only [getAllFreeBlocks, hnext, collect_eq h.between.linked_rest h.between.next_tail hn]

/-! ## The start -/

/-- The objects before the queue links them: new ones have no links. -/
def Unlinked (objects : Ref → KVCacheBlock K) : Prop :=
  ∀ r, (objects r).nextFreeBlock = none ∧ (objects r).prevFreeBlock = none

theorem nth_of_lt {i : Nat} (hi : i < blocks.length) : nth blocks i = blocks[i] := by
  rw [nth, List.getD_eq_getElem?_getD, List.getElem?_eq_getElem hi, Option.getD_some]

theorem nth_inj (hnd : blocks.Nodup) {i j : Nat} (hi : i < blocks.length) (hj : j < blocks.length)
    (h : nth blocks i = nth blocks j) : i = j := by
  rw [nth_of_lt hi, nth_of_lt hj] at h
  exact (List.Nodup.getElem_inj_iff hnd).1 h

/-- What the loop of `__init__` has linked after `k` rounds. -/
structure LinkedUpto (blocks : List Ref) (q₀ q : FreeKVCacheBlockQueue K) (k : Nat) : Prop where
  next : ∀ i < k, i + 1 < blocks.length → q.links.next (nth blocks i) = some (nth blocks (i + 1))
  prev : ∀ i < k, 0 < i → q.links.prev (nth blocks i) = some (nth blocks (i - 1))
  ends : ∀ r, (∀ i < k, i + 1 < blocks.length → r ≠ nth blocks i) → q.links.next r = q₀.links.next r
  starts : ∀ r, (∀ i < k, 0 < i → r ≠ nth blocks i) → q.links.prev r = q₀.links.prev r
  info : q.info = q₀.info
  num : q.numFreeBlocks = q₀.numFreeBlocks

theorem linkBlock_info (blocks : List Ref) (q : FreeKVCacheBlockQueue K) (i : Nat) :
    (linkBlock blocks q i).info = q.info ∧
      (linkBlock blocks q i).numFreeBlocks = q.numFreeBlocks := by
  unfold linkBlock
  split <;> split <;> simp

theorem linkBlock_next {i : Nat} : (linkBlock blocks q i).links.next r =
    if i + 1 < blocks.length ∧ r = nth blocks i then some (nth blocks (i + 1))
    else q.links.next r := by
  have hprev :
      (if 0 < i then q.setPrev (nth blocks i) (some (nth blocks (i - 1))) else q).links.next
      = q.links.next := by
    split <;> simp
  unfold linkBlock
  dsimp only
  by_cases hi : i + 1 < blocks.length
  · rw [if_pos hi, setNext_links, Links.setNext_next, hprev]
    simp only [hi, true_and]
  · rw [if_neg hi, hprev, if_neg (fun h => hi h.1)]

theorem linkBlock_prev {i : Nat} : (linkBlock blocks q i).links.prev r =
    if 0 < i ∧ r = nth blocks i then some (nth blocks (i - 1)) else q.links.prev r := by
  have hnext : (linkBlock blocks q i).links.prev r =
      (if 0 < i then q.setPrev (nth blocks i) (some (nth blocks (i - 1))) else q).links.prev r := by
    unfold linkBlock
    dsimp only
    split
    · rw [setNext_links, Links.setNext_prev]
    · rfl
  rw [hnext]
  by_cases hi : 0 < i
  · rw [if_pos hi, setPrev_links, Links.setPrev_prev]
    simp only [hi, true_and]
  · rw [if_neg hi, if_neg (fun h => hi h.1)]

theorem linkedUpto_foldl (hnd : blocks.Nodup) (q₀ : FreeKVCacheBlockQueue K) {k : Nat}
    (hk : k ≤ blocks.length) :
    LinkedUpto blocks q₀ ((List.range k).foldl (linkBlock blocks) q₀) k := by
  induction k with
  | zero => exact ⟨by simp, by simp, fun _ _ => rfl, fun _ _ => rfl, rfl, rfl⟩
  | succ k ih =>
    have h := ih (by omega)
    rw [List.range_succ, List.foldl_append, List.foldl_cons, List.foldl_nil]
    constructor
    · intro i hi hlen
      rw [linkBlock_next]
      by_cases hik : i = k
      · rw [if_pos ⟨hik ▸ hlen, hik ▸ rfl⟩, hik]
      · have hne : nth blocks i ≠ nth blocks k :=
          fun heq => hik (nth_inj hnd (by omega) (by omega) heq)
        rw [if_neg (fun hc => hne hc.2)]
        exact h.next i (by omega) hlen
    · intro i hi hpos
      rw [linkBlock_prev]
      by_cases hik : i = k
      · rw [if_pos ⟨hik ▸ hpos, hik ▸ rfl⟩, hik]
      · have hne : nth blocks i ≠ nth blocks k :=
          fun heq => hik (nth_inj hnd (by omega) (by omega) heq)
        rw [if_neg (fun hc => hne hc.2)]
        exact h.prev i (by omega) hpos
    · intro r hr
      rw [linkBlock_next, if_neg (fun hc => hr k (by omega) hc.1 hc.2)]
      exact h.ends r (fun i hi => hr i (by omega))
    · intro r hr
      rw [linkBlock_prev, if_neg (fun hc => hr k (by omega) hc.1 hc.2)]
      exact h.starts r (fun i hi => hr i (by omega))
    · rw [(linkBlock_info blocks _ k).1, h.info]
    · rw [(linkBlock_info blocks _ k).2, h.num]

/-- The loop links the blocks in their order and gives no other link. -/
theorem LinkedUpto.linked {q₀ : FreeKVCacheBlockQueue K}
    (h : LinkedUpto blocks q₀ q blocks.length) : q.links.Linked blocks := by
  refine List.isChain_iff_getElem.2 ?_
  intro i hi
  have hnext := h.next i (by omega) hi
  have hprev := h.prev (i + 1) hi (by omega)
  rw [nth_of_lt (by omega), nth_of_lt hi] at hnext
  rw [nth_of_lt hi, Nat.add_sub_cancel, nth_of_lt (by omega)] at hprev
  exact ⟨hnext, hprev⟩

theorem LinkedUpto.unlinked {q₀ : FreeKVCacheBlockQueue K} {k : Nat}
    (h : LinkedUpto blocks q₀ q k) (hk : k ≤ blocks.length) (hnew : Unlinked q₀.objects)
    (hr : r ∉ blocks) : q.links.next r = none ∧ q.links.prev r = none := by
  have hne : ∀ i < k, r ≠ nth blocks i := by
    intro i hi heq
    rw [nth_of_lt (by omega)] at heq
    exact hr (heq ▸ List.getElem_mem (by omega))
  constructor
  · rw [h.ends r (fun i hi _ => hne i hi)]
    exact (hnew r).1
  · rw [h.starts r (fun i hi _ => hne i hi)]
    exact (hnew r).2

theorem info_eq (h : (q.objects r).nextFreeBlock = none ∧ (q.objects r).prevFreeBlock = none) :
    q.info r = q.objects r := by
  unfold info
  generalize q.objects r = b at h
  cases b
  obtain ⟨rfl, rfl⟩ := h
  rfl

theorem setObject_links {b : KVCacheBlock K} (hb : b.nextFreeBlock = none ∧ b.prevFreeBlock = none)
    (hr : q.links.next r = none ∧ q.links.prev r = none) : (q.setObject r b).links = q.links := by
  rw [Links.mk.injEq]
  constructor
  · funext s
    show ((q.setObject r b).objects s).nextFreeBlock = q.links.next s
    rw [setObject_objects]
    split
    · next h => rw [h, hb.1, hr.1]
    · rfl
  · funext s
    show ((q.setObject r b).objects s).prevFreeBlock = q.links.prev s
    rw [setObject_objects]
    split
    · next h => rw [h, hb.2, hr.2]
    · rfl

/-- The empty list between the sentinels. -/
theorem between_nil {L : Links Ref} (hout : ∀ c, L.next c = none ∧ L.prev c = none) :
    (L.join .fakeFreeListHead .fakeFreeListTail).Between
      .fakeFreeListHead [] .fakeFreeListTail := by
  constructor
  · exact @Links.Linked.join _ L _ _ [] [] _ (Links.linked_singleton L _)
      (Links.linked_singleton L _) (by decide)
  · decide
  · exact (hout _).2
  · exact (hout _).1
  · intro c hc
    rw [List.mem_append, List.mem_cons, List.mem_singleton, not_or, not_or] at hc
    rw [Links.join_next, Links.join_prev, if_neg hc.1.1, if_neg hc.2]
    exact hout c

/-- A new list between the sentinels, from a linked one. -/
theorem between_of_linked {L : Links Ref} (hlinked : L.Linked (r :: xs))
    (hnd : (Ref.fakeFreeListHead :: (r :: xs) ++ [Ref.fakeFreeListTail]).Nodup)
    (hout : ∀ c, c ∉ r :: xs → L.next c = none ∧ L.prev c = none) :
    ((L.join .fakeFreeListHead r).join ((r :: xs).getLast (by simp)) .fakeFreeListTail).Between
      .fakeFreeListHead (r :: xs) .fakeFreeListTail := by
  obtain ⟨as, c, has⟩ : ∃ as c, r :: xs = as ++ [c] :=
    ⟨_, _, (List.dropLast_append_getLast (l := r :: xs) (by simp)).symm⟩
  have hlast : (r :: xs).getLast (by simp) = c := by simp [has]
  rw [hlast]
  have hends : Ref.fakeFreeListHead :: (r :: xs) ++ [.fakeFreeListTail] =
      (.fakeFreeListHead :: as) ++ c :: .fakeFreeListTail :: [] := by
    rw [has]
    simp
  have hhead : Ref.fakeFreeListHead ∉ r :: xs := by
    intro hmem
    exact (List.nodup_cons.1 hnd).1 (List.mem_append_left _ hmem)
  have htail : Ref.fakeFreeListTail ∉ r :: xs := by
    intro hmem
    exact (List.nodup_append.1 hnd).2.2 _ (List.mem_cons_of_mem _ hmem) _ List.mem_cons_self rfl
  have hfirst : (L.join .fakeFreeListHead r).Linked (.fakeFreeListHead :: r :: xs) :=
    @Links.Linked.join _ L _ _ [] xs _ (Links.linked_singleton L _) hlinked
      (List.nodup_append.1 hnd).1
  have hc : c ∈ r :: xs := by simp [has]
  constructor
  · rw [hends]
    apply Links.Linked.join
    · rw [show Ref.fakeFreeListHead :: as ++ [c] = .fakeFreeListHead :: r :: xs by rw [has]; simp]
      exact hfirst
    · exact Links.linked_singleton _ _
    · rw [← hends]
      exact hnd
  · exact hnd
  · rw [Links.join_prev, if_neg (by decide), Links.join_prev,
      if_neg (ne_of_mem_of_not_mem List.mem_cons_self hhead).symm]
    exact (hout _ hhead).2
  · rw [Links.join_next, if_neg (ne_of_mem_of_not_mem hc htail).symm, Links.join_next,
      if_neg (by decide)]
    exact (hout _ htail).1
  · intro d hd
    rw [List.mem_append, List.mem_cons, List.mem_singleton, not_or, not_or] at hd
    obtain ⟨⟨hdhead, hdmem⟩, hdtail⟩ := hd
    have hdc : d ≠ c := (ne_of_mem_of_not_mem hc hdmem).symm
    have hdr : d ≠ r := (ne_of_mem_of_not_mem List.mem_cons_self hdmem).symm
    rw [Links.join_next, if_neg hdc, Links.join_next, if_neg hdhead, Links.join_prev, if_neg hdtail,
      Links.join_prev, if_neg hdr]
    exact hout d hdmem

/-- A new queue is the list of its blocks, and leaves the blocks as they are but for their
links. -/
theorem init_represents {objects : Ref → KVCacheBlock K} (hnew : Unlinked objects)
    (hblocks : New [] blocks) :
    (init objects blocks).Represents blocks ∧
      (∀ i, (init objects blocks).info (.block i) = objects (.block i)) ∧
      (init objects blocks).info .fakeFreeListHead = { blockId := -1 } ∧
      (init objects blocks).info .fakeFreeListTail = { blockId := -1 } := by
  have hhead : Ref.fakeFreeListHead ∉ blocks := by
    intro hmem
    exact hblocks.2 _ hmem (by decide)
  have htail : Ref.fakeFreeListTail ∉ blocks := by
    intro hmem
    exact hblocks.2 _ hmem (by decide)
  have hnodup : (Ref.fakeFreeListHead :: blocks ++ [Ref.fakeFreeListTail]).Nodup := by
    rw [List.cons_append, List.nodup_cons, List.nodup_append]
    refine ⟨by simp [hhead], hblocks.1, List.nodup_singleton _, ?_⟩
    intro c hc d hd heq
    exact htail (List.mem_singleton.1 hd ▸ heq ▸ hc)
  obtain ⟨q₁, hq₁⟩ : ∃ q₁, q₁ = (List.range blocks.length).foldl (linkBlock blocks)
      (⟨objects, blocks.length⟩ : FreeKVCacheBlockQueue K) := ⟨_, rfl⟩
  have hloop := linkedUpto_foldl hblocks.1 (⟨objects, blocks.length⟩ : FreeKVCacheBlockQueue K)
    (Nat.le_refl blocks.length)
  rw [← hq₁] at hloop
  have hout : ∀ c, c ∉ blocks → q₁.links.next c = none ∧ q₁.links.prev c = none :=
    fun c hc => hloop.unlinked (Nat.le_refl _) hnew hc
  obtain ⟨q₂, hq₂⟩ : ∃ q₂, q₂ = (q₁.setObject .fakeFreeListHead { blockId := -1 }).setObject
      .fakeFreeListTail { blockId := -1 } := ⟨_, rfl⟩
  have hlinks : q₂.links = q₁.links := by
    have hl := setObject_links (b := { blockId := -1 }) ⟨rfl, rfl⟩ (hout _ hhead)
    rw [hq₂, setObject_links ⟨rfl, rfl⟩ (hl ▸ hout _ htail), hl]
  have hinfo : ∀ i, q₂.info (.block i) = objects (.block i) := by
    intro i
    have hold : q₁.info (.block i) = objects (.block i) := by
      rw [hloop.info]
      exact info_eq (hnew (.block i))
    rw [hq₂, info, setObject_objects, if_neg (by simp), setObject_objects, if_neg (by simp)]
    exact hold
  have hfakes : q₂.info .fakeFreeListHead = { blockId := -1 } ∧
      q₂.info .fakeFreeListTail = { blockId := -1 } := by
    rw [hq₂, info, info, setObject_objects, if_neg (by simp), setObject_objects, if_pos rfl,
      setObject_objects, if_pos rfl]
    exact ⟨rfl, rfl⟩
  have hnum : q₂.numFreeBlocks = blocks.length := by
    rw [hq₂]
    exact hloop.num
  cases hcases : blocks with
  | nil =>
    have hinit : init objects [] = (q₂.setNext .fakeFreeListHead (some .fakeFreeListTail)).setPrev
        .fakeFreeListTail (some .fakeFreeListHead) := by
      rw [hq₂, hq₁, hcases]
      rfl
    have hbetween : (q₂.links.join .fakeFreeListHead .fakeFreeListTail).Between .fakeFreeListHead []
        .fakeFreeListTail := by
      rw [hlinks]
      exact between_nil fun c => hout c (hcases ▸ List.not_mem_nil)
    rw [hinit]
    refine ⟨⟨?_, ?_⟩, ?_⟩
    · rw [setPrev_links, setNext_links]
      exact hbetween
    · rw [setPrev_numFreeBlocks, setNext_numFreeBlocks, hnum, hcases]
    · rw [setPrev_info, setNext_info]
      exact ⟨hinfo, hfakes⟩
  | cons b bs =>
    have hlast : nth (b :: bs) ((b :: bs).length - 1) = (b :: bs).getLast (by simp) := by
      rw [nth_of_lt (by simp), List.getLast_eq_getElem]
    have hinit : init objects (b :: bs) =
        (((q₂.setNext .fakeFreeListHead (some b)).setPrev b (some .fakeFreeListHead)).setPrev
          .fakeFreeListTail (some ((b :: bs).getLast (by simp)))).setNext
          ((b :: bs).getLast (by simp)) (some .fakeFreeListTail) := by
      rw [← hlast, hq₂, hq₁, hcases]
      rfl
    rw [hcases] at hloop hnodup hout
    rw [hinit]
    refine ⟨⟨?_, ?_⟩, ?_⟩
    · rw [setNext_links, setPrev_links, setPrev_links, setNext_links, hlinks]
      exact between_of_linked hloop.linked hnodup hout
    · simp only [setPrev_numFreeBlocks, setNext_numFreeBlocks, hnum, hcases]
    · rw [setNext_info, setPrev_info, setPrev_info, setNext_info]
      exact ⟨hinfo, hfakes⟩

/-! ## Runs of calls -/

/-- A call of a method. -/
inductive Call where
  | popleft
  | popleftN (n : Nat)
  | remove (r : Ref)
  | append (r : Ref)
  | appendN (rs : List Ref)
  deriving Repr

/-- What the caller of a method sees, and the queue afterwards.  Where a method of a queue that
represents a list raises, it does so before it changes anything. -/
def exec (q : FreeKVCacheBlockQueue K) (call : Call) :
    Except PyError (List Ref) × FreeKVCacheBlockQueue K :=
  let result : Except PyError (List Ref × FreeKVCacheBlockQueue K) :=
    match call with
    | .popleft => q.popleft.map fun p => ([p.1], p.2)
    | .popleftN n => q.popleftN n
    | .remove r => (q.remove r).map fun q' => ([], q')
    | .append r => (q.append r).map fun q' => ([], q')
    | .appendN rs => (q.appendN rs).map fun q' => ([], q')
  match result with
  | .ok (ret, q') => (.ok ret, q')
  | .error e => (.error e, q)

/-- What the callers see over a run of calls, and the queue afterwards. -/
def execAll (q : FreeKVCacheBlockQueue K) : List Call →
    List (Except PyError (List Ref)) × FreeKVCacheBlockQueue K
  | [] => ([], q)
  | call :: calls =>
    let (out, q') := q.exec call
    let (outs, q'') := execAll q' calls
    (out :: outs, q'')

end FreeKVCacheBlockQueue

namespace Deque

open FreeKVCacheBlockQueue

/-- The operation on the list of free blocks that a method stands for. -/
def exec (xs : List Ref) : Call → Except PyError (List Ref) × List Ref
  | .popleft =>
    match xs with
    | [] => (.error .valueError, [])
    | x :: xs => (.ok [x], xs)
  | .popleftN n =>
    if n ≤ xs.length then (.ok (xs.take n), xs.drop n) else (.error .assertionError, xs)
  | .remove r => if r ∈ xs then (.ok [], xs.erase r) else (.error .runtimeError, xs)
  | .append r => (.ok [], xs ++ [r])
  | .appendN rs => (.ok [], xs ++ rs)

/-- A run of operations on the list. -/
def execAll (xs : List Ref) : List Call → List (Except PyError (List Ref)) × List Ref
  | [] => ([], xs)
  | call :: calls =>
    let (out, xs') := exec xs call
    let (outs, xs'') := execAll xs' calls
    (out :: outs, xs'')

/-- Only blocks that are not free are put back, as the pool does it. -/
def Allowed (xs : List Ref) : Call → Prop
  | .append r => New xs [r]
  | .appendN rs => New xs rs
  | _ => True

/-- Every call of the run is allowed where it is made. -/
def AllAllowed : List Ref → List Call → Prop
  | _, [] => True
  | xs, call :: calls => Allowed xs call ∧ AllAllowed (exec xs call).2 calls

end Deque

namespace FreeKVCacheBlockQueue

/-- One call. -/
theorem exec_represents {q : FreeKVCacheBlockQueue K} {xs : List Ref} (h : q.Represents xs)
    {call : Call} (hok : Deque.Allowed xs call) :
    (q.exec call).1 = (Deque.exec xs call).1 ∧
      (q.exec call).2.Represents (Deque.exec xs call).2 ∧ (q.exec call).2.info = q.info := by
  cases call with
  | popleft =>
    cases xs with
    | nil =>
      rw [exec, popleft_nil h]
      exact ⟨rfl, h, rfl⟩
    | cons x xs =>
      obtain ⟨q', hpop, hrep, hinfo⟩ := popleft_cons h
      rw [exec, hpop]
      exact ⟨rfl, hrep, hinfo⟩
  | popleftN n =>
    rw [Deque.exec]
    by_cases hn : n ≤ xs.length
    · obtain ⟨q', hpop, hrep, hinfo⟩ := popleftN_le h hn
      rw [exec, hpop, if_pos hn]
      exact ⟨rfl, hrep, hinfo⟩
    · rw [exec, popleftN_gt h (by omega), if_neg hn]
      exact ⟨rfl, h, rfl⟩
  | remove r =>
    rw [Deque.exec]
    by_cases hr : r ∈ xs
    · obtain ⟨q', hremove, hrep, hinfo⟩ := remove_mem h hr
      rw [exec, hremove, if_pos hr]
      exact ⟨rfl, hrep, hinfo⟩
    · rw [exec, remove_not_mem h hr, if_neg hr]
      exact ⟨rfl, h, rfl⟩
  | append r =>
    obtain ⟨q', happend, hrep, hinfo⟩ := append_new h hok
    rw [exec, happend]
    exact ⟨rfl, hrep, hinfo⟩
  | appendN rs =>
    obtain ⟨q', happend, hrep, hinfo⟩ := appendN_new h hok
    rw [exec, happend]
    exact ⟨rfl, hrep, hinfo⟩

theorem execAll_represents {q : FreeKVCacheBlockQueue K} {xs : List Ref} (h : q.Represents xs)
    {calls : List Call} (hok : Deque.AllAllowed xs calls) :
    (q.execAll calls).1 = (Deque.execAll xs calls).1 ∧
      (q.execAll calls).2.Represents (Deque.execAll xs calls).2 ∧
      (q.execAll calls).2.info = q.info := by
  induction calls generalizing q xs with
  | nil => exact ⟨rfl, h, rfl⟩
  | cons call calls ih =>
    obtain ⟨hout, hrep, hinfo⟩ := exec_represents h hok.1
    obtain ⟨houts, hreps, hinfos⟩ := ih hrep hok.2
    exact ⟨congrArg₂ List.cons hout houts, hreps, hinfos.trans hinfo⟩

/-- The free queue is a list.  Made from distinct new blocks it answers every run of calls as the
list of its blocks does, in which only blocks are put back that are not free: the same
blocks, the same exceptions.  Afterwards `get_all_free_blocks` gives the list, the counter is its
length, and no block has changed but for its links. -/
theorem queue_refines (objects : Ref → KVCacheBlock K) (blocks : List Ref) (calls : List Call)
    (hnew : Unlinked objects) (hblocks : New [] blocks) (hok : Deque.AllAllowed blocks calls) :
    ((init objects blocks).execAll calls).1 = (Deque.execAll blocks calls).1 ∧
      (∀ fuel, (Deque.execAll blocks calls).2.length < fuel →
        ((init objects blocks).execAll calls).2.getAllFreeBlocks fuel =
          .ok (some (Deque.execAll blocks calls).2)) ∧
      ((init objects blocks).execAll calls).2.numFreeBlocks =
        (Deque.execAll blocks calls).2.length ∧
      ∀ i, ((init objects blocks).execAll calls).2.info (.block i) = objects (.block i) := by
  obtain ⟨hinit, hobjects, -⟩ := init_represents hnew hblocks
  obtain ⟨houts, hrep, hinfo⟩ := execAll_represents hinit hok
  refine ⟨houts, ?_, hrep.num, ?_⟩
  · intro fuel hfuel
    exact getAllFreeBlocks_eq hrep hfuel
  · intro i
    rw [hinfo, hobjects i]

/-- Blocks without a hash, as a new pool has them. -/
def freshObjects (r : Ref) : KVCacheBlock Nat :=
  match r with
  | .block i => { blockId := i }
  | _ => { blockId := -1 }

/-- A block is taken from the middle and put back, and one call asks for too many. -/
theorem queue_refines_demo :
    ((init freshObjects [.block 0, .block 1, .block 2]).execAll
        [.remove (.block 1), .popleftN 3, .popleft, .appendN [.block 1, .block 0]]).1 =
      [.ok [], .error .assertionError, .ok [.block 0], .ok []] ∧
    ((init freshObjects [.block 0, .block 1, .block 2]).execAll
        [.remove (.block 1), .popleftN 3, .popleft,
          .appendN [.block 1, .block 0]]).2.getAllFreeBlocks
      4 = .ok (some [.block 2, .block 1, .block 0]) := by
  have hnew : Unlinked freshObjects := by
    intro r
    cases r <;> exact ⟨rfl, rfl⟩
  have hback : New [Ref.block 2] [.block 1, .block 0] := by decide
  have hok : Deque.AllAllowed [.block 0, .block 1, .block 2]
      [.remove (.block 1), .popleftN 3, .popleft, .appendN [.block 1, .block 0]] :=
    ⟨trivial, trivial, trivial, hback, trivial⟩
  obtain ⟨houts, hall, -, -⟩ := queue_refines freshObjects [.block 0, .block 1, .block 2]
    [.remove (.block 1), .popleftN 3, .popleft, .appendN [.block 1, .block 0]] hnew (by decide) hok
  exact ⟨houts, hall 4 (by decide)⟩

end FreeKVCacheBlockQueue

end AiPipelines.KvCache

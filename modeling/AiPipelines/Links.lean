import Mathlib.Data.List.Chain
import Mathlib.Data.List.Nodup
import Mathlib.Logic.Function.Basic

/-!
# Doubly linked lists

Cells of a type `α` carry a link to the next and to the previous cell.  A
list of cells is `Linked` when its neighbours are linked both ways, and
`Between head xs tail` says that the whole of the links is one list `xs`
between two sentinels: no other cell has a link.

* `Linked.transport` moves a linked list to links that agree on its cells.
* `Between.remove`, `Between.pushBack` and `Between.dropFront` are the
  three edits.
* `Between.next_eq_none_iff` says which cells are in the list, and
  `Between.next_head` and its like what the sentinels show.

The module names nothing of the repository.
-/

namespace AiPipelines

/-- The links of all cells. -/
structure Links (α : Type) where
  next : α → Option α
  prev : α → Option α

namespace Links

variable {α : Type} {L L' : Links α} {c d x y head tail : α} {xs ys : List α}

/-! ## Linked lists of cells -/

/-- Neighbours are linked both ways. -/
def Linked (L : Links α) (xs : List α) : Prop :=
  xs.IsChain fun c d => L.next c = some d ∧ L.prev d = some c

theorem linked_cons_cons :
    L.Linked (x :: y :: xs) ↔ (L.next x = some y ∧ L.prev y = some x) ∧ L.Linked (y :: xs) :=
  List.isChain_cons_cons

theorem linked_singleton (L : Links α) (c : α) : L.Linked [c] := List.isChain_singleton c

/-- A list of cells is linked when both halves are, which share one cell. -/
theorem linked_split : L.Linked (xs ++ c :: ys) ↔ L.Linked (xs ++ [c]) ∧ L.Linked (c :: ys) :=
  List.isChain_split

theorem Linked.left (h : L.Linked (xs ++ ys)) : L.Linked xs := List.IsChain.left_of_append h

theorem Linked.right (h : L.Linked (xs ++ ys)) : L.Linked ys := List.IsChain.right_of_append h

/-- The neighbours in the middle of a list. -/
theorem Linked.neighbours (h : L.Linked (xs ++ c :: d :: ys)) :
    L.next c = some d ∧ L.prev d = some c :=
  (linked_cons_cons.1 h.right).1

/-- Links that agree on the cells of a list link it as well.  The last cell's `next` and the
first cell's `prev` do not matter. -/
theorem Linked.transport (h : L.Linked xs) (hnext : ∀ c ∈ xs.dropLast, L'.next c = L.next c)
    (hprev : ∀ c ∈ xs.tail, L'.prev c = L.prev c) : L'.Linked xs := by
  induction xs with
  | nil => exact List.isChain_nil
  | cons x xs ih =>
    cases xs with
    | nil => exact linked_singleton L' x
    | cons y xs =>
      obtain ⟨⟨hn, hp⟩, hrest⟩ := linked_cons_cons.1 h
      refine linked_cons_cons.2 ⟨⟨?_, ?_⟩, ih hrest ?_ ?_⟩
      · rw [hnext x List.mem_cons_self, hn]
      · rw [hprev y List.mem_cons_self, hp]
      · intro c hc
        exact hnext c (List.mem_cons_of_mem x hc)
      · intro c hc
        exact hprev c (List.mem_cons_of_mem y hc)

/-- Where links agree on all cells of a list. -/
theorem Linked.congr (h : L.Linked xs) (hnext : ∀ c ∈ xs, L'.next c = L.next c)
    (hprev : ∀ c ∈ xs, L'.prev c = L.prev c) : L'.Linked xs :=
  h.transport (fun c hc => hnext c ((List.dropLast_sublist xs).subset hc))
    (fun c hc => hprev c (List.mem_of_mem_tail hc))

/-! ## One list between two sentinels -/

/-- The links are one list `xs` between two sentinels. -/
structure Between (L : Links α) (head : α) (xs : List α) (tail : α) : Prop where
  linked : L.Linked (head :: xs ++ [tail])
  nodup : (head :: xs ++ [tail]).Nodup
  prev_head : L.prev head = none
  next_tail : L.next tail = none
  unlinked : ∀ c, c ∉ head :: xs ++ [tail] → L.next c = none ∧ L.prev c = none

namespace Between

theorem tail_not_mem (h : L.Between head xs tail) : tail ∉ xs := by
  intro hmem
  exact (List.nodup_append.1 h.nodup).2.2 tail (List.mem_cons_of_mem head hmem) tail
    List.mem_cons_self rfl

theorem head_ne_tail (h : L.Between head xs tail) : head ≠ tail := by
  intro heq
  exact (List.nodup_cons.1 h.nodup).1 (heq ▸ List.mem_append_right xs List.mem_cons_self)

/-- The list with the last sentinel only. -/
theorem linked_rest (h : L.Between head xs tail) : L.Linked (xs ++ [tail]) := by
  have hlinked : L.Linked ([head] ++ (xs ++ [tail])) := h.linked
  exact hlinked.right

/-- The cell behind the first sentinel. -/
theorem next_head (h : L.Between head xs tail) : L.next head = some (xs.headD tail) := by
  cases xs with
  | nil => exact (linked_cons_cons.1 h.linked).1.1
  | cons x xs => exact (linked_cons_cons.1 h.linked).1.1

/-- The cell in front of the last sentinel. -/
theorem prev_tail (h : L.Between head xs tail) :
    L.prev tail = some ((head :: xs).getLast (by simp)) := by
  have hsplit := List.dropLast_append_getLast (l := head :: xs) (by simp)
  have hlinked := h.linked
  rw [← hsplit, List.append_assoc] at hlinked
  exact hlinked.neighbours.2

/-- A cell of the list has a next one. -/
theorem next_isSome (h : L.Between head xs tail) (hc : c ∈ xs) : (L.next c).isSome := by
  obtain ⟨as, bs, rfl⟩ := List.append_of_mem hc
  have hlinked := h.linked
  cases bs with
  | nil =>
    rw [show head :: (as ++ [c]) ++ [tail] = (head :: as) ++ c :: tail :: [] by simp] at hlinked
    rw [hlinked.neighbours.1]
    rfl
  | cons b bs =>
    rw [show head :: (as ++ c :: b :: bs) ++ [tail] =
      (head :: as) ++ c :: b :: (bs ++ [tail]) by simp]
      at hlinked
    rw [hlinked.neighbours.1]
    rfl

/-- Which cells are in the list shows in their links. -/
theorem next_eq_none_iff (h : L.Between head xs tail) (hhead : c ≠ head) (htail : c ≠ tail) :
    L.next c = none ↔ c ∉ xs := by
  constructor
  · intro hnone hc
    have hsome := h.next_isSome hc
    rw [hnone] at hsome
    cases hsome
  · intro hc
    exact (h.unlinked c (by simp [hc, hhead, htail])).1

end Between

/-! ## Edits -/

section Edits

variable [DecidableEq α] {o : Option α}

/-- `c.next = x`. -/
def setNext (L : Links α) (c : α) (x : Option α) : Links α :=
  { L with next := Function.update L.next c x }

/-- `c.prev = x`. -/
def setPrev (L : Links α) (c : α) (x : Option α) : Links α :=
  { L with prev := Function.update L.prev c x }

/-- Both links of a cell are taken away. -/
def clear (L : Links α) (c : α) : Links α := (L.setPrev c none).setNext c none

/-- `c` comes before `d`. -/
def join (L : Links α) (c d : α) : Links α := (L.setNext c (some d)).setPrev d (some c)

@[simp] theorem setNext_prev : (L.setNext c o).prev = L.prev := rfl

@[simp] theorem setPrev_next : (L.setPrev c o).next = L.next := rfl

theorem setNext_next : (L.setNext c o).next d = if d = c then o else L.next d :=
  Function.update_apply L.next c o d

theorem setPrev_prev : (L.setPrev c o).prev d = if d = c then o else L.prev d :=
  Function.update_apply L.prev c o d

theorem clear_next : (L.clear c).next d = if d = c then none else L.next d := setNext_next

theorem clear_prev : (L.clear c).prev d = if d = c then none else L.prev d := setPrev_prev

theorem join_next : (L.join c d).next x = if x = c then some d else L.next x := setNext_next

theorem join_prev : (L.join c d).prev x = if x = d then some c else L.prev x := setPrev_prev

/-- Two linked lists become one when the end of the first is joined to the start of the
second. -/
theorem Linked.join (h : L.Linked (xs ++ [c])) (h' : L.Linked (d :: ys))
    (hnd : (xs ++ c :: d :: ys).Nodup) : (L.join c d).Linked (xs ++ c :: d :: ys) := by
  have hc : c ∉ xs := by
    intro hmem
    exact (List.nodup_append.1 hnd).2.2 c hmem c List.mem_cons_self rfl
  have hd : d ∉ ys := (List.nodup_cons.1 (List.nodup_cons.1 (List.nodup_append.1 hnd).2.1).2).1
  have hcy : c ∉ d :: ys := (List.nodup_cons.1 (List.nodup_append.1 hnd).2.1).1
  have hdx : d ∉ xs ++ [c] := by
    intro hmem
    rw [show xs ++ c :: d :: ys = (xs ++ [c]) ++ d :: ys by simp] at hnd
    exact (List.nodup_append.1 hnd).2.2 d hmem d List.mem_cons_self rfl
  refine linked_split.2 ⟨?_, linked_cons_cons.2 ⟨⟨?_, ?_⟩, ?_⟩⟩
  · apply h.transport
    · intro e he
      rw [List.dropLast_concat] at he
      rw [join_next, if_neg (ne_of_mem_of_not_mem he hc)]
    · intro e he
      rw [join_prev, if_neg (ne_of_mem_of_not_mem (List.mem_of_mem_tail he) hdx)]
  · rw [join_next, if_pos rfl]
  · rw [join_prev, if_pos rfl]
  · apply h'.transport
    · intro e he
      rw [join_next, if_neg (ne_of_mem_of_not_mem ((List.dropLast_sublist _).subset he) hcy)]
    · intro e he
      rw [join_prev, if_neg (ne_of_mem_of_not_mem he hd)]

/-- The list without one of its cells. -/
theorem Between.remove (h : L.Between head (xs ++ c :: ys) tail) :
    ∃ p n, L.prev c = some p ∧ L.next c = some n ∧
      ((L.join p n).clear c).Between head (xs ++ ys) tail := by
  obtain ⟨as, p, has⟩ : ∃ as p, head :: xs = as ++ [p] :=
    ⟨_, _, (List.dropLast_append_getLast (l := head :: xs) (by simp)).symm⟩
  obtain ⟨n, bs, hbs⟩ : ∃ n bs, ys ++ [tail] = n :: bs := by
    cases ys with
    | nil => exact ⟨tail, [], rfl⟩
    | cons y ys => exact ⟨y, ys ++ [tail], rfl⟩
  have hall : head :: (xs ++ c :: ys) ++ [tail] = as ++ p :: c :: n :: bs := by
    rw [show head :: (xs ++ c :: ys) ++ [tail] = (head :: xs) ++ c :: (ys ++ [tail]) by simp, has,
      hbs]
    simp
  have hrest : head :: (xs ++ ys) ++ [tail] = as ++ p :: n :: bs := by
    rw [show head :: (xs ++ ys) ++ [tail] = (head :: xs) ++ (ys ++ [tail]) by simp, has, hbs]
    simp
  have hlinked : L.Linked (as ++ p :: c :: n :: bs) := hall ▸ h.linked
  have hnodup : (as ++ p :: c :: n :: bs).Nodup := hall ▸ h.nodup
  have hsub : (as ++ p :: n :: bs).Sublist (as ++ p :: c :: n :: bs) :=
    (List.Sublist.refl as).append (.cons_cons p (.cons c (List.Sublist.refl _)))
  have hc : c ∉ as ++ p :: n :: bs := by
    have hmove : (c :: (as ++ p :: n :: bs)).Nodup := by
      apply (List.Perm.nodup_iff _).1 hnodup
      rw [show as ++ p :: c :: n :: bs = (as ++ [p]) ++ c :: (n :: bs) by simp,
        show c :: (as ++ p :: n :: bs) = c :: ((as ++ [p]) ++ (n :: bs)) by simp]
      exact List.perm_middle
    exact (List.nodup_cons.1 hmove).1
  have hprev : L.prev c = some p := hlinked.neighbours.2
  have hnext : L.next c = some n := by
    rw [show as ++ p :: c :: n :: bs = (as ++ [p]) ++ c :: n :: bs by simp] at hlinked
    exact hlinked.neighbours.1
  -- The list is cut at `c` and joined again.
  have hjoin : (L.join p n).Linked (as ++ p :: n :: bs) := by
    apply Linked.join
    · rw [show as ++ p :: c :: n :: bs = (as ++ [p]) ++ c :: n :: bs by simp] at hlinked
      exact hlinked.left
    · rw [show as ++ p :: c :: n :: bs = (as ++ [p, c]) ++ n :: bs by simp] at hlinked
      exact hlinked.right
    · exact hnodup.sublist hsub
  have hclear : ((L.join p n).clear c).Linked (as ++ p :: n :: bs) := by
    apply hjoin.congr
    · intro e he
      rw [clear_next, if_neg (ne_of_mem_of_not_mem he hc)]
    · intro e he
      rw [clear_prev, if_neg (ne_of_mem_of_not_mem he hc)]
  refine ⟨p, n, hprev, hnext, ?_⟩
  constructor
  · rw [hrest]
    exact hclear
  · rw [hrest]
    exact hnodup.sublist hsub
  · have hne : head ≠ n := by
      intro heq
      have hnd := hnodup.sublist hsub
      rw [← hrest, List.cons_append] at hnd
      apply (List.nodup_cons.1 hnd).1
      rw [show xs ++ ys ++ [tail] = xs ++ (ys ++ [tail]) by simp, hbs, heq]
      simp
    rw [clear_prev, join_prev, if_neg hne, h.prev_head]
    split <;> rfl
  · have hne : tail ≠ p := by
      intro heq
      have hmem : tail ∈ head :: xs := by
        rw [has, heq]
        simp
      apply (List.nodup_append.1 h.nodup).2.2 tail _ tail List.mem_cons_self rfl
      rcases List.mem_cons.1 hmem with hmem | hmem
      · exact hmem ▸ List.mem_cons_self
      · exact List.mem_cons_of_mem head (List.mem_append_left _ hmem)
    rw [clear_next, join_next, if_neg hne, h.next_tail]
    split <;> rfl
  · intro e he
    rw [hrest] at he
    have hp : e ≠ p := fun heq => he (heq ▸ by simp)
    have hn : e ≠ n := fun heq => he (heq ▸ by simp)
    rw [clear_next, clear_prev, join_next, join_prev, if_neg hp, if_neg hn]
    by_cases hec : e = c
    · simp [hec]
    · rw [if_neg hec, if_neg hec]
      apply h.unlinked
      rw [hall]
      simp only [List.mem_append, List.mem_cons, not_or] at he ⊢
      exact ⟨he.1, he.2.1, hec, he.2.2⟩

/-! ### Many cells at once -/

/-- The links of several cells are taken away. -/
def clearAll (L : Links α) (cs : List α) : Links α := cs.foldl clear L

/-- The cells `cs` are put one after the other behind `p`. -/
def linkFrom : Links α → α → List α → Links α
  | L, _, [] => L
  | L, p, c :: cs => linkFrom (L.join p c) c cs

variable {p : α} {cs : List α}

theorem clearAll_next : (L.clearAll cs).next d = if d ∈ cs then none else L.next d := by
  induction cs generalizing L with
  | nil => rfl
  | cons c cs ih =>
    show ((L.clear c).clearAll cs).next d = _
    rw [ih, clear_next]
    by_cases hd : d = c
    · simp [hd]
    · simp [hd]

theorem clearAll_prev : (L.clearAll cs).prev d = if d ∈ cs then none else L.prev d := by
  induction cs generalizing L with
  | nil => rfl
  | cons c cs ih =>
    show ((L.clear c).clearAll cs).prev d = _
    rw [ih, clear_prev]
    by_cases hd : d = c
    · simp [hd]
    · simp [hd]

theorem linkFrom_next_of_not_mem (hd : d ∉ p :: cs) : (L.linkFrom p cs).next d = L.next d := by
  induction cs generalizing L p with
  | nil => rfl
  | cons c cs ih =>
    have hne : d ≠ p := (ne_of_mem_of_not_mem List.mem_cons_self hd).symm
    show ((L.join p c).linkFrom c cs).next d = L.next d
    rw [ih (fun hmem => hd (List.mem_cons_of_mem p hmem)), join_next, if_neg hne]

theorem linkFrom_prev_of_not_mem (hd : d ∉ cs) : (L.linkFrom p cs).prev d = L.prev d := by
  induction cs generalizing L p with
  | nil => rfl
  | cons c cs ih =>
    have hne : d ≠ c := (ne_of_mem_of_not_mem List.mem_cons_self hd).symm
    show ((L.join p c).linkFrom c cs).prev d = L.prev d
    rw [ih (fun hmem => hd (List.mem_cons_of_mem c hmem)), join_prev, if_neg hne]

theorem Linked.linkFrom (h : L.Linked (xs ++ [p])) (hnd : (xs ++ p :: cs).Nodup) :
    (L.linkFrom p cs).Linked (xs ++ p :: cs) := by
  induction cs generalizing L p xs with
  | nil => exact h
  | cons c cs ih =>
    have hassoc : xs ++ p :: c :: cs = (xs ++ [p]) ++ c :: cs := by simp
    have hpre : (xs ++ p :: c :: []).Nodup := by
      refine List.Nodup.sublist ?_ hnd
      exact (List.Sublist.refl xs).append (.cons_cons p (.cons_cons c (List.nil_sublist cs)))
    have hstep : (L.join p c).Linked ((xs ++ [p]) ++ [c]) := by
      rw [show (xs ++ [p]) ++ [c] = xs ++ p :: c :: [] by simp]
      exact h.join (linked_singleton L c) hpre
    show ((L.join p c).linkFrom c cs).Linked (xs ++ p :: c :: cs)
    rw [hassoc] at hnd ⊢
    exact ih hstep hnd

/-- The list with new cells at its end. -/
theorem Between.pushBack (h : L.Between head xs tail) (hcs : cs.Nodup)
    (hnew : ∀ c ∈ cs, c ∉ head :: xs ++ [tail]) :
    ((L.linkFrom ((head :: xs).getLast (by simp)) cs).join
      (((head :: xs).getLast (by simp) :: cs).getLast (by simp)) tail).Between
      head (xs ++ cs) tail := by
  obtain ⟨as, p, has⟩ : ∃ as p, head :: xs = as ++ [p] :=
    ⟨_, _, (List.dropLast_append_getLast (l := head :: xs) (by simp)).symm⟩
  have hlast : (head :: xs).getLast (by simp) = p := by simp [has]
  simp only [hlast]
  obtain ⟨bs, q, hbs⟩ : ∃ bs q, p :: cs = bs ++ [q] :=
    ⟨_, _, (List.dropLast_append_getLast (l := p :: cs) (by simp)).symm⟩
  have hend : (p :: cs).getLast (by simp) = q := by simp [hbs]
  simp only [hend]
  have hall : head :: (xs ++ cs) ++ [tail] = as ++ p :: cs ++ [tail] := by
    rw [show head :: (xs ++ cs) ++ [tail] = (head :: xs) ++ cs ++ [tail] by simp, has]
    simp
  have hends : as ++ p :: cs ++ [tail] = (as ++ bs) ++ q :: tail :: [] := by
    rw [hbs]
    simp
  have hold : head :: xs ++ [tail] = as ++ p :: [tail] := by simp [has]
  have hnodup : (as ++ p :: cs ++ [tail]).Nodup := by
    have hperm : (as ++ p :: cs ++ [tail]).Perm (cs ++ (head :: xs ++ [tail])) := by
      rw [hold, show as ++ p :: cs ++ [tail] = (as ++ [p]) ++ (cs ++ [tail]) by simp,
        show cs ++ (as ++ p :: [tail]) = cs ++ ((as ++ [p]) ++ [tail]) by simp]
      exact List.perm_append_comm_assoc _ _ _
    refine hperm.nodup_iff.2 (List.nodup_append.2 ⟨hcs, h.nodup, ?_⟩)
    intro c hc d hd heq
    exact hnew c hc (heq ▸ hd)
  have hpre : (as ++ p :: cs).Nodup := (List.nodup_append.1 hnodup).1
  have hq : q ∈ p :: cs := by simp [hbs]
  have htail : tail ∉ as ++ p :: cs := by
    intro hmem
    exact (List.nodup_append.1 hnodup).2.2 tail hmem tail List.mem_cons_self rfl
  have hlinked : (L.linkFrom p cs).Linked (as ++ p :: cs) := by
    apply Linked.linkFrom _ hpre
    have hl := h.linked
    rw [hold, show as ++ p :: [tail] = (as ++ [p]) ++ [tail] by simp] at hl
    exact hl.left
  constructor
  · rw [hall, hends]
    apply Linked.join
    · rw [show (as ++ bs) ++ [q] = as ++ p :: cs by rw [hbs]; simp]
      exact hlinked
    · exact linked_singleton _ tail
    · rw [← hends]
      exact hnodup
  · rw [hall]
    exact hnodup
  · rw [join_prev, if_neg h.head_ne_tail, linkFrom_prev_of_not_mem, h.prev_head]
    intro hmem
    exact hnew head hmem (by simp)
  · have hne : tail ≠ q := by
      intro heq
      exact htail (List.mem_append_right as (heq ▸ hq))
    rw [join_next, if_neg hne, linkFrom_next_of_not_mem, h.next_tail]
    intro hmem
    exact htail (List.mem_append_right as hmem)
  · intro c hc
    rw [hall] at hc
    simp only [List.mem_append, List.mem_singleton, not_or] at hc
    have hne : c ≠ q := ne_of_mem_of_not_mem hq hc.1.2 |>.symm
    have hcs' : c ∉ cs := fun hmem => hc.1.2 (List.mem_cons_of_mem p hmem)
    rw [join_next, join_prev, if_neg hne, if_neg hc.2, linkFrom_next_of_not_mem hc.1.2,
      linkFrom_prev_of_not_mem hcs']
    apply h.unlinked
    rw [hold]
    simp only [List.mem_append, List.mem_cons, List.not_mem_nil, or_false, not_or] at hc ⊢
    exact ⟨hc.1.1, hc.1.2.1, hc.2⟩

/-- The list without the cells in front. -/
theorem Between.dropFront (h : L.Between head (cs ++ ys) tail) :
    ((L.clearAll cs).join head (ys.headD tail)).Between head ys tail := by
  obtain ⟨n, bs, hbs⟩ : ∃ n bs, ys ++ [tail] = n :: bs := by
    cases ys with
    | nil => exact ⟨tail, [], rfl⟩
    | cons y ys => exact ⟨y, ys ++ [tail], rfl⟩
  have hn : ys.headD tail = n := by
    cases ys with
    | nil => exact (List.cons.inj hbs).1
    | cons y ys => exact (List.cons.inj hbs).1
  rw [hn]
  have hold : head :: (cs ++ ys) ++ [tail] = head :: (cs ++ n :: bs) := by
    rw [← hbs]
    simp
  have hnew : head :: ys ++ [tail] = [] ++ head :: n :: bs := by
    rw [List.cons_append, hbs, List.nil_append]
  have hnodup : (head :: (cs ++ n :: bs)).Nodup := hold ▸ h.nodup
  have hdisj : ∀ c ∈ n :: bs, c ∉ cs := by
    intro c hc hmem
    exact (List.nodup_append.1 (List.nodup_cons.1 hnodup).2).2.2 c hmem c hc rfl
  have hhead : head ∉ cs := by
    intro hmem
    exact (List.nodup_cons.1 hnodup).1 (List.mem_append_left _ hmem)
  have hrest : (head :: n :: bs).Nodup := by
    refine List.Nodup.sublist ?_ hnodup
    exact .cons_cons head (List.sublist_append_right cs (n :: bs))
  have htail : tail ∈ n :: bs := by
    rw [← hbs]
    simp
  have hlinked : (L.clearAll cs).Linked (n :: bs) := by
    have hl := h.linked
    rw [hold, show head :: (cs ++ n :: bs) = (head :: cs) ++ n :: bs by simp] at hl
    apply hl.right.congr
    · intro c hc
      rw [clearAll_next, if_neg (hdisj c hc)]
    · intro c hc
      rw [clearAll_prev, if_neg (hdisj c hc)]
  constructor
  · rw [hnew]
    exact Linked.join (linked_singleton _ head) hlinked hrest
  · rw [hnew]
    exact hrest
  · have hne : head ≠ n := by
      intro heq
      exact (List.nodup_cons.1 hrest).1 (heq ▸ List.mem_cons_self)
    rw [join_prev, if_neg hne, clearAll_prev, if_neg hhead, h.prev_head]
  · rw [join_next, if_neg h.head_ne_tail.symm, clearAll_next, if_neg (hdisj tail htail),
      h.next_tail]
  · intro c hc
    rw [hnew] at hc
    simp only [List.nil_append, List.mem_cons, not_or] at hc
    rw [join_next, join_prev, if_neg hc.1, if_neg hc.2.1, clearAll_next, clearAll_prev]
    by_cases hmem : c ∈ cs
    · simp [hmem]
    · rw [if_neg hmem, if_neg hmem]
      apply h.unlinked
      rw [hold]
      simp [hc, hmem]

end Edits

end Links

end AiPipelines

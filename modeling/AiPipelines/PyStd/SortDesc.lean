import Mathlib.Data.List.Sort
import Mathlib.Order.Basic

/-!
# Sorting by a key, greatest first

`xs.sort(key=key, reverse=True)` is stable: items with the same key keep their order.
`sortDesc` is this sort, and `topBy` its first items, which a search returns.

A result of `topBy` is sorted, nothing that it leaves out has a greater key than what it
takes (`key_le_of_not_mem_topBy`), and its keys depend on the keys of the items only
(`map_key_topBy`).

The module names nothing of the repository.
-/

namespace AiPipelines.PyStd

variable {α β K : Type} [LinearOrder K]

/-- The order of the sort. -/
def DescBy (key : α → K) (x y : α) : Prop := key y ≤ key x

instance (key : α → K) : DecidableRel (DescBy key) :=
  fun x y => inferInstanceAs (Decidable (key y ≤ key x))

instance (key : α → K) : Std.Total (DescBy key) := ⟨fun x y => le_total (key y) (key x)⟩

instance (key : α → K) : IsTrans α (DescBy key) := ⟨fun _ _ _ hxy hyz => le_trans hyz hxy⟩

/-- `sorted(xs, key=key, reverse=True)`. -/
def sortDesc (key : α → K) (xs : List α) : List α := xs.insertionSort (DescBy key)

/-- `sorted(xs, key=key, reverse=True)[:n]`. -/
def topBy (key : α → K) (n : Nat) (xs : List α) : List α := (sortDesc key xs).take n

/-- `xs[:n]`.  A negative `n` counts from the end. -/
def upTo (n : Int) (xs : List α) : List α :=
  xs.take (if 0 ≤ n then n.toNat else xs.length - n.natAbs)

/-- The first items, as many as there are. -/
theorem exists_upTo_sortDesc (key : α → K) (n : Int) (xs : List α) :
    ∃ m, upTo n (sortDesc key xs) = topBy key m xs :=
  ⟨_, rfl⟩

theorem upTo_natCast (n : Nat) (xs : List α) : upTo n xs = xs.take n := by
  unfold upTo
  rw [if_pos (Int.natCast_nonneg n), Int.toNat_natCast]

theorem upTo_map (f : α → β) (n : Int) (xs : List α) : upTo n (xs.map f) = (upTo n xs).map f := by
  unfold upTo
  rw [List.length_map, List.map_take]

theorem sortDesc_perm (key : α → K) (xs : List α) : (sortDesc key xs).Perm xs :=
  List.perm_insertionSort _ xs

theorem sortDesc_pairwise (key : α → K) (xs : List α) :
    (sortDesc key xs).Pairwise fun x y => key y ≤ key x :=
  List.pairwise_insertionSort (DescBy key) xs

theorem mem_sortDesc {key : α → K} {xs : List α} {x : α} : x ∈ sortDesc key xs ↔ x ∈ xs :=
  (sortDesc_perm key xs).mem_iff

theorem topBy_pairwise (key : α → K) (n : Nat) (xs : List α) :
    (topBy key n xs).Pairwise fun x y => key y ≤ key x :=
  (sortDesc_pairwise key xs).sublist (List.take_sublist n _)

theorem length_topBy (key : α → K) (n : Nat) (xs : List α) :
    (topBy key n xs).length = min n xs.length := by
  unfold topBy
  rw [List.length_take, (sortDesc_perm key xs).length_eq]

theorem mem_of_mem_topBy {key : α → K} {n : Nat} {xs : List α} {x : α} (h : x ∈ topBy key n xs) :
    x ∈ xs :=
  mem_sortDesc.1 (List.mem_of_mem_take h)

/-- What is left out has no greater key. -/
theorem key_le_of_not_mem_topBy {key : α → K} {n : Nat} {xs : List α} {x y : α} (hx : x ∈ xs)
    (hout : x ∉ topBy key n xs) (hy : y ∈ topBy key n xs) : key x ≤ key y := by
  have hsorted := sortDesc_pairwise key xs
  rw [← List.take_append_drop n (sortDesc key xs), List.pairwise_append] at hsorted
  have hmem : x ∈ (sortDesc key xs).take n ++ (sortDesc key xs).drop n := by
    rw [List.take_append_drop]
    exact mem_sortDesc.2 hx
  rcases List.mem_append.1 hmem with h | h
  · exact absurd h hout
  · exact hsorted.2.2 y hy x h

/-- Two lists with the same keys, in whatever order, are sorted to the same keys. -/
theorem map_key_sortDesc {key : α → K} {key' : β → K} {xs : List α} {ys : List β}
    (h : (xs.map key).Perm (ys.map key')) :
    (sortDesc key xs).map key = (sortDesc key' ys).map key' := by
  have hperm : ((sortDesc key xs).map key).Perm ((sortDesc key' ys).map key') :=
    (((sortDesc_perm key xs).map key).trans h).trans ((sortDesc_perm key' ys).map key').symm
  have hsorted : ((sortDesc key xs).map key).Pairwise fun a b => b ≤ a :=
    List.pairwise_map.2 (sortDesc_pairwise key xs)
  have hsorted' : ((sortDesc key' ys).map key').Pairwise fun a b => b ≤ a :=
    List.pairwise_map.2 (sortDesc_pairwise key' ys)
  refine hperm.eq_of_pairwise ?_ hsorted hsorted'
  intro a b _ _ hab hba
  exact le_antisymm hba hab

theorem map_key_topBy {key : α → K} {key' : β → K} {xs : List α} {ys : List β}
    (h : (xs.map key).Perm (ys.map key')) (n : Nat) :
    (topBy key n xs).map key = (topBy key' n ys).map key' := by
  unfold topBy
  rw [List.map_take, List.map_take, map_key_sortDesc h]

/-- An item comes before those with a smaller key, and is not left out where one of them is
taken. -/
theorem mem_before_of_key_lt {key : α → K} {n : Nat} {xs before behind : List α} {x y : α}
    (hsplit : topBy key n xs = before ++ y :: behind) (hx : x ∈ xs) (hlt : key y < key x) :
    x ∈ before := by
  have hmem : x ∈ topBy key n xs := by
    by_contra hout
    have hy : y ∈ topBy key n xs := by
      rw [hsplit]
      exact List.mem_append_right before List.mem_cons_self
    exact absurd (key_le_of_not_mem_topBy hx hout hy) (not_le.2 hlt)
  have hsorted := topBy_pairwise key n xs
  rw [hsplit] at hmem hsorted
  rcases List.mem_append.1 hmem with h | h
  · exact h
  · rcases List.mem_cons.1 h with rfl | h
    · exact absurd hlt (lt_irrefl _)
    · have hle := (List.pairwise_cons.1 (List.pairwise_append.1 hsorted).2.1).1 x h
      exact absurd hle (not_le.2 hlt)

/-- Of two members of a sorted list, the first is the one that the order asks for. -/
theorem exists_split_of_pairwise {R : α → α → Prop} {xs : List α} (h : xs.Pairwise R) {x y : α}
    (hx : x ∈ xs) (hy : y ∈ xs) (hne : y ≠ x) (hnot : ¬ R y x) :
    ∃ before between behind, xs = before ++ x :: (between ++ y :: behind) := by
  obtain ⟨before, rest, rfl⟩ := List.append_of_mem hx
  rw [List.pairwise_append] at h
  rcases List.mem_append.1 hy with hy | hy
  · exact absurd (h.2.2 y hy x List.mem_cons_self) hnot
  · rcases List.mem_cons.1 hy with rfl | hy
    · exact absurd rfl hne
    · obtain ⟨between, behind, rfl⟩ := List.append_of_mem hy
      exact ⟨before, between, behind, rfl⟩

end AiPipelines.PyStd

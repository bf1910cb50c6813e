import Mathlib.Algebra.Ring.Nat
import Mathlib.Data.List.Basic

/-!
# Rows laid one behind the other

Rows of different lengths are often kept in one flat list.  An entry of a row is
then found at the row's start, which is the sum of the lengths in front, and
several entries of every row at a list of flat indices (`Ragged.indices`).

* `Ragged.getElem?_flatten`: one entry.
* `Ragged.select`: the entries at such a list of indices.

The module names nothing of the repository.
-/

namespace AiPipelines.Ragged

variable {α β : Type}

/-- Where row `r` begins. -/
def start (lengths : List Nat) (r : Nat) : Nat := (lengths.take r).sum

/-- The flat indices of the entries `is` of each row, where every row comes with its length, and the
first one begins at `acc`. -/
def indices : Nat → List (Nat × List Nat) → List Nat
  | _, [] => []
  | acc, (length, is) :: rest => is.map (acc + ·) ++ indices (acc + length) rest

theorem start_succ {lengths : List Nat} {r n : Nat} (h : lengths[r]? = some n) :
    start lengths (r + 1) = start lengths r + n := by
  rw [start, start, List.take_add_one, h, List.sum_append]
  rfl

/-- Indices that are moved within their rows. -/
theorem map_indices {rows : List (Nat × List Nat)} {acc k : Nat} :
    (indices acc rows).map (· + k) = indices acc (rows.map fun p => (p.1, p.2.map (· + k))) := by
  induction rows generalizing acc with
  | nil => rfl
  | cons p rows ih =>
    have hfirst : (p.2.map (acc + ·)).map (· + k) = (p.2.map (· + k)).map (acc + ·) := by
      rw [List.map_map, List.map_map]
      exact List.map_congr_left fun i _ => Nat.add_assoc acc i k
    rw [indices, List.map_append, ih, hfirst]
    rfl

/-- An entry of a row. -/
theorem getElem?_flatten {rows : List (List α)} {row : List α} {r i : Nat}
    (hrow : rows[r]? = some row) (hi : i < row.length) :
    rows.flatten[start (rows.map List.length) r + i]? = row[i]? := by
  induction rows generalizing r with
  | nil => simp at hrow
  | cons first rows ih =>
    cases r with
    | zero =>
      obtain rfl := Option.some.inj hrow
      rw [List.flatten_cons, start, List.take_zero, List.sum_nil, Nat.zero_add,
        List.getElem?_append_left hi]
    | succ r =>
      have hstart : start ((first :: rows).map List.length) (r + 1) =
          first.length + start (rows.map List.length) r := by
        rw [start, List.map_cons, List.take_succ_cons, List.sum_cons]
        rfl
      rw [List.flatten_cons, hstart, Nat.add_assoc, List.getElem?_append_right (by omega),
        Nat.add_sub_cancel_left]
      exact ih hrow

/-- The entries at the indices, where `picked` gives those of a row. -/
theorem select {items : List β} {row picked : β → List α} {pick : β → List Nat}
    (hpick : ∀ b ∈ items, (pick b).map (fun i => (row b)[i]?) = (picked b).map some) :
    (indices 0 (items.map fun b => ((row b).length, pick b))).map
    (fun i => (items.map row).flatten[i]?) =
      (items.map picked).flatten.map some := by
  suffices hall : ∀ pre : List α,
      (indices pre.length (items.map fun b => ((row b).length, pick b))).map
        (fun i => (pre ++ (items.map row).flatten)[i]?) = (items.map picked).flatten.map some by
    exact hall []
  induction items with
  | nil => intro pre; rfl
  | cons b items ih =>
    intro pre
    have hb := hpick b List.mem_cons_self
    have hrest := ih (fun b hb => hpick b (List.mem_cons_of_mem _ hb)) (pre ++ row b)
    rw [List.length_append, List.append_assoc] at hrest
    simp only [List.map_cons, List.flatten_cons]
    rw [indices, List.map_append, List.map_map, List.map_append, hrest, ← hb]
    congr 1
    apply List.map_congr_left
    intro i hi
    show (pre ++ (row b ++ (items.map row).flatten))[pre.length + i]? = (row b)[i]?
    have hlt : i < (row b).length := by
      have hmem := List.mem_map_of_mem (f := fun i => (row b)[i]?) hi
      rw [hb, List.mem_map] at hmem
      obtain ⟨v, -, hv⟩ := hmem
      exact (List.getElem?_eq_some_iff.1 hv.symm).1
    rw [List.getElem?_append_right (by omega), Nat.add_sub_cancel_left,
      List.getElem?_append_left hlt]

end AiPipelines.Ragged

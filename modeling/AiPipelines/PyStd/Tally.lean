import AiPipelines.PyStd.Dict
import Mathlib.Algebra.Group.Defs

/-!
# Dictionaries that add up

`d[k] = d.get(k, 0) + v`, for one item after the other.  What stands at a key in the end is
what the items with this key add up to (`get?_tally`), and the keys are those of the items.

The module names nothing of the repository.
-/

namespace AiPipelines.PyStd

namespace Dict

variable {K V : Type} [DecidableEq K] [AddMonoid V]

/-- `d.get(k, 0)`. -/
def at0 (d : Dict K V) (k : K) : V := (d.get? k).getD 0

/-- `d[k] = d.get(k, 0) + v`. -/
def addAt (d : Dict K V) (k : K) (v : V) : Dict K V := d.set k (d.at0 k + v)

/-- The items, one after the other. -/
def tally (d : Dict K V) (xs : List (K × V)) : Dict K V :=
  xs.foldl (fun d kv => d.addAt kv.1 kv.2) d

/-- What the items with a key add up to. -/
def sumAt (k : K) : List (K × V) → V
  | [] => 0
  | kv :: xs => (if kv.1 = k then kv.2 else 0) + sumAt k xs

theorem at0_addAt (d : Dict K V) (k k' : K) (v : V) :
    (d.addAt k v).at0 k' = d.at0 k' + if k = k' then v else 0 := by
  unfold addAt
  by_cases h : k = k'
  · subst h
    rw [if_pos rfl]
    show ((d.set k (d.at0 k + v)).get? k).getD 0 = d.at0 k + v
    rw [get?_set_self]
    rfl
  · rw [if_neg h, add_zero]
    show ((d.set k (d.at0 k + v)).get? k').getD 0 = d.at0 k'
    rw [get?_set_of_ne d _ h]
    rfl

/-- What stands at a key in the end. -/
theorem at0_tally (d : Dict K V) (xs : List (K × V)) (k : K) :
    (d.tally xs).at0 k = d.at0 k + sumAt k xs := by
  induction xs generalizing d with
  | nil => exact (add_zero _).symm
  | cons kv xs ih =>
    show ((d.addAt kv.1 kv.2).tally xs).at0 k = _
    rw [ih, at0_addAt, add_assoc]
    rfl

theorem mem_keys_tally {d : Dict K V} {xs : List (K × V)} {k : K} :
    k ∈ (d.tally xs).keys ↔ k ∈ keys xs ∨ k ∈ d.keys := by
  induction xs generalizing d with
  | nil => simp [tally, keys]
  | cons kv xs ih =>
    show k ∈ ((d.addAt kv.1 kv.2).tally xs).keys ↔ _
    unfold addAt
    rw [ih, mem_keys_set_iff]
    show _ ↔ k ∈ kv.1 :: keys xs ∨ k ∈ d.keys
    rw [List.mem_cons]
    tauto

theorem nodup_keys_tally {d : Dict K V} (hd : d.keys.Nodup) (xs : List (K × V)) :
    (d.tally xs).keys.Nodup := by
  induction xs generalizing d with
  | nil => exact hd
  | cons kv xs ih => exact ih (nodup_keys_set hd)

theorem sumAt_append (k : K) (xs ys : List (K × V)) :
    sumAt k (xs ++ ys) = sumAt k xs + sumAt k ys := by
  induction xs with
  | nil => exact (zero_add _).symm
  | cons kv xs ih =>
    rw [List.cons_append, sumAt, sumAt, ih, add_assoc]

theorem sumAt_of_not_mem {xs : List (K × V)} {k : K} (h : k ∉ keys xs) : sumAt k xs = 0 := by
  induction xs with
  | nil => rfl
  | cons kv xs ih =>
    have hne : kv.1 ≠ k := fun heq => h (heq ▸ List.mem_cons_self)
    have hrest : k ∉ keys xs := fun hmem => h (List.mem_cons_of_mem kv.1 hmem)
    rw [sumAt, if_neg hne, ih hrest, add_zero]

/-- Where the keys are distinct, a sum has one term. -/
theorem sumAt_of_nodup {xs : Dict K V} (h : xs.keys.Nodup) (k : K) :
    sumAt k xs = (xs.get? k).getD 0 := by
  induction xs with
  | nil => rfl
  | cons kv xs ih =>
    have hnd : kv.1 ∉ keys xs ∧ (keys xs).Nodup := List.nodup_cons.1 h
    obtain ⟨k', v⟩ := kv
    rw [sumAt, get?_cons]
    by_cases hk : k' = k
    · rw [if_pos hk, if_pos hk, sumAt_of_not_mem (hk ▸ hnd.1), add_zero]
      rfl
    · rw [if_neg hk, if_neg hk, zero_add, ih hnd.2]

end Dict

end AiPipelines.PyStd

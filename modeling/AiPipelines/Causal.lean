import Mathlib.Data.List.Basic

/-!
# Values that are computed from the values in front

A causal computation gives every position of a sequence a value: a function of
the values in front and of the item at the position.

Several sequences may keep their values in one memory, in which two sequences
may have a cell in common.  `Batch` says what one pass over some positions of
some sequences leaves in the memory, where the pass reads what it writes itself.

* `Batch.sound`: the cells that are right before the pass, or written by it, are
  right after it.
* `exists_batch`: a pass has a result.

The module names nothing of the repository.
-/

namespace AiPipelines.Causal

variable {α V : Type} {attend : List V → α → V} {item item' : Nat → α} {n p : Nat}

/-- The values of the first `n` positions. -/
def values (attend : List V → α → V) (item : Nat → α) : Nat → List V
  | 0 => []
  | n + 1 => values attend item n ++ [attend (values attend item n) (item n)]

/-- The value of a position. -/
def value (attend : List V → α → V) (item : Nat → α) (p : Nat) : V :=
  attend (values attend item p) (item p)

theorem values_eq_map : values attend item n = (List.range n).map (value attend item) := by
  induction n with
  | zero => rfl
  | succ n ih =>
    have hnext : attend (values attend item n) (item n) = value attend item n := rfl
    rw [values, hnext, ih, List.range_succ, List.map_append, List.map_singleton]

theorem value_eq :
    value attend item p = attend ((List.range p).map (value attend item)) (item p) := by
  rw [value, values_eq_map]

theorem values_congr (h : ∀ q < n, item q = item' q) :
    values attend item n = values attend item' n := by
  induction n with
  | zero => rfl
  | succ n ih =>
    rw [values, values, ih (fun q hq => h q (by omega)), h n (by omega)]

/-- A value depends on the items up to its position. -/
theorem value_congr (h : ∀ q ≤ p, item q = item' q) :
    value attend item p = value attend item' p := by
  rw [value, value, values_congr (fun q hq => h q (by omega)), h p (Nat.le_refl p)]

/-! ## One memory for several sequences -/

variable {ι σ : Type} {attends : ι → List V → α → V} {place : ι → Nat → Option σ}
  {items : ι → Nat → α}
  {writes : ι → Nat → Prop} {mem mem' : σ → V}

/-- What a sequence reads in front of a position. -/
def context (place : ι → Nat → Option σ) (mem : σ → V) (i : ι) (p : Nat) : List V :=
  (List.range p).filterMap fun q => (place i q).map mem

/-- One pass over the positions `writes`. -/
structure Batch (attends : ι → List V → α → V) (place : ι → Nat → Option σ) (items : ι → Nat → α)
    (writes : ι → Nat → Prop) (mem mem' : σ → V) : Prop where
  written : ∀ i p x, writes i p → place i p = some x →
    mem' x = attends i (context place mem' i p) (items i p)
  kept : ∀ x, (∀ i p, writes i p → place i p ≠ some x) → mem' x = mem x

/-- The memory holds the value `w`, or the pass will write the cell. -/
def Holds (place : ι → Nat → Option σ) (writes : ι → Nat → Prop) (mem : σ → V) (x : σ) (w : V) :
    Prop :=
  mem x = w ∨ ∃ i p, writes i p ∧ place i p = some x

theorem context_congr {i : ι} (h : ∀ q < p, ∀ x, place i q = some x → mem x = mem' x) :
    context place mem i p = context place mem' i p := by
  apply List.filterMap_congr
  intro q hq
  cases hx : place i q with
  | none => rfl
  | some x => rw [Option.map_some, Option.map_some, h q (List.mem_range.1 hq) x hx]

/-- A cell that was right, or gets a value that is right. -/
theorem Batch.holds (h : Batch attends place items writes mem mem') {x : σ} {w : V}
    (hready : Holds place writes mem x w)
    (hsound : ∀ i p, writes i p → place i p = some x → mem' x = w) : mem' x = w := by
  by_cases hw : ∃ i p, writes i p ∧ place i p = some x
  · obtain ⟨i, p, hwrites, hplace⟩ := hw
    exact hsound i p hwrites hplace
  · rcases hready with hmem | hpending
    · rw [h.kept x (fun i p hwrites hplace => hw ⟨i, p, hwrites, hplace⟩), hmem]
    · exact absurd hpending hw

/-- After the pass every covered cell is right, when two sequences share a cell only at one position
and with one value. -/
theorem Batch.sound (h : Batch attends place items writes mem mem') {covers : ι → Nat → Prop}
    (hplaced : ∀ i p q, covers i p → q ≤ p → covers i q ∧ ∃ x, place i q = some x)
    (hwrites : ∀ i p, writes i p → covers i p)
    (hagree : ∀ i p j q x, covers i p → writes j q → place i p = some x → place j q = some x →
      p = q ∧ value (attends i) (items i) p = value (attends j) (items j) q)
    (hready : ∀ i p x, covers i p → place i p = some x →
      Holds place writes mem x (value (attends i) (items i) p))
    {i : ι} {x : σ} (hi : covers i p) (hx : place i p = some x) :
    mem' x = value (attends i) (items i) p := by
  induction p using Nat.strongRecOn generalizing i x with
  | ind p ih =>
    -- What a pass writes at this position is right, since all that it reads is.
    have hvalue : ∀ j, writes j p → place j p = some x →
        mem' x = value (attends j) (items j) p := by
      intro j hw hj
      have hcontext : context place mem' j p =
          (List.range p).map (value (attends j) (items j)) := by
        rw [context, ← List.filterMap_eq_map]
        apply List.filterMap_congr
        intro q hq
        obtain ⟨hcovers, y, hy⟩ :=
          hplaced j p q (hwrites j p hw) (Nat.le_of_lt (List.mem_range.1 hq))
        rw [hy, Option.map_some, ih q (List.mem_range.1 hq) hcovers hy]
        rfl
      rw [h.written j p x hw hj, hcontext]
      exact value_eq.symm
    apply h.holds (hready i p x hi hx)
    intro j q hw hj
    obtain ⟨rfl, heq⟩ := hagree i p j q x hi hw hx hj
    rw [heq, hvalue j hw hj]

/-- A pass has a result, when no cell is written twice and no sequence reads at one position what
is written at another one. -/
theorem exists_batch {N : Nat} (hbound : ∀ i p, writes i p → p < N)
    (hapart : ∀ i p j q x, writes i p → writes j q → place i p = some x → place j q = some x →
      i = j ∧ p = q)
    (hread : ∀ i p q j k x, writes i p → q < p → place i q = some x → writes j k →
      place j k = some x → q = k) :
    ∃ mem', Batch attends place items writes mem mem' := by
  -- The positions are written in ascending order.
  suffices hrounds : ∀ n, ∃ mem',
      Batch attends place items (fun i p => writes i p ∧ p < n) mem mem' by
    obtain ⟨mem', hwritten, hkept⟩ := hrounds N
    refine ⟨mem', fun i p x hw => hwritten i p x ⟨hw, hbound i p hw⟩, ?_⟩
    intro x hx
    exact hkept x (fun i p hw => hx i p hw.1)
  intro n
  induction n with
  | zero => exact ⟨mem, fun i p x hw => absurd hw.2 (Nat.not_lt_zero p), fun x _ => rfl⟩
  | succ n ih =>
    obtain ⟨mem₁, hwritten, hkept⟩ := ih
    classical
    obtain ⟨mem', hmem'⟩ : ∃ mem' : σ → V, mem' = fun x =>
        if hx : ∃ j, writes j n ∧ place j n = some x then
          attends hx.choose (context place mem₁ hx.choose n) (items hx.choose n)
        else mem₁ x := ⟨_, rfl⟩
    have hold : ∀ x, (¬ ∃ j, writes j n ∧ place j n = some x) → mem' x = mem₁ x := by
      intro x hx
      rw [hmem']
      exact dif_neg hx
    have hcontext : ∀ i p, writes i p → p ≤ n →
        context place mem' i p = context place mem₁ i p := by
      intro i p hw hp
      apply context_congr
      intro q hq x hx
      apply hold
      rintro ⟨j, hj, hplace⟩
      have heq := hread i p q j n x hw hq hx hj hplace
      omega
    refine ⟨mem', ?_, ?_⟩
    · rintro i p x ⟨hw, hp⟩ hx
      rw [hcontext i p hw (by omega)]
      rcases Nat.lt_succ_iff_lt_or_eq.1 hp with hlt | rfl
      · rw [hold, hwritten i p x ⟨hw, hlt⟩ hx]
        rintro ⟨j, hj, hplace⟩
        have heq := (hapart i p j n x hw hj hx hplace).2
        omega
      · have hcell : ∃ j, writes j p ∧ place j p = some x := ⟨i, hw, hx⟩
        have hwriter : hcell.choose = i :=
          (hapart _ p i p x hcell.choose_spec.1 hw hcell.choose_spec.2 hx).1
        have hnew : mem' x = attends hcell.choose (context place mem₁ hcell.choose p)
            (items hcell.choose p) := by
          rw [hmem']
          exact dif_pos hcell
        rw [hnew, hwriter]
    · intro x hx
      rw [hold x, hkept x]
      · intro i p hw
        exact hx i p ⟨hw.1, by omega⟩
      · rintro ⟨j, hj, hplace⟩
        exact hx j n ⟨hj, Nat.lt_succ_self n⟩ hplace

end AiPipelines.Causal

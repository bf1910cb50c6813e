import Mathlib.Data.List.Basic

/-!
# Buffers that are filled piece by piece

A program that fills a buffer runs operations, each of which writes some
cells.  When all of them write the values of one function `f`, the result
depends on the set of written cells only, and neither on the order of the
operations nor on how the set is cut into pieces.

* `Fills D f buf buf'` says that `buf'` is `buf` with `f` written on `D`.
* `Fills.unique` is how two programs are shown to leave the same buffer.
* `Fills.foldlM` is the rule for a loop whose body fills a piece.

The module names nothing of the repository.
-/

namespace AiPipelines

variable {α ε ι : Type}

/-- `buf'` holds `f` on the cells in `D` and is as `buf` elsewhere. -/
structure Fills (D : Nat → Prop) (f : Nat → α) (buf buf' : List α) : Prop where
  length : buf'.length = buf.length
  written : ∀ o < buf.length, D o → buf'[o]? = some (f o)
  kept : ∀ o < buf.length, ¬ D o → buf'[o]? = buf[o]?

namespace Fills

variable {D E : Nat → Prop} {f : Nat → α} {a b c : List α}

/-- Nothing is written. -/
theorem nothing (h : ∀ o, ¬ D o) : Fills D f a a where
  length := rfl
  written := fun o _ hD => absurd hD (h o)
  kept := fun _ _ _ => rfl

/-- One cell is written. -/
theorem set (o : Nat) : Fills (fun k => k = o) f a (a.set o (f o)) where
  length := List.length_set
  written := by
    intro k hk hko
    subst hko
    exact List.getElem?_set_self hk
  kept := by
    intro k _ hko
    exact List.getElem?_set_ne fun h => hko h.symm

/-- What is written may be described by another set of cells. -/
theorem congr (h : Fills D f a b) (hDE : ∀ o < a.length, D o ↔ E o) : Fills E f a b where
  length := h.length
  written := fun o ho hE => h.written o ho ((hDE o ho).mpr hE)
  kept := fun o ho hE => h.kept o ho fun hD => hE ((hDE o ho).mp hD)

/-- One piece after the other. -/
theorem trans (h₁ : Fills D f a b) (h₂ : Fills E f b c) : Fills (fun o => D o ∨ E o) f a c where
  length := h₂.length.trans h₁.length
  written := by
    intro o ho hDE
    have hob : o < b.length := h₁.length.symm ▸ ho
    by_cases hE : E o
    · exact h₂.written o hob hE
    · rw [h₂.kept o hob hE]
      exact h₁.written o ho (hDE.resolve_right hE)
  kept := by
    intro o ho hDE
    have hob : o < b.length := h₁.length.symm ▸ ho
    rw [h₂.kept o hob fun hE => hDE (.inr hE)]
    exact h₁.kept o ho fun hD => hDE (.inl hD)

/-- The cells and the values determine the buffer. -/
theorem unique (h₁ : Fills D f a b) (h₂ : Fills D f a c) : b = c := by
  apply List.ext_getElem?
  intro o
  by_cases ho : o < a.length
  · by_cases hD : D o
    · rw [h₁.written o ho hD, h₂.written o ho hD]
    · rw [h₁.kept o ho hD, h₂.kept o ho hD]
  · have hb : b.length ≤ o := by rw [h₁.length]; omega
    have hc : c.length ≤ o := by rw [h₂.length]; omega
    rw [List.getElem?_eq_none hb, List.getElem?_eq_none hc]

/-- A run of values written from `start` up to `stop`. -/
theorem slice {start stop : Nat} {vals : List α} (hlen : start + vals.length = stop)
    (hfit : stop ≤ a.length) (hvals : ∀ k < vals.length, vals[k]? = some (f (start + k))) :
    Fills (fun o => start ≤ o ∧ o < stop) f a (a.take start ++ vals ++ a.drop stop) where
  length := by
    simp only [List.length_append, List.length_take, List.length_drop]
    omega
  written := by
    intro o ho hD
    have htake : (a.take start).length = start := by
      rw [List.length_take]
      omega
    rw [List.append_assoc, List.getElem?_append_right (by omega), htake,
      List.getElem?_append_left (by omega), hvals _ (by omega), Nat.add_sub_cancel' hD.1]
  kept := by
    intro o ho hD
    have hfront : (a.take start ++ vals).length = stop := by
      rw [List.length_append, List.length_take]
      omega
    by_cases hlt : o < start
    · rw [List.append_assoc, List.getElem?_append_left (by rw [List.length_take]; omega),
        List.getElem?_take_of_lt hlt]
    · rw [List.getElem?_append_right (by omega), hfront, List.getElem?_drop,
        Nat.add_sub_cancel' (by omega)]

/-- A loop fills the pieces that its rounds fill.  The rounds may count on
the length of the buffer. -/
theorem foldlM {op : List α → ι → Except ε (List α)} {P : ι → Nat → Prop} {xs : List ι}
    (hop : ∀ x ∈ xs, ∀ b : List α, b.length = a.length →
      ∃ b', op b x = .ok b' ∧ Fills (P x) f b b') :
    ∃ b, xs.foldlM op a = .ok b ∧ Fills (fun o => ∃ x ∈ xs, P x o) f a b := by
  induction xs generalizing a with
  | nil => exact ⟨a, rfl, .nothing (by simp)⟩
  | cons x xs ih =>
    obtain ⟨b, hx, hfill⟩ := hop x List.mem_cons_self a rfl
    have hrest : ∀ y ∈ xs, ∀ c : List α, c.length = b.length →
        ∃ b', op c y = .ok b' ∧ Fills (P y) f c b' :=
      fun y hy c hc => hop y (List.mem_cons_of_mem x hy) c (hc.trans hfill.length)
    obtain ⟨c, hxs, hfills⟩ := ih hrest
    refine ⟨c, ?_, (hfill.trans hfills).congr fun o _ => by simp⟩
    rw [List.foldlM_cons, hx]
    exact hxs

end Fills

end AiPipelines

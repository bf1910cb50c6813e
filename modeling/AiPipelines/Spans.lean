import Mathlib.Order.Basic

/-!
# Spans that are opened and closed in stack order

A clock that never goes back, a stack of the times at which a span was opened,
and the list of the spans closed so far.  Opening pushes the present time, and
closing pops the latest opening time and pairs it with the present one.

`Spans` is the invariant of such a record.  Its last field is the one that
makes the induction go through: an opening time never falls strictly inside a
closed span, so the span it will begin can neither cut a closed span in two
nor begin in the middle of one.

The module names nothing of the repository.
-/

namespace AiPipelines

variable {τ : Type} [Preorder τ]

/-- Two spans that lie apart or one inside the other.  They may share end
points. -/
def NestedOrDisjoint (a b : τ × τ) : Prop :=
  a.2 ≤ b.1 ∨ b.2 ≤ a.1 ∨ (b.1 ≤ a.1 ∧ a.2 ≤ b.2) ∨ (a.1 ≤ b.1 ∧ b.2 ≤ a.2)

/-- At the time `now`, `opened` are the times of the spans still open, the
latest first, and `closed` are the spans that are closed. -/
structure Spans (now : τ) (opened : List τ) (closed : List (τ × τ)) : Prop where
  sorted : opened.Pairwise (fun later earlier => earlier ≤ later)
  opened_le : ∀ t ∈ opened, t ≤ now
  ordered : ∀ c ∈ closed, c.1 ≤ c.2
  closed_le : ∀ c ∈ closed, c.2 ≤ now
  laminar : closed.Pairwise NestedOrDisjoint
  apart : ∀ t ∈ opened, ∀ c ∈ closed, t ≤ c.1 ∨ c.2 ≤ t

namespace Spans

variable {now later : τ} {opened : List τ} {closed : List (τ × τ)}

/-- Nothing was opened yet. -/
theorem empty (now : τ) : Spans now [] [] where
  sorted := .nil
  opened_le := by simp
  ordered := by simp
  closed_le := by simp
  laminar := .nil
  apart := by simp

/-- Time passes. -/
theorem advance (h : Spans now opened closed) (hle : now ≤ later) : Spans later opened closed where
  sorted := h.sorted
  opened_le := fun t ht => (h.opened_le t ht).trans hle
  ordered := h.ordered
  closed_le := fun c hc => (h.closed_le c hc).trans hle
  laminar := h.laminar
  apart := h.apart

/-- A span is opened. -/
theorem push (h : Spans now opened closed) : Spans now (now :: opened) closed where
  sorted := List.pairwise_cons.mpr ⟨h.opened_le, h.sorted⟩
  opened_le := by
    intro t ht
    rcases List.mem_cons.mp ht with rfl | ht
    · exact le_rfl
    · exact h.opened_le t ht
  ordered := h.ordered
  closed_le := h.closed_le
  laminar := h.laminar
  apart := by
    intro t ht c hc
    rcases List.mem_cons.mp ht with rfl | ht
    · exact .inr (h.closed_le c hc)
    · exact h.apart t ht c hc

/-- The span that was opened last is closed. -/
theorem pop {t : τ} (h : Spans now (t :: opened) closed) :
    Spans now opened (closed ++ [(t, now)]) := by
  obtain ⟨hlater, hsorted⟩ := List.pairwise_cons.mp h.sorted
  have htop : t ≤ now := h.opened_le t List.mem_cons_self
  have hmem : ∀ c ∈ closed ++ [(t, now)], c ∈ closed ∨ c = (t, now) := by
    intro c hc
    simpa using hc
  refine ⟨hsorted, fun u hu => h.opened_le u (List.mem_cons_of_mem t hu), ?_, ?_, ?_, ?_⟩
  · intro c hc
    rcases hmem c hc with hc | rfl
    · exact h.ordered c hc
    · exact htop
  · intro c hc
    rcases hmem c hc with hc | rfl
    · exact h.closed_le c hc
    · exact le_rfl
  · rw [List.pairwise_append]
    refine ⟨h.laminar, List.pairwise_singleton _ _, ?_⟩
    intro c hc d hd
    obtain rfl := List.mem_singleton.mp hd
    -- the new span contains the old one, or begins after its end
    rcases h.apart t List.mem_cons_self c hc with hin | hout
    · exact .inr (.inr (.inl ⟨hin, h.closed_le c hc⟩))
    · exact .inl hout
  · intro u hu c hc
    rcases hmem c hc with hc | rfl
    · exact h.apart u (List.mem_cons_of_mem t hu) c hc
    · exact .inl (hlater u hu)

end Spans

end AiPipelines

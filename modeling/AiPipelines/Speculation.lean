import Mathlib.Data.List.Basic

/-!
# Speculation

A loop appends the next item to a sequence until the sequence tells it to stop
(`decode`).  A faster loop guesses several items, computes what is next behind
each prefix of the guesses, and keeps what it computed up to the first wrong
guess (`verify`).  Of what it keeps it appends one item after the other, until
it has to stop (`appendUntil`).

* `verify_follows`: what is kept are items that follow each other.
* `Decodes.extend`: appending them comes to what the plain loop does.

The module names nothing of the repository.
-/

namespace AiPipelines.Speculation

variable {α : Type} {next : List α → α} {stop : List α → Bool} {xs ys : List α}

/-- The plain loop, for `n` rounds. -/
def decode (next : List α → α) (stop : List α → Bool) : Nat → List α → List α
  | 0, xs => xs
  | n + 1, xs =>
    let ys := decode next stop n xs
    if stop ys then ys else ys ++ [next ys]

/-- The sequence is one that the plain loop comes to from `xs`. -/
def Decodes (next : List α → α) (stop : List α → Bool) (xs ys : List α) : Prop :=
  ∃ n, ys = decode next stop n xs

/-- Every item of `ys` is the next one behind `xs` and the items in front of it. -/
def Follows (next : List α → α) (xs ys : List α) : Prop :=
  ∀ i y, ys[i]? = some y → y = next (xs ++ ys.take i)

/-- What is kept: the computed items up to the first wrong guess, or all of them and `bonus`. -/
def verify [DecidableEq α] : List α → List α → α → List α
  | guess :: guesses, target :: targets, bonus =>
    if guess = target then target :: verify guesses targets bonus else [target]
  | _, _, bonus => [bonus]

/-- Append one item after the other until the sequence tells to stop. -/
def appendUntil (stop : List α → Bool) : List α → List α → List α
  | xs, [] => xs
  | xs, y :: ys => if stop (xs ++ [y]) then xs ++ [y] else appendUntil stop (xs ++ [y]) ys

theorem Follows.tail {y : α} (h : Follows next xs (y :: ys)) :
    y = next xs ∧ Follows next (xs ++ [y]) ys := by
  constructor
  · have hfirst := h 0 y rfl
    rwa [List.take_zero, List.append_nil] at hfirst
  · intro i z hz
    have hrest := h (i + 1) z hz
    rwa [List.take_succ_cons, ← List.singleton_append, ← List.append_assoc] at hrest

theorem Follows.cons {y : α} (hy : y = next xs) (h : Follows next (xs ++ [y]) ys) :
    Follows next xs (y :: ys) := by
  intro i z hz
  cases i with
  | zero =>
    obtain rfl := Option.some.inj hz
    rw [List.take_zero, List.append_nil, hy]
  | succ i =>
    rw [List.take_succ_cons, ← List.singleton_append, ← List.append_assoc]
    exact h i z hz

section Verify

variable [DecidableEq α] {guesses targets : List α} {bonus : α}

/-- When the targets are the items behind the prefixes of the guesses, what is kept follows. -/
theorem verify_follows (hlen : targets.length = guesses.length)
    (htargets : ∀ i t, targets[i]? = some t → t = next (xs ++ guesses.take i))
    (hbonus : bonus = next (xs ++ guesses)) : Follows next xs (verify guesses targets bonus) := by
  induction guesses generalizing targets xs with
  | nil =>
    obtain rfl := List.length_eq_zero_iff.1 hlen
    rw [List.append_nil] at hbonus
    exact Follows.cons hbonus fun i z hz => by simp at hz
  | cons guess guesses ih =>
    cases targets with
    | nil => cases hlen
    | cons target targets =>
      have hfirst := htargets 0 target rfl
      rw [List.take_zero, List.append_nil] at hfirst
      rw [verify]
      split
      · next heq =>
        subst heq
        refine Follows.cons hfirst (ih (Nat.succ.inj hlen) ?_ ?_)
        · intro i t ht
          have hrest := htargets (i + 1) t ht
          rwa [List.take_succ_cons, ← List.singleton_append, ← List.append_assoc] at hrest
        · rwa [← List.singleton_append, ← List.append_assoc] at hbonus
      · exact Follows.cons hfirst fun i z hz => by simp at hz

end Verify

/-! ## The plain loop -/

theorem Decodes.refl : Decodes next stop xs xs := ⟨0, rfl⟩

/-- One more round. -/
theorem Decodes.push (h : Decodes next stop xs ys) (hstop : stop ys = false) :
    Decodes next stop xs (ys ++ [next ys]) := by
  obtain ⟨n, rfl⟩ := h
  refine ⟨n + 1, ?_⟩
  rw [decode, hstop]
  rfl

/-- Items that follow are appended as the plain loop would append them. -/
theorem Decodes.extend {zs : List α} (h : Decodes next stop xs ys) (hstop : stop ys = false)
    (hzs : Follows next ys zs) : Decodes next stop xs (appendUntil stop ys zs) := by
  induction zs generalizing ys with
  | nil => exact h
  | cons z zs ih =>
    obtain ⟨rfl, hrest⟩ := hzs.tail
    rw [appendUntil]
    split
    · exact h.push hstop
    · next hgo => exact ih (h.push hstop) (Bool.eq_false_iff.2 hgo) hrest

/-- A loop that has stopped changes nothing any more, so the sequence that it stops at
is the only one. -/
theorem Decodes.unique {zs : List α} (h : Decodes next stop xs ys) (h' : Decodes next stop xs zs)
    (hstop : stop ys = true) (hstop' : stop zs = true) : ys = zs := by
  have hstay : ∀ n k, stop (decode next stop n xs) = true →
      decode next stop (n + k) xs = decode next stop n xs := by
    intro n k hn
    induction k with
    | zero => rfl
    | succ k ih => rw [← Nat.add_assoc, decode, ih, if_pos hn]
  obtain ⟨n, rfl⟩ := h
  obtain ⟨m, rfl⟩ := h'
  rcases Nat.le_total n m with hle | hle
  · obtain ⟨k, rfl⟩ := Nat.exists_eq_add_of_le hle
    exact (hstay n k hstop).symm
  · obtain ⟨k, rfl⟩ := Nat.exists_eq_add_of_le hle
    exact hstay m k hstop'

end AiPipelines.Speculation

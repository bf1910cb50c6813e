import Mathlib.Data.Nat.Basic

/-!
# Dealing out numbers in runs

The numbers `0, 1, 2, ...` are dealt to `W` parties in turn, `I` of them at a
time.  `owner` is the party that gets `v`, and `index` is the place of `v`
among the numbers of that party.  `dealt` goes back: the number that a party
has at an index.

`index_lt` bounds the indices when whole rounds are dealt, and
`eq_of_owner_index` says that a party and an index belong to one number.

The module names nothing of the repository.
-/

namespace AiPipelines.Interleave

variable {W I v w : Nat}

/-- The party that gets `v`. -/
def owner (W I v : Nat) : Nat := v / I % W

/-- The place of `v` among the numbers of its party. -/
def index (W I v : Nat) : Nat := v / (W * I) * I + v % I

/-- The number that `party` has at `k`. -/
def dealt (W I party k : Nat) : Nat := (k / I * W + party) * I + k % I

theorem owner_lt (hW : 0 < W) : owner W I v < W := Nat.mod_lt _ hW

/-- Owner and index determine the number. -/
theorem dealt_owner_index (hI : 0 < I) : dealt W I (owner W I v) (index W I v) = v := by
  have hmod : v % I < I := Nat.mod_lt _ hI
  have hdiv : index W I v / I = v / (W * I) := by
    rw [index, Nat.mul_comm _ I, Nat.mul_add_div hI, Nat.div_eq_of_lt hmod, Nat.add_zero]
  have hrem : index W I v % I = v % I := by
    rw [index, Nat.mul_comm _ I, Nat.mul_add_mod, Nat.mod_mod]
  have hround : v / (W * I) = v / I / W := by rw [Nat.mul_comm, Nat.div_div_eq_div_mul]
  rw [dealt, hdiv, hrem, hround, owner, Nat.div_add_mod' (v / I) W, Nat.div_add_mod' v I]

theorem eq_of_owner_index (hI : 0 < I) (howner : owner W I v = owner W I w)
    (hindex : index W I v = index W I w) : v = w := by
  rw [← dealt_owner_index hI (v := v), howner, hindex, dealt_owner_index hI]

/-- When `n` is a multiple of `I`, the first `n * W` numbers give each party
the indices below `n`. -/
theorem index_lt {n : Nat} (hI : 0 < I) (hdvd : I ∣ n) (hv : v < n * W) : index W I v < n := by
  obtain ⟨q, rfl⟩ := hdvd
  have hround : v / (W * I) < q := by
    apply Nat.div_lt_of_lt_mul
    calc v < I * q * W := hv
      _ = W * I * q := by rw [Nat.mul_comm W I, Nat.mul_assoc, Nat.mul_assoc, Nat.mul_comm q W]
  have hmod : v % I < I := Nat.mod_lt _ hI
  calc index W I v < v / (W * I) * I + I := Nat.add_lt_add_left hmod _
    _ = (v / (W * I) + 1) * I := by rw [Nat.add_mul, Nat.one_mul]
    _ ≤ q * I := Nat.mul_le_mul_right I hround
    _ = I * q := Nat.mul_comm q I

end AiPipelines.Interleave

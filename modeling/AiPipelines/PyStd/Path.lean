import AiPipelines.PyStd.Str

/-!
# Absolute paths

`pathlib` on absolute paths.  A path is the list of its parts.  `pathlib`
drops empty parts and the part `.` when it joins, and keeps `..`; it is the
operating system that takes `..` to the parent, and `resolve` says where a
path ends up when no part is a symbolic link.

A part that is not empty, not `.` or `..` and has no slash is a name
(`IsName`).  Joining a name onto a path leads to a child of it
(`resolve_join_name`).

The module names nothing of the repository.
-/

namespace AiPipelines.PyStd

/-- The parts of an absolute path. -/
abbrev Path := List Str

/-- Under this a directory may have an entry. -/
def IsName (c : Str) : Prop := c ≠ [] ∧ c ≠ ['.'] ∧ c ≠ ['.', '.'] ∧ '/' ∉ c

instance (c : Str) : Decidable (IsName c) := inferInstanceAs (Decidable (_ ∧ _ ∧ _ ∧ _))

/-- The parts of `PurePosixPath(s)`. -/
def pathParts (s : Str) : List Str :=
  (s.splitOn '/').filter fun c => c ≠ [] ∧ c ≠ ['.']

namespace Path

/-- `p / s`. -/
def join (p : Path) (s : Str) : Path :=
  if s.head? = some '/' then pathParts s else p ++ pathParts s

/-- One part of a path, from the directory `loc`. -/
def enter (loc : Path) (c : Str) : Path := if c = ['.', '.'] then loc.dropLast else loc ++ [c]

/-- `p.resolve()`, where no part is a symbolic link. -/
def resolve (p : Path) : Path := p.foldl enter []

end Path

/-- `PurePosixPath(s).name`. -/
def pathName (s : Str) : Str := (pathParts s).getLast?.getD []

/-- `PurePosixPath(s).suffix`: the name from its last dot on, unless the dot
stands at one of its ends. -/
def pathSuffix (s : Str) : Str :=
  let name := pathName s
  let ext := name.rtakeWhile (· ≠ '.')
  if ext ≠ [] ∧ ext.length + 1 < name.length then '.' :: ext else []

/-! ## Parts without a slash -/

theorem pathParts_of_no_slash {s : Str} (h : '/' ∉ s) :
    pathParts s = if s = [] ∨ s = ['.'] then [] else [s] := by
  have hsplit : s.splitOn '/' = [s] := by
    unfold List.splitOn
    apply List.splitOnP_eq_singleton
    intro c hc
    exact beq_eq_false_iff_ne.2 fun hslash => h (hslash ▸ hc)
  unfold pathParts
  rw [hsplit]
  by_cases hnil : s = []
  · simp [hnil]
  · by_cases hdot : s = ['.']
    · simp [hdot]
    · simp [hnil, hdot]

theorem Path.join_of_no_slash {p : Path} {s : Str} (h : '/' ∉ s) :
    p.join s = if s = [] ∨ s = ['.'] then p else p ++ [s] := by
  have hhead : s.head? ≠ some '/' := by
    intro hhead
    exact h (List.mem_of_mem_head? hhead)
  unfold Path.join
  rw [if_neg hhead, pathParts_of_no_slash h]
  split_ifs
  · exact List.append_nil p
  · rfl

theorem Path.join_name {p : Path} {c : Str} (h : IsName c) : p.join c = p ++ [c] := by
  rw [join_of_no_slash h.2.2.2, if_neg]
  rintro (hnil | hdot)
  · exact h.1 hnil
  · exact h.2.1 hdot

/-! ## Where a path leads -/

namespace Path

@[simp] theorem resolve_nil : resolve [] = [] := rfl

theorem resolve_concat (p : Path) (c : Str) : resolve (p ++ [c]) = enter (resolve p) c := by
  unfold resolve
  rw [List.foldl_append]
  rfl

/-- A path without `..` leads where it says. -/
theorem resolve_eq_self {p : Path} (h : ∀ c ∈ p, c ≠ ['.', '.']) : p.resolve = p := by
  induction p using List.reverseRecOn with
  | nil => rfl
  | append_singleton p c ih =>
    have hp : ∀ c ∈ p, c ≠ ['.', '.'] := fun c hc => h c (List.mem_append_left _ hc)
    have hc : c ≠ ['.', '.'] := h c (List.mem_append_right _ (List.mem_singleton_self c))
    rw [resolve_concat, ih hp, enter, if_neg hc]

/-- Where a path leads has no `..` in it. -/
theorem resolve_no_dotdot (p : Path) : ∀ c ∈ p.resolve, c ≠ ['.', '.'] := by
  induction p using List.reverseRecOn with
  | nil => simp
  | append_singleton p c ih =>
    rw [resolve_concat]
    unfold enter
    split_ifs with hc
    · exact fun c' hc' => ih c' (List.mem_of_mem_dropLast hc')
    · intro c' hc'
      rcases List.mem_append.1 hc' with hc' | hc'
      · exact ih c' hc'
      · rwa [List.mem_singleton.1 hc']

@[simp] theorem resolve_resolve (p : Path) : p.resolve.resolve = p.resolve :=
  resolve_eq_self (resolve_no_dotdot p)

/-- Joining a name leads to a child. -/
theorem resolve_join_name {p : Path} {c : Str} (h : IsName c) :
    (p.join c).resolve = p.resolve ++ [c] := by
  rw [join_name h, resolve_concat, enter, if_neg h.2.2.1]

end Path

end AiPipelines.PyStd

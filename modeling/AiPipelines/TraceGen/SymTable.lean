import AiPipelines.TraceGen.Instruction
import Mathlib.Data.List.GetD
import Mathlib.Data.List.Sort

/-!
# The symbol table and a linear scan

`SymResolver.from_file` of `iminnt/trace_gen.py` collects the function symbols of an
ELF file and sorts them by start address.  `lookup_sym` then looks at one of them, the
last that starts at or before the address.

`lookupSym_candidate` says which one that is.  `agrees_iff` compares the answer with a
scan of all the ranges, and `lookupSym_agrees_iff` says which tables give the right
answer at every address: those in which no symbol that outlasts a later one comes to
light again behind it.
-/

namespace AiPipelines.TraceGen

open PyStd

/-! ## Collecting the symbols -/

/-- `sym['st_info']['type']`. -/
inductive SymType where
  | func
  | notype
  | other
  deriving Repr, DecidableEq

/-- An entry of `.symtab`. -/
structure ElfSymbol where
  name : Str
  type : SymType
  value : Nat
  size : Nat
  deriving Repr, DecidableEq

/-- A row of `syms`: name, start and end. -/
abbrev SymRange := Str × Int × Int

/-- What the loop of `from_file` appends for a symbol.  The names that it prints are
left out. -/
def ElfSymbol.range? (sym : ElfSymbol) : Option SymRange :=
  if sym.type = .func ∧ 0 < sym.size then some (sym.name, sym.value, sym.value + sym.size)
  else none

/-- The order of `syms.sort(key=lambda f: f[1])`. -/
def startLe (f g : SymRange) : Prop := f.2.1 ≤ g.2.1

instance : DecidableRel startLe := fun f g => inferInstanceAs (Decidable (f.2.1 ≤ g.2.1))

instance : Std.Total startLe := ⟨fun f g => le_total f.2.1 g.2.1⟩

instance : IsTrans SymRange startLe := ⟨fun _ _ _ hfg hgh => le_trans hfg hgh⟩

/-- `SymResolver.from_file`. -/
def SymResolver.fromFile (symtab : List ElfSymbol) : SymResolver :=
  let syms := (symtab.filterMap ElfSymbol.range?).insertionSort startLe
  { syms := syms, fnStarts := syms.map fun f => f.2.1 }

/-- What `from_file` makes sure of. -/
structure SymResolver.Sorted (r : SymResolver) : Prop where
  fnStarts : r.fnStarts = r.syms.map fun f => f.2.1
  sorted : r.syms.Pairwise startLe
  positive : ∀ f ∈ r.syms, f.2.1 < f.2.2

theorem fromFile_sorted (symtab : List ElfSymbol) : (SymResolver.fromFile symtab).Sorted where
  fnStarts := rfl
  sorted := List.pairwise_insertionSort startLe _
  positive := by
    intro f hf
    obtain ⟨sym, -, hsym⟩ := List.mem_filterMap.1 ((List.mem_insertionSort startLe).1 hf)
    unfold ElfSymbol.range? at hsym
    split_ifs at hsym with h
    rw [← Option.some.inj hsym]
    show (sym.value : Int) < sym.value + sym.size
    omega

theorem SymResolver.Sorted.fnStarts_sorted {r : SymResolver} (hr : r.Sorted) :
    r.fnStarts.Pairwise (· ≤ ·) := by
  rw [hr.fnStarts]
  exact List.pairwise_map.2 hr.sorted

/-! ## The binary search -/

theorem getD_le {a : List Int} (ha : a.Pairwise (· ≤ ·)) {i j : Nat} (hij : i ≤ j)
    (hj : j < a.length) : a.getD i 0 ≤ a.getD j 0 := by
  rw [List.getD_eq_getElem a 0 (by omega : i < a.length), List.getD_eq_getElem a 0 hj]
  rcases Nat.lt_or_eq_of_le hij with h | h
  · exact List.pairwise_iff_getElem.1 ha i j _ hj h
  · subst h
    exact le_refl _

/-- Below `k` nothing is greater than `x`, and from `k` on everything is. -/
structure SplitsAt (a : List Int) (x : Int) (k : Nat) : Prop where
  le_length : k ≤ a.length
  below : ∀ i < k, a.getD i 0 ≤ x
  above : ∀ i, k ≤ i → i < a.length → x < a.getD i 0

theorem bisectLoop_splits {a : List Int} (ha : a.Pairwise (· ≤ ·)) {x : Int} (fuel : Nat)
    {lo hi : Nat} (hfuel : hi - lo ≤ fuel) (hle : lo ≤ hi) (hhi : hi ≤ a.length)
    (hbelow : ∀ i < lo, a.getD i 0 ≤ x) (habove : ∀ i, hi ≤ i → i < a.length → x < a.getD i 0) :
    SplitsAt a x (bisectLoop a x fuel lo hi) := by
  induction fuel generalizing lo hi with
  | zero =>
    obtain rfl : lo = hi := by omega
    exact ⟨hhi, hbelow, habove⟩
  | succ fuel ih =>
    unfold bisectLoop
    split_ifs with hlt
    · dsimp only
      split_ifs with hx
      · refine ih (by omega) (by omega) (by omega) hbelow ?_
        intro i hi' hlen
        exact lt_of_lt_of_le hx (getD_le ha hi' hlen)
      · refine ih (by omega) (by omega) hhi ?_ habove
        intro i hi'
        exact le_trans (getD_le ha (by omega) (by omega)) (not_lt.1 hx)
    · obtain rfl : lo = hi := by omega
      exact ⟨hhi, hbelow, habove⟩

theorem bisectRight_splits {a : List Int} (ha : a.Pairwise (· ≤ ·)) (x : Int) :
    SplitsAt a x (bisectRight a x) :=
  bisectLoop_splits ha a.length (Nat.sub_le _ _) (Nat.zero_le _) (le_refl _) (by omega) (by omega)

/-- There is only one such place. -/
theorem SplitsAt.unique {a : List Int} {x : Int} {k l : Nat} (hk : SplitsAt a x k)
    (hl : SplitsAt a x l) : k = l := by
  have hlen := hk.le_length
  have hlen' := hl.le_length
  rcases Nat.lt_trichotomy k l with h | h | h
  · exact absurd (hl.below k h) (not_le.2 (hk.above k (le_refl k) (by omega)))
  · exact h
  · exact absurd (hk.below l h) (not_le.2 (hl.above l (le_refl l) (by omega)))

/-! ## The candidate -/

/-- The address lies in the range. -/
def Covers (f : SymRange) (addr : Int) : Prop := f.2.1 ≤ addr ∧ addr < f.2.2

instance (f : SymRange) (addr : Int) : Decidable (Covers f addr) :=
  inferInstanceAs (Decidable (_ ∧ _))

/-- `g` is the last symbol that starts at or before the address: `before` stand in front
of it, and `behind` start later. -/
structure Candidate (r : SymResolver) (addr : Int) (before : List SymRange) (g : SymRange)
    (behind : List SymRange) : Prop where
  syms : r.syms = before ++ g :: behind
  start : g.2.1 ≤ addr
  later : ∀ h ∈ behind, addr < h.2.1

variable {r : SymResolver} {addr : Int} {before behind : List SymRange} {g : SymRange}

/-- Of a list with some such element there is a last one. -/
theorem exists_last {α : Type} {p : α → Prop} {xs : List α} (h : ∃ x ∈ xs, p x) :
    ∃ as x bs, xs = as ++ x :: bs ∧ p x ∧ ∀ y ∈ bs, ¬ p y := by
  induction xs with
  | nil =>
    obtain ⟨x, hx, -⟩ := h
    cases hx
  | cons y ys ih =>
    by_cases hys : ∃ x ∈ ys, p x
    · obtain ⟨as, x, bs, rfl, hx, hbs⟩ := ih hys
      exact ⟨y :: as, x, bs, rfl, hx, hbs⟩
    · obtain ⟨x, hx, hpx⟩ := h
      rcases List.mem_cons.1 hx with rfl | hx
      · exact ⟨[], x, ys, rfl, hpx, fun z hz hpz => hys ⟨z, hz, hpz⟩⟩
      · exact absurd ⟨x, hx, hpx⟩ hys

theorem exists_candidate (h : ∃ f ∈ r.syms, f.2.1 ≤ addr) :
    ∃ before g behind, Candidate r addr before g behind := by
  obtain ⟨before, g, behind, hsyms, hstart, hlater⟩ := exists_last h
  exact ⟨before, g, behind, hsyms, hstart, fun h hh => not_le.1 (hlater h hh)⟩

theorem Candidate.before_start (hr : r.Sorted) (hc : Candidate r addr before g behind)
    {f : SymRange} (hf : f ∈ before) : f.2.1 ≤ g.2.1 := by
  have hsorted := hr.sorted
  rw [hc.syms, List.pairwise_append] at hsorted
  exact hsorted.2.2 f hf g List.mem_cons_self

theorem Candidate.splits (hr : r.Sorted) (hc : Candidate r addr before g behind) :
    SplitsAt r.fnStarts addr (before.length + 1) := by
  have hstarts : r.fnStarts = (before ++ [g]).map (fun f => f.2.1) ++ behind.map fun f =>
      f.2.1 := by
    rw [hr.fnStarts, hc.syms, ← List.map_append, List.append_assoc, List.singleton_append]
  have hlen : ((before ++ [g]).map fun f : SymRange => f.2.1).length = before.length + 1 := by simp
  constructor
  · rw [hstarts, List.length_append]
    omega
  · intro i hi
    rw [← hlen] at hi
    rw [hstarts, List.getD_append _ _ _ _ hi, List.getD_eq_getElem _ 0 hi]
    obtain ⟨f, hf, hfi⟩ := List.mem_map.1 (List.getElem_mem hi)
    rw [← hfi]
    rcases List.mem_append.1 hf with hf | hf
    · exact le_trans (hc.before_start hr hf) hc.start
    · rw [List.mem_singleton.1 hf]
      exact hc.start
  · intro i hi hlt
    rw [← hlen] at hi
    rw [hstarts, List.length_append] at hlt
    rw [hstarts, List.getD_append_right _ _ _ _ hi, List.getD_eq_getElem _ 0 (by omega)]
    obtain ⟨h, hh, hhi⟩ := List.mem_map.1 (List.getElem_mem (l := behind.map fun f => f.2.1)
      (n := i - ((before ++ [g]).map fun f : SymRange => f.2.1).length) (by omega))
    rw [← hhi]
    exact hc.later h hh

/-- The search looks at the candidate and at nothing else. -/
theorem lookupSym_candidate (hr : r.Sorted) (hc : Candidate r addr before g behind) :
    r.lookupSym addr = if addr < g.2.2 then g.1 else nosymName := by
  have hk : bisectRight r.fnStarts addr = before.length + 1 :=
    (bisectRight_splits hr.fnStarts_sorted addr).unique (hc.splits hr)
  have hget : r.syms[before.length]? = some g := by
    rw [hc.syms]
    simp
  have hlen : before.length < r.syms.length := (List.getElem?_eq_some_iff.1 hget).1
  unfold SymResolver.lookupSym
  rw [hk]
  rw [show ((before.length + 1 : Nat) : Int) - 1 = before.length by omega]
  dsimp only
  rw [if_pos (by omega), Int.toNat_natCast, hget]
  simp only [hc.start, true_and]

theorem lookupSym_no_candidate (hr : r.Sorted) (h : ∀ f ∈ r.syms, addr < f.2.1) :
    r.lookupSym addr = nosymName := by
  have hlater : ∀ start ∈ r.fnStarts, addr < start := by
    rw [hr.fnStarts, List.forall_mem_map]
    exact h
  have hk : bisectRight r.fnStarts addr = 0 := by
    refine (bisectRight_splits hr.fnStarts_sorted addr).unique ⟨Nat.zero_le _, by omega, ?_⟩
    intro i _ hi
    rw [List.getD_eq_getElem _ 0 hi]
    exact hlater _ (List.getElem_mem hi)
  unfold SymResolver.lookupSym
  rw [hk]
  simp

/-! ## The scan -/

/-- `lookup_sym` finds what a scan of all the ranges finds. -/
structure Agrees (r : SymResolver) (addr : Int) : Prop where
  nosym : r.lookupSym addr = nosymName ↔ ∀ f ∈ r.syms, ¬ Covers f addr
  found : r.lookupSym addr ≠ nosymName → ∃ f ∈ r.syms, Covers f addr ∧ r.lookupSym addr = f.1

/-- What the table needs at one address: a candidate that goes on has a name of its own,
and with a candidate that has ended all the earlier symbols have ended. -/
def SettledAt (syms : List SymRange) (addr : Int) : Prop :=
  ∀ before g behind, syms = before ++ g :: behind → g.2.1 ≤ addr → (∀ h ∈ behind, addr < h.2.1) →
    (addr < g.2.2 → g.1 ≠ nosymName) ∧ (g.2.2 ≤ addr → ∀ f ∈ before, f.2.2 ≤ addr)

/-- No symbol comes to light again behind a later one: where one outlasts a later one,
another starts before that has ended or right there. -/
def Unshadowed (syms : List SymRange) : Prop :=
  ∀ before g behind, syms = before ++ g :: behind →
    (∃ f ∈ before, g.2.2 < f.2.2) → ∃ h ∈ behind, h.2.1 ≤ g.2.2

/-- A symbol with the name that stands for no symbol has an alias behind it. -/
def NoNosym (syms : List SymRange) : Prop :=
  ∀ before g behind, syms = before ++ g :: behind →
    g.1 = nosymName → ∃ h ∈ behind, h.2.1 ≤ g.2.1

theorem agrees_of_candidate (hr : r.Sorted) (hc : Candidate r addr before g behind) :
    Agrees r addr ↔
      (addr < g.2.2 → g.1 ≠ nosymName) ∧ (g.2.2 ≤ addr → ∀ f ∈ before, f.2.2 ≤ addr) := by
  have hlookup := lookupSym_candidate hr hc
  have hg : g ∈ r.syms := by
    rw [hc.syms]
    exact List.mem_append_right _ List.mem_cons_self
  rcases lt_or_ge addr g.2.2 with hgoes | hended
  · rw [if_pos hgoes] at hlookup
    have hcovers : Covers g addr := ⟨hc.start, hgoes⟩
    constructor
    · intro h
      refine ⟨fun _ hname => ?_, fun hended => absurd hgoes (not_lt.2 hended)⟩
      exact h.nosym.1 (hlookup.trans hname) g hg hcovers
    · intro h
      refine ⟨?_, fun _ => ⟨g, hg, hcovers, hlookup⟩⟩
      exact iff_of_false (hlookup ▸ h.1 hgoes) fun hnone => hnone g hg hcovers
  · rw [if_neg (not_lt.2 hended)] at hlookup
    constructor
    · intro h
      refine ⟨fun hgoes => absurd hgoes (not_lt.2 hended), fun _ f hf => ?_⟩
      have hmem : f ∈ r.syms := by
        rw [hc.syms]
        exact List.mem_append_left _ hf
      by_contra hlast
      exact h.nosym.1 hlookup f hmem ⟨le_trans (hc.before_start hr hf) hc.start, not_le.1 hlast⟩
    · intro h
      refine ⟨iff_of_true hlookup ?_, fun hne => absurd hlookup hne⟩
      intro f hf hcovers
      rw [hc.syms] at hf
      rcases List.mem_append.1 hf with hf | hf
      · exact absurd hcovers.2 (not_lt.2 (h.2 hended f hf))
      · rcases List.mem_cons.1 hf with rfl | hf
        · exact absurd hcovers.2 (not_lt.2 hended)
        · exact absurd hcovers.1 (not_le.2 (hc.later f hf))

/-- At one address. -/
theorem agrees_iff (hr : r.Sorted) (addr : Int) : Agrees r addr ↔ SettledAt r.syms addr := by
  constructor
  · intro h before g behind hsyms hstart hlater
    exact (agrees_of_candidate hr ⟨hsyms, hstart, hlater⟩).1 h
  · intro h
    by_cases hstarted : ∃ f ∈ r.syms, f.2.1 ≤ addr
    · obtain ⟨before, g, behind, hc⟩ := exists_candidate hstarted
      exact (agrees_of_candidate hr hc).2 (h before g behind hc.syms hc.start hc.later)
    · have hlater : ∀ f ∈ r.syms, addr < f.2.1 :=
        fun f hf => not_le.1 fun hstart => hstarted ⟨f, hf, hstart⟩
      have hlookup := lookupSym_no_candidate hr hlater
      refine ⟨iff_of_true hlookup ?_, fun hne => absurd hlookup hne⟩
      intro f hf hcovers
      exact absurd hcovers.1 (not_le.2 (hlater f hf))

/-- The last address of the candidate decides about the earlier symbols, and its first
one about its name. -/
theorem settled_iff (hr : r.Sorted) :
    (∀ addr, SettledAt r.syms addr) ↔ Unshadowed r.syms ∧ NoNosym r.syms := by
  constructor
  · intro h
    refine ⟨?_, ?_⟩
    · intro before g behind hsyms hlong
      obtain ⟨f, hf, hlong⟩ := hlong
      have hg : g.2.1 < g.2.2 := hr.positive g (hsyms ▸ List.mem_append_right _ List.mem_cons_self)
      by_contra hnone
      have hlater : ∀ h ∈ behind, g.2.2 < h.2.1 :=
        fun h hh => not_le.1 fun hle => hnone ⟨h, hh, hle⟩
      have hle := (h g.2.2 before g behind hsyms (le_of_lt hg) hlater).2 (le_refl _) f hf
      omega
    · intro before g behind hsyms hname
      have hg : g.2.1 < g.2.2 := hr.positive g (hsyms ▸ List.mem_append_right _ List.mem_cons_self)
      by_contra hnone
      have hlater : ∀ h ∈ behind, g.2.1 < h.2.1 :=
        fun h hh => not_le.1 fun hle => hnone ⟨h, hh, hle⟩
      exact (h g.2.1 before g behind hsyms (le_refl _) hlater).1 hg hname
  · intro h addr before g behind hsyms hstart hlater
    refine ⟨fun _ hname => ?_, fun hended f hf => ?_⟩
    · obtain ⟨h', hh', hle⟩ := h.2 before g behind hsyms hname
      have := hlater h' hh'
      omega
    · by_contra hlong
      obtain ⟨h', hh', hle⟩ := h.1 before g behind hsyms ⟨f, hf, by omega⟩
      have := hlater h' hh'
      omega

/-- `lookup_sym` agrees with the scan at an address exactly if the table is settled
there, and it agrees everywhere exactly if no symbol is shadowed for good. -/
theorem lookupSym_agrees_iff (symtab : List ElfSymbol) :
    (∀ addr, Agrees (.fromFile symtab) addr ↔
        SettledAt (SymResolver.fromFile symtab).syms addr) ∧
      ((∀ addr, Agrees (.fromFile symtab) addr) ↔
        Unshadowed (SymResolver.fromFile symtab).syms ∧
          NoNosym (SymResolver.fromFile symtab).syms) := by
  have hr := fromFile_sorted symtab
  refine ⟨agrees_iff hr, ?_⟩
  rw [← settled_iff hr]
  exact forall_congr' (agrees_iff hr)

/-- A function of 100 bytes with a local one inside of it. -/
def nestedSymtab : List ElfSymbol := [⟨"outer", .func, 0, 100⟩, ⟨"inner", .func, 16, 16⟩]

/-- Behind the inner function the outer one is not found. -/
theorem nestedSymtab_nosym :
    (SymResolver.fromFile nestedSymtab).lookupSym 48 = nosymName ∧
      ¬ Agrees (.fromFile nestedSymtab) 48 := by
  have hnosym : (SymResolver.fromFile nestedSymtab).lookupSym 48 = nosymName := by decide
  refine ⟨hnosym, ?_⟩
  intro h
  exact h.nosym.1 hnosym ("outer", 0, 100) (by decide) (by decide)

end AiPipelines.TraceGen

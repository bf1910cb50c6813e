import AiPipelines.Iminnt.InitCmd

/-!
# Compound targets

`CompoundRunner.init` of `iminnt/core.py` makes the directory of a compound
target and hands its own arguments to each of its sub-runners, whose
directories lie below.  A forced initialisation therefore removes the same
files twice: the compound runner removes its directory with all that is in it,
and the first sub-runner raises because its own is no longer there
(`init_raises`).  Only a compound target without parts comes through, where the
system lets its directory be removed and made again (`rebuilds_iff`).
-/

namespace AiPipelines.Iminnt

open PyStd

/-- `CompoundRunner`: the sub-runners have their directories below its own. -/
structure CompoundRunner where
  root : Path
  subRunners : List Runner
  env : Dict Str Str := []
  postInit : List Str := []
  root_ne_nil : root ≠ []
  sub_below : ∀ sr ∈ subRunners, ∃ sub, sub ≠ [] ∧ sr.root = root ++ sub

namespace CompoundRunner

variable (h : Host) (c : CompoundRunner)

/-- `if not self.root.exists(): self.root.mkdir()`. -/
def makeRoot : Prog Unit :=
  osCall fun t =>
    if t.pathExists c.root then .ok t
    else
      match h.mkdirFails c.root t with
      | some e => .error e
      | none => FileTree.mkdir c.root t

/-- The commands after the initialisation of the parts. -/
def runPostInit : Prog Unit :=
  Eff.forEach c.postInit fun pi => do
    let _ ← shell h (.argv (split pi)) (some c.root) (some (h.baseEnv.update c.env))

/-- `init`.  Each sub-runner has the frames that are left. -/
def init (frames : Nat) (reinit extras : Bool) : Prog Unit := do
  removal h reinit c.root
  c.makeRoot h
  Eff.forEach c.subRunners fun sr => sr.init h frames reinit extras
  c.runPostInit h

/-- The commands after the initialisation of the parts exit with 0 and leave
the directory where it is. -/
def PostInitSucceeds : Prop :=
  ∀ pi ∈ c.postInit, ∀ t, t.isDir c.root = true →
    let result := h.run (.argv (split pi)) (some c.root) (some (h.baseEnv.update c.env)) t
    result.exitCode = 0 ∧ result.tree.isDir c.root = true

/-- The system lets the directory be removed, and made again after that. -/
def CanBeEmptied (t : FileTree) : Prop :=
  h.rmtreeFails c.root t = none ∧
    ∀ t₁, FileTree.removeDir c.root t = .ok t₁ → h.mkdirFails c.root t₁ = none

/-- `init(reinit=True)` returns, and then the directory of the target and those
of its parts are there, the latter as their initialisation left them. -/
def Rebuilds (frames : Nat) (t : FileTree) : Prop :=
  (c.init h frames true false t).1 = .ok () ∧
    (c.init h frames true false t).2.1.isDir c.root = true ∧
    ∀ sr ∈ c.subRunners,
      (c.init h frames true false t).2.1.isDir sr.root = true ∧
      ∃ before, (sr.init h frames true false before).1 = .ok () ∧
        (c.init h frames true false t).2.1.get sr.root =
          (sr.init h frames true false before).2.1.get sr.root

variable {h c} {t t₁ t₂ : FileTree} {frames : Nat}

/-- The directory is emptied: removed and made again. -/
theorem emptied (hdir : t.isDir c.root = true) (hcan : c.CanBeEmptied h t) :
    ∃ t₁ t₂, removal h true c.root t = (.ok (), t₁, []) ∧ c.makeRoot h t₁ = (.ok (), t₂, []) ∧
      t₂.get c.root = some (.dir []) := by
  obtain ⟨entries, hget⟩ := FileTree.get_of_isDir hdir
  obtain ⟨t₁, hremove⟩ := FileTree.removeDir_of_dir c.root_ne_nil hget
  have hgone := FileTree.get_removeDir c.root_ne_nil hremove
  obtain ⟨t₂, hmake⟩ : ∃ t₂, FileTree.mkdir c.root t₁ = .ok t₂ :=
    FileTree.alter_of_alter c.root_ne_nil hremove (by rw [hgone])
  refine ⟨t₁, t₂, ?_, ?_, FileTree.get_mkdir c.root_ne_nil hmake⟩
  · simp [removal, rmtree, Eff.act, hcan.1, hremove]
  · apply Runner.osCall_ok
    simp [FileTree.pathExists, hgone, hcan.2 t₁ hremove, hmake]

/-- Where the system refuses, `init` raises. -/
theorem init_refused (hcan : ¬ c.CanBeEmptied h t) :
    ∃ e t₂, c.init h frames true false t = (.error e, t₂, []) := by
  cases hfails : h.rmtreeFails c.root t with
  | some failure =>
    refine ⟨.os failure.1, failure.2, Eff.bind_error ?_⟩
    simp [removal, rmtree, Eff.act, hfails]
  | none =>
    obtain ⟨t₁, hremove, e, hrefused⟩ :
        ∃ t₁, FileTree.removeDir c.root t = .ok t₁ ∧ ∃ e, h.mkdirFails c.root t₁ = some e := by
      simpa [CanBeEmptied, hfails, Option.ne_none_iff_exists'] using hcan
    have hgone := FileTree.get_removeDir c.root_ne_nil hremove
    have hfirst : removal h true c.root t = (.ok (), t₁, []) := by
      simp [removal, rmtree, Eff.act, hfails, hremove]
    refine ⟨.os e, t₁, ?_⟩
    rw [init, Eff.bind_ok hfirst]
    refine Eff.bind_error (Runner.osCall_error ?_)
    simp [FileTree.pathExists, hgone, hrefused]

/-- A sub-runner finds nothing to remove in the empty directory. -/
theorem sub_raises {sr : Runner} (hsr : sr ∈ c.subRunners)
    (hempty : t.get c.root = some (.dir [])) :
    ∃ e t₁, sr.init h frames true false t = (.error e, t₁, []) := by
  obtain ⟨sub, hsub, hroot⟩ := c.sub_below sr hsr
  have hmissing : t.get sr.root = none := by
    rw [hroot, FileTree.get_append, hempty]
    cases sub with
    | nil => exact absurd rfl hsub
    | cons a b => rfl
  cases frames with
  | zero => exact ⟨.recursion, t, rfl⟩
  | succ frames =>
    obtain ⟨e, t₁, he⟩ : ∃ e t₁, removal h true sr.root t = (.error e, t₁, []) :=
      Runner.rmtree_of_missing sr.root_ne_nil hmissing
    exact ⟨e, t₁, Eff.bind_error he⟩

/-- With a part, the forced initialisation raises. -/
theorem init_raises {sr : Runner} {rest : List Runner} (hsub : c.subRunners = sr :: rest)
    (hdir : t.isDir c.root = true) :
    ∃ e t₃, c.init h frames true false t = (.error e, t₃, []) := by
  by_cases hcan : c.CanBeEmptied h t
  case neg => exact init_refused hcan
  obtain ⟨t₁, t₂, hremove, hmake, hempty⟩ := emptied hdir hcan
  obtain ⟨e, t₃, he⟩ : ∃ e t₃, sr.init h frames true false t₂ = (.error e, t₃, []) :=
    sub_raises (hsub ▸ List.mem_cons_self) hempty
  refine ⟨e, t₃, ?_⟩
  rw [init, Eff.bind_ok hremove, Eff.bind_ok hmake, hsub]
  exact Eff.bind_error (Eff.bind_error he)

/-- The commands at the end keep the directory and do not raise. -/
theorem runPostInit_spec (hpost : c.PostInitSucceeds h) :
    Eff.Triple (fun t => t.isDir c.root = true) (c.runPostInit h) (fun _ => True)
      (fun _ t => t.isDir c.root = true) fun _ _ => False := by
  refine .forEach fun pi hpi => .bind (R := fun _ t => t.isDir c.root = true) (.act ?_) ?_
  · intro t hdir
    obtain ⟨hexit, htree⟩ := hpost pi hpi t hdir
    simp only [Option.any_some, hdir, Bool.not_true, Bool.false_eq_true, if_false, hexit, if_true]
    exact htree
  · intro _
    exact .pure fun _ hdir => hdir

/-- The forced initialisation rebuilds a compound target if and only if the
target has no parts and its directory can be emptied. -/
theorem rebuilds_iff (h : Host) (c : CompoundRunner) (frames : Nat) (t : FileTree)
    (hdir : t.isDir c.root = true) (hpost : c.PostInitSucceeds h) :
    c.Rebuilds h frames t ↔ c.subRunners = [] ∧ c.CanBeEmptied h t := by
  constructor
  · intro hrebuilds
    have hok := hrebuilds.1
    constructor
    · cases hsub : c.subRunners with
      | nil => rfl
      | cons sr rest =>
        obtain ⟨e, t₃, hraise⟩ : ∃ e t₃, c.init h frames true false t = (.error e, t₃, []) :=
          init_raises hsub hdir
        rw [hraise] at hok
        cases hok
    · by_contra hcan
      obtain ⟨e, t₂, hraise⟩ : ∃ e t₂, c.init h frames true false t = (.error e, t₂, []) :=
        init_refused hcan
      rw [hraise] at hok
      cases hok
  · rintro ⟨hsub, hcan⟩
    obtain ⟨t₁, t₂, hremove, hmake, hempty⟩ := emptied hdir hcan
    have hnoParts : Eff.forEach c.subRunners (fun sr => sr.init h frames true false) t₂ =
        (.ok (), t₂, []) := by
      rw [hsub]
      rfl
    have hrun : c.init h frames true false t = c.runPostInit h t₂ := by
      rw [init, Eff.bind_ok hremove, Eff.bind_ok hmake, Eff.bind_ok hnoParts]
    have hdir₂ : t₂.isDir c.root = true := by simp [FileTree.isDir, hempty]
    have hout := (runPostInit_spec hpost t₂ hdir₂).1
    unfold Rebuilds
    rw [hrun, hsub]
    cases hres : (c.runPostInit h t₂).1 with
    | error e =>
      rw [hres] at hout
      exact hout.elim
    | ok _ =>
      rw [hres] at hout
      exact ⟨rfl, hout, by simp⟩

/-! ## A compound target with two parts -/

/-- A sub-runner in a directory of its own. -/
def demoPart (name remote : Str) : Runner where
  target := name
  root := ["dev", "app", name]
  remotePath := remote
  root_ne_nil := List.cons_ne_nil _ _

/-- The RISC-V environment. -/
def demoCompound : CompoundRunner where
  root := ["dev", "app"]
  subRunners :=
    [demoPart "riscv-gnu-toolchain" "https://github.com/riscv/riscv-gnu-toolchain",
      demoPart "llvm-project" "https://github.com/I-Machines/llvm-project"]
  root_ne_nil := List.cons_ne_nil _ _
  sub_below := by
    intro sr hsr
    simp only [List.mem_cons, List.not_mem_nil, or_false] at hsr
    rcases hsr with rfl | rfl
    · exact ⟨["riscv-gnu-toolchain"], List.cons_ne_nil _ _, rfl⟩
    · exact ⟨["llvm-project"], List.cons_ne_nil _ _, rfl⟩

/-- The same directory without parts. -/
def demoEmpty : CompoundRunner where
  root := ["dev", "app"]
  subRunners := []
  postInit := ["mkdir -p /dev/app/riscv"]
  root_ne_nil := List.cons_ne_nil _ _
  sub_below := fun _ hsr => absurd hsr List.not_mem_nil

theorem demoEmpty_rebuilt : demoEmpty.Rebuilds Runner.demoHost 9 Runner.demoTree := by
  refine (rebuilds_iff Runner.demoHost demoEmpty 9 Runner.demoTree (by decide) ?_).mpr
    ⟨rfl, rfl, fun _ _ => rfl⟩
  intro pi hpi t hdir
  obtain rfl := List.mem_singleton.mp hpi
  exact ⟨rfl, hdir⟩

/-- The RISC-V environment, fully initialised before, is not rebuilt. -/
theorem demoCompound_not_rebuilt :
    (FileTree.dir [("dev", .dir [("app", .dir [("riscv-gnu-toolchain", Runner.clonedDir),
        ("llvm-project", Runner.clonedDir)])])]).isDir demoCompound.root = true ∧
      demoCompound.PostInitSucceeds Runner.demoHost ∧
      ¬ demoCompound.Rebuilds Runner.demoHost 9
        (.dir [("dev", .dir [("app", .dir [("riscv-gnu-toolchain", Runner.clonedDir),
          ("llvm-project", Runner.clonedDir)])])]) := by
  refine ⟨by decide, fun pi hpi => ?_, fun hrebuilds => ?_⟩
  · cases hpi
  · have hok := hrebuilds.1
    revert hok
    decide +kernel

end CompoundRunner

end AiPipelines.Iminnt

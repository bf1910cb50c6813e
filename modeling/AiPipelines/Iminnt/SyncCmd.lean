import AiPipelines.Iminnt.InitCmd

/-!
# Syncing the branch `upstream`

`BenchSimRunner.sync` of `iminnt/core.py` records the branch that is checked out,
checks out `upstream`, brings it up to date, and checks out the recorded branch
again.  Git belongs to the `Host`; `Git` is what its manual says about the
commands that are used here.  It leaves room for a checkout whose hook fails
after the head has moved, and for a name that `symbolic-ref` has to lengthen
because a tag has it too.

`shell` raises when a command fails, and nothing catches the exception.  So the
last step is only taken when all the others have succeeded, and
`sync_restores_iff` says when the branch is the recorded one in the end.
-/

namespace AiPipelines.Iminnt

open PyStd

/-- What `sync` raises. -/
inductive SyncError where
  | shell (e : InitError)
  | runtime (msg : Str)
  deriving Repr, DecidableEq

/-- A program that works on the file tree and logs. -/
abbrev SyncProg (α : Type) := Eff FileTree Str SyncError α

/-- A target that may be a fork. -/
structure ForkRunner extends Runner where
  upstreamRemote : Option Str := none

namespace ForkRunner

section Program

variable (h : Host) (r : ForkRunner)

/-- The words of `git -C root rest`.  A blank in the path separates words too. -/
def gitLine (rest : Str) : Cmd :=
  .argv (split (("git -C " : Str) ++ pathStr r.root ++ ' ' :: rest))

/-- `shell(cmd)["msg"]`. -/
def command (cmd : Cmd) : SyncProg Str := Eff.reraise .shell (shell h cmd none none)

/-- `shell(f"git -C {root} {rest}".split())["msg"]`. -/
def git (rest : Str) : SyncProg Str := command h (r.gitLine rest)

/-- `["git", "-C", root, "checkout", branch]`. -/
def checkoutCmd (branch : Str) : Cmd := r.toRunner.git ["checkout", branch]

/-- `shell(["git", "-C", root, "checkout", branch])`. -/
def checkout (branch : Str) : SyncProg Str := command h (r.checkoutCmd branch)

/-- `re.search("HEAD branch: (.*)", out)`, its group. -/
def headBranch (out : Str) : Option Str :=
  (out.tails.find? (startsWith "HEAD branch: ")).map fun rest =>
    (rest.drop 13).takeWhile (· ≠ '\n')

/-- `sync` up to the line that records the branch.  The exit code of
`symbolic-ref` is looked at in vain, `shell` has raised by then. -/
def currentBranch : SyncProg (Option Str) := do
  if r.upstreamRemote.getD [] = [] || !r.isGit then
    Eff.emit (("Target " : Str) ++ r.target ++ (" does not have a remote to be synced" : Str))
    return none
  else
    let t ← Eff.read
    if !t.pathExists r.root then
      Eff.raise (.runtime (r.target ++ (" has not been initialized. Please run " : Str) ++
        Char.ofNat 96 :: ("iminnt -t " : Str) ++ r.target ++ (" init" : Str) ++
        Char.ofNat 96 :: (", then try again." : Str)))
    else
      let remotes ← r.git h "remote"
      if (split remotes).contains "upstream" then
        let out ← r.git h "symbolic-ref --short HEAD"
        return some (strip out)
      else
        Eff.raise (.runtime (("Upstream repository not setup for " : Str) ++ r.target ++
          ("." : Str)))

/-- The commands between the two checkouts. -/
def syncUpstream : SyncProg Unit := do
  let _ ← r.git h "fetch upstream"
  let out ← r.git h "remote show upstream"
  match headBranch out with
  | none =>
    Eff.raise (.runtime (("Unable to obtain default branch for upstream repo in " : Str) ++
      r.target))
  | some branch =>
    let _ ← r.git h (("rebase upstream/" : Str) ++ strip branch)
    let _ ← r.git h "push -f origin upstream"

/-- `sync` from `git branch --list` on. -/
def syncFrom (curBranch : Str) : SyncProg Unit := do
  let branches ← r.git h "branch --list"
  if (split branches).contains "upstream" then
    Eff.emit (("Syncing branch 'upstream' for target " : Str) ++ r.target)
    let _ ← r.checkout h "upstream"
    r.syncUpstream h
    Eff.emit (("Successfully synced 'upstream' for target " : Str) ++ r.target)
    let _ ← r.checkout h curBranch
  else
    Eff.raise (.runtime (("Designated 'upstream' branch has not been set up for " : Str) ++
      r.target))

/-- `sync`. -/
def sync : SyncProg Unit := do
  match ← r.currentBranch h with
  | none => return
  | some curBranch => r.syncFrom h curBranch

end Program

/-! ## Git -/

/-- The outcome of a command. -/
def outcome (h : Host) (cmd : Cmd) (t : FileTree) : CmdResult := h.run cmd none none t

/-- Git in the directory of the target. -/
structure Git (h : Host) (r : ForkRunner) where
  /-- the branch that is checked out; none if the head is detached -/
  head : FileTree → Option Str
  /-- the branches of the repository -/
  branches : FileTree → List Str
  listed : ∀ t, (head t).isSome → (outcome h (r.gitLine "branch --list") t).exitCode = 0 →
    (split (outcome h (r.gitLine "branch --list") t).msg).contains "upstream" = true →
    ("upstream" : Str) ∈ branches (outcome h (r.gitLine "branch --list") t).tree
  checkout_ok : ∀ t b, b ∈ branches t → (outcome h (r.checkoutCmd b) t).exitCode = 0 →
    head (outcome h (r.checkoutCmd b) t).tree = some b
  /-- A checkout that is refused changes nothing; a failing `post-checkout` hook
  fails the command after the head has moved. -/
  checkout_fails : ∀ t b, b ∈ branches t → (outcome h (r.checkoutCmd b) t).exitCode ≠ 0 →
    head (outcome h (r.checkoutCmd b) t).tree = head t ∨
      head (outcome h (r.checkoutCmd b) t).tree = some b
  /-- The name that `symbolic-ref` prints may be that of no branch, and then a
  checkout may detach the head. -/
  checkout_printed : ∀ t t₀, (outcome h (r.gitLine "symbolic-ref --short HEAD") t₀).exitCode = 0 →
    let name := strip (outcome h (r.gitLine "symbolic-ref --short HEAD") t₀).msg
    head (outcome h (r.checkoutCmd name) t).tree = head t ∨
      head (outcome h (r.checkoutCmd name) t).tree = some name ∨
      head (outcome h (r.checkoutCmd name) t).tree = none
  keeps : ∀ t, ∀ rest ∈ (["branch --list", "fetch upstream", "remote show upstream",
      "push -f origin upstream"] : List Str),
    head (outcome h (r.gitLine rest) t).tree = head t
  /-- The name of a branch has no blanks. -/
  shown : ∀ t b, headBranch (outcome h (r.gitLine "remote show upstream") t).msg = some b →
    ∀ c ∈ strip b, isSpace c = false
  rebase_ok : ∀ t b, (∀ c ∈ b, isSpace c = false) →
    (outcome h (r.gitLine (("rebase upstream/" : Str) ++ b)) t).exitCode = 0 →
    head (outcome h (r.gitLine (("rebase upstream/" : Str) ++ b)) t).tree = head t
  /-- A rebase that stops half-way leaves no branch checked out. -/
  rebase_stops : ∀ t b, (∀ c ∈ b, isSpace c = false) →
    (outcome h (r.gitLine (("rebase upstream/" : Str) ++ b)) t).exitCode ≠ 0 →
    head (outcome h (r.gitLine (("rebase upstream/" : Str) ++ b)) t).tree = head t ∨
      head (outcome h (r.gitLine (("rebase upstream/" : Str) ++ b)) t).tree = none

/-- The commands between the two checkouts: the tree when they have all
succeeded, or the one where the first of them has failed. -/
def updated (h : Host) (r : ForkRunner) (t : FileTree) : Except FileTree FileTree :=
  let fetched := outcome h (r.gitLine "fetch upstream") t
  if fetched.exitCode ≠ 0 then .error fetched.tree
  else
    let shown := outcome h (r.gitLine "remote show upstream") fetched.tree
    if shown.exitCode ≠ 0 then .error shown.tree
    else
      match headBranch shown.msg with
      | none => .error shown.tree
      | some branch =>
        let rebased := outcome h (r.gitLine (("rebase upstream/" : Str) ++ strip branch)) shown.tree
        if rebased.exitCode ≠ 0 then .error rebased.tree
        else
          let pushed := outcome h (r.gitLine "push -f origin upstream") rebased.tree
          if pushed.exitCode ≠ 0 then .error pushed.tree else .ok pushed.tree

namespace Git

variable {h : Host} {r : ForkRunner} (git : Git h r)

/-- `git checkout b` would put the head on the branch `b`. -/
def CanCheckOut (b : Str) (t : FileTree) : Prop :=
  git.head (outcome h (r.checkoutCmd b) t).tree = some b

/-- The branch is checked out, if that is possible. -/
def Restored (b : Str) (t : FileTree) : Prop := git.CanCheckOut b t → git.head t = some b

/-- For the branch `b`, whose name was printed as `curBranch`: the head does not
come to `upstream`, or it is brought back from there. -/
def Undisturbed (b curBranch : Str) (t : FileTree) : Prop :=
  let listed := outcome h (r.gitLine "branch --list") t
  let switched := outcome h (r.checkoutCmd "upstream") listed.tree
  if listed.exitCode ≠ 0 ∨ (split listed.msg).contains "upstream" = false then True
  else if switched.exitCode ≠ 0 then
    b = "upstream" ∨ ¬ git.CanCheckOut "upstream" listed.tree ∨ ¬ git.CanCheckOut b switched.tree
  else
    match updated h r switched.tree with
    | .error t' => (b = "upstream" ∧ (git.head t').isSome) ∨ ¬ git.CanCheckOut b t'
    | .ok t' =>
      let back := outcome h (r.checkoutCmd curBranch) t'
      (curBranch = b ∧ git.CanCheckOut b t') ∨
        (b = "upstream" ∧ git.head back.tree = git.head t') ∨ ¬ git.CanCheckOut b back.tree

variable {git} {t : FileTree}

theorem command_ok {cmd : Cmd} (hexit : (outcome h cmd t).exitCode = 0) :
    command h cmd t = (.ok (outcome h cmd t).msg, (outcome h cmd t).tree, []) := by
  unfold outcome at hexit ⊢
  simp [command, Eff.reraise, shell, Eff.act, hexit]

theorem command_fails {cmd : Cmd} (hexit : (outcome h cmd t).exitCode ≠ 0) :
    ∃ e, command h cmd t = (.error e, (outcome h cmd t).tree, []) := by
  unfold outcome at hexit ⊢
  simp [command, Eff.reraise, shell, Eff.act, hexit]

/-- However a command ends, what it has done stays. -/
theorem command_state (cmd : Cmd) : (command h cmd t).2.1 = (outcome h cmd t).tree := by
  by_cases hexit : (outcome h cmd t).exitCode = 0
  case pos => rw [command_ok hexit]
  case neg =>
    obtain ⟨e, he⟩ := command_fails hexit
    rw [he]

/-- If a command fails, the rest is not done. -/
theorem bind_command_fails {β : Type} {cmd : Cmd} {f : Str → SyncProg β}
    (hexit : (outcome h cmd t).exitCode ≠ 0) :
    ∃ e, (command h cmd >>= f) t = (.error e, (outcome h cmd t).tree, []) := by
  obtain ⟨e, he⟩ := command_fails hexit
  exact ⟨e, Eff.bind_error he⟩

/-- Commands that stop at a tree raise there, with the head on `b` or detached;
commands that do not stop return with the head on `b`. -/
def Ends (git : Git h r) (b : Option Str) (m : SyncProg Unit) (t : FileTree) :
    Except FileTree FileTree → Prop
  | .error t' => (∃ e, m t = (.error e, t', [])) ∧ (git.head t' = b ∨ git.head t' = none)
  | .ok t' => m t = (.ok (), t', []) ∧ git.head t' = b

/-- One command, and the rest behind it. -/
theorem Ends.command {b : Option Str} {cmd : Cmd} {f : Str → SyncProg Unit}
    {stop : Except FileTree FileTree}
    (hfails : (outcome h cmd t).exitCode ≠ 0 →
      git.head (outcome h cmd t).tree = b ∨ git.head (outcome h cmd t).tree = none)
    (hrest : (outcome h cmd t).exitCode = 0 →
      git.Ends b (f (outcome h cmd t).msg) (outcome h cmd t).tree stop) :
    git.Ends b (ForkRunner.command h cmd >>= f) t
      (if (outcome h cmd t).exitCode ≠ 0 then .error (outcome h cmd t).tree else stop) := by
  by_cases hexit : (outcome h cmd t).exitCode = 0
  case pos =>
    have hrun : (ForkRunner.command h cmd >>= f) t = _ := Eff.bind_ok (command_ok hexit)
    have hend := hrest hexit
    rw [if_neg (not_not.mpr hexit)]
    cases stop with
    | ok t' => exact ⟨hrun.trans hend.1, hend.2⟩
    | error t' =>
      obtain ⟨⟨e, hraises⟩, hhead⟩ := hend
      exact ⟨⟨e, hrun.trans hraises⟩, hhead⟩
  case neg =>
    rw [if_pos hexit]
    exact ⟨bind_command_fails hexit, hfails hexit⟩

theorem syncUpstream_ends (git : Git h r) (t : FileTree) :
    git.Ends (git.head t) (r.syncUpstream h) t (updated h r t) := by
  have hfetched : git.head (outcome h (r.gitLine "fetch upstream") t).tree = git.head t :=
    git.keeps t "fetch upstream" (by decide)
  refine Ends.command (fun _ => .inl hfetched) fun _ => ?_
  generalize outcome h (r.gitLine "fetch upstream") t = fetched at *
  have hshown : git.head (outcome h (r.gitLine "remote show upstream") fetched.tree).tree =
      git.head t :=
    (git.keeps fetched.tree "remote show upstream" (by decide)).trans hfetched
  have hword := git.shown fetched.tree
  refine Ends.command (fun _ => .inl hshown) fun _ => ?_
  generalize outcome h (r.gitLine "remote show upstream") fetched.tree = shown at *
  cases hbranch : headBranch shown.msg with
  | none => exact ⟨⟨_, rfl⟩, .inl hshown⟩
  | some branch =>
    have hok := git.rebase_ok shown.tree (strip branch) (hword branch hbranch)
    have hstops := git.rebase_stops shown.tree (strip branch) (hword branch hbranch)
    rw [hshown] at hok hstops
    refine Ends.command hstops fun hrebase => ?_
    have hrebased := hok hrebase
    generalize outcome h (r.gitLine (("rebase upstream/" : Str) ++ strip branch)) shown.tree =
      rebased at *
    have hpushed : git.head (outcome h (r.gitLine "push -f origin upstream") rebased.tree).tree =
        git.head t :=
      (git.keeps rebased.tree "push -f origin upstream" (by decide)).trans hrebased
    exact Ends.command (fun _ => .inl hpushed) fun _ => ⟨rfl, hpushed⟩

/-- Behind the checkout of `upstream`. -/
def afterSwitch (h : Host) (r : ForkRunner) (curBranch : Str) : SyncProg Unit := do
  r.syncUpstream h
  Eff.emit (("Successfully synced 'upstream' for target " : Str) ++ r.target)
  let _ ← r.checkout h curBranch

/-- The name is one that `symbolic-ref` has printed. -/
def Printed (h : Host) (r : ForkRunner) (name : Str) : Prop :=
  ∃ t₀, (outcome h (r.gitLine "symbolic-ref --short HEAD") t₀).exitCode = 0 ∧
    strip (outcome h (r.gitLine "symbolic-ref --short HEAD") t₀).msg = name

/-- The last checkout, from the branch `upstream`. -/
theorem checkout_restores_iff (git : Git h r) {b curBranch : Str} (hprinted : Printed h r curBranch)
    (hhead : git.head t = some ("upstream" : Str)) :
    git.Restored b (outcome h (r.checkoutCmd curBranch) t).tree ↔
      (curBranch = b ∧ git.CanCheckOut b t) ∨
        (b = "upstream" ∧ git.head (outcome h (r.checkoutCmd curBranch) t).tree = git.head t) ∨
        ¬ git.CanCheckOut b (outcome h (r.checkoutCmd curBranch) t).tree := by
  obtain ⟨t₀, hexit, rfl⟩ := hprinted
  have hmoves := git.checkout_printed t t₀ hexit
  generalize strip (outcome h (r.gitLine "symbolic-ref --short HEAD") t₀).msg = curBranch at *
  have hwhere : git.head (outcome h (r.checkoutCmd curBranch) t).tree = some b ↔
      (curBranch = b ∧ git.CanCheckOut b t) ∨
        (b = "upstream" ∧
          git.head (outcome h (r.checkoutCmd curBranch) t).tree = git.head t) := by
    by_cases hcur : curBranch = b
    case pos =>
      subst hcur
      refine ⟨fun hback => .inl ⟨rfl, hback⟩, ?_⟩
      rintro (⟨-, hback⟩ | ⟨hup, hback⟩)
      · exact hback
      · rw [hback, hhead, hup]
    case neg =>
      rcases hmoves with hkept | hname | hnone
      · rw [hkept, hhead]
        simp [hcur, eq_comm]
      · rw [hname, hhead]
        simpa [hcur] using fun hb : b = _ => hb ▸ hcur
      · rw [hnone, hhead]
        simp [hcur]
  rw [← or_assoc, ← hwhere]
  unfold Restored
  tauto

theorem afterSwitch_restores_iff (git : Git h r) {b curBranch : Str}
    (hprinted : Printed h r curBranch) (hhead : git.head t = some ("upstream" : Str)) :
    git.Restored b (afterSwitch h r curBranch t).2.1 ↔
      match updated h r t with
      | .error t' => (b = "upstream" ∧ (git.head t').isSome) ∨ ¬ git.CanCheckOut b t'
      | .ok t' =>
        let back := outcome h (r.checkoutCmd curBranch) t'
        (curBranch = b ∧ git.CanCheckOut b t') ∨
          (b = "upstream" ∧ git.head back.tree = git.head t') ∨ ¬ git.CanCheckOut b back.tree := by
  have hends := syncUpstream_ends git t
  rw [hhead] at hends
  cases hstop : updated h r t with
  | error t' =>
    rw [hstop] at hends
    obtain ⟨⟨e, he⟩, hwhere⟩ := hends
    have hrun : afterSwitch h r curBranch t = _ := Eff.bind_error he
    have hon : git.head t' = some b ↔ b = "upstream" ∧ (git.head t').isSome := by
      rcases hwhere with hwhere | hwhere <;> simp [hwhere, eq_comm]
    rw [hrun]
    dsimp only
    rw [← hon]
    unfold Restored
    tauto
  | ok t' =>
    rw [hstop] at hends
    obtain ⟨hok, hhead'⟩ := hends
    have hstate : (afterSwitch h r curBranch t).2.1 =
        (outcome h (r.checkoutCmd curBranch) t').tree := by
      have hfirst : (afterSwitch h r curBranch t).2.1 = _ := Eff.bind_state hok
      rw [hfirst, Eff.bind_state rfl, ← command_state]
      rcases hlast : r.checkout h curBranch t' with ⟨result, t₁, es⟩
      have hcommand : command h (r.checkoutCmd curBranch) t' = (result, t₁, es) := hlast
      rw [hcommand]
      cases result with
      | ok out => exact Eff.bind_state hlast
      | error e => rw [Eff.bind_error hlast]
    rw [hstate]
    exact checkout_restores_iff git hprinted hhead'

/-- The head stays where it was when the checkout of `upstream` fails, unless
only the hook has failed. -/
theorem switch_fails_head (git : Git h r) {b : Str} (hhead : git.head t = some b)
    (hup : ("upstream" : Str) ∈ git.branches t)
    (hfails : (outcome h (r.checkoutCmd "upstream") t).exitCode ≠ 0) :
    git.head (outcome h (r.checkoutCmd "upstream") t).tree = some b ↔
      b = "upstream" ∨ ¬ git.CanCheckOut "upstream" t := by
  unfold CanCheckOut
  rcases git.checkout_fails t "upstream" hup hfails with hkept | hmoved
  · rw [hkept, hhead, Option.some_inj, Option.some_inj]
    tauto
  · rw [hmoved, Option.some_inj]
    tauto

/-- From the recorded branch on. -/
theorem syncFrom_restores_iff (git : Git h r) {b curBranch : Str}
    (hprinted : Printed h r curBranch) (hcur : git.head t = some b) :
    git.Restored b (r.syncFrom h curBranch t).2.1 ↔ git.Undisturbed b curBranch t := by
  have hlisted : git.head (outcome h (r.gitLine "branch --list") t).tree = some b :=
    (git.keeps t "branch --list" (by decide)).trans hcur
  have hbranch := git.listed t (by simp [hcur])
  unfold Undisturbed
  dsimp only
  by_cases hlist : (outcome h (r.gitLine "branch --list") t).exitCode = 0
  case neg =>
    obtain ⟨e, he⟩ : ∃ e, r.syncFrom h curBranch t = _ := bind_command_fails hlist
    rw [he]
    rw [if_pos (.inl hlist)]
    exact iff_of_true (fun _ => hlisted) trivial
  have hfirst : r.syncFrom h curBranch t = _ := Eff.bind_ok (command_ok hlist)
  rw [hfirst]
  generalize outcome h (r.gitLine "branch --list") t = listed at *
  by_cases hbranches : (split listed.msg).contains "upstream" = true
  case neg =>
    rw [if_neg hbranches]
    rw [Bool.not_eq_true] at hbranches
    rw [if_pos (.inr hbranches)]
    exact iff_of_true (fun _ => hlisted) trivial
  have hup := hbranch hlist hbranches
  have hgoes : ¬ (listed.exitCode ≠ 0 ∨ (split listed.msg).contains "upstream" = false) := by
    rintro (hexit | hnone)
    · exact hexit hlist
    · rw [hbranches] at hnone
      cases hnone
  rw [if_pos hbranches, Eff.bind_state rfl, if_neg hgoes]
  show git.Restored b
    ((r.checkout h "upstream" >>= fun _ => afterSwitch h r curBranch) listed.tree).2.1 ↔ _
  by_cases hswitch : (outcome h (r.checkoutCmd "upstream") listed.tree).exitCode = 0
  case neg =>
    obtain ⟨e, he⟩ : ∃ e, (r.checkout h "upstream" >>= fun _ => afterSwitch h r curBranch)
        listed.tree = _ := bind_command_fails hswitch
    rw [he]
    rw [if_pos hswitch, ← or_assoc, ← switch_fails_head git hlisted hup hswitch]
    unfold Restored
    tauto
  have hnext : (r.checkout h "upstream" >>= fun _ => afterSwitch h r curBranch) listed.tree = _ :=
    Eff.bind_ok (command_ok hswitch)
  rw [hnext, if_neg (not_not.mpr hswitch)]
  exact afterSwitch_restores_iff git hprinted (git.checkout_ok listed.tree _ hup hswitch)

theorem symbolicRef_printed :
    Eff.Triple (fun _ => True) (r.git h "symbolic-ref --short HEAD") (fun _ => True)
      (fun out _ => Printed h r (strip out)) fun _ _ => True := by
  intro t _
  by_cases hexit : (outcome h (r.gitLine "symbolic-ref --short HEAD") t).exitCode = 0
  case pos =>
    have hrun : r.git h "symbolic-ref --short HEAD" t = _ := command_ok hexit
    rw [hrun]
    exact ⟨⟨t, hexit, rfl⟩, fun _ _ => trivial⟩
  case neg =>
    obtain ⟨e, hrun⟩ : ∃ e, r.git h "symbolic-ref --short HEAD" t = _ := command_fails hexit
    rw [hrun]
    exact ⟨trivial, fun _ _ => trivial⟩

/-- What is recorded is a name that `symbolic-ref` has printed. -/
theorem currentBranch_printed :
    Eff.Triple (fun _ => True) (r.currentBranch h) (fun _ => True)
      (fun found _ => ∀ curBranch, found = some curBranch → Printed h r curBranch)
      fun _ _ => True := by
  unfold currentBranch
  split_ifs
  · refine Eff.Triple.bind (Eff.Triple.any _) fun _ => ?_
    exact Eff.Triple.pure fun _ _ _ hnone => nomatch hnone
  · refine Eff.Triple.bind (Eff.Triple.any _) fun t => ?_
    split_ifs
    · exact Eff.Triple.raise fun _ _ => trivial
    · refine Eff.Triple.bind (Eff.Triple.any _) fun remotes => ?_
      split_ifs
      · refine Eff.Triple.bind symbolicRef_printed fun out => ?_
        apply Eff.Triple.pure
        intro t ht curBranch hcur
        rw [← Option.some.inj hcur]
        exact ht
      · exact Eff.Triple.raise fun _ _ => trivial

/-- Once the branch `b` is recorded, `sync` leaves it checked out, if it can be
checked out, just when the head does not come to `upstream` or is brought back
from there. -/
theorem sync_restores_iff (git : Git h r) {t t₁ : FileTree} {b curBranch : Str} {logs : List Str}
    (hrecorded : r.currentBranch h t = (.ok (some curBranch), t₁, logs))
    (hhead : git.head t₁ = some b) :
    git.Restored b (r.sync h t).2.1 ↔ git.Undisturbed b curBranch t₁ := by
  have hprinted := (currentBranch_printed (h := h) (r := r) t trivial).1
  rw [hrecorded] at hprinted
  have hstate : (r.sync h t).2.1 = (r.syncFrom h curBranch t₁).2.1 := Eff.bind_state hrecorded
  rw [hstate]
  exact syncFrom_restores_iff git (hprinted curBranch rfl) hhead

end Git

/-! ## A fork -/

/-- The file system, with a branch checked out. -/
def forkTree (branch : Str) : FileTree := .dir [("app", .dir [("HEAD", .file branch)])]

/-- The branch in the file. -/
def forkHead (t : FileTree) : Option Str :=
  match t.get ["app", "HEAD"] with
  | some (.file branch) => some branch
  | _ => none

/-- A machine with Git and a repository with the branches `main` and `upstream`.
Without a network nothing is fetched. -/
def forkHost (online : Bool) : Host where
  run cmd _ _ t :=
    match cmd with
    | .line _ => ⟨0, [], t⟩
    | .argv args =>
      let verb := (args.drop 3).headD []
      if verb = "checkout" then ⟨0, [], forkTree (args.getLast?.getD [])⟩
      else if verb = "symbolic-ref" then
        -- no branch has blanks around its name
        match forkHead t with
        | some branch => ⟨if strip (branch ++ ['\n']) = branch then 0 else 128, branch ++ ['\n'], t⟩
        | none => ⟨128, "fatal: ref HEAD is not a symbolic ref", t⟩
      else if verb = "branch" then ⟨0, "* main\n  upstream\n", t⟩
      else if verb = "remote" then ⟨0, "origin upstream\n  HEAD branch: main\n", t⟩
      else if verb = "fetch" then ⟨if online then 0 else 128, [], t⟩
      else ⟨0, [], t⟩
  extractall _ _ t := .ok t
  devScriptPaths := ["scripts"]

/-- A target with a fork. -/
def forkRunner : ForkRunner where
  target := "app"
  root := ["app"]
  remotePath := "https://github.com/I-Machines/app"
  upstreamRemote := some "https://github.com/google/app"
  root_ne_nil := List.cons_ne_nil _ _

theorem forkHost_keeps (online : Bool) (t : FileTree) {args : List Str}
    (hverb : (args.drop 3).headD [] ≠ "checkout") :
    (outcome (forkHost online) (.argv args) t).tree = t := by
  simp only [outcome, forkHost, if_neg hverb]
  split_ifs
  · cases forkHead t with
    | none => rfl
    | some branch => rfl
  all_goals rfl

theorem rebase_verb (b : Str) :
    ((split (("git -C " : Str) ++ pathStr forkRunner.root ++
      ' ' :: (("rebase upstream/" : Str) ++ b))).drop 3).headD [] ≠ "checkout" := by
  have hwords : split (("git -C " : Str) ++ pathStr forkRunner.root ++
      ' ' :: (("rebase upstream/" : Str) ++ b)) =
      (["git", "-C", "/app", "rebase"] : List Str) ++ split (("upstream/" : Str) ++ b) := by
    show split ((("git -C /app rebase" : Str)) ++ ' ' :: (("upstream/" : Str) ++ b)) = _
    rw [split_append_cons _ _ rfl]
    rfl
  rw [hwords]
  show ("rebase" : Str) ≠ "checkout"
  decide

/-- What the manual says holds on this machine. -/
def forkGit (online : Bool) : Git (forkHost online) forkRunner where
  head := forkHead
  branches _ := ["main", "upstream"]
  listed := fun _ _ _ _ => by decide
  checkout_ok := fun _ _ _ _ => rfl
  checkout_fails := fun _ _ _ hexit => absurd rfl hexit
  checkout_printed := fun _ _ _ => .inr (.inl rfl)
  keeps := by
    intro t rest hrest
    refine congrArg forkHead (forkHost_keeps online t ?_)
    revert rest
    decide
  shown := by
    intro t b hb
    have hmain : some b = some "main" := hb.symm
    obtain rfl := Option.some.inj hmain
    have hword : (strip ("main" : Str)).any isSpace = false := rfl
    rw [List.any_eq_false] at hword
    exact fun c hc => Bool.eq_false_iff.2 (hword c hc)
  rebase_ok := fun t b _ _ => congrArg forkHead (forkHost_keeps online t (rebase_verb b))
  rebase_stops := fun t b _ _ => .inl (congrArg forkHead (forkHost_keeps online t (rebase_verb b)))

/-- With a network the branch is restored. -/
theorem online_restored :
    (forkGit true).Restored "main" (forkRunner.sync (forkHost true) (forkTree "main")).2.1 := by
  have hrecorded : forkRunner.currentBranch (forkHost true) (forkTree "main") =
      (.ok (some "main"), forkTree "main", []) := rfl
  exact ((forkGit true).sync_restores_iff hrecorded rfl).mpr (.inl ⟨rfl, rfl⟩)

/-- Without a network `sync` raises and leaves `upstream` checked out. -/
theorem offline_not_restored :
    forkRunner.currentBranch (forkHost false) (forkTree "main") =
        (.ok (some "main"), forkTree "main", []) ∧
      ¬ (forkGit false).Restored "main"
        (forkRunner.sync (forkHost false) (forkTree "main")).2.1 := by
  refine ⟨rfl, ?_⟩
  intro hrestored
  have hhead : some ("upstream" : Str) = some "main" := hrestored rfl
  revert hhead
  decide

end ForkRunner

end AiPipelines.Iminnt

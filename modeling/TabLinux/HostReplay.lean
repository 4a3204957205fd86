/-
The host's side of the write-back: a change is applied to its folder by writing a file, by
removing an entry with everything below it, or by making a directory.  Paths are split at
slashes, and missing parents are made.  Replayed in the order of their paths, changes that
say what is at each path in the end leave exactly that.
-/
import TabLinux.HostTree

namespace TabLinux

open Bytes Paths

variable {t' : HostTree}

inductive HostEntry where
  | file (data : Bytes)
  | dir
deriving DecidableEq, Repr

namespace HostTree

def entry : HostTree → HostEntry
  | .file data => .file data
  | .dir _ => .dir

def view (t : HostTree) (names : List Bytes) : Option HostEntry :=
  (t.follow names).map entry

/-- A directory with an entry put in the place of all entries of its name. -/
def withChild (t : HostTree) (name : Bytes) (sub : HostTree) : HostTree :=
  .dir ((name, sub) :: t.entries.filter fun entry => entry.1 ≠ name)

def without (t : HostTree) (name : Bytes) : HostTree :=
  .dir (t.entries.filter fun entry => entry.1 ≠ name)

/-- Do something in the directory at a path; the flag says whether it succeeded.  Missing
directories on the way are made if `create` is set, and stay if it fails further on. -/
def inDir (create : Bool) (f : HostTree → HostTree × Bool) :
    List Bytes → HostTree → HostTree × Bool
  | [], t => f t
  | seg :: rest, t =>
      match t.child seg with
      | some (.file _) => (t, false)
      | some (.dir entries) =>
          let (sub, ok) := inDir create f rest (.dir entries)
          (t.withChild seg sub, ok)
      | none =>
          if create then
            let (sub, ok) := inDir create f rest (.dir [])
            (t.withChild seg sub, ok)
          else (t, false)

def writeFile (name data : Bytes) (dir : HostTree) : HostTree × Bool :=
  match dir.child name with
  | some (.dir _) => (dir, false)
  | _ => (dir.withChild name (.file data), true)

def removeEntry (name : Bytes) (dir : HostTree) : HostTree × Bool :=
  if (dir.child name).isSome then (dir.without name, true) else (dir, false)

def opfsWrite (t : HostTree) (path data : Bytes) : HostTree × Bool :=
  let parts := components slash path
  match parts.getLast? with
  | some name => t.inDir true (writeFile name data) parts.dropLast
  | none => (t, false)

def opfsRemove (t : HostTree) (path : Bytes) : HostTree × Bool :=
  let parts := components slash path
  match parts.getLast? with
  | some name => t.inDir false (removeEntry name) parts.dropLast
  | none => (t, false)

def opfsMkdir (t : HostTree) (path : Bytes) : HostTree × Bool :=
  t.inDir true (fun dir => (dir, true)) (components slash path)

/-- A change that fails is dropped. -/
def applyVmChange (t : HostTree) (change : FileChange) : HostTree :=
  match change.op with
  | .write => (t.opfsWrite change.path change.data).1
  | .delete => (t.opfsRemove change.path).1
  | .mkdir => (t.opfsMkdir change.path).1

def replay (t : HostTree) (changes : List FileChange) : HostTree :=
  changes.foldl applyVmChange t

end HostTree

section

variable {t sub : HostTree} {name : Bytes} {names parts : List Bytes}

namespace HostTree

theorem child_withChild (t : HostTree) (name other : Bytes) (sub : HostTree) :
    (t.withChild name sub).child other = if other = name then some sub else t.child other := by
  unfold child withChild entries
  by_cases hother : other = name
  · simp [hother]
  rw [if_neg hother, List.find?_cons_of_neg (by simpa using Ne.symm hother), List.find?_filter]
  congr 2
  funext entry
  by_cases hentry : entry.1 = other
  · simp [hentry, hother]
  · simp [hentry]

theorem child_without (t : HostTree) (name other : Bytes) :
    (t.without name).child other = if other = name then none else t.child other := by
  unfold child without entries
  by_cases hother : other = name
  · simp [hother]
  rw [if_neg hother, List.find?_filter]
  congr 2
  funext entry
  by_cases hentry : entry.1 = other
  · simp [hentry, hother]
  · simp [hentry]

theorem view_cons (t : HostTree) (name : Bytes) (names : List Bytes) :
    t.view (name :: names) = (t.child name).bind fun next => next.view names := by
  rw [view, follow]
  cases t.child name with
  | none => rfl
  | some next => rfl

theorem view_withChild_cons (t : HostTree) (name other : Bytes) (sub : HostTree)
    (names : List Bytes) :
    (t.withChild name sub).view (other :: names) =
      if other = name then sub.view names else t.view (other :: names) := by
  rw [view_cons, child_withChild]
  split
  · rfl
  · rw [view_cons]

theorem view_without_cons (t : HostTree) (name other : Bytes) (names : List Bytes) :
    (t.without name).view (other :: names) =
      if other = name then none else t.view (other :: names) := by
  rw [view_cons, child_without]
  split
  · rfl
  · rw [view_cons]

/-- Only a directory has something below it. -/
theorem view_eq_dir_of_append (h : (t.view (parts ++ name :: names)).isSome = true) :
    t.view parts = some .dir := by
  induction parts generalizing t with
  | nil =>
    rw [List.nil_append, view_cons] at h
    cases t with
    | file data => cases h
    | dir entries => rfl
  | cons seg parts ih =>
    rw [List.cons_append, view_cons] at h
    rw [view_cons]
    cases hchild : t.child seg with
    | none =>
      rw [hchild] at h
      cases h
    | some next =>
      rw [hchild] at h
      exact ih h

/-- What is done in a directory is seen below its path and nowhere else. -/
theorem view_inDir (create : Bool) (f : HostTree → HostTree × Bool)
    (hdir : t.view parts = some .dir) :
    ∃ dir, dir.entry = .dir ∧ (∀ rest, t.view (parts ++ rest) = dir.view rest) ∧
      (∀ rest, (t.inDir create f parts).1.view (parts ++ rest) = (f dir).1.view rest) ∧
      ∀ names, ¬ parts <+: names → (t.inDir create f parts).1.view names = t.view names := by
  induction parts generalizing t with
  | nil =>
    exact ⟨t, Option.some.inj hdir, fun _ => rfl, fun _ => rfl,
      fun names hnot => absurd List.nil_prefix hnot⟩
  | cons seg parts ih =>
    rw [view_cons] at hdir
    obtain ⟨next, hchild, hdir⟩ := Option.bind_eq_some_iff.mp hdir
    cases next with
    | file data =>
      cases parts with
      | nil => cases hdir
      | cons seg' parts => cases hdir
    | dir entries =>
      obtain ⟨dir, hentry, hbelow, hinside, houtside⟩ := ih hdir
      have hroot : t.view [] = some .dir := by
        cases t with
        | file data => cases hchild
        | dir entries => rfl
      refine ⟨dir, hentry, fun rest => ?_, fun rest => ?_, fun names hnot => ?_⟩
      · rw [List.cons_append, view_cons, hchild]
        exact hbelow rest
      · rw [inDir, hchild, List.cons_append]
        rw [view_withChild_cons, if_pos rfl]
        exact hinside rest
      · rw [inDir, hchild]
        cases names with
        | nil => exact hroot.symm
        | cons other names =>
          rw [view_withChild_cons]
          split
          · rename_i hother
            rw [List.cons_prefix_cons, hother] at hnot
            rw [hother, view_cons, hchild]
            exact houtside names fun h => hnot ⟨rfl, h⟩
          · rfl

/-- A walk that makes no directories changes nothing if it does not get there. -/
theorem view_inDir_of_ne {f : HostTree → HostTree × Bool}
    (hf : ∀ t : HostTree, t.entry ≠ .dir → (f t).1 = t) (hdir : t.view parts ≠ some .dir)
    (names : List Bytes) : (t.inDir false f parts).1.view names = t.view names := by
  induction parts generalizing t names with
  | nil =>
    rw [inDir, hf t fun hentry => hdir (congrArg some hentry)]
  | cons seg parts ih =>
    rw [inDir]
    cases hchild : t.child seg with
    | none => rfl
    | some next =>
      cases next with
      | file data => rfl
      | dir entries =>
        rw [view_cons, hchild] at hdir
        cases names with
        | nil =>
          cases t with
          | file data => cases hchild
          | dir entries => rfl
        | cons other names =>
          rw [view_withChild_cons]
          split
          · rename_i hother
            rw [hother, view_cons, hchild]
            exact ih hdir names
          · rfl

theorem inDir_append (create : Bool) (f : HostTree → HostTree × Bool)
    (parts more : List Bytes) (t : HostTree) :
    t.inDir create f (parts ++ more) =
      t.inDir create (fun dir => dir.inDir create f more) parts := by
  induction parts generalizing t with
  | nil => rfl
  | cons seg parts ih =>
    simp only [List.cons_append, inDir, ih]

/-- Nothing is below what is not a directory. -/
theorem view_append_eq_none (h : t.view parts ≠ some .dir) (name : Bytes)
    (names : List Bytes) : t.view (parts ++ name :: names) = none := by
  cases hview : t.view (parts ++ name :: names) with
  | none => rfl
  | some entry =>
    have hsome : (t.view (parts ++ name :: names)).isSome = true := by
      rw [hview]
      rfl
    exact absurd (view_eq_dir_of_append hsome) h

end HostTree

section

variable {dir : HostTree} (hentry : dir.entry = .dir)

include hentry

theorem HostTree.view_writeFile (data : Bytes) (hfree : dir.view [name] ≠ some .dir)
    (rest : List Bytes) :
    (writeFile name data dir).1.view rest =
      if rest = [name] then some (.file data) else dir.view rest := by
  have hwritten : writeFile name data dir = (dir.withChild name (.file data), true) := by
    rw [view_cons] at hfree
    unfold writeFile
    split
    · rename_i entries hchild
      rw [hchild] at hfree
      exact absurd rfl hfree
    · rfl
  rw [hwritten]
  cases rest with
  | nil => exact congrArg some hentry.symm
  | cons other rest =>
    rw [view_withChild_cons]
    by_cases hother : other = name
    · subst hother
      cases rest with
      | nil => rw [if_pos rfl, if_pos rfl]; rfl
      | cons next rest =>
        rw [if_pos rfl, if_neg (by simp)]
        exact (view_append_eq_none hfree next rest).symm
    · rw [if_neg hother, if_neg fun h => hother (List.cons.inj h).1]

theorem HostTree.view_removeEntry (rest : List Bytes) :
    (removeEntry name dir).1.view rest =
      if [name] <+: rest then none else dir.view rest := by
  cases rest with
  | nil =>
    rw [if_neg (by simp)]
    unfold removeEntry
    split
    · exact congrArg some hentry.symm
    · rfl
  | cons other rest =>
    have hprefixed : [name] <+: other :: rest ↔ other = name := by
      rw [List.cons_prefix_cons]
      exact ⟨fun h => h.1.symm, fun h => ⟨h.symm, List.nil_prefix⟩⟩
    unfold removeEntry
    split
    · rw [view_without_cons]
      simp only [hprefixed]
    rename_i habsent
    by_cases hother : other = name
    · subst hother
      rw [if_pos (hprefixed.mpr rfl), view_cons, Option.not_isSome_iff_eq_none.mp habsent]
      rfl
    · rw [if_neg fun h => hother (hprefixed.mp h)]

theorem HostTree.view_makeDir (hfree : ∀ data, dir.view [name] ≠ some (.file data))
    (rest : List Bytes) :
    (dir.inDir true (fun dir => (dir, true)) [name]).1.view rest =
      if rest = [name] then some .dir else dir.view rest := by
  cases rest with
  | nil =>
    rw [if_neg (by simp), inDir]
    split
    · rfl
    · exact congrArg some hentry.symm
    · exact congrArg some hentry.symm
  | cons other rest =>
    rw [inDir]
    cases hchild : dir.child name with
    | none =>
      rw [if_pos rfl, view_withChild_cons]
      by_cases hother : other = name
      · subst hother
        cases rest with
        | nil => rw [if_pos rfl, if_pos rfl]; rfl
        | cons next rest =>
          rw [if_pos rfl, if_neg (by simp), view_cons dir, hchild]
          rfl
      · rw [if_neg hother, if_neg fun h => hother (List.cons.inj h).1]
    | some next =>
      cases next with
      | file data =>
        refine absurd ?_ (hfree data)
        rw [view_cons, hchild]
        rfl
      | dir entries =>
        rw [view_withChild_cons]
        by_cases hother : other = name
        · subst hother
          rw [if_pos rfl, view_cons dir, hchild]
          cases rest with
          | nil => rw [if_pos rfl]; rfl
          | cons next rest => rw [if_neg (by simp)]; rfl
        · rw [if_neg hother, if_neg fun h => hother (List.cons.inj h).1]

end

section

variable {before : List Bytes} (hclean : ∀ part ∈ before ++ [name], Paths.Clean slash part)

include hclean

theorem HostTree.view_opfsWrite (data : Bytes) (hparent : t.view before = some .dir)
    (hfree : t.view (before ++ [name]) ≠ some .dir) (names : List Bytes) :
    (t.opfsWrite (join slash (before ++ [name])) data).1.view names =
      if names = before ++ [name] then some (.file data) else t.view names := by
  obtain ⟨dir, hentry, hbelow, hinside, houtside⟩ := view_inDir true (writeFile name data) hparent
  rw [opfsWrite, components_join hclean, List.getLast?_concat, List.dropLast_concat]
  rw [hbelow] at hfree
  by_cases hinner : before <+: names
  · obtain ⟨rest, rfl⟩ := hinner
    rw [hinside, hbelow, view_writeFile hentry data hfree]
    simp only [List.append_cancel_left_eq]
  · rw [houtside names hinner, if_neg]
    rintro rfl
    exact hinner (List.prefix_append _ _)

theorem HostTree.view_opfsMkdir (hparent : t.view before = some .dir)
    (hfree : ∀ data, t.view (before ++ [name]) ≠ some (.file data)) (names : List Bytes) :
    (t.opfsMkdir (join slash (before ++ [name]))).1.view names =
      if names = before ++ [name] then some .dir else t.view names := by
  obtain ⟨dir, hentry, hbelow, hinside, houtside⟩ := view_inDir true
    (fun dir => dir.inDir true (fun dir => (dir, true)) [name]) hparent
  rw [opfsMkdir, components_join hclean, inDir_append]
  simp only [hbelow] at hfree
  by_cases hinner : before <+: names
  · obtain ⟨rest, rfl⟩ := hinner
    rw [hinside, hbelow, view_makeDir hentry hfree]
    simp only [List.append_cancel_left_eq]
  · rw [houtside names hinner, if_neg]
    rintro rfl
    exact hinner (List.prefix_append _ _)

theorem HostTree.view_opfsRemove (names : List Bytes) :
    (t.opfsRemove (join slash (before ++ [name]))).1.view names =
      if before ++ [name] <+: names then none else t.view names := by
  rw [opfsRemove, components_join hclean, List.getLast?_concat, List.dropLast_concat]
  by_cases hparent : t.view before = some .dir
  · obtain ⟨dir, hentry, hbelow, hinside, houtside⟩ := view_inDir false (removeEntry name) hparent
    by_cases hinner : before <+: names
    · obtain ⟨rest, rfl⟩ := hinner
      rw [hinside, hbelow, view_removeEntry hentry]
      simp only [List.prefix_append_right_inj]
    · rw [houtside names hinner, if_neg]
      exact fun h => hinner ((List.prefix_append _ _).trans h)
  · have hkept : ∀ dir : HostTree, dir.entry ≠ .dir → (removeEntry name dir).1 = dir := by
      intro dir hfile
      cases dir with
      | file data => rfl
      | dir entries => exact absurd rfl hfile
    rw [view_inDir_of_ne hkept hparent]
    split
    · rename_i hinner
      obtain ⟨rest, rfl⟩ := hinner
      rw [List.append_assoc]
      exact view_append_eq_none hparent name rest
    · rfl

end

end

/-- What an operation says about its path: what the host has there at first, and what is
to be there in the end. -/
def ChangeOp.Fits (op : ChangeOp) (host goal : Option HostEntry) : Prop :=
  match op with
  | .write => host ≠ some .dir ∧ ∃ data, goal = some (.file data)
  | .mkdir => (∀ data, host ≠ some (.file data)) ∧ goal = some .dir
  | .delete => goal = none

/-- A change whose path has clean components, that says what is to be there. -/
structure FileChange.Fits (host goal : List Bytes → Option HostEntry)
    (change : FileChange) (names : List Bytes) : Prop where
  clean : ∀ name ∈ names, Paths.Clean slash name
  below : names ≠ []
  path : change.path = join slash names
  op : change.op.Fits (host names) (goal names)
  data : change.op = .write → goal names = some (.file change.data)

/-- There is a change for the path of these names. -/
def Pending (changes : List FileChange) (names : List Bytes) : Prop :=
  (∀ name ∈ names, Paths.Clean slash name) ∧
    ∃ change ∈ changes, change.path = join slash names

section

variable {host goal : List Bytes → Option HostEntry} {t : HostTree}
  {change : FileChange} {changes : List FileChange} {names : List Bytes}

namespace FileChange

/-- The changes above a path come before its own. -/
theorem Fits.not_pending {before : List Bytes} {name : Bytes}
    (h : change.Fits host goal (before ++ [name]))
    (hsorted : (change :: changes).Pairwise fun a b => a.path < b.path) :
    ¬ Pending (change :: changes) before := by
  rintro ⟨-, other, hmem, hpath⟩
  have hlt : other.path < change.path := by
    rw [hpath, h.path]
    exact join_lt_join_append h.clean (List.cons_ne_nil _ _)
  rcases List.mem_cons.mp hmem with rfl | htail
  · exact List.lt_irrefl _ hlt
  · exact List.lt_irrefl _ (List.lt_trans hlt ((List.pairwise_cons.mp hsorted).1 other htail))

theorem Fits.pending (h : change.Fits host goal names) : Pending (change :: changes) names :=
  ⟨h.clean, change, List.mem_cons_self, h.path⟩

/-- The next change is the only one for its path. -/
theorem Fits.not_pending_self (h : change.Fits host goal names)
    (hsorted : (change :: changes).Pairwise fun a b => a.path < b.path) :
    ¬ Pending changes names := by
  rintro ⟨-, other, hmem, hpath⟩
  have hlt := (List.pairwise_cons.mp hsorted).1 other hmem
  rw [hpath, h.path] at hlt
  exact List.lt_irrefl _ hlt

theorem Fits.pending_iff (h : change.Fits host goal names)
    {others : List Bytes} (hne : others ≠ names) :
    Pending (change :: changes) others ↔ Pending changes others := by
  refine and_congr_right fun hclean => ⟨?_, ?_⟩
  · rintro ⟨other, hmem, hpath⟩
    rcases List.mem_cons.mp hmem with rfl | htail
    · exact absurd (join_injective hclean h.clean (hpath.symm.trans h.path)) hne
    · exact ⟨other, htail, hpath⟩
  · rintro ⟨other, hmem, hpath⟩
    exact ⟨other, List.mem_cons_of_mem _ hmem, hpath⟩

end FileChange

/-- How far a replay has got: where no change is to come, the goal is reached; at the
other paths, there is what was there at first, or nothing. -/
structure HostTree.Replaying (host goal : List Bytes → Option HostEntry)
    (changes : List FileChange) (t : HostTree) : Prop where
  done : ∀ names, ¬ Pending changes names → t.view names = goal names
  todo : ∀ names, Pending changes names → t.view names = host names ∨ t.view names = none

/-- A change that is seen at its own path only. -/
theorem HostTree.Replaying.put (h : t.Replaying host goal (change :: changes))
    (hfits : change.Fits host goal names)
    (hsorted : (change :: changes).Pairwise fun a b => a.path < b.path)
    (hview : ∀ others, t'.view others = if others = names then goal names else t.view others) :
    t'.Replaying host goal changes := by
  refine ⟨fun others hnot => ?_, fun others hpending => ?_⟩
  · rw [hview]
    split
    · rename_i hself
      rw [hself]
    · rename_i hne
      exact h.done others fun hpending => hnot ((hfits.pending_iff hne).mp hpending)
  · have hne : others ≠ names := by
      rintro rfl
      exact hfits.not_pending_self hsorted hpending
    rw [hview, if_neg hne]
    exact h.todo others ((hfits.pending_iff hne).mpr hpending)

/-- A change after which nothing is at its path and below. -/
theorem HostTree.Replaying.drop (h : t.Replaying host goal (change :: changes))
    (hfits : change.Fits host goal names) (hgone : ∀ rest, goal (names ++ rest) = none)
    (hview : ∀ others, t'.view others = if names <+: others then none else t.view others) :
    t'.Replaying host goal changes := by
  refine ⟨fun others hnot => ?_, fun others hpending => ?_⟩
  · rw [hview]
    split
    · rename_i hbelow
      obtain ⟨rest, rfl⟩ := hbelow
      exact (hgone rest).symm
    rename_i hother
    refine h.done others fun hpending => hnot ((hfits.pending_iff ?_).mp hpending)
    rintro rfl
    exact hother (List.prefix_refl _)
  · rw [hview]
    split
    · exact Or.inr rfl
    rename_i hother
    refine h.todo others ((hfits.pending_iff ?_).mpr hpending)
    rintro rfl
    exact hother (List.prefix_refl _)

variable (hclosed : ∀ {parts : List Bytes} {name names},
  (goal (parts ++ name :: names)).isSome = true → goal parts = some .dir)

include hclosed

theorem HostTree.Replaying.step (h : t.Replaying host goal (change :: changes))
    (hfits : change.Fits host goal names)
    (hsorted : (change :: changes).Pairwise fun a b => a.path < b.path) :
    (t.applyVmChange change).Replaying host goal changes := by
  obtain ⟨before, name, rfl⟩ : ∃ before name, names = before ++ [name] :=
    ⟨_, _, (List.dropLast_append_getLast hfits.below).symm⟩
  have hparent : (goal (before ++ [name])).isSome = true → t.view before = some .dir :=
    fun hsome => (h.done before (hfits.not_pending hsorted)).trans (hclosed hsome)
  have hop := hfits.op
  unfold HostTree.applyVmChange
  rw [hfits.path]
  cases hcase : change.op with
  | write =>
    rw [hcase] at hop
    have hgoal := hfits.data hcase
    refine h.put hfits hsorted fun others => ?_
    rw [hgoal]
    refine HostTree.view_opfsWrite hfits.clean change.data (hparent (by rw [hgoal]; rfl)) ?_ others
    rcases h.todo _ hfits.pending with hfirst | hnone
    · rw [hfirst]
      exact hop.1
    · rw [hnone]
      exact nofun
  | delete =>
    rw [hcase] at hop
    have hgone : ∀ rest, goal (before ++ [name] ++ rest) = none := by
      intro rest
      cases rest with
      | nil =>
        rw [List.append_nil]
        exact hop
      | cons next rest =>
        by_contra hsome
        cases (hclosed (Option.isSome_iff_ne_none.mpr hsome)).symm.trans hop
    exact h.drop hfits hgone (HostTree.view_opfsRemove hfits.clean)
  | mkdir =>
    rw [hcase] at hop
    refine h.put hfits hsorted fun others => ?_
    rw [hop.2]
    refine HostTree.view_opfsMkdir hfits.clean (hparent (by rw [hop.2]; rfl)) ?_ others
    intro data
    rcases h.todo _ hfits.pending with hfirst | hnone
    · rw [hfirst]
      exact hop.1 data
    · rw [hnone]
      exact nofun

/-- Replayed in the order of their paths, the changes reach the goal. -/
theorem HostTree.Replaying.replay (h : t.Replaying host goal changes)
    (hfits : ∀ change ∈ changes, ∃ names, change.Fits host goal names)
    (hsorted : changes.Pairwise fun a b => a.path < b.path) (names : List Bytes) :
    (t.replay changes).view names = goal names := by
  induction changes generalizing t with
  | nil => exact h.done names fun hpending => nomatch hpending.2
  | cons change changes ih =>
    obtain ⟨parts, hchange⟩ := hfits change List.mem_cons_self
    exact ih (h.step hclosed hchange hsorted)
      (fun other hmem => hfits other (List.mem_cons_of_mem _ hmem))
      (List.pairwise_cons.mp hsorted).2

end

end TabLinux

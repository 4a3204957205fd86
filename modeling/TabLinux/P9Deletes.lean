/-
The delete records of a shared folder.  A record is made for the path of the inode that is
removed, read off its parents; for an inode that has lost its entry already, that is the
path of something else.  While removals are of entries in the tree, and listings bring back
nothing that the guest has removed, there is nothing at a path with a delete record.
-/
import TabLinux.P9Paths

namespace TabLinux

open Bytes Paths Runs Virtio9p

variable {path c : Bytes} {fs : P9Fs} {ty : TMsg}

variable {op : ChangeOp} {fs' : P9Fs} {dir target : Nat}

/-- Neither the lookup of the device nor the entries lead to anything at this path. -/
def P9Fs.Vacant (fs : P9Fs) (path : Bytes) : Prop :=
  fs.resolve path = none ∧ ∀ ino, ¬ fs.Spells path ino

/-- What the host would be told to delete is not in the tree. -/
def Virtio9p.DeletesGone (d : Virtio9p) : Prop :=
  ∀ change ∈ d.takeChanges.1, change.op = .delete → d.fs.Vacant change.path

/-- New names can be read back from a path, entries are removed through fids with a place
in the tree, and a listing has nothing at a path with a delete record. -/
def Virtio9p.RemovesInPlace (d : Virtio9p) : FileEvent → Prop
  | .message chain mem =>
      ∀ ty, msgType? (gather mem chain.readable) = some ty →
        NamesClean ty ((gather mem chain.readable).drop 7) ∧
        (ty = .remove ∨ ty = .unlinkat → ∀ ino,
          d.fs.subject ((gather mem chain.readable).drop 7) = some ino →
          ∃ names, d.fs.resolveFrom 0 names = some ino)
  | .supply id payload _ => ∀ i h, d.heldAt id = some i → d.held[i]? = some h →
      h.kind = .listDir → ∀ entry ∈ listingEntries payload, slash ∉ entry.name ∧
        (¬ Reserved entry.name → ∀ names, d.fs.resolveFrom 0 names = some h.target →
          (join slash (names ++ [entry.name]), .delete) ∉ d.dirtyChanges)
  | .takeChanges => True

section

variable {d d' : Virtio9p}

theorem Virtio9p.sorted_mark (hsorted : SortedAssoc.Sorted d.dirtyChanges) (path : Bytes)
    (op : ChangeOp) : SortedAssoc.Sorted (d.mark path op).dirtyChanges := by
  rw [d.mark_dirtyChanges]
  split
  · exact hsorted.insert path op
  · exact hsorted

/-- The records after one more; the root has none. -/
theorem Virtio9p.mem_mark_iff (hlazy : d.isLazy = true)
    (hsorted : SortedAssoc.Sorted d.dirtyChanges) {key : Bytes} {v : ChangeOp} :
    (key, v) ∈ (d.mark path op).dirtyChanges ↔
      (path ≠ [] ∧ key = path ∧ v = op) ∨
        ((key, v) ∈ d.dirtyChanges ∧ (path = [] ∨ key ≠ path)) := by
  rw [d.mark_dirtyChanges]
  by_cases hroot : path = []
  · simp [hroot]
  · rw [if_pos ⟨hlazy, hroot⟩, hsorted.mem_insert]
    simp [hroot]

/-- The names on the way to a path that nothing is at. -/
def P9Fs.Gone (fs : P9Fs) (path : Bytes) : Prop :=
  ∃ names : List Bytes, (∀ name ∈ names, Paths.Clean slash name) ∧
    path = join slash names ∧ ∀ ino, fs.shape.follow 0 names ≠ some ino

structure Virtio9p.Tidy (d : Virtio9p) : Prop where
  sound : d.Sound
  isLazy : d.isLazy = true
  sorted : SortedAssoc.Sorted d.dirtyChanges
  gone : ∀ {path}, (path, ChangeOp.delete) ∈ d.dirtyChanges → d.fs.Gone path

theorem P9Fs.Gone.vacant (h : fs.Gone path) (htree : fs.Tree) : fs.Vacant path := by
  obtain ⟨names, hclean, rfl, hnone⟩ := h
  constructor
  · rw [fs.resolve_eq, components_join hclean]
    exact Option.eq_none_iff_forall_ne_some.mpr hnone
  rintro ino ⟨names', hpath, hfollow⟩
  rw [fs.resolveFrom_eq] at hfollow
  have hclean' : ∀ name ∈ names', Paths.Clean slash name := by
    rw [← htree.valid.path_of_follow hfollow]
    exact fun _ hmem => htree.path_clean hmem
  cases join_injective hclean hclean' hpath
  exact hnone ino hfollow

/-- Nothing new is at a path if no new way leads to it. -/
theorem P9Fs.Gone.mono (h : fs.Gone path)
    (hways : ∀ names ino, path = join slash names →
      (∀ name ∈ names, Paths.Clean slash name) → fs'.shape.follow 0 names = some ino →
      fs.shape.follow 0 names = some ino) : fs'.Gone path := by
  obtain ⟨names, hclean, hpath, hnone⟩ := h
  exact ⟨names, hclean, hpath, fun ino hfollow =>
    hnone ino (hways names ino hpath hclean hfollow)⟩

theorem Virtio9p.Tidy.deletesGone (hd : d.Tidy) : d.DeletesGone := by
  intro change hmem hop
  obtain ⟨⟨path, op⟩, hrecord, hchange⟩ := List.mem_filterMap.mp hmem
  obtain ⟨hop', hpath, -⟩ := P9Fs.fileChange?_spec hchange
  cases hop'.symm.trans hop
  rw [hpath]
  exact (hd.gone hrecord).vacant hd.sound.tree

theorem Virtio9p.newLazy_tidy (tag : Bytes) : (newLazy tag).Tidy :=
  ⟨created_sound true tag, rfl, List.Pairwise.nil, fun h => nomatch h⟩

/-- The entry that is taken off is one of the parent of its inode. -/
theorem Unlinks.parent (h : Unlinks fs c ty dir target)
    (hvalid : fs.shape.Valid) : fs.shape.parent target = dir := by
  cases h with
  | remove => rfl
  | unlinkat _ _ hchild => exact hvalid.owner (hvalid.childOf_eq_some.mp hchild)

/-- Devices with the same ways down keep what is gone. -/
theorem P9Fs.Gone.of_shape (h : fs.Gone path) (hshape : fs'.shape = fs.shape) : fs'.Gone path := by
  refine h.mono fun names ino _ _ hfollow => ?_
  rw [hshape] at hfollow
  exact hfollow

/-- A new entry is recorded itself, so a delete record for its path is lost. -/
theorem Virtio9p.Tidy.gone_create (hd : d.Tidy) {name : Bytes} {node : Inode}
    (hdir : dir < d.fs.inodes.length) (hfresh : d.fs.child dir name = none)
    (hparent : node.parent = dir) (hchildren : node.children = []) (hop : op ≠ .delete)
    (hmem : (path, ChangeOp.delete) ∈
      (d.mark ((d.fs.create dir name node).pathOf d.fs.inodes.length) op).dirtyChanges) :
    (d.fs.create dir name node).Gone path := by
  have hshape := d.fs.shape_create hdir name hparent hchildren
  have hvalid := d.fs.shape_create hdir name hparent hchildren ▸ hd.sound.tree.valid.add hdir hfresh
  rcases (mem_mark_iff hd.isLazy hd.sorted).mp hmem with ⟨-, -, h⟩ | ⟨hold, hother⟩
  · exact absurd h.symm hop
  refine (hd.gone hold).mono fun names ino hpath hclean hfollow => ?_
  have hfollow' := hfollow
  rw [hshape, hd.sound.tree.valid.follow_add hdir hfresh] at hfollow'
  rcases hfollow' with hway | ⟨rfl, before, hnames, -⟩
  · exact hway
  -- The new way is the one that the new record is for.
  have hnew : (d.fs.create dir name node).pathOf d.fs.inodes.length = path := by
    have hplace : (d.fs.create dir name node).shape.path d.fs.inodes.length = names :=
      hvalid.path_of_follow hfollow
    rw [P9Fs.pathOf_eq, hplace, hpath]
  rcases hother with hroot | hne
  · rw [hnew, hpath, join_eq_nil hclean, hnames] at hroot
    exact absurd hroot (List.append_ne_nil_of_right_ne_nil _ (List.cons_ne_nil _ _))
  · exact absurd hnew.symm hne

/-- An entry that is taken off leaves nothing at its path. -/
theorem Virtio9p.Tidy.gone_unlink (hd : d.Tidy)
    (hlinked : d.fs.shape.Linked target) (hleaf : (d.fs.node target).children = [])
    (hmem : (path, ChangeOp.delete) ∈ (d.mark (d.fs.pathOf target) .delete).dirtyChanges) :
    (d.fs.setNode (d.fs.shape.parent target) fun node => { node with
      children := node.children.filter fun entry => entry.2 ≠ target }).Gone path := by
  have hvalid := hd.sound.tree.valid
  have hshape := d.fs.shape_unlink (d.fs.shape.parent target) target
  rcases (mem_mark_iff hd.isLazy hd.sorted).mp hmem with ⟨hne, rfl, -⟩ | ⟨hold, -⟩
  · have hzero : target ≠ 0 := by
      rintro rfl
      exact hne (by rw [d.fs.pathOf_eq, hvalid.path_root, join_nil])
    refine ⟨d.fs.shape.path target, fun _ hmem => hd.sound.tree.path_clean hmem,
      d.fs.pathOf_eq target, fun ino hfollow => ?_⟩
    rw [hshape, hvalid.follow_remove hzero hleaf, hvalid.follow_path hlinked] at hfollow
    exact hfollow.2 (Option.some.inj hfollow.1).symm
  · refine (hd.gone hold).mono fun names ino _ _ hfollow => ?_
    rw [hshape] at hfollow
    exact hvalid.follow_of_remove hfollow

theorem TreeEdit.sorted (h : TreeEdit d ty c d') (hsorted : SortedAssoc.Sorted d.dirtyChanges) :
    SortedAssoc.Sorted d'.dirtyChanges := by
  cases h with
  | keep _ hlog | chmod _ _ _ _ hlog =>
    rw [hlog]
    exact hsorted
  | park => exact hsorted
  | create _ _ _ _ _ _ hlog | edit _ _ _ _ hlog | unlink _ _ _ hlog =>
    rw [hlog]
    exact sorted_mark hsorted _ _

theorem TreeEdit.gone (h : TreeEdit d ty c d') (hd : d.Tidy)
    (hlinked : ty = .remove ∨ ty = .unlinkat → ∀ ino, d.fs.subject c = some ino →
      d.fs.shape.Linked ino)
    (hmem : (path, ChangeOp.delete) ∈ d'.dirtyChanges) : d'.fs.Gone path := by
  cases h with
  | keep hinodes hlog =>
    rw [hlog] at hmem
    exact (hd.gone hmem).of_shape (P9Fs.shape_congr hinodes)
  | park => exact hd.gone hmem
  | @create _ dir name node op hcreates hsubject _ _ hfresh hinodes hlog =>
    rw [hlog] at hmem
    obtain ⟨hparent, hchildren⟩ := hcreates.made
    have hop : op ≠ .delete := by
      cases hcreates with
      | file | dir => exact nofun
    exact (hd.gone_create (hd.sound.wf.tree.subject_lt hsubject) hfresh hparent hchildren hop
      hmem).of_shape (P9Fs.shape_congr hinodes)
  | @chmod _ ino mode _ _ hinodes hlog =>
    rw [hlog] at hmem
    have hshape := d.fs.shape_setNode ino (f := fun node => { node with perm := mode })
      (fun _ => rfl) fun _ => rfl
    exact (hd.gone hmem).of_shape ((P9Fs.shape_congr hinodes).trans hshape)
  | @edit _ ino f _ _ hf hinodes hlog =>
    rw [hlog] at hmem
    rcases (mem_mark_iff hd.isLazy hd.sorted).mp hmem with ⟨-, -, hop⟩ | ⟨hold, -⟩
    · cases hop
    · exact (hd.gone hold).of_shape ((P9Fs.shape_congr hinodes).trans
        (d.fs.shape_setNode ino hf.parent hf.children))
  | @unlink _ dir target hunlinks hempty hinodes hlog =>
    rw [hlog] at hmem
    have hleaf : (d.fs.node target).children = [] := by
      cases hdir : (d.fs.node target).isDir with
      | true => exact hempty hdir
      | false => exact hd.sound.tree.files target hdir
    have hparent := hunlinks.parent hd.sound.tree.valid
    have htarget : d.fs.shape.Linked target := by
      cases hunlinks with
      | remove hsubject => exact hlinked (Or.inl rfl) target hsubject
      | unlinkat hsubject _ hchild => exact (hlinked (Or.inr rfl) _ hsubject).child hchild
    subst hparent
    exact (hd.gone_unlink htarget hleaf hmem).of_shape (P9Fs.shape_congr hinodes)

theorem Virtio9p.Tidy.filledFor (hd : d.Tidy) {i : Nat} {h : Held}
    (hget : d.held[i]? = some h) {payload : Bytes}
    (hlisting : h.kind = .listDir → ∀ entry ∈ listingEntries payload, slash ∉ entry.name ∧
      (¬ Reserved entry.name → ∀ names, d.fs.resolveFrom 0 names = some h.target →
        (join slash (names ++ [entry.name]), .delete) ∉ d.dirtyChanges)) :
    (d.filledFor i h payload).Tidy := by
  have hheld := hd.sound.wf.held h (List.mem_of_getElem? hget)
  have hslash : h.kind = .listDir → ∀ entry ∈ listingEntries payload, slash ∉ entry.name :=
    fun hkind entry hmem => (hlisting hkind entry hmem).1
  refine ⟨hd.sound.filledFor hget hslash, hd.isLazy, hd.sorted, fun {path} hmem => ?_⟩
  refine (hd.gone hmem).mono fun names ino hpath _ hfollow => ?_
  rw [Virtio9p.filledFor] at hfollow
  cases hkind : h.kind with
  | readFile =>
    have hshape := d.fs.shape_setNode h.target (f := fun node => node.filled payload)
      (fun _ => rfl) fun _ => rfl
    rw [hkind, P9Fs.fill, hshape] at hfollow
    exact hfollow
  | listDir =>
    have hshape := (d.fs.applyListing h.target payload).shape_setNode h.target
      (f := fun node => { node with loaded := true }) (fun _ => rfl) fun _ => rfl
    rw [hkind, P9Fs.fill, hshape] at hfollow
    rcases P9Fs.follow_of_applyListing hd.sound.tree.valid hheld.target hfollow with
      hold | ⟨entry, hentry, hreserved, before, rfl, hbefore⟩
    · exact hold
    rw [← d.fs.resolveFrom_eq] at hbefore
    rw [hpath] at hmem
    exact absurd hmem ((hlisting hkind entry hentry).2 hreserved before hbefore)

theorem Virtio9p.Tidy.served (hd : d.Tidy) {head : U16} {writable : List Buf}
    {msg : Bytes} {reply : Option Bytes} (hserved : Served d head writable msg reply d')
    (hclean : ∀ ty, msgType? msg = some ty → NamesClean ty (msg.drop 7))
    (hlinked : ∀ ty, msgType? msg = some ty → ty = .remove ∨ ty = .unlinkat → ∀ ino,
      d.fs.subject (msg.drop 7) = some ino → d.fs.shape.Linked ino) : d'.Tidy := by
  have hcleared : d.cleared.Tidy :=
    ⟨⟨⟨hd.sound.wf.tree, hd.sound.wf.held⟩, hd.sound.tree, hd.sound.rootDir⟩, hd.isLazy,
      hd.sorted, hd.gone⟩
  have hsound := hd.sound.served hserved hclean
  have hlazy := hserved.isLazy.trans hd.isLazy
  obtain ⟨after, rfl | ⟨ty, hty, hedit⟩, hfs, hlog, -⟩ := hserved.edits
  · refine ⟨hsound, hlazy, ?_, fun {path} => ?_⟩
    · rw [hlog]
      exact hd.sorted
    · rw [hlog, hfs]
      exact hd.gone
  · refine ⟨hsound, hlazy, ?_, fun {path} => ?_⟩
    · rw [hlog]
      exact hedit.sorted hd.sorted
    · rw [hlog, hfs]
      exact hedit.gone hcleared (hlinked ty hty)

theorem Virtio9p.Tidy.called (hd : d.Tidy) {event : FileEvent} (hcalled : Called d event d')
    (hplace : d.RemovesInPlace event) : d'.Tidy := by
  cases hcalled with
  | short | unknown => exact hd
  | message _ hserved =>
    have hafter := hd.served hserved (fun ty hty => (hplace ty hty).1)
      fun ty hty hremoves ino hsubject =>
        P9Fs.linked_iff.mpr ((hplace ty hty).2 hremoves ino hsubject)
    exact ⟨⟨⟨hafter.sound.wf.tree, hafter.sound.wf.held⟩, hafter.sound.tree,
      hafter.sound.rootDir⟩, hafter.isLazy, hafter.sorted, hafter.gone⟩
  | @answer _ payload _ i h _ _ hfind hget hserved =>
    obtain ⟨ty, hty, hparks⟩ := (hd.sound.wf.held h (List.mem_of_getElem? hget)).msg
    refine (hd.filledFor hget (hplace i h hfind hget)).served hserved ?_ ?_
    · intro ty' hty'
      cases hty.symm.trans hty'
      exact .of_parks hparks _
    rintro ty' hty' (rfl | rfl)
    · cases hty.symm.trans hty'
      cases hparks
    · cases hty.symm.trans hty'
      cases hparks
  | takeChanges =>
    exact ⟨⟨⟨hd.sound.wf.tree, hd.sound.wf.held⟩, hd.sound.tree, hd.sound.rootDir⟩, hd.isLazy,
      List.Pairwise.nil, fun h => nomatch h⟩

end

/-- As long as removals are of entries in the tree and listings bring nothing back, the
host is told to delete only what is not there. -/
theorem run_deletesGone (tag : Bytes) (events : List FileEvent)
    (hplace : Along (attempt call) (Meets Virtio9p.RemovesInPlace)
      (.ok (newLazy tag)) events)
    {d : Virtio9p} (hrun : run (attempt call)
      (.ok (newLazy tag)) events = .ok d) :
    d.DeletesGone :=
  (hplace.attempt_invariant
    (fun _ _ _ hd hmeets hcall => hd.called (call_cases hcall) hmeets)
    (newLazy_tidy tag) hrun).deletesGone

/-- A check of one call that needs no search. -/
def Virtio9p.isInPlace (d : Virtio9p) : FileEvent → Bool
  | .message chain mem =>
      let msg := gather mem chain.readable
      (msgType? msg).all fun ty =>
        (ty ∉ [.lcreate, .mkdir] ||
          (parseName (msg.drop 7)).all fun name => Paths.Clean slash name) &&
        (ty ∉ [.remove, .unlinkat] || d.fs.isLinked (msg.drop 7))
  | .supply _ payload _ =>
      ((listingEntries payload).all fun entry => Paths.Clean slash entry.name) &&
        d.dirtyChanges.all fun record => record.2 ≠ .delete
  | .takeChanges => true

theorem Virtio9p.removesInPlace_of_isInPlace (d : Virtio9p) (event : FileEvent)
    (hcheck : d.isInPlace event = true) : d.RemovesInPlace event := by
  cases event with
  | message chain mem =>
    intro ty hty
    dsimp only [isInPlace] at hcheck
    rw [hty] at hcheck
    obtain ⟨hname, hlinked⟩ := Bool.and_eq_true_iff.mp hcheck
    constructor
    · rintro hcreates name hparse
      rw [hparse] at hname
      rcases hcreates with rfl | rfl
      · exact of_decide_eq_true hname
      · exact of_decide_eq_true hname
    · rintro hremoves ino hsubject
      rw [P9Fs.isLinked, hsubject] at hlinked
      rcases hremoves with rfl | rfl
      · exact ⟨_, of_decide_eq_true hlinked⟩
      · exact ⟨_, of_decide_eq_true hlinked⟩
  | supply id payload mem =>
    obtain ⟨hnames, hlog⟩ := Bool.and_eq_true_iff.mp hcheck
    intro i h _ _ _ entry hmem
    refine ⟨(of_decide_eq_true (List.all_eq_true.mp hnames entry hmem)).2, ?_⟩
    exact fun _ names _ hrecord =>
      of_decide_eq_true (List.all_eq_true.mp hlog _ hrecord) rfl
  | takeChanges => trivial

theorem run_deletesGone_unlinkF :
    ∃ d, run (attempt call) (.ok (newLazy [])) unlinkF = .ok d ∧
      d.takeChanges.1 = [⟨.mkdir, [0x64], []⟩, ⟨.delete, [0x64, 0x2F, 0x66], []⟩] ∧
      d.DeletesGone := by
  have hpasses : passes
      (fun d : Virtio9p => decide (d.takeChanges.1 =
        [⟨.mkdir, [0x64], []⟩, ⟨.delete, [0x64, 0x2F, 0x66], []⟩]))
      (run (attempt call) (.ok (newLazy [])) unlinkF) = true := by
    decide +kernel
  obtain ⟨d, hrun, hchanges⟩ := exists_of_passes hpasses
  refine ⟨d, hrun, of_decide_eq_true hchanges, run_deletesGone [] unlinkF ?_ hrun⟩
  refine Along.meets_of_checks removesInPlace_of_isInPlace ?_
  decide +kernel

/-- The guest creates `a` in the root, which is not listed yet, and unlinks it; the
listing then brings the `a` of the host. -/
def listAfterUnlink : List FileEvent :=
  [askFile .attach (putU32 0), askFile .attach (putU32 1),
    askFile .lcreate (putU32 1 ++ putStr [0x61] ++ putU32 0 ++ putU32 0o644),
    askFile .unlinkat (putU32 0 ++ putStr [0x61] ++ putU32 0),
    askFile .walk (putU32 0 ++ putU32 2 ++ putU16 1 ++ putStr [0x61]), supplyA]

/-- Removing the unlinked file of a fid deletes the directory `d` it was in; and a delete
of `a` is left in the log when the listing shows `a`. -/
theorem stray_removals_delete :
    (∃ d, run (attempt call) (.ok (newLazy []))
        (unlinkF ++ [removeF]) = .ok d ∧
        d.takeChanges.1 = [⟨.delete, [0x64], []⟩, ⟨.delete, [0x64, 0x2F, 0x66], []⟩] ∧
        d.fs.resolve [0x64] = some 1 ∧ ¬ d.DeletesGone) ∧
      ∃ d, run (attempt call) (.ok (newLazy []))
        listAfterUnlink = .ok d ∧ d.takeChanges.1 = [⟨.delete, [0x61], []⟩] ∧
        d.fs.resolve [0x61] = some 2 ∧ ¬ d.DeletesGone := by
  have hremove : passes (fun d : Virtio9p => decide (
        d.takeChanges.1 = [⟨.delete, [0x64], []⟩, ⟨.delete, [0x64, 0x2F, 0x66], []⟩] ∧
        d.fs.resolve [0x64] = some 1))
      (run (attempt call) (.ok (newLazy []))
        (unlinkF ++ [removeF])) = true := by decide +kernel
  have hlist : passes (fun d : Virtio9p => decide (
        d.takeChanges.1 = [⟨.delete, [0x61], []⟩] ∧ d.fs.resolve [0x61] = some 2))
      (run (attempt call) (.ok (newLazy [])) listAfterUnlink) =
        true := by decide +kernel
  have hthere : ∀ {d : Virtio9p} {path rest} {ino : Nat},
      d.takeChanges.1 = ⟨.delete, path, []⟩ :: rest → d.fs.resolve path = some ino →
      ¬ d.DeletesGone := by
    intro d path rest ino hchanges hresolve hgone
    have hvacant := hgone ⟨.delete, path, []⟩ (hchanges ▸ List.mem_cons_self) rfl
    cases hvacant.1.symm.trans hresolve
  constructor
  · obtain ⟨d, hrun, hcheck⟩ := exists_of_passes hremove
    obtain ⟨hchanges, hresolve⟩ := of_decide_eq_true hcheck
    exact ⟨d, hrun, hchanges, hresolve, hthere hchanges hresolve⟩
  · obtain ⟨d, hrun, hcheck⟩ := exists_of_passes hlist
    obtain ⟨hchanges, hresolve⟩ := of_decide_eq_true hcheck
    exact ⟨d, hrun, hchanges, hresolve, hthere hchanges hresolve⟩

end TabLinux

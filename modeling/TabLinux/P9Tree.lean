/-
The table of inodes as a directory tree: its shape, the edits of the tree as edits of the
shape, and the trees in which every entry can be found again by its path.
-/
import TabLinux.Library.Directories
import TabLinux.Library.Paths
import TabLinux.P9Edits

namespace TabLinux

open Bytes Paths

variable {ino : Nat} {name payload : Bytes} {kind : ReqKind} {names : List Bytes}

variable {f : Inode → Inode} {op : ChangeOp} {dir : Nat} {node : Inode}

namespace P9Fs

/-- The parents and the entries of a tree, without the contents. -/
def shape (fs : P9Fs) : Directories.Tree Bytes :=
  ⟨fs.inodes.length, fun ino => (fs.node ino).parent, fun ino => (fs.node ino).children⟩

theorem resolveFrom_eq (fs : P9Fs) (cur : Nat) (names : List Bytes) :
    fs.resolveFrom cur names = fs.shape.follow cur names := by
  induction names generalizing cur with
  | nil => rfl
  | cons name names ih =>
    have hchild : Directories.childOf (fs.shape.children cur) name = fs.child cur name := rfl
    rw [resolveFrom, Directories.Tree.follow, hchild]
    cases fs.child cur name with
    | none => rfl
    | some next => exact ih next

theorem resolve_eq (fs : P9Fs) (path : Bytes) :
    fs.resolve path = fs.shape.follow 0 (components slash path) :=
  fs.resolveFrom_eq 0 _

theorem pathParts_eq (fs : P9Fs) (fuel ino : Nat) :
    fs.pathParts fuel ino = fs.shape.climb fuel ino := by
  induction fuel generalizing ino with
  | zero => rfl
  | succ fuel ih =>
    simp only [pathParts, Directories.Tree.climb, ih]
    rfl

theorem pathOf_eq (fs : P9Fs) (ino : Nat) :
    fs.pathOf ino = join slash (fs.shape.path ino) := by
  rw [pathOf, pathParts_eq]
  rfl

theorem shape_congr {fs fs' : P9Fs} (hinodes : fs.inodes = fs'.inodes) : fs.shape = fs'.shape := by
  unfold shape
  simp only [node_congr hinodes, hinodes]

theorem shape_setNode (fs : P9Fs) (ino : Nat) (hparent : ∀ node, (f node).parent = node.parent)
    (hchildren : ∀ node, (f node).children = node.children) :
    (fs.setNode ino f).shape = fs.shape := by
  unfold shape
  simp only [length_setNode, fs.node_setNode_of_keeps ino _ Inode.parent hparent,
    fs.node_setNode_of_keeps ino _ Inode.children hchildren]

theorem shape_create (fs : P9Fs) (hdir : dir < fs.inodes.length)
    (name : Bytes) (hparent : node.parent = dir)
    (hchildren : node.children = []) : (fs.create dir name node).shape = fs.shape.add dir name := by
  have hne : dir ≠ fs.inodes.length := Nat.ne_of_lt hdir
  unfold shape Directories.Tree.add
  congr 1
  · exact fs.length_create dir name node
  · funext ino
    rw [fs.node_create hdir]
    by_cases hnew : ino = fs.inodes.length
    · rw [if_pos hnew, hnew, Function.update_self, hparent]
    rw [if_neg hnew, Function.update_of_ne hnew]
    split
    · rename_i hself
      rw [hself]
    · rfl
  · funext ino
    rw [fs.node_create hdir]
    by_cases hnew : ino = fs.inodes.length
    · rw [if_pos hnew, Function.update_of_ne (hnew ▸ hne.symm), hchildren, hnew]
      dsimp only
      rw [fs.node_of_ge (Nat.le_refl _)]
      rfl
    · rw [if_neg hnew]
      by_cases hself : ino = dir
      · rw [if_pos hself, hself, Function.update_self]
      · rw [if_neg hself, Function.update_of_ne hself]

theorem shape_unlink (fs : P9Fs) (dir target : Nat) :
    (fs.setNode dir fun node =>
      { node with children := node.children.filter fun entry => entry.2 ≠ target }).shape =
      fs.shape.remove dir target := by
  unfold shape Directories.Tree.remove
  congr 1
  · exact fs.length_setNode dir _
  · funext ino
    exact fs.node_setNode_of_keeps dir ino Inode.parent fun _ => rfl
  funext ino
  rw [fs.node_setNode]
  by_cases hself : ino = dir
  · subst hself
    rw [Function.update_self]
    by_cases hlt : ino < fs.inodes.length
    · rw [if_pos ⟨rfl, hlt⟩]
    rw [if_neg fun h => hlt h.2]
    dsimp only
    rw [fs.node_of_ge (Nat.le_of_not_lt hlt)]
    rfl
  · rw [if_neg fun h => hself h.1, Function.update_of_ne hself]

/-- The shape is valid, files have no entries, and every name can be read back from a
path. -/
structure Tree (fs : P9Fs) : Prop where
  valid : fs.shape.Valid
  files : ∀ ino, (fs.node ino).isDir = false → (fs.node ino).children = []
  clean : ∀ dir, ∀ entry ∈ (fs.node dir).children, Paths.Clean slash entry.1

end P9Fs

section

variable {fs fs' : P9Fs}

namespace P9Fs

section

variable (h : fs.Tree)
include h

theorem Tree.path_clean (hmem : name ∈ fs.shape.path ino) : Paths.Clean slash name := by
  obtain ⟨dir, j, hentry⟩ := Directories.Tree.mem_climb hmem
  exact h.clean dir (name, j) hentry

/-- The components of the path of an inode are the names on the way to it. -/
theorem Tree.components_pathOf (ino : Nat) :
    components slash (fs.pathOf ino) = fs.shape.path ino := by
  rw [fs.pathOf_eq]
  exact components_join fun _ hmem => h.path_clean hmem

theorem Tree.resolve_pathOf (hlinked : fs.shape.Linked ino) :
    fs.resolve (fs.pathOf ino) = some ino := by
  rw [fs.resolve_eq, h.components_pathOf]
  exact h.valid.follow_path hlinked

theorem Tree.of_inodes (hinodes : fs'.inodes = fs.inodes) : fs'.Tree := by
  refine ⟨?_, ?_, ?_⟩
  · rw [shape_congr hinodes]
    exact h.valid
  · intro ino
    rw [node_congr hinodes]
    exact h.files ino
  · intro dir
    rw [node_congr hinodes]
    exact h.clean dir

theorem Tree.setNode (ino : Nat) (hf : Inode.KeepsPlace f) : (fs.setNode ino f).Tree := by
  refine ⟨?_, ?_, ?_⟩
  · rw [fs.shape_setNode ino hf.parent hf.children]
    exact h.valid
  · intro j hfile
    rw [fs.node_setNode_of_keeps ino j Inode.isDir hf.isDir] at hfile
    rw [fs.node_setNode_of_keeps ino j Inode.children hf.children]
    exact h.files j hfile
  · intro dir
    rw [fs.node_setNode_of_keeps ino dir Inode.children hf.children]
    exact h.clean dir

theorem Tree.create (hdir : dir < fs.inodes.length)
    (hisDir : (fs.node dir).isDir = true) (hname : Paths.Clean slash name)
    (hfresh : fs.child dir name = none) (hparent : node.parent = dir)
    (hchildren : node.children = []) : (fs.create dir name node).Tree := by
  refine ⟨?_, ?_, ?_⟩
  · rw [fs.shape_create hdir name hparent hchildren]
    exact h.valid.add hdir hfresh
  · intro ino hfile
    rw [fs.node_create hdir] at hfile ⊢
    split
    · exact hchildren
    rename_i hnew
    rw [if_neg hnew] at hfile
    split
    · rename_i hself
      rw [if_pos hself] at hfile
      rw [show (fs.node dir).isDir = false from hfile] at hisDir
      cases hisDir
    · rename_i hself
      rw [if_neg hself] at hfile
      exact h.files ino hfile
  · intro d entry hmem
    change entry ∈ (fs.create dir name node).shape.children d at hmem
    rw [fs.shape_create hdir name hparent hchildren] at hmem
    rcases Directories.Tree.mem_children_add.mp hmem with hold | ⟨-, rfl⟩
    · exact h.clean d entry hold
    · exact hname

theorem Tree.unlink (dir target : Nat) :
    (fs.setNode dir fun node =>
      { node with children := node.children.filter fun entry => entry.2 ≠ target }).Tree := by
  refine ⟨?_, ?_, ?_⟩
  · rw [fs.shape_unlink]
    exact h.valid.remove dir target
  · intro ino hfile
    have hkeep := fs.node_setNode_of_keeps dir ino (f := fun node =>
      { node with children := node.children.filter fun entry => entry.2 ≠ target })
      Inode.isDir fun _ => rfl
    rw [hkeep] at hfile
    rw [fs.node_setNode]
    split
    · rename_i hself
      rw [hself.1] at hfile
      rw [h.files dir hfile]
      rfl
    · exact h.files ino hfile
  · intro d entry hmem
    change entry ∈ (shape _).children d at hmem
    rw [fs.shape_unlink] at hmem
    exact h.clean d entry (Directories.Tree.mem_children_remove.mp hmem).1

end

/-- A walk from a linked inode stays among the linked ones. -/
theorem Reached.linked {start : Nat} (hreached : fs.Reached start ino)
    (hvalid : fs.shape.Valid) (hstart : fs.shape.Linked start) : fs.shape.Linked ino := by
  induction hreached with
  | refl => exact hstart
  | up _ ih => exact hvalid.linked_parent ih
  | down _ hchild ih => exact ih.child hchild

end P9Fs

end

section

variable {d d' : Virtio9p} {ty : TMsg} {c : Bytes}

/-- The names that a message of this type gives to an entry are clean. -/
def NamesClean (ty : TMsg) (c : Bytes) : Prop :=
  ty = .lcreate ∨ ty = .mkdir → ∀ name, parseName c = some name → Paths.Clean slash name

theorem Creates.made (h : Creates dir ty node op) : node.parent = dir ∧ node.children = [] := by
  cases h with
  | file => exact ⟨rfl, rfl⟩
  | dir => exact ⟨rfl, rfl⟩

theorem Creates.name_clean
    (h : Creates dir ty node op) (hclean : NamesClean ty c) (hname : parseName c = some name) :
    Paths.Clean slash name := by
  cases h with
  | file => exact hclean (Or.inl rfl) name hname
  | dir => exact hclean (Or.inr rfl) name hname

theorem TreeEdit.tree (h : TreeEdit d ty c d') (hwf : d.fs.Wf) (htree : d.fs.Tree)
    (hclean : NamesClean ty c) : d'.fs.Tree := by
  cases h with
  | keep hinodes => exact htree.of_inodes hinodes
  | park => exact htree
  | create hcreates hsubject hname hdir hfresh hinodes =>
    obtain ⟨hparent, hchildren⟩ := hcreates.made
    exact (htree.create (hwf.subject_lt hsubject) hdir (hcreates.name_clean hclean hname)
      hfresh hparent hchildren).of_inodes hinodes
  | @chmod _ ino mode _ _ hinodes =>
    refine (htree.setNode ino ⟨?_, ?_, ?_⟩).of_inodes hinodes
    · exact fun _ => rfl
    · exact fun _ => rfl
    · exact fun _ => rfl
  | @edit _ ino f _ _ hf hinodes => exact (htree.setNode ino hf).of_inodes hinodes
  | @unlink _ dir target _ _ hinodes => exact (htree.unlink dir target).of_inodes hinodes

/-- What an edit does to the entries. -/
inductive ShapeEdit (d : Virtio9p) (ty : TMsg) (c : Bytes) (d' : Virtio9p) : Prop
  | same (hshape : d'.fs.shape = d.fs.shape)
  | add {dir : Nat} {name : Bytes} {node : Inode} {op : ChangeOp}
      (hcreates : Creates dir ty node op) (hsubject : d.fs.subject c = some dir)
      (hname : parseName c = some name) (hdir : (d.fs.node dir).isDir = true)
      (hfresh : d.fs.child dir name = none) (hnode : d'.fs.node d.fs.inodes.length = node)
      (hshape : d'.fs.shape = d.fs.shape.add dir name)
  | remove {dir target : Nat} (hunlinks : Unlinks d.fs c ty dir target)
      (hempty : (d.fs.node target).isDir = true → (d.fs.node target).children = [])
      (hshape : d'.fs.shape = d.fs.shape.remove dir target)

theorem TreeEdit.shapeEdit (h : TreeEdit d ty c d') (hwf : d.fs.Wf) : ShapeEdit d ty c d' := by
  cases h with
  | keep hinodes => exact .same (P9Fs.shape_congr hinodes)
  | park => exact .same rfl
  | create hcreates hsubject hname hdir hfresh hinodes =>
    have hlt := hwf.subject_lt hsubject
    obtain ⟨hparent, hchildren⟩ := hcreates.made
    refine .add hcreates hsubject hname hdir hfresh ?_ ?_
    · rw [P9Fs.node_congr hinodes, d.fs.node_create hlt, if_pos rfl]
    · exact (P9Fs.shape_congr hinodes).trans (d.fs.shape_create hlt _ hparent hchildren)
  | @chmod _ ino mode _ _ hinodes =>
    have hshape := d.fs.shape_setNode ino (f := fun node => { node with perm := mode })
      (fun _ => rfl) fun _ => rfl
    exact .same ((P9Fs.shape_congr hinodes).trans hshape)
  | @edit _ ino f _ _ hf hinodes =>
    exact .same ((P9Fs.shape_congr hinodes).trans (d.fs.shape_setNode ino hf.parent hf.children))
  | @unlink _ dir target hunlinks hempty hinodes =>
    exact .remove hunlinks hempty ((P9Fs.shape_congr hinodes).trans (d.fs.shape_unlink dir target))

theorem ShapeEdit.valid (h : ShapeEdit d ty c d') (hwf : d.fs.Wf)
    (hvalid : d.fs.shape.Valid) : d'.fs.shape.Valid := by
  cases h with
  | same hshape =>
    rw [hshape]
    exact hvalid
  | add _ hsubject _ _ hfresh _ hshape =>
    rw [hshape]
    exact hvalid.add (hwf.subject_lt hsubject) hfresh
  | remove _ _ hshape =>
    rw [hshape]
    exact hvalid.remove _ _

/-- The entries of an inode after an edit: old ones, or the new one. -/
theorem ShapeEdit.mem_children (h : ShapeEdit d ty c d') {entry : Bytes × Nat}
    (hmem : entry ∈ (d'.fs.node ino).children) :
    entry ∈ (d.fs.node ino).children ∨
      ((ty = .lcreate ∨ ty = .mkdir) ∧ parseName c = some entry.1 ∧
        (d.fs.node ino).isDir = true) := by
  change entry ∈ d'.fs.shape.children ino at hmem
  cases h with
  | same hshape =>
    rw [hshape] at hmem
    exact Or.inl hmem
  | add hcreates hsubject hname hdir _ _ hshape =>
    rw [hshape] at hmem
    rcases Directories.Tree.mem_children_add.mp hmem with hold | ⟨rfl, rfl⟩
    · exact Or.inl hold
    refine Or.inr ⟨?_, hname, hdir⟩
    cases hcreates with
    | file => exact Or.inl rfl
    | dir => exact Or.inr rfl
  | remove _ _ hshape =>
    rw [hshape] at hmem
    exact Or.inl (Directories.Tree.mem_children_remove.mp hmem).1

/-- Messages list no directory. -/
theorem TreeEdit.loaded (h : TreeEdit d ty c d') (hwf : d.fs.Wf)
    (hdir : (d.fs.node ino).isDir = true) : (d'.fs.node ino).loaded = (d.fs.node ino).loaded := by
  cases h with
  | keep hinodes => rw [P9Fs.node_congr hinodes]
  | park => rfl
  | create _ hsubject _ _ _ hinodes =>
    have hne : ino ≠ d.fs.inodes.length := by
      rintro rfl
      rw [d.fs.node_of_ge (Nat.le_refl _)] at hdir
      cases hdir
    rw [P9Fs.node_congr hinodes, d.fs.node_create (hwf.subject_lt hsubject), if_neg hne]
    split
    · rename_i hself
      rw [hself]
    · rfl
  | @chmod _ subject mode _ _ hinodes =>
    rw [P9Fs.node_congr hinodes]
    exact d.fs.node_setNode_of_keeps subject ino Inode.loaded fun _ => rfl
  | @edit _ subject f _ _ _ hinodes _ _ hloaded =>
    rw [P9Fs.node_congr hinodes]
    by_cases hself : ino = subject
    · subst hself
      exact d.fs.node_setNode_of_keeps ino ino Inode.loaded (hloaded hdir)
    · rw [d.fs.node_setNode_of_ne f hself]
  | @unlink _ dir _ _ _ hinodes =>
    rw [P9Fs.node_congr hinodes]
    exact d.fs.node_setNode_of_keeps dir ino Inode.loaded fun _ => rfl

theorem P9Fs.Tree.addListed {fs : P9Fs} (h : fs.Tree)
    (hdir : dir < fs.inodes.length) (hisDir : (fs.node dir).isDir = true)
    {entry : ListingEntry} (hname : slash ∉ entry.name) : (fs.addListed dir entry).Tree := by
  rcases fs.addListed_cases dir entry with ⟨-, heq⟩ | ⟨hreserved, hfresh, heq⟩
  · rw [heq]
    exact h
  obtain ⟨hparent, hchildren⟩ := entry.stub_parent dir
  rw [heq]
  exact h.create hdir hisDir ⟨fun hempty => hreserved (Or.inl hempty), hname⟩ hfresh
    hparent hchildren

theorem P9Fs.addListed_isDir (fs : P9Fs) (hdir : dir < fs.inodes.length)
    (entry : ListingEntry) (hino : ino < fs.inodes.length) :
    ((fs.addListed dir entry).node ino).isDir = (fs.node ino).isDir := by
  rcases fs.addListed_cases dir entry with ⟨-, heq⟩ | ⟨-, -, heq⟩
  · rw [heq]
  rw [heq, fs.node_create hdir, if_neg (Nat.ne_of_lt hino)]
  split
  · rename_i hself
    rw [hself]
  · rfl

theorem P9Fs.Tree.applyListing {fs : P9Fs} (h : fs.Tree)
    (hdir : dir < fs.inodes.length) (hisDir : (fs.node dir).isDir = true)
    (hnames : ∀ entry ∈ listingEntries payload, slash ∉ entry.name) :
    (fs.applyListing dir payload).Tree := by
  unfold P9Fs.applyListing
  generalize listingEntries payload = entries at hnames ⊢
  induction entries generalizing fs with
  | nil => exact h
  | cons entry entries ih =>
    have hentry := hnames entry List.mem_cons_self
    refine ih (h.addListed hdir hisDir hentry)
      (Nat.lt_of_lt_of_le hdir (fs.length_addListed dir entry)) ?_
      fun other hmem => hnames other (List.mem_cons_of_mem _ hmem)
    rw [fs.addListed_isDir hdir entry hdir]
    exact hisDir

theorem P9Fs.Tree.fill {fs : P9Fs} (h : fs.Tree) {target : Nat}
    (htarget : target < fs.inodes.length) (hkind : (fs.node target).isDir = kind.wantsDir)
    (hnames : kind = .listDir → ∀ entry ∈ listingEntries payload, slash ∉ entry.name) :
    (fs.fill kind target payload).Tree := by
  cases kind with
  | readFile =>
    refine h.setNode target ⟨?_, ?_, ?_⟩
    · exact fun _ => rfl
    · exact fun _ => rfl
    · exact fun _ => rfl
  | listDir =>
    refine (h.applyListing htarget hkind (hnames rfl)).setNode target ⟨?_, ?_, ?_⟩
    · exact fun _ => rfl
    · exact fun _ => rfl
    · exact fun _ => rfl

end

section

variable {fs : P9Fs}

namespace P9Fs

section

variable (hvalid : fs.shape.Valid) (hdir : dir < fs.inodes.length)
include hvalid hdir

theorem valid_addListed (entry : ListingEntry) : (fs.addListed dir entry).shape.Valid := by
  rcases fs.addListed_cases dir entry with ⟨-, heq⟩ | ⟨-, hfresh, heq⟩
  · rw [heq]
    exact hvalid
  obtain ⟨hparent, hchildren⟩ := entry.stub_parent dir
  rw [heq, fs.shape_create hdir _ hparent hchildren]
  exact hvalid.add hdir hfresh

theorem valid_fill (kind : ReqKind) (payload : Bytes) :
    (fs.fill kind dir payload).shape.Valid := by
  cases kind with
  | readFile =>
    have hshape := fs.shape_setNode dir (f := fun node => node.filled payload)
      (fun _ => rfl) fun _ => rfl
    rw [fill, hshape]
    exact hvalid
  | listDir =>
    have hshape := (fs.applyListing dir payload).shape_setNode dir
      (f := fun node => { node with loaded := true }) (fun _ => rfl) fun _ => rfl
    rw [fill, hshape]
    exact applyListing_induction (motive := fun out => out.shape.Valid) hvalid hdir
      (fun out entry hlt hout => valid_addListed hout hlt entry) payload

/-- The ways after one more entry is listed. -/
theorem follow_addListed (entry : ListingEntry) :
    (fs.addListed dir entry).shape.follow 0 names = some ino ↔
      fs.shape.follow 0 names = some ino ∨ (ino = fs.inodes.length ∧
        ¬ Reserved entry.name ∧ fs.child dir entry.name = none ∧
          ∃ before, names = before ++ [entry.name] ∧ fs.shape.follow 0 before = some dir) := by
  rcases fs.addListed_cases dir entry with ⟨hskip, heq⟩ | ⟨hreserved, hfresh, heq⟩
  · rw [heq]
    refine ⟨Or.inl, ?_⟩
    rintro (hway | ⟨-, hreserved, hfresh, -⟩)
    · exact hway
    rcases hskip with h | h
    · exact absurd h hreserved
    · rw [hfresh] at h
      cases h
  · obtain ⟨hparent, hchildren⟩ := entry.stub_parent dir
    rw [heq, fs.shape_create hdir _ hparent hchildren, hvalid.follow_add hdir hfresh]
    refine or_congr_right (and_congr_right fun _ => ?_)
    exact ⟨fun hnew => ⟨hreserved, hfresh, hnew⟩, fun h => h.2.2⟩

/-- A listing leaves every way down as it is. -/
theorem follow_applyListing (hfollow : fs.shape.follow 0 names = some ino) :
    (fs.applyListing dir payload).shape.follow 0 names = some ino := by
  refine (applyListing_induction (motive := fun out =>
    out.shape.Valid ∧ out.shape.follow 0 names = some ino) ⟨hvalid, hfollow⟩ hdir ?_ payload).2
  rintro out entry hlt ⟨hvalid, hway⟩
  exact ⟨valid_addListed hvalid hlt entry, (follow_addListed hvalid hlt entry).mpr (Or.inl hway)⟩

theorem follow_fill (hfollow : fs.shape.follow 0 names = some ino) :
    (fs.fill kind dir payload).shape.follow 0 names = some ino := by
  cases kind with
  | readFile =>
    have hshape := fs.shape_setNode dir (f := fun node => node.filled payload)
      (fun _ => rfl) fun _ => rfl
    rw [fill, hshape]
    exact hfollow
  | listDir =>
    have hshape := (fs.applyListing dir payload).shape_setNode dir
      (f := fun node => { node with loaded := true }) (fun _ => rfl) fun _ => rfl
    rw [fill, hshape]
    exact follow_applyListing hvalid hdir hfollow

/-- The ways that a listing opens lead to its own entries. -/
theorem follow_of_applyListing (hfollow :
    (fs.applyListing dir payload).shape.follow 0 names = some ino) :
    fs.shape.follow 0 names = some ino ∨ ∃ entry ∈ listingEntries payload,
      ¬ Reserved entry.name ∧ ∃ before, names = before ++ [entry.name] ∧
        fs.shape.follow 0 before = some dir := by
  unfold applyListing at hfollow
  generalize listingEntries payload = entries at hfollow ⊢
  induction entries generalizing fs with
  | nil => exact Or.inl hfollow
  | cons entry entries ih =>
    have hdir' := Nat.lt_of_lt_of_le hdir (fs.length_addListed dir entry)
    rcases ih (valid_addListed hvalid hdir entry) hdir' hfollow with
      hway | ⟨other, hmem, hreserved, before, hnames, hway⟩
    · rcases (follow_addListed hvalid hdir entry).mp hway with
        hold | ⟨-, hreserved, -, hnew⟩
      · exact Or.inl hold
      · exact Or.inr ⟨entry, List.mem_cons_self, hreserved, hnew⟩
    · rcases (follow_addListed hvalid hdir entry).mp hway with hold | ⟨hself, -⟩
      · exact Or.inr ⟨other, List.mem_cons_of_mem _ hmem, hreserved, before, hnames, hold⟩
      · exact absurd hself (Nat.ne_of_lt hdir)

end

theorem node_addListed (hdir : dir < fs.inodes.length) (entry : ListingEntry)
    (hlt : ino < fs.inodes.length) (hne : ino ≠ dir) :
    (fs.addListed dir entry).node ino = fs.node ino := by
  rcases fs.addListed_cases dir entry with ⟨-, heq⟩ | ⟨-, -, heq⟩
  · rw [heq]
  · rw [heq, fs.node_create hdir, if_neg (Nat.ne_of_lt hlt), if_neg hne]

theorem mem_children_addListed (hdir : dir < fs.inodes.length) (entry : ListingEntry)
    {child : Bytes × Nat} (hmem : child ∈ (fs.node dir).children) :
    child ∈ ((fs.addListed dir entry).node dir).children := by
  rcases fs.addListed_cases dir entry with ⟨-, heq⟩ | ⟨-, -, heq⟩
  · rw [heq]
    exact hmem
  · rw [heq, fs.node_create hdir, if_neg (Nat.ne_of_lt hdir), if_pos rfl]
    exact List.mem_append_left _ hmem

/-- The entries of a listing, one after the other. -/
def addAll (fs : P9Fs) (dir : Nat) (entries : List ListingEntry) : P9Fs :=
  entries.foldl (fun fs entry => fs.addListed dir entry) fs

theorem addAll_concat (fs : P9Fs) (dir : Nat) (entries : List ListingEntry) (last : ListingEntry) :
    fs.addAll dir (entries ++ [last]) = (fs.addAll dir entries).addListed dir last := by
  rw [addAll, List.foldl_append]
  rfl

theorem addAll_grows (hdir : dir < fs.inodes.length) (entries : List ListingEntry) :
    fs.inodes.length ≤ (fs.addAll dir entries).inodes.length ∧
      ∀ child ∈ (fs.node dir).children, child ∈ ((fs.addAll dir entries).node dir).children := by
  induction entries using List.reverseRecOn with
  | nil => exact ⟨Nat.le_refl _, fun _ hmem => hmem⟩
  | append_singleton entries last ih =>
    obtain ⟨hle, hmem⟩ := ih
    rw [fs.addAll_concat]
    refine ⟨Nat.le_trans hle (length_addListed _ dir last), fun child hchild => ?_⟩
    exact mem_children_addListed (Nat.lt_of_lt_of_le hdir hle) last (hmem child hchild)

/-- A stub that a listing has brought: one of its records, under a name that was free. -/
structure Listed (fs : P9Fs) (dir : Nat) (entries : List ListingEntry) (fs' : P9Fs)
    (ino : Nat) (entry : ListingEntry) : Prop where
  mem : entry ∈ entries
  reserved : ¬ Reserved entry.name
  fresh : fs.child dir entry.name = none
  child : (entry.name, ino) ∈ (fs'.node dir).children
  node : fs'.node ino = entry.stub dir

theorem listed_addAll (hdir : dir < fs.inodes.length) {entries : List ListingEntry}
    (hge : fs.inodes.length ≤ ino) (hlt : ino < (fs.addAll dir entries).inodes.length) :
    ∃ entry, fs.Listed dir entries (fs.addAll dir entries) ino entry := by
  induction entries using List.reverseRecOn with
  | nil => exact absurd hge (Nat.not_le_of_lt hlt)
  | append_singleton entries last ih =>
    obtain ⟨hle, hmem⟩ := addAll_grows hdir entries
    have hdir' := Nat.lt_of_lt_of_le hdir hle
    rw [fs.addAll_concat] at hlt ⊢
    by_cases hold : ino < (fs.addAll dir entries).inodes.length
    · obtain ⟨entry, hlisted⟩ := ih hold
      have hne : ino ≠ dir := Nat.ne_of_gt (Nat.lt_of_lt_of_le hdir hge)
      refine ⟨entry, List.mem_append_left _ hlisted.mem, hlisted.reserved, hlisted.fresh,
        mem_children_addListed hdir' last hlisted.child, ?_⟩
      rw [node_addListed hdir' last hold hne]
      exact hlisted.node
    · rcases (fs.addAll dir entries).addListed_cases dir last with
        ⟨-, heq⟩ | ⟨hreserved, hfresh, heq⟩
      · rw [heq] at hlt
        exact absurd hlt hold
      have hnew : ino = (fs.addAll dir entries).inodes.length := by
        rw [heq, length_create] at hlt
        omega
      refine ⟨last, List.mem_append_right _ (List.mem_singleton_self _), hreserved, ?_, ?_, ?_⟩
      · refine Directories.childOf_eq_none.mpr fun hthere => ?_
        obtain ⟨child, hchild, hname⟩ := List.mem_map.mp hthere
        exact Directories.childOf_eq_none.mp hfresh
          (List.mem_map.mpr ⟨child, hmem child hchild, hname⟩)
      · rw [heq, node_create _ hdir', if_neg (Nat.ne_of_lt hdir'), if_pos rfl, hnew]
        exact List.mem_append_right _ (List.mem_singleton_self _)
      · rw [heq, node_create _ hdir', if_pos hnew]

/-- Only a listing brings new inodes. -/
theorem listed_fill (hdir : dir < fs.inodes.length) (hge : fs.inodes.length ≤ ino)
    (hlt : ino < (fs.fill kind dir payload).inodes.length) :
    kind = .listDir ∧
      ∃ entry, fs.Listed dir (listingEntries payload) (fs.fill kind dir payload) ino entry := by
  cases kind with
  | readFile =>
    rw [fill, length_setNode] at hlt
    exact absurd hge (Nat.not_le_of_lt hlt)
  | listDir =>
    rw [fill, length_setNode] at hlt
    obtain ⟨entry, hlisted⟩ := listed_addAll hdir hge hlt
    have hne : ino ≠ dir := Nat.ne_of_gt (Nat.lt_of_lt_of_le hdir hge)
    refine ⟨rfl, entry, hlisted.mem, hlisted.reserved, hlisted.fresh, ?_, ?_⟩
    · have hkeep := (fs.applyListing dir payload).node_setNode_of_keeps dir dir
        (f := fun node => { node with loaded := true }) Inode.children fun _ => rfl
      rw [fill, hkeep]
      exact hlisted.child
    · rw [fill, node_setNode_of_ne _ _ hne]
      exact hlisted.node

end P9Fs

end

end TabLinux

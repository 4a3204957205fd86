/-
What one message asks of the tree, with everything the handlers check first: which inode
its fid names, which entry is made or taken off, what is written to the log, and which
request to the host is left behind.
-/
import TabLinux.P9Answers

namespace TabLinux

open Bytes

variable {fs fs' : P9Fs} {fid : U32} {dir : Nat} {ty : TMsg} {out : Outcome}

variable {rest name : Bytes} {target : Nat}

/-- The node that a message creates, and what the log says about it. -/
inductive Creates (dir : Nat) : TMsg → Inode → ChangeOp → Prop
  | file (perm : U32) : Creates dir .lcreate { Inode.file dir with perm := perm } .write
  | dir : Creates dir .mkdir (Inode.dir dir) .mkdir

/-- A change of an inode that leaves its place in the tree alone. -/
structure Inode.KeepsPlace (f : Inode → Inode) : Prop where
  isDir : ∀ node, (f node).isDir = node.isDir
  parent : ∀ node, (f node).parent = node.parent
  children : ∀ node, (f node).children = node.children

/-- The tree, the log and the parked request after a handler. -/
inductive TreeEdit (d : Virtio9p) (ty : TMsg) (c : Bytes) : Virtio9p → Prop
  | keep {d' : Virtio9p} (hinodes : d'.fs.inodes = d.fs.inodes)
      (hlog : d'.dirtyChanges = d.dirtyChanges) (hdefer : d'.deferPending = d.deferPending) :
      TreeEdit d ty c d'
  | park {start target : Nat} {kind : ReqKind} (off : U64) (len : U32)
      (hsubject : d.fs.subject c = some start) (hreached : d.fs.Reached start target)
      (hkind : (d.fs.node target).isDir = kind.wantsDir)
      (hstub : (d.fs.node target).loaded = false) :
      TreeEdit d ty c { d with deferPending := some ⟨kind, d.fs.pathOf target, off, len, target⟩ }
  | create {d' : Virtio9p} {dir : Nat} {name : Bytes} {node : Inode} {op : ChangeOp}
      (hcreates : Creates dir ty node op) (hsubject : d.fs.subject c = some dir)
      (hname : parseName c = some name) (hdir : (d.fs.node dir).isDir = true)
      (hfresh : d.fs.child dir name = none)
      (hinodes : d'.fs.inodes = (d.fs.create dir name node).inodes)
      (hlog : d'.dirtyChanges =
        (d.mark ((d.fs.create dir name node).pathOf d.fs.inodes.length) op).dirtyChanges)
      (hdefer : d'.deferPending = d.deferPending) : TreeEdit d ty c d'
  | chmod {d' : Virtio9p} {ino : Nat} (mode : U32) (hty : ty = .setattr)
      (hsubject : d.fs.subject c = some ino)
      (hinodes : d'.fs.inodes = (d.fs.setNode ino fun node => { node with perm := mode }).inodes)
      (hlog : d'.dirtyChanges = d.dirtyChanges) (hdefer : d'.deferPending = d.deferPending) :
      TreeEdit d ty c d'
  | edit {d' : Virtio9p} {ino : Nat} {f : Inode → Inode}
      (hty : (ty = .write ∧ (d.fs.node ino).isDir = false) ∨ (ty = .setattr ∧ setsSize c = true))
      (hsubject : d.fs.subject c = some ino) (hf : Inode.KeepsPlace f)
      (hinodes : d'.fs.inodes = (d.fs.setNode ino f).inodes)
      (hlog : d'.dirtyChanges = (d.mark ((d.fs.setNode ino f).pathOf ino) .write).dirtyChanges)
      (hdefer : d'.deferPending = d.deferPending)
      (hloaded : (d.fs.node ino).isDir = true → ∀ node, (f node).loaded = node.loaded) :
      TreeEdit d ty c d'
  | unlink {d' : Virtio9p} {dir target : Nat} (hunlinks : Unlinks d.fs c ty dir target)
      (hempty : (d.fs.node target).isDir = true → (d.fs.node target).children = [])
      (hinodes : d'.fs.inodes = (d.fs.setNode dir fun node =>
        { node with children := node.children.filter fun entry => entry.2 ≠ target }).inodes)
      (hlog : d'.dirtyChanges = (d.mark (d.fs.pathOf target) .delete).dirtyChanges)
      (hdefer : d'.deferPending = d.deferPending) : TreeEdit d ty c d'

theorem P9Fs.pathParts_congr (hinodes : fs.inodes = fs'.inodes) (fuel ino : Nat) :
    fs.pathParts fuel ino = fs'.pathParts fuel ino := by
  induction fuel generalizing ino with
  | zero => rfl
  | succ fuel ih =>
    simp only [pathParts, node_congr hinodes, ih]

theorem P9Fs.pathOf_congr (hinodes : fs.inodes = fs'.inodes) (ino : Nat) :
    fs.pathOf ino = fs'.pathOf ino := by
  rw [pathOf, pathOf, hinodes, pathParts_congr hinodes]

/-- What is recorded does not depend on the tree. -/
theorem Virtio9p.mark_log (d : Virtio9p) (fs : P9Fs) (path : Bytes) (op : ChangeOp) :
    (({ d with fs := fs } : Virtio9p).mark path op).dirtyChanges =
      (d.mark path op).dirtyChanges := by
  unfold mark
  split <;> rfl

theorem Virtio9p.mark_deferPending (d : Virtio9p) (path : Bytes) (op : ChangeOp) :
    (d.mark path op).deferPending = d.deferPending := by
  rw [d.mark_eq]

section

variable {d : Virtio9p} {c : Bytes}

/-- A handler that creates an entry and records it. -/
theorem TreeEdit.created {node : Inode} {op : ChangeOp} (fs : P9Fs)
    (hcreates : Creates dir ty node op) (hsubject : d.fs.subject c = some dir)
    (hname : parseName c = some name) (hdir : (d.fs.node dir).isDir = true)
    (hfresh : d.fs.child dir name = none)
    (hinodes : fs.inodes = (d.fs.create dir name node).inodes) :
    TreeEdit d ty c (({ d with fs := fs } : Virtio9p).mark (fs.pathOf d.fs.inodes.length) op) := by
  refine .create hcreates hsubject hname hdir hfresh ?_ ?_ ?_
  · rw [Virtio9p.mark_fs]
    exact hinodes
  · rw [P9Fs.pathOf_congr hinodes]
    exact d.mark_log fs _ op
  · exact Virtio9p.mark_deferPending _ _ op

/-- A handler that edits an inode and records it. -/
theorem TreeEdit.edited {ino : Nat} {f : Inode → Inode} (fs : P9Fs)
    (hty : (ty = .write ∧ (d.fs.node ino).isDir = false) ∨ (ty = .setattr ∧ setsSize c = true))
    (hsubject : d.fs.subject c = some ino) (hf : Inode.KeepsPlace f)
    (hinodes : fs.inodes = (d.fs.setNode ino f).inodes)
    (hloaded : (d.fs.node ino).isDir = true → ∀ node, (f node).loaded = node.loaded) :
    TreeEdit d ty c (({ d with fs := fs } : Virtio9p).mark (fs.pathOf ino) .write) := by
  refine .edit hty hsubject hf ?_ ?_ ?_ hloaded
  · rw [Virtio9p.mark_fs]
    exact hinodes
  · rw [P9Fs.pathOf_congr hinodes]
    exact d.mark_log fs _ .write
  · exact Virtio9p.mark_deferPending _ _ .write

/-- A handler that takes an entry off and records it. -/
theorem TreeEdit.unlinked {target : Nat} (fs : P9Fs) (hunlinks : Unlinks d.fs c ty dir target)
    (hempty : (d.fs.node target).isDir = true → (d.fs.node target).children = [])
    (hinodes : fs.inodes = (d.fs.setNode dir fun node =>
      { node with children := node.children.filter fun entry => entry.2 ≠ target }).inodes) :
    TreeEdit d ty c (({ d with fs := fs } : Virtio9p).mark (d.fs.pathOf target) .delete) := by
  refine .unlink hunlinks hempty ?_ (d.mark_log fs _ .delete)
    (Virtio9p.mark_deferPending _ _ .delete)
  rw [Virtio9p.mark_fs]
  exact hinodes

theorem Virtio9p.handleMsg_edit (hout : d.handleMsg ty c = .ok out) : TreeEdit d ty c out.2 := by
  cases handleMsg_handled hout with
  | fail | reply | session | bind | unbind => exact .keep rfl rfl rfl
  | park off len _ hsubject hreached hkind hstub =>
    exact .park off len hsubject hreached hkind hstub
  | createFile dfid mode hmakes =>
    exact TreeEdit.created _ (.file (mode &&& 0o777)) hmakes.subject hmakes.parsed hmakes.isDir
      hmakes.fresh rfl
  | createDir hmakes =>
    exact TreeEdit.created _ .dir hmakes.subject hmakes.parsed hmakes.isDir hmakes.fresh rfl
  | write hparse hfid hsubject hfile =>
    refine TreeEdit.edited _ (Or.inl ⟨rfl, hfile⟩) hsubject ⟨?_, ?_, ?_⟩ rfl fun hdir => ?_
    · exact fun _ => rfl
    · exact fun _ => rfl
    · exact fun _ => rfl
    · cases hfile.symm.trans hdir
  | chmod mode hsubject => exact .chmod (mode &&& 0o777) rfl hsubject rfl rfl rfl
  | truncate hparse hfid hsubject hsize perm =>
    have hsets : setsSize c = true := by
      rw [setsSize, hparse]
      exact hsize
    refine TreeEdit.edited _ (Or.inr ⟨rfl, hsets⟩) hsubject ⟨?_, ?_, ?_⟩ rfl fun _ _ => rfl
    · exact fun _ => rfl
    · exact fun _ => rfl
    · exact fun _ => rfl
  | unlink fids hunlinks hempty => exact TreeEdit.unlinked _ hunlinks hempty rfl

end

end TabLinux

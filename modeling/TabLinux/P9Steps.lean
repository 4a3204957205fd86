/-
What one message does to the shared folder.  Every handler leaves the device as it was,
parks the request, or makes one of a few changes to the tree; the invariants of the tree
are proved for these changes.
-/
import TabLinux.Virtio9p

namespace TabLinux

open Bytes

variable {ino dir : Nat} {fs fs' : P9Fs} {out : Outcome}

variable {f : Inode → Inode} {cur : Nat}

namespace P9Fs

@[simp] theorem length_setNode (fs : P9Fs) (ino : Nat) (f : Inode → Inode) :
    (fs.setNode ino f).inodes.length = fs.inodes.length := by
  rw [setNode, List.length_modify]

@[simp] theorem fids_setNode (fs : P9Fs) (ino : Nat) (f : Inode → Inode) :
    (fs.setNode ino f).fids = fs.fids := rfl

theorem node_setNode (fs : P9Fs) (ino j : Nat) (f : Inode → Inode) :
    (fs.setNode ino f).node j =
      if j = ino ∧ ino < fs.inodes.length then f (fs.node ino) else fs.node j := by
  unfold node setNode
  by_cases hj : j = ino
  · subst hj
    by_cases hlt : j < fs.inodes.length
    · simp [hlt]
    · simp [hlt]
  · simp [hj, Ne.symm hj]

theorem node_setNode_of_ne (fs : P9Fs) {j : Nat} (f : Inode → Inode) (hj : j ≠ ino) :
    (fs.setNode ino f).node j = fs.node j := by
  rw [node_setNode, if_neg fun h => hj h.1]

theorem node_setNode_self (fs : P9Fs) (f : Inode → Inode) (hlt : ino < fs.inodes.length) :
    (fs.setNode ino f).node ino = f (fs.node ino) := by
  rw [node_setNode, if_pos ⟨rfl, hlt⟩]

/-- A projection that the change keeps. -/
theorem node_setNode_of_keeps {α : Type} (fs : P9Fs) (ino j : Nat)
    (g : Inode → α) (hf : ∀ node, g (f node) = g node) :
    g ((fs.setNode ino f).node j) = g (fs.node j) := by
  rw [node_setNode]
  split
  · rename_i h
    rw [hf, h.1]
  · rfl

/-- Beyond the table there are only empty files. -/
theorem node_of_ge (fs : P9Fs) (hge : fs.inodes.length ≤ ino) : fs.node ino = Inode.file 0 := by
  rw [node, List.getD_eq_getElem?_getD, List.getElem?_eq_none hge, Option.getD_none]

theorem node_alloc (fs : P9Fs) (node : Inode) (j : Nat) :
    (fs.alloc node).2.node j = if j = fs.inodes.length then node else fs.node j := by
  unfold P9Fs.node alloc
  simp only [List.getD_eq_getElem?_getD]
  rcases Nat.lt_trichotomy j fs.inodes.length with hlt | heq | hgt
  · rw [List.getElem?_append_left hlt, if_neg (Nat.ne_of_lt hlt)]
  · subst heq
    simp
  · rw [List.getElem?_eq_none (by simp; omega), List.getElem?_eq_none (by omega),
      if_neg (Nat.ne_of_gt hgt)]

theorem node_congr (hinodes : fs.inodes = fs'.inodes) (ino : Nat) : fs.node ino = fs'.node ino := by
  rw [node, node, hinodes]

theorem child_congr (hinodes : fs.inodes = fs'.inodes) (dir : Nat) (name : Bytes) :
    fs.child dir name = fs'.child dir name := by
  rw [child, child, node_congr hinodes]

structure Wf (fs : P9Fs) : Prop where
  root : 0 < fs.inodes.length
  parent : ∀ ino, ino < fs.inodes.length → ino ≠ 0 → (fs.node ino).parent < ino
  rootParent : (fs.node 0).parent = 0
  children : ∀ ino, ino < fs.inodes.length → ∀ entry ∈ (fs.node ino).children,
    entry.2 < fs.inodes.length
  fids : ∀ fid ino, fs.fids fid = some ino → ino < fs.inodes.length

theorem Wf.parent_lt (h : fs.Wf) (hlt : ino < fs.inodes.length) :
    (fs.node ino).parent < fs.inodes.length := by
  by_cases hzero : ino = 0
  · rw [hzero, h.rootParent]
    exact h.root
  · exact Nat.lt_trans (h.parent ino hlt hzero) hlt

theorem Wf.child_lt (h : fs.Wf) {name : Bytes} (hdir : dir < fs.inodes.length)
    (hchild : fs.child dir name = some ino) : ino < fs.inodes.length := by
  unfold P9Fs.child childOf at hchild
  obtain ⟨entry, hentry, rfl⟩ := Option.map_eq_some_iff.mp hchild
  exact h.children dir hdir entry (List.mem_of_find?_eq_some hentry)

/-- A change of one node that keeps its parent and adds no entries. -/
theorem Wf.setNode (h : fs.Wf) (ino : Nat) (hparent : ∀ node, (f node).parent = node.parent)
    (hchildren : ∀ node, ∀ entry ∈ (f node).children, entry ∈ node.children) :
    (fs.setNode ino f).Wf := by
  have hparents : ∀ j, ((fs.setNode ino f).node j).parent = (fs.node j).parent := fun j =>
    fs.node_setNode_of_keeps ino j Inode.parent hparent
  refine ⟨?_, ?_, ?_, ?_, ?_⟩
  · rw [P9Fs.length_setNode]
    exact h.root
  · intro j hj hzero
    rw [P9Fs.length_setNode] at hj
    rw [hparents]
    exact h.parent j hj hzero
  · rw [hparents]
    exact h.rootParent
  · intro j hj entry hentry
    rw [P9Fs.length_setNode] at hj ⊢
    rw [P9Fs.node_setNode] at hentry
    split at hentry
    · rename_i hself
      rw [hself.1] at hj
      exact h.children ino hj entry (hchildren _ entry hentry)
    · exact h.children j hj entry hentry
  · intro fid j hj
    rw [P9Fs.length_setNode]
    exact h.fids fid j hj

theorem Wf.bind (h : fs.Wf) (fid : U32) (hino : ino < fs.inodes.length) :
    (fs.bind fid ino).Wf := by
  refine ⟨h.root, h.parent, h.rootParent, h.children, ?_⟩
  intro other j hj
  change Function.update fs.fids fid (some ino) other = some j at hj
  by_cases heq : other = fid
  · rw [heq, Function.update_self] at hj
    cases hj
    exact hino
  · rw [Function.update_of_ne heq] at hj
    exact h.fids other j hj

theorem Wf.unbind (h : fs.Wf) (fid : U32) : (fs.unbind fid).Wf := by
  refine ⟨h.root, h.parent, h.rootParent, h.children, ?_⟩
  intro other j hj
  change Function.update fs.fids fid none other = some j at hj
  by_cases heq : other = fid
  · rw [heq, Function.update_self] at hj
    cases hj
  · rw [Function.update_of_ne heq] at hj
    exact h.fids other j hj

/-- A new node with an entry in its directory. -/
def create (fs : P9Fs) (dir : Nat) (name : Bytes) (node : Inode) : P9Fs :=
  (fs.alloc node).2.addChild dir name fs.inodes.length

@[simp] theorem length_create (fs : P9Fs) (dir : Nat) (name : Bytes) (node : Inode) :
    (fs.create dir name node).inodes.length = fs.inodes.length + 1 := by
  rw [create, addChild, length_setNode, alloc, List.length_append, List.length_singleton]

/-- Only the directory and the new node differ. -/
theorem node_create (fs : P9Fs) (hdir : dir < fs.inodes.length) (name : Bytes)
    (node : Inode) (j : Nat) :
    (fs.create dir name node).node j =
      if j = fs.inodes.length then node
      else if j = dir then
        { fs.node dir with children := (fs.node dir).children ++ [(name, fs.inodes.length)] }
      else fs.node j := by
  have hlen : dir < (fs.alloc node).2.inodes.length := by
    rw [alloc, List.length_append]
    omega
  rw [create, addChild, node_setNode]
  by_cases hj : j = dir
  · have hne : dir ≠ fs.inodes.length := Nat.ne_of_lt hdir
    rw [if_pos ⟨hj, hlen⟩, node_alloc, if_neg hne, hj, if_neg hne, if_pos rfl]
  · rw [if_neg fun h => hj h.1, node_alloc, if_neg hj]

theorem Wf.create (h : fs.Wf) (hdir : dir < fs.inodes.length) (name : Bytes)
    {node : Inode} (hparent : node.parent = dir) (hchildren : node.children = []) :
    (fs.create dir name node).Wf := by
  refine ⟨?_, ?_, ?_, ?_, ?_⟩
  · rw [P9Fs.length_create]
    omega
  · intro j hj hzero
    rw [P9Fs.length_create] at hj
    rw [fs.node_create hdir]
    split
    · rename_i hnew
      rw [hparent, hnew]
      exact hdir
    split
    · rename_i hself
      rw [hself] at hzero ⊢
      exact h.parent dir hdir hzero
    · exact h.parent j (by omega) hzero
  · have hne : 0 ≠ fs.inodes.length := Nat.ne_of_lt h.root
    rw [fs.node_create hdir, if_neg hne]
    split
    · rename_i hself
      rw [← hself]
      exact h.rootParent
    · exact h.rootParent
  · intro j hj entry hentry
    rw [P9Fs.length_create] at hj ⊢
    rw [fs.node_create hdir] at hentry
    split at hentry
    · rw [hchildren] at hentry
      cases hentry
    split at hentry
    · rcases List.mem_append.mp hentry with hold | hnew
      · exact Nat.lt_succ_of_lt (h.children dir hdir entry hold)
      · rw [List.mem_singleton.mp hnew]
        exact Nat.lt_succ_self _
    · exact Nat.lt_succ_of_lt (h.children j (by omega) entry hentry)
  · intro fid j hj
    rw [P9Fs.length_create]
    exact Nat.lt_succ_of_lt (h.fids fid j hj)

theorem Wf.touch (h : fs.Wf) : fs.touch.Wf := ⟨h.root, h.parent, h.rootParent, h.children, h.fids⟩

end P9Fs

/-- The inode that the first fid of a message refers to. -/
def P9Fs.subject (fs : P9Fs) (c : Bytes) : Option Nat :=
  (curU32 c).bind fun field => fs.fids field.1

/-- The name that follows the first fid. -/
def parseName (c : Bytes) : Option Bytes :=
  (curU32 c).bind fun field => (curStr field.2).map (·.1)

/-- Does a message set the size of its inode? -/
def setsSize (c : Bytes) : Bool := (parseTsetattr c).any fun attr => attr.2.1.getLsbD 3

theorem P9Fs.subject_eq {c : Bytes} (hfid : curU32 c = some (fid, rest)) :
    fs.subject c = fs.fids fid := by
  rw [subject, hfid]
  rfl

/-- The requests that can be parked on the host. -/
def TMsg.parks : TMsg → Bool
  | .walk | .read | .readdir => true
  | _ => false

/-- Is the request for a directory? -/
def ReqKind.wantsDir : ReqKind → Bool
  | .readFile => false
  | .listDir => true

/-- The inodes that names, `.` and `..` lead to. -/
inductive P9Fs.Reached (fs : P9Fs) (start : Nat) : Nat → Prop
  | refl : fs.Reached start start
  | up {cur : Nat} (h : fs.Reached start cur) : fs.Reached start (fs.node cur).parent
  | down {cur next : Nat} {name : Bytes} (h : fs.Reached start cur)
      (hchild : fs.child cur name = some next) : fs.Reached start next

theorem P9Fs.Reached.lt {start cur : Nat} (h : fs.Reached start cur) (hwf : fs.Wf)
    (hstart : start < fs.inodes.length) : cur < fs.inodes.length := by
  induction h with
  | refl => exact hstart
  | up _ ih => exact hwf.parent_lt ih
  | down _ hchild ih => exact hwf.child_lt ih hchild

/-- A walk ends at an inode it has reached; only a directory has to be listed. -/
def Walk.From (fs : P9Fs) (start : Nat) : Walk → Prop
  | .malformed => True
  | .unlisted dir => fs.Reached start dir ∧ (fs.node dir).isDir = true ∧
      (fs.node dir).loaded = false
  | .ended cur _ => fs.Reached start cur

theorem Virtio9p.walkNames_from {d : Virtio9p} {start n cur : Nat} (c : Bytes)
    (hcur : d.fs.Reached start cur) (qids : List (Byte × Nat)) :
    (d.walkNames n c cur qids).From d.fs start := by
  induction n generalizing c cur qids with
  | zero => exact hcur
  | succ n ih =>
    unfold walkNames
    split
    · trivial
    split
    · exact ih _ hcur.up _
    split
    · exact ih _ hcur _
    split
    · rename_i hlist
      simp only [Bool.and_eq_true, Bool.not_eq_true'] at hlist
      exact ⟨hcur, hlist.1.2, hlist.2⟩
    split
    · exact hcur
    · rename_i next hchild
      exact ih _ (hcur.down hchild) _

/-- A message names a new entry of a directory. -/
structure Virtio9p.Makes (d : Virtio9p) (c : Bytes) (dir : Nat) (name : Bytes) :
    Prop where
  subject : d.fs.subject c = some dir
  parsed : parseName c = some name
  isDir : (d.fs.node dir).isDir = true
  fresh : d.fs.child dir name = none

/-- The entry that a message takes off: that of its own inode, or one it names. -/
inductive Unlinks (fs : P9Fs) (c : Bytes) : TMsg → (dir target : Nat) → Prop
  | remove {target : Nat} (hsubject : fs.subject c = some target) :
      Unlinks fs c .remove (fs.node target).parent target
  | unlinkat {dir target : Nat} {name : Bytes} (hsubject : fs.subject c = some dir)
      (hname : parseName c = some name) (hchild : fs.child dir name = some target) :
      Unlinks fs c .unlinkat dir target

/-- The outcome of a handler, with all that it has checked. -/
inductive Handled (d : Virtio9p) (c : Bytes) : TMsg → Outcome → Prop
  | fail {ty : TMsg} (errno : Errno) : Handled d c ty (d.fail errno)
  | park {ty : TMsg} {start target : Nat} {kind : ReqKind} (off : U64) (len : U32)
      (hparks : ty.parks = true) (hsubject : d.fs.subject c = some start)
      (hreached : d.fs.Reached start target) (hkind : (d.fs.node target).isDir = kind.wantsDir)
      (hstub : (d.fs.node target).loaded = false) : Handled d c ty (d.defer kind target off len)
  | reply {ty : TMsg} {body : Bytes} (hlen : ty.parks = false → body.length ≤ 153) :
      Handled d c ty (d.reply body)
  | session (msize : U32) {body : Bytes} (hlen : body.length ≤ 153) : Handled d c .version
        ({ d with fs := { d.fs with msize := msize, fids := fun _ => none } }.reply body)
  | bind {ty : TMsg} (fid : U32) {ino : Nat} (hino : d.fs.Wf → ino < d.fs.inodes.length)
      {body : Bytes} (hlen : ty.parks = false → body.length ≤ 153) :
      Handled d c ty ({ d with fs := d.fs.bind fid ino }.reply body)
  | unbind (fid : U32) : Handled d c .clunk ({ d with fs := d.fs.unbind fid }.reply [])
  | createFile (dfid mode : U32) {dir : Nat} {name : Bytes}
      (hmakes : d.Makes c dir name) :
      Handled d c .lcreate
        (let n := d.fs.inodes.length
        let node := { Inode.file dir with perm := mode &&& 0o777 }
        let fs := ((d.fs.create dir name node).bind dfid n).touch
        ({ d with fs := fs }.mark (fs.pathOf n) .write).reply (putQid qtFile n ++ putU32 0))
  | createDir {dir : Nat} {name : Bytes} (hmakes : d.Makes c dir name) : Handled d c .mkdir
        (let n := d.fs.inodes.length
        let fs := (d.fs.create dir name (Inode.dir dir)).touch
        ({ d with fs := fs }.mark (fs.pathOf n) .mkdir).reply (putQid qtDir n))
  | write {fid : U32} {offset : U64} {data : Bytes} {ino : Nat}
      (hparse : parseTwrite c = some (fid, offset, data)) (hfid : d.fs.fids fid = some ino)
      (hsubject : d.fs.subject c = some ino) (hfile : (d.fs.node ino).isDir = false) :
      Handled d c .write
        (let fs := (d.fs.setNode ino fun node =>
          node.filled (writeAt node.data offset.toNat data)).touch
        ({ d with fs := fs }.mark (fs.pathOf ino) .write).reply
          (putU32 (BitVec.ofNat 32 data.length)))
  | chmod (mode : U32) {ino : Nat} (hsubject : d.fs.subject c = some ino) :
      Handled d c .setattr
        ({ d with fs := d.fs.setNode ino fun node =>
          { node with perm := mode &&& 0o777 } }.reply [])
  | truncate {fid valid mode : U32} {size : U64} {ino : Nat}
      (hparse : parseTsetattr c = some (fid, valid, mode, size))
      (hfid : d.fs.fids fid = some ino) (hsubject : d.fs.subject c = some ino)
      (hsize : valid.getLsbD 3 = true) (perm : Inode → U32) :
      Handled d c .setattr
        (let fs := (d.fs.setNode ino fun node =>
          { node with perm := perm node, data := resize node.data size.toNat, size := size }).touch
        ({ d with fs := fs }.mark (fs.pathOf ino) .write).reply [])
  | unlink {ty : TMsg} {dir target : Nat} (fids : U32 → Option Nat)
      (hunlinks : Unlinks d.fs c ty dir target)
      (hempty : (d.fs.node target).isDir = true → (d.fs.node target).children = [])
      (hfids : ∀ fid ino, fids fid = some ino → d.fs.fids fid = some ino) :
      Handled d c ty
        (({ d with fs := { (d.fs.setNode dir fun node =>
          { node with children := node.children.filter fun entry => entry.2 ≠ target }) with
            fids := fids
            dirty := d.fs.dirty + 1 } }.mark (d.fs.pathOf target) .delete).reply [])

/-- The fid and the name at the front of a message. -/
theorem parseName_eq {c rest' : Bytes} (hfid : curU32 c = some (fid, rest))
    (hname : curStr rest = some (name, rest')) : parseName c = some name := by
  rw [parseName, hfid]
  change (curStr rest).map (·.1) = some name
  rw [hname]
  rfl

/-- The fid of a read. -/
theorem parseTread_fid {c : Bytes} {fid count : U32} {offset : U64}
    (hparse : parseTread c = some (fid, offset, count)) : ∃ rest, curU32 c = some (fid, rest) := by
  obtain ⟨⟨_, rest⟩, hfid, hparse⟩ := Option.bind_eq_some_iff.mp hparse
  obtain ⟨⟨_, _⟩, -, hparse⟩ := Option.bind_eq_some_iff.mp hparse
  obtain ⟨⟨_, _⟩, -, hparse⟩ := Option.bind_eq_some_iff.mp hparse
  cases hparse
  exact ⟨rest, hfid⟩

/-- Two changes of one node. -/
theorem P9Fs.setNode_setNode (fs : P9Fs) (ino : Nat) (f g : Inode → Inode) :
    (fs.setNode ino f).setNode ino g = fs.setNode ino fun node => g (f node) := by
  unfold setNode
  rw [List.modify_modify_eq]
  rfl

/-- The tree after an entry is taken off a directory. -/
theorem P9Fs.unlinkChild_ok {target : Nat} (hunlink : fs.unlinkChild dir target = .ok fs') :
    fs' = fs.setNode dir fun node =>
      { node with children := node.children.filter fun entry => entry.2 ≠ target } := by
  unfold unlinkChild at hunlink
  split at hunlink
  · cases hunlink
  · exact (Except.ok.inj hunlink).symm

theorem P9Fs.unlinkChild_empty (hunlink : fs.unlinkChild dir target = .ok fs')
    (hdir : (fs.node target).isDir = true) : (fs.node target).children = [] := by
  unfold unlinkChild at hunlink
  split at hunlink
  · cases hunlink
  · rename_i hempty
    simpa [hdir] using hempty

section

variable {d : Virtio9p} {c : Bytes}

namespace Virtio9p

section

variable (d : Virtio9p) (c : Bytes)

theorem twalk_handled : Handled d c .walk (d.twalk c) := by
  unfold twalk
  split
  · exact .fail _
  rename_i fid newfid nwname names hparse
  obtain ⟨⟨_, _⟩, hfid, hparse⟩ := Option.bind_eq_some_iff.mp hparse
  obtain ⟨⟨_, _⟩, -, hparse⟩ := Option.bind_eq_some_iff.mp hparse
  obtain ⟨⟨count, _⟩, -, hparse⟩ := Option.bind_eq_some_iff.mp hparse
  cases hparse
  split
  · exact .fail _
  rename_i start hstart
  have hfrom : (d.walkNames count.toNat names start []).From d.fs start :=
    walkNames_from names .refl []
  split
  · exact .fail _
  · rename_i dir hwalk
    rw [hwalk] at hfrom
    exact .park 0 0 rfl ((P9Fs.subject_eq hfid).trans hstart) hfrom.1 hfrom.2.1 hfrom.2.2
  rename_i cur qids hwalk
  rw [hwalk] at hfrom
  split
  · exact .bind newfid (fun hwf => hfrom.lt hwf (hwf.fids _ _ hstart)) fun h => by cases h
  split
  · exact .fail _
  · exact .reply fun h => by cases h

theorem tread_handled : Handled d c .read (d.tread c) := by
  unfold tread
  split
  · exact .fail _
  rename_i fid offset count hparse
  obtain ⟨rest, hfid⟩ := parseTread_fid hparse
  split
  · exact .fail _
  rename_i ino hino
  split
  · exact .fail _
  rename_i hdir
  split
  · rename_i hlazy
    simp only [Bool.and_eq_true, Bool.not_eq_true'] at hlazy
    exact .park offset count rfl ((P9Fs.subject_eq hfid).trans hino) .refl
      (Bool.not_eq_true _ ▸ hdir) hlazy.2
  · exact .reply fun h => by cases h

theorem treaddir_handled : Handled d c .readdir (d.treaddir c) := by
  unfold treaddir
  split
  · exact .fail _
  rename_i fid offset count hparse
  obtain ⟨rest, hfid⟩ := parseTread_fid hparse
  split
  · exact .fail _
  rename_i ino hino
  split
  · exact .fail _
  rename_i hdir
  split
  · rename_i hlazy
    simp only [Bool.and_eq_true, Bool.not_eq_true'] at hlazy
    have hisDir : (d.fs.node ino).isDir = true := by simpa using hdir
    exact .park 0 0 rfl ((P9Fs.subject_eq hfid).trans hino) .refl hisDir hlazy.2
  · exact .reply fun h => by cases h

theorem tlcreate_handled : Handled d c .lcreate (d.tlcreate c) := by
  unfold tlcreate
  split
  · exact .fail _
  rename_i dfid name mode hparse
  obtain ⟨⟨_, _⟩, hfid, hparse⟩ := Option.bind_eq_some_iff.mp hparse
  obtain ⟨⟨_, _⟩, hname, hparse⟩ := Option.bind_eq_some_iff.mp hparse
  obtain ⟨⟨_, _⟩, -, hparse⟩ := Option.bind_eq_some_iff.mp hparse
  cases hparse
  split
  · exact .fail _
  rename_i dir hdir
  split
  · exact .fail _
  rename_i hisDir
  split
  · exact .fail _
  rename_i hchild
  exact .createFile dfid mode ⟨(P9Fs.subject_eq hfid).trans hdir, parseName_eq hfid hname,
    by simpa using hisDir, by simpa using hchild⟩

theorem tmkdir_handled : Handled d c .mkdir (d.tmkdir c) := by
  unfold tmkdir
  split
  · exact .fail _
  rename_i dfid name hparse
  obtain ⟨⟨_, _⟩, hfid, hparse⟩ := Option.bind_eq_some_iff.mp hparse
  obtain ⟨⟨_, _⟩, hname, hparse⟩ := Option.bind_eq_some_iff.mp hparse
  cases hparse
  split
  · exact .fail _
  rename_i dir hdir
  split
  · exact .fail _
  rename_i hisDir
  split
  · exact .fail _
  rename_i hchild
  exact .createDir ⟨(P9Fs.subject_eq hfid).trans hdir, parseName_eq hfid hname,
    by simpa using hisDir, by simpa using hchild⟩

end

theorem twrite_handled (hout : d.twrite c = .ok out) : Handled d c .write out := by
  unfold twrite at hout
  split at hout
  · cases hout
    exact .fail _
  rename_i fid offset data hparse
  have hsubject : d.fs.subject c = d.fs.fids fid := by
    obtain ⟨⟨_, _⟩, hfid, hrest⟩ := Option.bind_eq_some_iff.mp hparse
    obtain ⟨⟨_, _⟩, -, hrest⟩ := Option.bind_eq_some_iff.mp hrest
    obtain ⟨⟨_, _⟩, -, hrest⟩ := Option.bind_eq_some_iff.mp hrest
    obtain ⟨⟨_, _⟩, -, hrest⟩ := Option.bind_eq_some_iff.mp hrest
    cases hrest
    exact P9Fs.subject_eq hfid
  split at hout
  · cases hout
    exact .fail _
  rename_i ino hfid
  dsimp only at hout
  split at hout
  · cases hout
    exact .fail _
  rename_i hfile
  split at hout
  · cases hout
  split at hout
  · cases hout
  · cases hout
    exact .write hparse hfid (hsubject.trans hfid) (Bool.not_eq_true _ ▸ hfile)

theorem tsetattr_handled (hout : d.tsetattr c = .ok out) : Handled d c .setattr out := by
  unfold tsetattr at hout
  split at hout
  · cases hout
    exact .fail _
  rename_i fid valid mode size hparse
  have hsubject : d.fs.subject c = d.fs.fids fid := by
    obtain ⟨⟨_, _⟩, hfid, hrest⟩ := Option.bind_eq_some_iff.mp hparse
    obtain ⟨⟨_, _⟩, -, hrest⟩ := Option.bind_eq_some_iff.mp hrest
    obtain ⟨⟨_, _⟩, -, hrest⟩ := Option.bind_eq_some_iff.mp hrest
    obtain ⟨⟨_, _⟩, -, hrest⟩ := Option.bind_eq_some_iff.mp hrest
    cases hrest
    exact P9Fs.subject_eq hfid
  split at hout
  · cases hout
    exact .fail _
  rename_i ino hfid
  dsimp only at hout
  split at hout
  · cases hout
    split
    · exact .chmod mode (hsubject.trans hfid)
    · exact .reply fun _ => Nat.zero_le _
  rename_i hsize
  split at hout
  · cases hout
  cases hout
  have hbit : valid.getLsbD 3 = true := by simpa using hsize
  split
  · rw [P9Fs.setNode_setNode]
    exact .truncate hparse hfid (hsubject.trans hfid) hbit fun _ => mode &&& 0o777
  · exact .truncate hparse hfid (hsubject.trans hfid) hbit fun node => node.perm

theorem tremove_handled (d : Virtio9p) (c : Bytes) : Handled d c .remove (d.tremove c) := by
  unfold tremove
  split
  · exact .fail _
  rename_i fid rest hfid
  split
  · exact .fail _
  rename_i ino hino
  split
  · exact .fail _
  rename_i fs hunlink
  have hempty := P9Fs.unlinkChild_empty hunlink
  rw [P9Fs.unlinkChild_ok hunlink]
  refine .unlink (Function.update d.fs.fids fid none)
    (.remove ((P9Fs.subject_eq hfid).trans hino)) hempty ?_
  intro other j hj
  by_cases heq : other = fid
  · rw [heq, Function.update_self] at hj
    cases hj
  · rwa [Function.update_of_ne heq] at hj

theorem tunlinkat_handled (d : Virtio9p) (c : Bytes) :
    Handled d c .unlinkat (d.tunlinkat c) := by
  unfold tunlinkat
  split
  · exact .fail _
  rename_i dfid name hparse
  obtain ⟨⟨_, _⟩, hfid, hparse⟩ := Option.bind_eq_some_iff.mp hparse
  obtain ⟨⟨_, _⟩, hname, hparse⟩ := Option.bind_eq_some_iff.mp hparse
  cases hparse
  split
  · exact .fail _
  rename_i dir hdir
  split
  · exact .fail _
  rename_i target hchild
  split
  · exact .fail _
  rename_i fs hunlink
  have hempty := P9Fs.unlinkChild_empty hunlink
  rw [P9Fs.unlinkChild_ok hunlink]
  exact .unlink d.fs.fids (.unlinkat ((P9Fs.subject_eq hfid).trans hdir)
    (parseName_eq hfid hname) hchild) hempty fun _ _ h => h

theorem handleMsg_handled {ty : TMsg} (hout : d.handleMsg ty c = .ok out) : Handled d c ty out := by
  cases ty with
  | write => exact twrite_handled hout
  | setattr => exact tsetattr_handled hout
  | walk => exact Except.ok.inj hout ▸ d.twalk_handled c
  | read => exact Except.ok.inj hout ▸ d.tread_handled c
  | readdir => exact Except.ok.inj hout ▸ d.treaddir_handled c
  | lcreate => exact Except.ok.inj hout ▸ d.tlcreate_handled c
  | mkdir => exact Except.ok.inj hout ▸ d.tmkdir_handled c
  | remove => exact Except.ok.inj hout ▸ d.tremove_handled c
  | unlinkat => exact Except.ok.inj hout ▸ d.tunlinkat_handled c
  | version =>
    cases hout
    unfold tversion
    split
    · exact .fail _
    refine .session _ ?_
    simp only [List.length_append, length_putU32, length_putStr]
    split <;> decide
  | attach =>
    cases hout
    unfold tattach
    split
    · exact .fail _
    · exact .bind _ (fun hwf => hwf.root) fun _ => by simp
  | clunk =>
    cases hout
    unfold tclunk
    split
    · exact .fail _
    · exact .unbind _
  | getattr =>
    cases hout
    unfold tgetattr
    split
    · exact .fail _
    split
    · exact .fail _
    · exact .reply fun _ => by simp
  | lopen =>
    cases hout
    unfold tlopen
    split
    · exact .fail _
    split
    · exact .fail _
    · exact .reply fun _ => by simp
  | statfs =>
    cases hout
    unfold tstatfs
    split
    · exact .fail _
    · exact .reply fun _ => by simp
  | fsync | flush | xattrwalk =>
    cases hout
    exact .reply fun _ => by simp

end Virtio9p

theorem P9Fs.Wf.subject_lt (h : fs.Wf) (hsubject : fs.subject c = some ino) :
    ino < fs.inodes.length := by
  obtain ⟨field, -, hfid⟩ := Option.bind_eq_some_iff.mp hsubject
  exact h.fids _ _ hfid

/-- The device after a handler. -/
def TreeStep (d : Virtio9p) (ty : TMsg) (c : Bytes) (d' : Virtio9p) : Prop :=
  ∃ out, Handled d c ty out ∧ d' = out.2

theorem Virtio9p.handleMsg_step {ty : TMsg} (hout : d.handleMsg ty c = .ok out) :
    TreeStep d ty c out.2 :=
  ⟨out, handleMsg_handled hout, rfl⟩

end

@[simp] theorem Virtio9p.mark_fs (d : Virtio9p) (path : Bytes) (op : ChangeOp) :
    (d.mark path op).fs = d.fs := by
  unfold mark
  split <;> rfl

theorem Virtio9p.mark_eq (d : Virtio9p) (path : Bytes) (op : ChangeOp) :
    d.mark path op = { d with dirtyChanges := (d.mark path op).dirtyChanges } := by
  unfold mark
  split <;> rfl

section

variable {d d' : Virtio9p} {ty : TMsg} {c : Bytes}

namespace TreeStep

variable (h : TreeStep d ty c d')
include h

/-- Handlers change the tree, the write-back log and the parked request only. -/
theorem rest :
    d' = { d with
      fs := d'.fs
      dirtyChanges := d'.dirtyChanges
      deferPending := d'.deferPending } := by
  obtain ⟨out, h, rfl⟩ := h
  cases h with
  | fail | reply | park | session | bind | unbind | chmod => rfl
  | createFile | createDir | write | truncate | unlink =>
    dsimp only [Virtio9p.reply]
    rw [Virtio9p.mark_eq]

theorem wf (hwf : d.fs.Wf) : d'.fs.Wf := by
  obtain ⟨out, h, rfl⟩ := h
  cases h with
  | fail | reply | park => exact hwf
  | session => exact ⟨hwf.root, hwf.parent, hwf.rootParent, hwf.children, fun _ _ h => by cases h⟩
  | bind fid hino => exact hwf.bind fid (hino hwf)
  | unbind fid => exact hwf.unbind fid
  | @createFile dfid mode dir name hmakes =>
    rw [Virtio9p.reply, Virtio9p.mark_fs]
    refine P9Fs.Wf.touch (P9Fs.Wf.bind
      (hwf.create (hwf.subject_lt hmakes.subject) name rfl rfl) dfid ?_)
    rw [P9Fs.length_create]
    exact Nat.lt_succ_self _
  | @createDir dir name hmakes =>
    rw [Virtio9p.reply, Virtio9p.mark_fs]
    exact (hwf.create (hwf.subject_lt hmakes.subject) name rfl rfl).touch
  | chmod =>
    refine hwf.setNode _ ?_ ?_
    · exact fun _ => rfl
    · exact fun _ _ h => h
  | write | truncate =>
    rw [Virtio9p.reply, Virtio9p.mark_fs]
    refine P9Fs.Wf.touch (hwf.setNode _ ?_ ?_)
    · exact fun _ => rfl
    · exact fun _ _ h => h
  | @unlink _ dir target fids _ _ hfids =>
    rw [Virtio9p.reply, Virtio9p.mark_fs]
    have hset := hwf.setNode dir (f := fun node =>
      { node with children := node.children.filter fun entry => entry.2 ≠ target })
      (fun _ => rfl) fun _ _ h => (List.mem_filter.mp h).1
    refine ⟨hset.root, hset.parent, hset.rootParent, hset.children, ?_⟩
    intro fid ino hino
    exact hset.fids fid ino (hfids fid ino hino)

/-- No inode is ever dropped. -/
theorem length_le : d.fs.inodes.length ≤ d'.fs.inodes.length := by
  obtain ⟨out, h, rfl⟩ := h
  have hcreate : ∀ dir name node,
      d.fs.inodes.length ≤ (d.fs.create dir name node).inodes.length := by
    intro dir name node
    rw [P9Fs.length_create]
    exact Nat.le_succ _
  cases h with
  | fail | reply | park | session | bind | unbind => exact Nat.le_refl _
  | chmod => exact Nat.le_of_eq (P9Fs.length_setNode _ _ _).symm
  | createFile | createDir =>
    rw [Virtio9p.reply, Virtio9p.mark_fs]
    exact hcreate _ _ _
  | write | truncate | unlink =>
    rw [Virtio9p.reply, Virtio9p.mark_fs]
    exact Nat.le_of_eq (P9Fs.length_setNode _ _ _).symm

/-- Only some requests are parked. -/
theorem deferPending (hparks : ty.parks = false) : d'.deferPending = d.deferPending := by
  obtain ⟨out, h, rfl⟩ := h
  cases h with
  | fail | reply | session | bind | unbind | chmod => rfl
  | park _ _ htrue => cases hparks.symm.trans htrue
  | createFile | createDir | write | truncate | unlink =>
    dsimp only [Virtio9p.reply]
    rw [Virtio9p.mark_eq]

/-- A file stays a file, a directory a directory. -/
theorem isDir (hwf : d.fs.Wf) (hlt : ino < d.fs.inodes.length) :
    (d'.fs.node ino).isDir = (d.fs.node ino).isDir := by
  obtain ⟨out, h, rfl⟩ := h
  have hcreate : ∀ {dir name} node, d.Makes c dir name →
      ((d.fs.create dir name node).node ino).isDir = (d.fs.node ino).isDir := by
    intro dir name node hmakes
    rw [d.fs.node_create (hwf.subject_lt hmakes.subject), if_neg (Nat.ne_of_lt hlt)]
    split
    · rename_i hself
      rw [hself]
    · rfl
  cases h with
  | fail | reply | park | session | bind | unbind => rfl
  | chmod =>
    refine d.fs.node_setNode_of_keeps _ ino Inode.isDir ?_
    exact fun _ => rfl
  | createFile _ _ hmakes | createDir hmakes =>
    rw [Virtio9p.reply, Virtio9p.mark_fs]
    exact hcreate _ hmakes
  | write | truncate | unlink =>
    rw [Virtio9p.reply, Virtio9p.mark_fs]
    refine d.fs.node_setNode_of_keeps _ ino Inode.isDir ?_
    exact fun _ => rfl

/-- A request is parked on an inode of the tree, of the kind it asks for. -/
theorem target (hwf : d.fs.Wf)
    (hnone : d.deferPending = none) {defer : Defer} (hdefer : d'.deferPending = some defer) :
    defer.target < d.fs.inodes.length ∧ (d.fs.node defer.target).isDir = defer.kind.wantsDir := by
  obtain ⟨out, h, rfl⟩ := h
  cases h with
  | park _ _ _ hsubject hreached hkind =>
    cases hdefer
    exact ⟨hreached.lt hwf (hwf.subject_lt hsubject), hkind⟩
  | fail | reply | session | bind | unbind | chmod => cases hnone.symm.trans hdefer
  | createFile | createDir | write | truncate | unlink =>
    dsimp only [Virtio9p.reply] at hdefer
    rw [Virtio9p.mark_eq] at hdefer
    cases hnone.symm.trans hdefer

/-- The requests that can be parked do not change the files. -/
theorem of_parks (hparks : ty.parks = true) :
    d'.fs.inodes = d.fs.inodes ∧ d'.dirtyChanges = d.dirtyChanges := by
  obtain ⟨out, h, rfl⟩ := h
  cases h with
  | fail | reply | session | bind | unbind | park => exact ⟨rfl, rfl⟩
  | createFile | createDir | write | chmod | truncate => cases hparks
  | unlink _ hunlinks => cases hunlinks <;> cases hparks

end TreeStep

end

end TabLinux

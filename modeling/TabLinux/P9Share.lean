/-
The tree of a shared folder over every sequence of calls: messages of the guest, answers
of the host and the host's own seeding.  Nothing checks the names that a message or a
listing brings, or that the components of a seeded path are directories; as long as they
are in order, so is the tree.
-/
import Mathlib.Logic.Function.Iterate
import TabLinux.P9Calls

namespace TabLinux

open Bytes Paths Runs Virtio9p

variable {fs : P9Fs} {cur : Nat}

variable {path : Bytes}

/-- A call of the guest or the host, or one of the host's seeding functions. -/
inductive ShareEvent where
  | call (event : FileEvent)
  | putFile (path data : Bytes)
  | mkdirP (path : Bytes)

def Virtio9p.perform (d : Virtio9p) : ShareEvent → Except DevicePanic Virtio9p
  | .call event => d.call event
  | .putFile path data => .ok { d with fs := d.fs.putFile path data }
  | .mkdirP path => .ok { d with fs := d.fs.mkdirP path }

/-- A device as it is created, seeded by the host or filled on demand. -/
def Virtio9p.created (isLazy : Bool) (tag : Bytes) : Virtio9p :=
  if isLazy then newLazy tag else new tag

/-- The inodes that the entries lead to, from the root. -/
inductive P9Fs.Reachable (fs : P9Fs) : Nat → Prop
  | root : fs.Reachable 0
  | entry {dir : Nat} {entry : Bytes × Nat} (hdir : fs.Reachable dir)
      (hmem : entry ∈ (fs.node dir).children) : fs.Reachable entry.2

structure Virtio9p.TreeWellFormed (d : Virtio9p) : Prop where
  inRange : ∀ dir, ∀ entry ∈ (d.fs.node dir).children, entry.2 < d.fs.inodes.length
  once : ∀ dir, ((d.fs.node dir).children.map Prod.snd).Nodup
  oneList : ∀ {dir dir' entry entry'}, entry ∈ (d.fs.node dir).children →
    entry' ∈ (d.fs.node dir').children → entry.2 = entry'.2 → dir = dir'
  parent : ∀ dir, ∀ entry ∈ (d.fs.node dir).children, (d.fs.node entry.2).parent = dir
  distinct : ∀ dir, ((d.fs.node dir).children.map Prod.fst).Nodup
  fids : ∀ fid ino, d.fs.fids fid = some ino → ino < d.fs.inodes.length
  held : ∀ h ∈ d.held, h.target < d.fs.inodes.length
  /-- The loop of `path_of` ends: the parents of an inode end at the root. -/
  ends : ∀ ino, ino < d.fs.inodes.length →
    ∃ n, Nat.iterate (fun i => (d.fs.node i).parent) n ino = 0
  resolves : ∀ ino, d.fs.Reachable ino → d.fs.resolve (d.fs.pathOf ino) = some ino

/-- Every component of a path that is there already is a directory. -/
def P9Fs.passable (fs : P9Fs) (cur : Nat) : List Bytes → Bool
  | [] => true
  | seg :: rest =>
      match fs.child cur seg with
      | some i => (fs.node i).isDir && fs.passable i rest
      | none => true

/-- The names that messages and listings bring are not empty and have no slash; a seeded
path leads through directories only. -/
def Virtio9p.InOrder (d : Virtio9p) : ShareEvent → Prop
  | .call (.message chain mem) => ∀ ty, msgType? (gather mem chain.readable) = some ty →
      NamesClean ty ((gather mem chain.readable).drop 7)
  | .call (.supply id payload _) => ∀ i h, d.heldAt id = some i → d.held[i]? = some h →
      h.kind = .listDir → ∀ entry ∈ listingEntries payload, slash ∉ entry.name
  | .call .takeChanges => True
  | .putFile path _ => d.fs.passable 0 (components slash path).dropLast = true
  | .mkdirP path => d.fs.passable 0 (components slash path) = true

structure Virtio9p.Sound (d : Virtio9p) : Prop where
  wf : d.Wf
  tree : d.fs.Tree
  rootDir : (d.fs.node 0).isDir = true

theorem P9Fs.Reachable.linked {ino : Nat} (h : fs.Reachable ino) (hvalid : fs.shape.Valid) :
    fs.shape.Linked ino := by
  induction h with
  | root => exact fs.shape.linked_root
  | entry _ hmem ih => exact ih.child (Directories.childOf_of_mem (hvalid.distinct _) hmem)

theorem P9Fs.Wf.parents_end (h : fs.Wf) (ino : Nat) (hlt : ino < fs.inodes.length) :
    ∃ n, Nat.iterate (fun i => (fs.node i).parent) n ino = 0 := by
  induction ino using Nat.strongRecOn with
  | ind ino ih =>
    by_cases hzero : ino = 0
    · exact ⟨0, hzero⟩
    have hparent := h.parent ino hlt hzero
    obtain ⟨n, hn⟩ := ih _ hparent (Nat.lt_trans hparent hlt)
    exact ⟨n + 1, hn⟩

variable {d : Virtio9p}

theorem Virtio9p.Sound.treeWellFormed (h : d.Sound) : d.TreeWellFormed where
  inRange _ _ hmem := h.tree.valid.inRange hmem
  once := h.tree.valid.once
  oneList hmem hmem' heq := by
    have howner := h.tree.valid.owner hmem
    rw [heq, h.tree.valid.owner hmem'] at howner
    exact howner.symm
  parent _ _ hmem := h.tree.valid.owner hmem
  distinct := h.tree.valid.distinct
  fids := h.wf.tree.fids
  held held hmem := (h.wf.held held hmem).target
  ends := h.wf.tree.parents_end
  resolves _ hreachable := h.tree.resolve_pathOf (hreachable.linked h.tree.valid)

/-- A tree without entries. -/
theorem P9Fs.Tree.of_single (hlength : fs.inodes.length = 1) (hparent : (fs.node 0).parent = 0)
    (hnone : ∀ ino, (fs.node ino).children = []) : fs.Tree := by
  have hentry : ∀ {dir} {entry : Bytes × Nat}, entry ∈ fs.shape.children dir → False := by
    intro dir entry hmem
    rw [show fs.shape.children dir = [] from hnone dir] at hmem
    cases hmem
  have hnodup : ∀ {α : Type} (f : Bytes × Nat → α) dir,
      ((fs.shape.children dir).map f).Nodup := by
    intro α f dir
    rw [show fs.shape.children dir = [] from hnone dir]
    exact List.nodup_nil
  refine ⟨⟨?_, hparent, ?_, ?_, ?_, ?_, ?_, hnodup _, hnodup _⟩, ?_, ?_⟩
  · exact Nat.lt_of_lt_of_eq Nat.zero_lt_one hlength.symm
  · intro ino hlt hzero
    have hone : ino < 1 := Nat.lt_of_lt_of_eq hlt hlength
    omega
  · exact fun _ => hnone _
  · exact fun hmem => (hentry hmem).elim
  · exact fun hmem => (hentry hmem).elim
  · exact fun hmem => (hentry hmem).elim
  · exact fun ino _ => hnone ino
  · exact fun dir entry hmem => (@hentry dir entry hmem).elim

theorem P9Fs.Tree.wf (h : fs.Tree)
    (hfids : ∀ fid ino, fs.fids fid = some ino → ino < fs.inodes.length) : fs.Wf :=
  ⟨h.valid.root, fun _ hlt hzero => h.valid.parent_lt hlt hzero, h.valid.rootParent,
    fun _ _ _ hmem => h.valid.inRange hmem, hfids⟩

theorem Virtio9p.created_sound (isLazy : Bool) (tag : Bytes) : (created isLazy tag).Sound := by
  have htree : (created isLazy tag).fs.Tree := by
    refine P9Fs.Tree.of_single ?_ ?_ fun ino => ?_
    · cases isLazy <;> rfl
    · cases isLazy <;> rfl
    · cases isLazy <;> cases ino <;> rfl
  have hfids : ∀ fid, (created isLazy tag).fs.fids fid = none := by
    intro fid
    cases isLazy <;> rfl
  have hheld : (created isLazy tag).held = [] := by
    cases isLazy <;> rfl
  refine ⟨⟨htree.wf fun fid ino hfid => ?_, fun h hmem => ?_⟩, htree, ?_⟩
  · rw [hfids] at hfid
    cases hfid
  · rw [hheld] at hmem
    cases hmem
  · cases isLazy <;> rfl

section

variable {d d' : Virtio9p}

theorem Virtio9p.Sound.served (hd : d.Sound) {head : U16} {writable : List Buf}
    {msg : Bytes} {reply : Option Bytes} (hserved : Served d head writable msg reply d')
    (hclean : ∀ ty, msgType? msg = some ty → NamesClean ty (msg.drop 7)) : d'.Sound := by
  have hwf := hserved.wf hd.wf
  refine ⟨hwf, ?_, (hserved.isDir hd.wf.tree hd.wf.tree.root).trans hd.rootDir⟩
  obtain ⟨after, rfl | ⟨ty, hty, hedit⟩, hfs, -, -⟩ := hserved.edits
  · rw [hfs]
    exact hd.tree
  · rw [hfs]
    exact hedit.tree hd.wf.tree hd.tree (hclean ty hty)

/-- A message that can be parked names no new entry. -/
theorem NamesClean.of_parks {ty : TMsg} (hparks : ty.parks = true) (c : Bytes) :
    NamesClean ty c := by
  rintro (rfl | rfl)
  · cases hparks
  · cases hparks

theorem Virtio9p.Sound.filledFor (hd : d.Sound) {i : Nat} {h : Held}
    (hget : d.held[i]? = some h) {payload : Bytes} (hnames : h.kind = .listDir →
      ∀ entry ∈ listingEntries payload, slash ∉ entry.name) : (d.filledFor i h payload).Sound := by
  have hheld := hd.wf.held h (List.mem_of_getElem? hget)
  exact ⟨hd.wf.filledFor hget payload, hd.tree.fill hheld.target hheld.isDir hnames,
    (P9Fs.fill_isDir hheld.target h.kind payload hd.wf.tree.root).trans hd.rootDir⟩

theorem Virtio9p.Sound.called (hd : d.Sound) {event : FileEvent} (hcalled : Called d event d')
    (horder : d.InOrder (.call event)) : d'.Sound := by
  cases hcalled with
  | short | unknown => exact hd
  | message _ hserved =>
    have hafter := hd.served hserved horder
    exact ⟨⟨hafter.wf.tree, hafter.wf.held⟩, hafter.tree, hafter.rootDir⟩
  | @answer _ payload _ i h _ _ hfind hget hserved =>
    obtain ⟨ty, hty, hparks⟩ := (hd.wf.held h (List.mem_of_getElem? hget)).msg
    refine (hd.filledFor hget (horder i h hfind hget)).served hserved ?_
    intro ty' hty'
    rw [hty] at hty'
    cases hty'
    exact .of_parks hparks _
  | takeChanges => exact ⟨⟨hd.wf.tree, hd.wf.held⟩, hd.tree, hd.rootDir⟩

end

namespace P9Fs

/-- What seeding keeps: inodes stay what they are, and so do the fids. -/
structure Grows (fs fs' : P9Fs) : Prop where
  length_le : fs.inodes.length ≤ fs'.inodes.length
  isDir : ∀ {ino}, ino < fs.inodes.length → (fs'.node ino).isDir = (fs.node ino).isDir
  fids : fs'.fids = fs.fids

theorem Grows.refl (fs : P9Fs) : fs.Grows fs := ⟨Nat.le_refl _, fun _ => rfl, rfl⟩

theorem Grows.trans {fs' fs'' : P9Fs} (h : fs.Grows fs') (h' : fs'.Grows fs'') : fs.Grows fs'' :=
  ⟨Nat.le_trans h.length_le h'.length_le,
    fun hlt => (h'.isDir (Nat.lt_of_lt_of_le hlt h.length_le)).trans (h.isDir hlt),
    h'.fids.trans h.fids⟩

theorem grows_create (fs : P9Fs) {dir : Nat} (hdir : dir < fs.inodes.length)
    (name : Bytes) (node : Inode) : fs.Grows (fs.create dir name node) := by
  refine ⟨?_, ?_, rfl⟩
  · rw [length_create]
    exact Nat.le_succ _
  intro ino hlt
  rw [fs.node_create hdir, if_neg (Nat.ne_of_lt hlt)]
  split
  · rename_i hself
    rw [hself]
  · rfl

/-- The directory that a component leads to: one that is there, or a new one. -/
theorem enterDir_cases (fs : P9Fs) (cur : Nat) (seg : Bytes) :
    (∃ i, fs.child cur seg = some i ∧ (fs.node i).isDir = true ∧
        fs.enterDir cur seg = (i, fs)) ∨
      ((∀ i, fs.child cur seg = some i → (fs.node i).isDir = false) ∧
        fs.enterDir cur seg = (fs.inodes.length, fs.create cur seg (Inode.dir cur))) := by
  unfold enterDir
  cases hchild : fs.child cur seg with
  | none => exact Or.inr ⟨(fun _ h => nomatch h), rfl⟩
  | some i =>
    cases hdir : (fs.node i).isDir with
    | true => exact Or.inl ⟨i, rfl, hdir, by simp [hdir]⟩
    | false =>
      refine Or.inr ⟨?_, by simp [hdir, create, alloc]⟩
      intro j hj
      cases hj
      exact hdir

/-- A directory of a sound tree that can be entered. -/
structure Entered (fs : P9Fs) (cur : Nat) : Prop where
  wf : fs.Wf
  tree : fs.Tree
  lt : cur < fs.inodes.length
  isDir : (fs.node cur).isDir = true

theorem Entered.create (h : fs.Entered cur) {seg : Bytes}
    (hseg : Paths.Clean slash seg) (hfresh : fs.child cur seg = none) :
    (fs.create cur seg (Inode.dir cur)).Entered fs.inodes.length := by
  refine ⟨h.wf.create h.lt seg rfl rfl, h.tree.create h.lt h.isDir hseg hfresh rfl rfl, ?_, ?_⟩
  · rw [P9Fs.length_create]
    exact Nat.lt_succ_self _
  · rw [fs.node_create h.lt, if_pos rfl]
    rfl

/-- A new directory has no entries that a path could lead through. -/
theorem passable_create (fs : P9Fs) (hcur : cur < fs.inodes.length) (seg : Bytes)
    (rest : List Bytes) :
    (fs.create cur seg (Inode.dir cur)).passable fs.inodes.length rest = true := by
  cases rest with
  | nil => rfl
  | cons next rest =>
    have hnone : (fs.create cur seg (Inode.dir cur)).child fs.inodes.length next = none := by
      rw [child, fs.node_create hcur, if_pos rfl]
      rfl
    rw [passable, hnone]

theorem Entered.enterDirs (h : fs.Entered cur) {segs : List Bytes}
    (hclean : ∀ seg ∈ segs, Paths.Clean slash seg) (hpass : fs.passable cur segs = true) :
    (fs.enterDirs cur segs).2.Entered (fs.enterDirs cur segs).1 ∧
      fs.Grows (fs.enterDirs cur segs).2 := by
  induction segs generalizing fs cur with
  | nil => exact ⟨h, .refl fs⟩
  | cons seg rest ih =>
    have hrest : ∀ seg ∈ rest, Paths.Clean slash seg := fun other hmem =>
      hclean other (List.mem_cons_of_mem _ hmem)
    rw [P9Fs.enterDirs]
    rcases fs.enterDir_cases cur seg with ⟨i, hchild, hdir, heq⟩ | ⟨hfile, heq⟩
    · rw [P9Fs.passable, hchild] at hpass
      rw [heq]
      exact ih ⟨h.wf, h.tree, h.wf.child_lt h.lt hchild, hdir⟩ hrest
        (Bool.and_eq_true_iff.mp hpass).2
    · have hfresh : fs.child cur seg = none := by
        cases hchild : fs.child cur seg with
        | none => rfl
        | some i =>
          rw [P9Fs.passable, hchild, Bool.and_eq_true, hfile i hchild] at hpass
          cases hpass.1
      have hnew := h.create (hclean seg List.mem_cons_self) hfresh
      obtain ⟨hentered, hgrows⟩ := ih hnew hrest (fs.passable_create h.lt seg rest)
      rw [heq]
      exact ⟨hentered, (fs.grows_create h.lt seg _).trans hgrows⟩

theorem Entered.putLeaf (h : fs.Entered cur) {leaf : Bytes}
    (hleaf : Paths.Clean slash leaf) (data : Bytes) :
    (fs.putLeaf cur leaf data).Wf ∧ (fs.putLeaf cur leaf data).Tree ∧
      fs.Grows (fs.putLeaf cur leaf data) := by
  unfold P9Fs.putLeaf
  cases hchild : fs.child cur leaf with
  | none =>
    exact ⟨h.wf.create h.lt leaf rfl rfl, h.tree.create h.lt h.isDir hleaf hchild rfl rfl,
      fs.grows_create h.lt leaf _⟩
  | some i =>
    dsimp only
    split
    · exact ⟨h.wf, h.tree, .refl fs⟩
    refine ⟨h.wf.setNode i ?_ ?_, h.tree.setNode i ⟨?_, ?_, ?_⟩, ?_, ?_, rfl⟩
    · exact fun _ => rfl
    · exact fun _ _ hmem => hmem
    · exact fun _ => rfl
    · exact fun _ => rfl
    · exact fun _ => rfl
    · exact Nat.le_of_eq (fs.length_setNode i _).symm
    · exact fun _ => fs.node_setNode_of_keeps i _ Inode.isDir fun _ => rfl

end P9Fs

namespace Virtio9p

theorem Sound.grow (hd : d.Sound) (hwf : fs.Wf) (htree : fs.Tree)
    (hgrows : d.fs.Grows fs) : ({ d with fs := fs } : Virtio9p).Sound := by
  refine ⟨⟨hwf, fun h hmem => ?_⟩, htree, (hgrows.isDir hd.wf.tree.root).trans hd.rootDir⟩
  exact (hd.wf.held h hmem).mono hgrows.length_le hgrows.isDir

theorem Sound.mkdirP (hd : d.Sound) (hpass : d.fs.passable 0 (components slash path) = true) :
    ({ d with fs := d.fs.mkdirP path } : Virtio9p).Sound := by
  have hroot : d.fs.Entered 0 := ⟨hd.wf.tree, hd.tree, hd.wf.tree.root, hd.rootDir⟩
  obtain ⟨hentered, hgrows⟩ := hroot.enterDirs (fun _ => clean_of_mem_components) hpass
  exact hd.grow hentered.wf hentered.tree hgrows

theorem Sound.putFile (hd : d.Sound) {data : Bytes}
    (hpass : d.fs.passable 0 (components slash path).dropLast = true) :
    ({ d with fs := d.fs.putFile path data } : Virtio9p).Sound := by
  have hroot : d.fs.Entered 0 := ⟨hd.wf.tree, hd.tree, hd.wf.tree.root, hd.rootDir⟩
  have hclean : ∀ seg ∈ (components slash path).dropLast, Paths.Clean slash seg :=
    fun _ hmem => clean_of_mem_components ((List.dropLast_sublist _).subset hmem)
  obtain ⟨hentered, hgrows⟩ := hroot.enterDirs hclean hpass
  unfold P9Fs.putFile
  dsimp only
  cases hlast : ((path.splitOn slash).filter (· ≠ [])).getLast? with
  | none => exact hd
  | some leaf =>
    have hleaf : Paths.Clean slash leaf :=
      clean_of_mem_components (List.mem_of_getLast? hlast)
    obtain ⟨hwf, htree, hgrows'⟩ := hentered.putLeaf hleaf data
    exact hd.grow hwf htree (hgrows.trans hgrows')

theorem Sound.perform {d' : Virtio9p} (hd : d.Sound) {event : ShareEvent}
    (horder : d.InOrder event) (hperform : d.perform event = .ok d') : d'.Sound := by
  cases event with
  | call event => exact hd.called (call_cases hperform) horder
  | putFile path data =>
    cases hperform
    exact hd.putFile horder
  | mkdirP path =>
    cases hperform
    exact hd.mkdirP horder

end Virtio9p

/-- As long as the names and the seeded paths are in order, the tree is well formed. -/
theorem run_treeWellFormed (isLazy : Bool) (tag : Bytes) (events : List ShareEvent)
    (horder : Along (attempt perform) (Meets Virtio9p.InOrder)
      (.ok (created isLazy tag)) events)
    {d : Virtio9p} (hrun : run (attempt perform)
      (.ok (created isLazy tag)) events = .ok d) :
    d.TreeWellFormed :=
  (horder.attempt_invariant (fun _ _ _ hd hmeets hstep => hd.perform hmeets hstep)
    (created_sound isLazy tag) hrun).treeWellFormed

/-- A check of one call that needs no search. -/
def Virtio9p.isInOrder (d : Virtio9p) : ShareEvent → Bool
  | .call (.message chain mem) =>
      (parseName ((gather mem chain.readable).drop 7)).all fun name => Paths.Clean slash name
  | .call (.supply _ payload _) => (listingEntries payload).all fun entry => slash ∉ entry.name
  | .call .takeChanges => true
  | .putFile path _ => d.fs.passable 0 (components slash path).dropLast
  | .mkdirP path => d.fs.passable 0 (components slash path)

theorem Virtio9p.inOrder_of_isInOrder (d : Virtio9p) (event : ShareEvent)
    (hcheck : d.isInOrder event = true) : d.InOrder event := by
  cases event with
  | call event =>
    cases event with
    | message chain mem =>
      intro ty _ _ name hname
      dsimp only [isInOrder] at hcheck
      rw [hname] at hcheck
      exact of_decide_eq_true hcheck
    | supply id payload mem =>
      intro i h _ _ _ entry hmem
      exact of_decide_eq_true (List.all_eq_true.mp hcheck entry hmem)
    | takeChanges => trivial
  | putFile path data => exact hcheck
  | mkdirP path => exact hcheck

/-- The guest attaches fid 0 and creates `a`; the host seeds `b/c` and the directory
`b/d`. -/
def seedAndCreate : List ShareEvent :=
  [.call (askFile .attach (putU32 0)),
    .call (askFile .lcreate (putU32 0 ++ putStr [0x61] ++ putU32 0 ++ putU32 0o644)),
    .putFile [0x62, 0x2F, 0x63] [0x68, 0x69], .mkdirP [0x62, 0x2F, 0x64]]

theorem run_treeWellFormed_seedAndCreate :
    ∃ d, run (attempt perform) (.ok (created false []))
        seedAndCreate = .ok d ∧ d.fs.inodes.length = 5 ∧ d.TreeWellFormed := by
  have hpasses : passes (fun d => decide (d.fs.inodes.length = 5))
      (run (attempt perform) (.ok (created false []))
        seedAndCreate) = true := by decide +kernel
  obtain ⟨d, hrun, hlength⟩ := exists_of_passes hpasses
  refine ⟨d, hrun, of_decide_eq_true hlength, run_treeWellFormed false [] seedAndCreate ?_ hrun⟩
  refine Along.meets_of_checks inOrder_of_isInOrder ?_
  decide +kernel

/-- The guest creates a file under the name `x/y`. -/
def createSlash : List ShareEvent :=
  [.call (askFile .attach (putU32 0)),
    .call (askFile .lcreate (putU32 0 ++ putStr [0x78, 0x2F, 0x79] ++ putU32 0 ++ putU32 0o644))]

/-- The host seeds the file `a` and then the directory `a/b`. -/
def seedThroughFile : List ShareEvent :=
  [.putFile [0x61] [], .mkdirP [0x61, 0x2F, 0x62]]

/-- The file `x/y` of the root is not found under its path, and a seeded path that leads
through the file `a` adds a second entry of that name. -/
theorem unchecked_names_break_tree :
    (∃ d, run (attempt perform) (.ok (created true []))
        createSlash = .ok d ∧ ¬ d.TreeWellFormed) ∧
      ∃ d, run (attempt perform) (.ok (created false []))
        seedThroughFile = .ok d ∧ ¬ d.TreeWellFormed := by
  have hslash : passes
      (fun d => decide ((d.fs.node 0).children = [([0x78, 0x2F, 0x79], 1)] ∧
        d.fs.resolve (d.fs.pathOf 1) = none))
      (run (attempt perform) (.ok (created true [])) createSlash) =
        true := by decide +kernel
  have hfile : passes (fun d => decide ((d.fs.node 0).children = [([0x61], 1), ([0x61], 2)]))
      (run (attempt perform) (.ok (created false []))
        seedThroughFile) = true := by decide +kernel
  constructor
  · obtain ⟨d, hrun, hcheck⟩ := exists_of_passes hslash
    obtain ⟨hchildren, hnone⟩ := of_decide_eq_true hcheck
    refine ⟨d, hrun, fun hwell => ?_⟩
    have hmem : (([0x78, 0x2F, 0x79], 1) : Bytes × Nat) ∈ (d.fs.node 0).children := by
      rw [hchildren]
      exact List.mem_singleton_self _
    have hresolve := hwell.resolves 1 (.entry .root hmem)
    rw [hnone] at hresolve
    cases hresolve
  · obtain ⟨d, hrun, hcheck⟩ := exists_of_passes hfile
    refine ⟨d, hrun, fun hwell => ?_⟩
    have hdistinct := hwell.distinct 0
    rw [of_decide_eq_true hcheck] at hdistinct
    exact absurd hdistinct (by decide)

end TabLinux

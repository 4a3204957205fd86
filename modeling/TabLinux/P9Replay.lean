/-
Write-back as a whole: the log keeps one record a path, and the host replays the records in
the order of the paths.  While no path changes between file and directory against what the
host had there, the replay turns the host's folder into the guest's.
-/
import TabLinux.HostReplay
import TabLinux.P9Deletes

namespace TabLinux

open Bytes Paths Runs Virtio9p

variable {f : Inode → Inode} {name : Bytes} {op : ChangeOp}

variable {dir : Nat} {node : Inode} {event : FileEvent}

def Inode.entry (node : Inode) : HostEntry := if node.isDir then .dir else .file node.data

/-- What the guest has at a path. -/
def P9Fs.view (fs : P9Fs) (names : List Bytes) : Option HostEntry :=
  (fs.resolveFrom 0 names).map fun ino => (fs.node ino).entry

/-- A lazy device with the folder of the host completely loaded, and nothing changed. -/
structure Virtio9p.LoadedFrom (host : HostTree) (d : Virtio9p) : Prop where
  sound : d.Sound
  isLazy : d.isLazy = true
  /-- The proofs do without it: it says which devices are meant. -/
  loaded : ∀ ino, ino < d.fs.inodes.length → (d.fs.node ino).loaded = true
  view : ∀ names, d.fs.view names = host.view names
  log : d.dirtyChanges = []

/-- A message that changes the tree is about an inode with a place in it, and a name in
it is plain. -/
def P9Fs.OnTree (fs : P9Fs) (ty : TMsg) (c : Bytes) : Prop :=
  (ty ∈ [.lcreate, .mkdir, .unlinkat] → ∀ name, parseName c = some name → PlainName name) ∧
    (ty ∈ [.lcreate, .mkdir, .write, .setattr, .unlinkat, .remove] → ∀ ino,
      fs.subject c = some ino → ∃ names, fs.resolveFrom 0 names = some ino)

/-- No file is created where the host has a directory and no directory where it has a
file; and the size of a directory is set only if the host has it too. -/
def P9Fs.KeepsKinds (host : HostTree) (fs : P9Fs) (ty : TMsg) (c : Bytes) : Prop :=
  (∀ dir name names, fs.subject c = some dir → parseName c = some name →
    fs.resolveFrom 0 names = some dir →
    (ty = .lcreate → host.view (names ++ [name]) ≠ some .dir) ∧
    (ty = .mkdir → ∀ data, host.view (names ++ [name]) ≠ some (.file data))) ∧
  (ty = .setattr → setsSize c = true → ∀ ino names, fs.subject c = some ino →
    fs.resolveFrom 0 names = some ino → (fs.node ino).isDir = true →
    host.view names = some .dir)

/-- The guest works on the tree it has loaded; the host is not asked anything. -/
def Virtio9p.OnTree (d : Virtio9p) : FileEvent → Prop
  | .message chain mem => ∀ ty, msgType? (gather mem chain.readable) = some ty →
      d.fs.OnTree ty ((gather mem chain.readable).drop 7)
  | _ => False

def Virtio9p.KeepsKinds (host : HostTree) (d : Virtio9p) : FileEvent → Prop
  | .message chain mem => ∀ ty, msgType? (gather mem chain.readable) = some ty →
      d.fs.KeepsKinds host ty ((gather mem chain.readable).drop 7)
  | _ => True

/-- The host's folder is the guest's tree after the changes are replayed. -/
def Virtio9p.ReplaysTo (host : HostTree) (d : Virtio9p) : Prop :=
  ∀ names, (host.replay d.takeChanges.1).view names = d.fs.view names

section

variable {fs fs' : P9Fs} {names way : List Bytes} {ino : Nat}

namespace P9Fs

theorem view_eq (fs : P9Fs) (names : List Bytes) :
    fs.view names = (fs.shape.follow 0 names).map fun ino => (fs.node ino).entry := by
  rw [view, fs.resolveFrom_eq]

theorem view_of_follow (hfollow : fs.shape.follow 0 names = some ino) :
    fs.view names = some (fs.node ino).entry := by
  rw [fs.view_eq, hfollow]
  rfl

theorem view_of_follow_none (hfollow : fs.shape.follow 0 names = none) : fs.view names = none := by
  rw [fs.view_eq, hfollow]
  rfl

theorem view_of_shape (hshape : fs'.shape = fs.shape)
    (hentry : ∀ ino, (fs'.node ino).entry = (fs.node ino).entry) (names : List Bytes) :
    fs'.view names = fs.view names := by
  rw [fs.view_eq, fs'.view_eq, hshape]
  simp only [hentry]

theorem view_congr (hinodes : fs'.inodes = fs.inodes) (names : List Bytes) :
    fs'.view names = fs.view names :=
  view_of_shape (shape_congr hinodes) (fun ino => by rw [node_congr hinodes]) names

theorem entry_setNode_of_keeps (fs : P9Fs) (target ino : Nat)
    (hf : ∀ node, (f node).entry = node.entry) :
    ((fs.setNode target f).node ino).entry = (fs.node ino).entry :=
  fs.node_setNode_of_keeps target ino Inode.entry hf

/-- A new entry is seen at its own path. -/
theorem view_create (hvalid : fs.shape.Valid)
    (hdir : dir < fs.inodes.length) (hfresh : fs.child dir name = none)
    (hparent : node.parent = dir) (hchildren : node.children = [])
    (hway : fs.shape.follow 0 way = some dir) (names : List Bytes) :
    (fs.create dir name node).view names =
      if names = way ++ [name] then some node.entry else fs.view names := by
  have hshape := fs.shape_create hdir name hparent hchildren
  have hadd : ∀ {i}, (fs.shape.add dir name).follow 0 names = some i ↔ _ :=
    fun {i} => hvalid.follow_add hdir hfresh
  rw [← hshape] at hadd
  split
  · rename_i hnew
    have hfollow := hadd.mpr (Or.inr ⟨rfl, way, hnew, hway⟩)
    rw [view_of_follow hfollow]
    change some ((fs.create dir name node).node fs.inodes.length).entry = _
    rw [fs.node_create hdir, if_pos rfl]
  · rename_i hother
    cases hold : fs.shape.follow 0 names with
    | some ino =>
      have hlt : ino < fs.inodes.length := hvalid.follow_lt hvalid.root hold
      rw [view_of_follow (hadd.mpr (Or.inl hold)), view_of_follow hold,
        fs.node_create hdir, if_neg (Nat.ne_of_lt hlt)]
      split
      · rename_i hself
        rw [hself]
        rfl
      · rfl
    | none =>
      rw [view_of_follow_none hold]
      refine view_of_follow_none (Option.eq_none_iff_forall_ne_some.mpr ?_)
      intro ino hfollow
      rcases hadd.mp hfollow with hthere | ⟨-, before, hnames, hbefore⟩
      · cases hold.symm.trans hthere
      · rw [← hvalid.path_of_follow hbefore, hvalid.path_of_follow hway] at hnames
        exact hother hnames

/-- A changed file is seen at its own path. -/
theorem view_setNode (hvalid : fs.shape.Valid) (hf : Inode.KeepsPlace f)
    (hway : fs.shape.follow 0 way = some ino) (names : List Bytes) :
    (fs.setNode ino f).view names =
      if names = way then some (f (fs.node ino)).entry else fs.view names := by
  have hlt := hvalid.follow_lt hvalid.root hway
  have hshape := fs.shape_setNode ino hf.parent hf.children
  rw [view_eq, hshape]
  split
  · rename_i hself
    rw [hself, hway]
    change some ((fs.setNode ino f).node ino).entry = _
    rw [fs.node_setNode_self f hlt]
  · rename_i hother
    rw [fs.view_eq]
    cases hfollow : fs.shape.follow 0 names with
    | none => rfl
    | some other =>
      have hne : other ≠ ino := by
        rintro rfl
        exact hother ((hvalid.path_of_follow hfollow).symm.trans (hvalid.path_of_follow hway))
      change some ((fs.setNode ino f).node other).entry = _
      rw [fs.node_setNode_of_ne f hne]
      rfl

/-- An entry that is taken off leaves nothing at its path. -/
theorem view_unlink (hvalid : fs.shape.Valid) (hzero : ino ≠ 0)
    (hleaf : (fs.node ino).children = []) (hway : fs.shape.follow 0 way = some ino)
    (names : List Bytes) :
    (fs.setNode (fs.shape.parent ino) fun node => { node with
      children := node.children.filter fun entry => entry.2 ≠ ino }).view names =
      if names = way then none else fs.view names := by
  have hshape := fs.shape_unlink (fs.shape.parent ino) ino
  have hentry := fun other => fs.entry_setNode_of_keeps (fs.shape.parent ino) other
    (f := fun node => { node with
      children := node.children.filter fun entry => entry.2 ≠ ino }) fun _ => rfl
  rw [view_eq, hshape, fs.view_eq]
  simp only [hentry]
  cases hfollow : fs.shape.follow 0 names with
  | none =>
    have hnone : (fs.shape.remove (fs.shape.parent ino) ino).follow 0 names = none := by
      refine Option.eq_none_iff_forall_ne_some.mpr fun other hother => ?_
      cases hfollow.symm.trans (hvalid.follow_of_remove hother)
    rw [hnone]
    split <;> rfl
  | some other =>
    have hself : names = way ↔ other = ino := by
      refine ⟨?_, ?_⟩
      · rintro rfl
        exact Option.some.inj (hfollow.symm.trans hway)
      · rintro rfl
        exact (hvalid.path_of_follow hfollow).symm.trans (hvalid.path_of_follow hway)
    by_cases hother : other = ino
    · rw [if_pos (hself.mpr hother)]
      have hnone : (fs.shape.remove (fs.shape.parent ino) ino).follow 0 names = none := by
        refine Option.eq_none_iff_forall_ne_some.mpr fun i hi => ?_
        rw [hvalid.follow_remove hzero hleaf, hfollow, hother] at hi
        exact hi.2 (Option.some.inj hi.1).symm
      rw [hnone]
      rfl
    · rw [if_neg fun h => hother (hself.mp h),
        (hvalid.follow_remove hzero hleaf).mpr ⟨hfollow, hother⟩]

/-- What is above an entry is a directory. -/
theorem Tree.view_above (h : fs.Tree)
    (hbelow : (fs.view (way ++ name :: names)).isSome = true) : fs.view way = some .dir := by
  rw [fs.view_eq, Option.isSome_map, Directories.Tree.follow_append] at hbelow
  cases hfollow : fs.shape.follow 0 way with
  | none =>
    rw [hfollow] at hbelow
    cases hbelow
  | some ino =>
    rw [view_of_follow hfollow, Inode.entry]
    cases hdir : (fs.node ino).isDir with
    | true => rfl
    | false =>
      have hleaf : fs.shape.children ino = [] := h.files ino hdir
      rw [hfollow] at hbelow
      change (fs.shape.follow ino (name :: names)).isSome = true at hbelow
      rw [Directories.Tree.follow, hleaf] at hbelow
      cases hbelow

end P9Fs

end

/-- A record is replayed at its path, or it is a write record of a directory, which is
left out. -/
def RecordFits (op : ChangeOp) (host goal : Option HostEntry) : Prop :=
  op.Fits host goal ∨ (op = .write ∧ host = some .dir ∧ goal = some .dir)

/-- There is a record for the path of these names. -/
def Recorded (log : List (Bytes × ChangeOp)) (names : List Bytes) : Prop :=
  (∀ name ∈ names, Paths.Clean slash name) ∧ ∃ op, (join slash names, op) ∈ log

/-- The records tell where the tree of the guest is not that of the host. -/
structure P9Fs.Agrees (host : HostTree) (fs : P9Fs) (log : List (Bytes × ChangeOp)) :
    Prop where
  recorded : ∀ {path op}, (path, op) ∈ log → ∃ names, names ≠ [] ∧
    (∀ name ∈ names, Paths.Clean slash name) ∧ path = join slash names ∧
    RecordFits op (host.view names) (fs.view names)
  same : ∀ names, ¬ Recorded log names → fs.view names = host.view names

variable {d : Virtio9p}

section

variable {host : HostTree} {fs fs' : P9Fs} {log : List (Bytes × ChangeOp)}
  {names way : List Bytes}

theorem P9Fs.Agrees.congr (h : fs.Agrees host log)
    (hview : ∀ names, fs'.view names = fs.view names) : fs'.Agrees host log := by
  refine ⟨fun hmem => ?_, fun names hnot => ?_⟩
  · obtain ⟨names, hrecord⟩ := h.recorded hmem
    rw [← hview] at hrecord
    exact ⟨names, hrecord⟩
  · rw [hview, h.same names hnot]

/-- The host has no directory at the path of a file of the guest. -/
theorem P9Fs.Agrees.not_dir (h : fs.Agrees host log) {data : Bytes}
    (hfile : fs.view names = some (.file data)) : host.view names ≠ some .dir := by
  by_cases hrecorded : Recorded log names
  · obtain ⟨hclean, op, hmem⟩ := hrecorded
    obtain ⟨names', -, hclean', hpath, hfits⟩ := h.recorded hmem
    cases join_injective hclean hclean' hpath
    rw [hfile] at hfits
    rcases hfits with hfits | ⟨-, -, hgoal⟩
    · cases op with
      | write => exact hfits.1
      | mkdir => cases hfits.2
      | delete => cases hfits
    · cases hgoal
  · rw [← h.same names hrecorded, hfile]
    exact nofun

/-- A new record, for the one path at which the tree changes. -/
theorem Virtio9p.agrees_mark (h : d.fs.Agrees host d.dirtyChanges)
    (hlazy : d.isLazy = true) (hsorted : SortedAssoc.Sorted d.dirtyChanges)
    (hclean : ∀ name ∈ way, Paths.Clean slash name) (hbelow : way ≠ [])
    (hview : ∀ names, names ≠ way → fs'.view names = d.fs.view names)
    (hfits : RecordFits op (host.view way) (fs'.view way)) :
    fs'.Agrees host (d.mark (join slash way) op).dirtyChanges := by
  have hpath : join slash way ≠ [] := fun hnil => hbelow ((join_eq_nil hclean).mp hnil)
  refine ⟨fun {path v} hmem => ?_, fun names hnot => ?_⟩
  · rcases (mem_mark_iff hlazy hsorted).mp hmem with ⟨-, rfl, rfl⟩ | ⟨hold, hother⟩
    · exact ⟨way, hbelow, hclean, rfl, hfits⟩
    · obtain ⟨names, hnames, hnamesClean, rfl, hrecord⟩ := h.recorded hold
      have hne : names ≠ way := by
        rintro rfl
        exact hother.elim hpath fun hself => hself rfl
      exact ⟨names, hnames, hnamesClean, rfl, by rwa [hview names hne]⟩
  · have hne : names ≠ way := by
      rintro rfl
      exact hnot ⟨hclean, op, (mem_mark_iff hlazy hsorted).mpr (Or.inl ⟨hpath, rfl, rfl⟩)⟩
    rw [hview names hne]
    refine h.same names fun hrecorded => hnot ⟨hrecorded.1, ?_⟩
    obtain ⟨hnamesClean, v, hold⟩ := hrecorded
    refine ⟨v, (mem_mark_iff hlazy hsorted).mpr (Or.inr ⟨hold, Or.inr ?_⟩)⟩
    exact fun hself => hne (join_injective hnamesClean hclean hself)

/-- A record that fits gives a change that fits. -/
theorem P9Fs.fileChange?_fits (hclean : ∀ name ∈ names, Paths.Clean slash name)
    (hbelow : names ≠ []) (hfits : op.Fits (host.view names) (fs.view names)) :
    ∃ change, fs.fileChange? (join slash names) op = some change ∧
      change.Fits host.view fs.view names := by
  cases op with
  | mkdir | delete => exact ⟨_, rfl, hclean, hbelow, rfl, hfits, nofun⟩
  | write =>
    obtain ⟨data, hfile⟩ := hfits.2
    have hview := hfile
    rw [fs.view_eq] at hview
    obtain ⟨ino, hfollow, hentry⟩ := Option.map_eq_some_iff.mp hview
    have hresolve : fs.resolve (join slash names) = some ino := by
      rw [fs.resolve_eq, components_join hclean, hfollow]
    rw [Inode.entry] at hentry
    split at hentry
    · cases hentry
    rename_i hdir
    cases hentry
    refine ⟨⟨.write, join slash names, (fs.node ino).data⟩, ?_, hclean, hbelow, rfl,
      hfits, fun _ => hfile⟩
    rw [fileChange?, hresolve]
    exact if_neg hdir

theorem P9Fs.fileChange?_dir (hclean : ∀ name ∈ names, Paths.Clean slash name)
    (hdir : fs.view names = some .dir) : fs.fileChange? (join slash names) .write = none := by
  rw [fs.view_eq] at hdir
  obtain ⟨ino, hfollow, hentry⟩ := Option.map_eq_some_iff.mp hdir
  have hresolve : fs.resolve (join slash names) = some ino := by
    rw [fs.resolve_eq, components_join hclean, hfollow]
  rw [Inode.entry] at hentry
  split at hentry
  · rename_i hisDir
    rw [fileChange?, hresolve]
    exact if_pos hisDir
  · cases hentry

/-- Where the records are right, the replay of the changes gives the tree of the guest. -/
theorem P9Fs.Agrees.replay (h : fs.Agrees host log) (htree : fs.Tree)
    (hsorted : SortedAssoc.Sorted log) (names : List Bytes) :
    (host.replay (log.filterMap fun record => fs.fileChange? record.1 record.2)).view names =
      fs.view names := by
  have hstart : host.Replaying host.view fs.view
      (log.filterMap fun record => fs.fileChange? record.1 record.2) := by
    refine ⟨fun names hnot => ?_, fun _ _ => Or.inl rfl⟩
    by_cases hrecorded : Recorded log names
    · obtain ⟨hclean, op, hmem⟩ := hrecorded
      obtain ⟨names', hbelow, hclean', hpath, hfits | ⟨-, hhost, hgoal⟩⟩ := h.recorded hmem
      · cases join_injective hclean hclean' hpath
        obtain ⟨change, hchange, hchangeFits⟩ := P9Fs.fileChange?_fits hclean hbelow hfits
        exact absurd ⟨hclean, change, List.mem_filterMap.mpr ⟨_, hmem, hchange⟩,
          hchangeFits.path⟩ hnot
      · cases join_injective hclean hclean' hpath
        rw [hhost, hgoal]
    · exact (h.same names hrecorded).symm
  refine hstart.replay htree.view_above ?_ ?_ names
  · intro change hmem
    obtain ⟨⟨path, op⟩, hrecord, hchange⟩ := List.mem_filterMap.mp hmem
    obtain ⟨names, hbelow, hclean, rfl, hfits | ⟨rfl, -, hgoal⟩⟩ := h.recorded hrecord
    · obtain ⟨change', hchange', hchangeFits⟩ := P9Fs.fileChange?_fits hclean hbelow hfits
      cases hchange.symm.trans hchange'
      exact ⟨names, hchangeFits⟩
    · cases (P9Fs.fileChange?_dir hclean hgoal).symm.trans hchange
  · refine hsorted.filterMap _ fun record record' hlt change hchange change' hchange' => ?_
    rw [(P9Fs.fileChange?_spec hchange).2.1, (P9Fs.fileChange?_spec hchange').2.1]
    exact hlt

end

/-- A device whose records tell where its tree is not that of the host. -/
structure Virtio9p.Mirrors (host : HostTree) (d : Virtio9p) : Prop where
  sound : d.Sound
  isLazy : d.isLazy = true
  sorted : SortedAssoc.Sorted d.dirtyChanges
  agrees : d.fs.Agrees host d.dirtyChanges

variable {host : HostTree}

theorem Virtio9p.LoadedFrom.mirrors (h : d.LoadedFrom host) : d.Mirrors host := by
  refine ⟨h.sound, h.isLazy, ?_, ?_, fun names _ => h.view names⟩
  · rw [h.log]
    exact List.Pairwise.nil
  intro path op hmem
  rw [h.log] at hmem
  cases hmem

theorem Virtio9p.Mirrors.replaysTo (h : d.Mirrors host) : d.ReplaysTo host :=
  h.agrees.replay h.sound.tree h.sorted

section

variable {host : HostTree} {d d' : Virtio9p} {ty : TMsg} {c : Bytes}

theorem Virtio9p.Mirrors.create (hd : d.Mirrors host)
    (hcreates : Creates dir ty node op) (hsubject : d.fs.subject c = some dir)
    (hname : parseName c = some name) (hfresh : d.fs.child dir name = none)
    (hplain : PlainName name) (hlinked : d.fs.shape.Linked dir)
    (hkinds : d.fs.KeepsKinds host ty c) :
    (d.fs.create dir name node).Agrees host
      (d.mark ((d.fs.create dir name node).pathOf d.fs.inodes.length) op).dirtyChanges := by
  have hvalid := hd.sound.tree.valid
  have hdir := hd.sound.wf.tree.subject_lt hsubject
  obtain ⟨hparent, hchildren⟩ := hcreates.made
  have hway := hvalid.follow_path hlinked
  have hview := P9Fs.view_create hvalid hdir hfresh hparent hchildren hway
  have hpath : (d.fs.create dir name node).pathOf d.fs.inodes.length =
      join slash (d.fs.shape.path dir ++ [name]) := by
    have hshape := d.fs.shape_create hdir name hparent hchildren
    have hfollow := (hvalid.follow_add hdir hfresh).mpr
      (Or.inr ⟨rfl, d.fs.shape.path dir, rfl, hway⟩)
    rw [P9Fs.pathOf_eq, hshape]
    exact congrArg _ ((hvalid.add hdir hfresh).path_of_follow hfollow)
  rw [hpath]
  refine agrees_mark hd.agrees hd.isLazy hd.sorted ?_ ?_ ?_ (Or.inl ?_)
  · intro part hpart
    rcases List.mem_append.mp hpart with hold | hnew
    · exact hd.sound.tree.path_clean hold
    · rw [List.mem_singleton.mp hnew]
      exact hplain.clean
  · exact List.append_ne_nil_of_right_ne_nil _ (List.cons_ne_nil _ _)
  · intro names hne
    rw [hview, if_neg hne]
  have hresolve : d.fs.resolveFrom 0 (d.fs.shape.path dir) = some dir := by
    rw [d.fs.resolveFrom_eq, hway]
  have hkind := hkinds.1 dir name _ hsubject hname hresolve
  rw [hview, if_pos rfl]
  cases hcreates with
  | file => exact ⟨hkind.1 rfl, _, rfl⟩
  | dir => exact ⟨hkind.2 rfl, rfl⟩

theorem Virtio9p.Mirrors.edit (hd : d.Mirrors host) {ino : Nat}
    (hty : (ty = .write ∧ (d.fs.node ino).isDir = false) ∨ (ty = .setattr ∧ setsSize c = true))
    (hsubject : d.fs.subject c = some ino) (hf : Inode.KeepsPlace f)
    (hlinked : d.fs.shape.Linked ino) (hkinds : d.fs.KeepsKinds host ty c) :
    (d.fs.setNode ino f).Agrees host
      (d.mark ((d.fs.setNode ino f).pathOf ino) .write).dirtyChanges := by
  have hvalid := hd.sound.tree.valid
  have hway := hvalid.follow_path hlinked
  have hview := P9Fs.view_setNode hvalid hf hway
  have hold : d.fs.view (d.fs.shape.path ino) = some (d.fs.node ino).entry :=
    P9Fs.view_of_follow hway
  have hshape := d.fs.shape_setNode ino hf.parent hf.children
  rw [P9Fs.pathOf_eq, hshape]
  by_cases hroot : d.fs.shape.path ino = []
  · -- The root is a directory before and after, and is not recorded.
    have hino : ino = 0 := by
      rw [hroot] at hway
      exact (Option.some.inj hway).symm
    have hsame : (f (d.fs.node ino)).entry = (d.fs.node ino).entry := by
      rw [Inode.entry, Inode.entry, hf.isDir, hino, hd.sound.rootDir]
      rfl
    rw [hroot, join_nil, d.mark_dirtyChanges, if_neg fun h => h.2 rfl]
    refine hd.agrees.congr fun names => ?_
    rw [hview]
    split
    · rename_i hself
      rw [hself, hold, hsame]
    · rfl
  refine agrees_mark hd.agrees hd.isLazy hd.sorted
    (fun _ hpart => hd.sound.tree.path_clean hpart) hroot ?_ ?_
  · intro names hne
    rw [hview, if_neg hne]
  rw [hview, if_pos rfl]
  cases hdir : (d.fs.node ino).isDir with
  | false =>
    have hfile : (f (d.fs.node ino)).entry = .file (f (d.fs.node ino)).data := by
      rw [Inode.entry, hf.isDir, hdir]
      rfl
    rw [Inode.entry, hdir] at hold
    exact Or.inl ⟨hd.agrees.not_dir hold, _, congrArg some hfile⟩
  | true =>
    have hisDir : (f (d.fs.node ino)).entry = .dir := by
      rw [Inode.entry, hf.isDir, hdir]
      rfl
    have hresolve : d.fs.resolveFrom 0 (d.fs.shape.path ino) = some ino := by
      rw [d.fs.resolveFrom_eq, hway]
    rcases hty with ⟨-, hfile⟩ | ⟨rfl, hsize⟩
    · cases hdir.symm.trans hfile
    · exact Or.inr ⟨rfl, hkinds.2 rfl hsize ino _ hsubject hresolve hdir, congrArg some hisDir⟩

theorem Virtio9p.Mirrors.unlink (hd : d.Mirrors host) {target : Nat}
    (hlinked : d.fs.shape.Linked target) (hleaf : (d.fs.node target).children = []) :
    (d.fs.setNode (d.fs.shape.parent target) fun node => { node with
      children := node.children.filter fun entry => entry.2 ≠ target }).Agrees host
      (d.mark (d.fs.pathOf target) .delete).dirtyChanges := by
  have hvalid := hd.sound.tree.valid
  have hway := hvalid.follow_path hlinked
  rw [P9Fs.pathOf_eq]
  by_cases hroot : target = 0
  · -- Nothing leads to the root, so nothing is taken off.
    subst hroot
    rw [hvalid.path_root, join_nil, d.mark_dirtyChanges, if_neg fun h => h.2 rfl]
    refine hd.agrees.congr (P9Fs.view_of_shape ?_ ?_)
    · rw [P9Fs.shape_unlink, hvalid.remove_root]
    · exact fun ino => d.fs.entry_setNode_of_keeps _ ino fun _ => rfl
  · have hview := P9Fs.view_unlink hvalid hroot hleaf hway
    refine agrees_mark hd.agrees hd.isLazy hd.sorted
      (fun _ hpart => hd.sound.tree.path_clean hpart) ?_ ?_ (Or.inl ?_)
    · intro hnil
      rw [hnil] at hway
      exact hroot (Option.some.inj hway).symm
    · intro names hne
      rw [hview, if_neg hne]
    · rw [hview, if_pos rfl]
      rfl

theorem TreeEdit.agrees (h : TreeEdit d ty c d') (hd : d.Mirrors host)
    (htree : d.fs.OnTree ty c) (hkinds : d.fs.KeepsKinds host ty c) :
    d'.fs.Agrees host d'.dirtyChanges := by
  have hlinked : ∀ {ino}, ty ∈ [.lcreate, .mkdir, .write, .setattr, .unlinkat, .remove] →
      d.fs.subject c = some ino → d.fs.shape.Linked ino :=
    fun hty hsubject => P9Fs.linked_iff.mpr (htree.2 hty _ hsubject)
  cases h with
  | keep hinodes hlog =>
    rw [hlog]
    exact hd.agrees.congr (P9Fs.view_congr hinodes)
  | park => exact hd.agrees
  | @create _ dir name node op hcreates hsubject hname _ hfresh hinodes hlog =>
    rw [hlog]
    have hplain : PlainName name := by
      cases hcreates with
      | file | dir => exact htree.1 (by decide) name hname
    have hdir : d.fs.shape.Linked dir := by
      cases hcreates with
      | file | dir => exact hlinked (by decide) hsubject
    exact (hd.create hcreates hsubject hname hfresh hplain hdir hkinds).congr
      (P9Fs.view_congr hinodes)
  | @chmod _ ino mode _ _ hinodes hlog =>
    rw [hlog]
    refine (hd.agrees.congr (P9Fs.view_of_shape ?_ ?_)).congr (P9Fs.view_congr hinodes)
    · exact d.fs.shape_setNode ino (fun _ => rfl) fun _ => rfl
    · exact fun other => d.fs.entry_setNode_of_keeps ino other fun _ => rfl
  | edit hty hsubject hf hinodes hlog =>
    rw [hlog]
    refine (hd.edit hty hsubject hf (hlinked ?_ hsubject) hkinds).congr (P9Fs.view_congr hinodes)
    rcases hty with ⟨rfl, -⟩ | ⟨rfl, -⟩
    · decide
    · decide
  | @unlink _ dir target hunlinks hempty hinodes hlog =>
    rw [hlog]
    have hleaf : (d.fs.node target).children = [] := by
      cases hdir : (d.fs.node target).isDir with
      | true => exact hempty hdir
      | false => exact hd.sound.tree.files target hdir
    have htarget : d.fs.shape.Linked target := by
      cases hunlinks with
      | remove hsubject => exact hlinked (by decide) hsubject
      | unlinkat hsubject _ hchild => exact (hlinked (by decide) hsubject).child hchild
    obtain rfl := hunlinks.parent hd.sound.tree.valid
    exact (hd.unlink htarget hleaf).congr (P9Fs.view_congr hinodes)

theorem Virtio9p.Mirrors.served (hd : d.Mirrors host) {head : U16} {writable : List Buf}
    {msg : Bytes} {reply : Option Bytes} (hserved : Served d head writable msg reply d')
    (htree : ∀ ty, msgType? msg = some ty → d.fs.OnTree ty (msg.drop 7))
    (hkinds : ∀ ty, msgType? msg = some ty → d.fs.KeepsKinds host ty (msg.drop 7)) :
    d'.Mirrors host := by
  have hcleared : d.cleared.Mirrors host :=
    ⟨⟨⟨hd.sound.wf.tree, hd.sound.wf.held⟩, hd.sound.tree, hd.sound.rootDir⟩, hd.isLazy,
      hd.sorted, hd.agrees⟩
  have hclean : ∀ ty, msgType? msg = some ty → NamesClean ty (msg.drop 7) := by
    rintro ty hty (rfl | rfl) name hname
    · exact ((htree _ hty).1 (by decide) name hname).clean
    · exact ((htree _ hty).1 (by decide) name hname).clean
  have hsound := hd.sound.served hserved hclean
  have hlazy := hserved.isLazy.trans hd.isLazy
  obtain ⟨after, rfl | ⟨ty, hty, hedit⟩, hfs, hlog, -⟩ := hserved.edits
  · refine ⟨hsound, hlazy, ?_, ?_⟩
    · rw [hlog]
      exact hd.sorted
    · rw [hlog, hfs]
      exact hd.agrees
  · refine ⟨hsound, hlazy, ?_, ?_⟩
    · rw [hlog]
      exact hedit.sorted hd.sorted
    · rw [hlog, hfs]
      exact hedit.agrees hcleared (htree ty hty) (hkinds ty hty)

theorem Virtio9p.Mirrors.called (hd : d.Mirrors host)
    (hcalled : Called d event d') (htree : d.OnTree event) (hkinds : d.KeepsKinds host event) :
    d'.Mirrors host := by
  cases hcalled with
  | short | unknown => exact hd
  | message _ hserved =>
    have hafter := hd.served hserved htree hkinds
    exact ⟨⟨⟨hafter.sound.wf.tree, hafter.sound.wf.held⟩, hafter.sound.tree,
      hafter.sound.rootDir⟩, hafter.isLazy, hafter.sorted, hafter.agrees⟩
  | answer | takeChanges => exact htree.elim

end

/-- As long as no path changes between file and directory against what the host has, the
replay of the changes gives the host the tree of the guest. -/
theorem run_replays {host : HostTree} {start : Virtio9p} (hloaded : start.LoadedFrom host)
    (events : List FileEvent)
    (htree : Along (attempt call) (Meets Virtio9p.OnTree)
      (.ok start) events)
    (hkinds : Along (attempt call) (Meets (Virtio9p.KeepsKinds host))
      (.ok start) events)
    {d : Virtio9p} (hrun : run (attempt call) (.ok start) events = .ok d) :
    d.ReplaysTo host :=
  ((htree.and hkinds).meets_and.attempt_invariant
    (fun _ _ _ hd hmeets hcall => hd.called (call_cases hcall) hmeets.1 hmeets.2)
    hloaded.mirrors hrun).replaysTo

/-- A folder with a file `a` and an empty directory `e`. -/
def hostWithAE : HostTree := .dir [([0x61], .file [0x68, 0x69]), ([0x65], .dir [])]

/-- The guest reads all of it: `a` through fid 1, `e` through fid 2. -/
def readAE : List FileEvent :=
  [askFile .attach (putU32 0),
    askFile .walk (putU32 0 ++ putU32 1 ++ putU16 1 ++ putStr [0x61]),
    .supply 1 (putStr [0x61] ++ [0] ++ putU64 2 ++ putStr [0x65] ++ [1] ++ putU64 0)
      ⟨0x80000000, 0x1000, fun _ => 0⟩,
    readA, supplyHi 2, askFile .walk (putU32 0 ++ putU32 2 ++ putU16 1 ++ putStr [0x65]),
    askFile .readdir (putU32 2 ++ putU64 0 ++ putU32 64),
    .supply 3 [] ⟨0x80000000, 0x1000, fun _ => 0⟩]

def loadedAE : Virtio9p :=
  match run (attempt call) (.ok (newLazy [])) readAE with
  | .ok d => d
  | .error _ => newLazy []

theorem loadedAE_tidy : loadedAE.Tidy := by
  have hplace : Along (attempt call) (Meets Virtio9p.RemovesInPlace)
      (.ok (newLazy [])) readAE := by
    refine Along.meets_of_checks removesInPlace_of_isInPlace ?_
    decide +kernel
  unfold loadedAE
  split
  · rename_i d hrun
    exact hplace.attempt_invariant
      (fun _ _ _ hd hmeets hcall => hd.called (call_cases hcall) hmeets)
      (newLazy_tidy []) hrun
  · exact newLazy_tidy []

theorem loadedAE_view (names : List Bytes) :
    loadedAE.fs.view names = hostWithAE.view names := by
  have hroot : loadedAE.fs.shape.children 0 = [([0x61], 1), ([0x65], 2)] := by decide +kernel
  have hleaves : loadedAE.fs.shape.children 1 = [] ∧ loadedAE.fs.shape.children 2 = [] := by
    decide +kernel
  have hentries : (loadedAE.fs.node 0).entry = .dir ∧
      (loadedAE.fs.node 1).entry = .file [0x68, 0x69] ∧ (loadedAE.fs.node 2).entry = .dir := by
    decide +kernel
  rw [P9Fs.view_eq]
  cases names with
  | nil => exact congrArg some hentries.1
  | cons name rest =>
    rw [HostTree.view_cons, Directories.Tree.follow, hroot]
    by_cases ha : name = [0x61]
    · subst ha
      cases rest with
      | nil => exact congrArg some hentries.2.1
      | cons next rest =>
        change ((loadedAE.fs.shape.follow 1 (next :: rest)).map _) = none
        rw [Directories.Tree.follow, hleaves.1]
        rfl
    · by_cases he : name = [0x65]
      · subst he
        cases rest with
        | nil => exact congrArg some hentries.2.2
        | cons next rest =>
          change ((loadedAE.fs.shape.follow 2 (next :: rest)).map _) = none
          rw [Directories.Tree.follow, hleaves.2]
          rfl
      · have hmiss : ∀ {α : Type} (x y : α),
            [(([0x61] : Bytes), x), ([0x65], y)].find? (fun entry => entry.1 = name) =
              none := by
          intro α x y
          rw [List.find?_cons_of_neg (by simpa using Ne.symm ha),
            List.find?_cons_of_neg (by simpa using Ne.symm he), List.find?_nil]
        have hchild : hostWithAE.child name = none := by
          rw [HostTree.child]
          exact congrArg (Option.map Prod.snd) (hmiss (HostTree.file [0x68, 0x69]) (.dir []))
        rw [Directories.childOf, hmiss, hchild]
        rfl

theorem loadedAE_loadedFrom : loadedAE.LoadedFrom hostWithAE :=
  ⟨loadedAE_tidy.sound, by decide +kernel, by decide +kernel, loadedAE_view, by decide +kernel⟩

/-- A check of one message that needs no search. -/
def Virtio9p.isOnTree (d : Virtio9p) : FileEvent → Bool
  | .message chain mem =>
      let msg := gather mem chain.readable
      ((msgType? msg).all fun ty => ty ∉ [.lcreate, .mkdir, .unlinkat] ||
        (parseName (msg.drop 7)).all fun name => PlainName name) && d.fs.isLinked (msg.drop 7)
  | _ => false

theorem Virtio9p.onTree_of_isOnTree (d : Virtio9p) (event : FileEvent)
    (hcheck : d.isOnTree event = true) : d.OnTree event := by
  cases event with
  | message chain mem =>
    obtain ⟨hname, hlinked⟩ := Bool.and_eq_true_iff.mp hcheck
    refine fun ty hty => ⟨fun hnames name hparse => ?_, fun _ ino hsubject => ?_⟩
    · rw [hparse, hty] at hname
      rcases Bool.or_eq_true_iff.mp hname with hother | hplain
      · exact absurd hnames (of_decide_eq_true hother)
      · exact of_decide_eq_true hplain
    · rw [P9Fs.isLinked, hsubject] at hlinked
      exact ⟨_, of_decide_eq_true hlinked⟩
  | supply | takeChanges => cases hcheck

/-- A check of one message, for a tree in which an inode has one path. -/
def P9Fs.isKeeping (host : HostTree) (fs : P9Fs) (ty : TMsg) (c : Bytes) : Bool :=
  (fs.subject c).all fun ino =>
    ((parseName c).all fun name =>
      (ty ≠ .lcreate || host.view (fs.shape.path ino ++ [name]) ≠ some .dir) &&
        (ty ≠ .mkdir || (host.view (fs.shape.path ino ++ [name])).all fun entry => entry = .dir)) &&
      (ty ≠ .setattr || host.view (fs.shape.path ino) = some .dir || !(fs.node ino).isDir)

theorem P9Fs.keepsKinds_of_isKeeping {fs : P9Fs} {ty : TMsg} {c : Bytes}
    (hvalid : fs.shape.Valid) (hcheck : fs.isKeeping host ty c = true) :
    fs.KeepsKinds host ty c := by
  unfold isKeeping at hcheck
  refine ⟨fun dir name names hsubject hname hresolve => ?_,
    fun hty _ ino names hsubject hresolve hdir => ?_⟩
  · rw [fs.resolveFrom_eq] at hresolve
    rw [hsubject, hname] at hcheck
    simp only [Option.all_some, hvalid.path_of_follow hresolve] at hcheck
    refine ⟨?_, ?_⟩
    · rintro rfl
      simpa using hcheck
    rintro rfl data hfile
    rw [hfile] at hcheck
    simp at hcheck
  · rw [fs.resolveFrom_eq] at hresolve
    rw [hsubject] at hcheck
    simp only [Option.all_some, hvalid.path_of_follow hresolve, hty, hdir] at hcheck
    simpa using (Bool.and_eq_true_iff.mp hcheck).2

def Virtio9p.isKeeping (host : HostTree) (d : Virtio9p) : FileEvent → Bool
  | .message chain mem => (msgType? (gather mem chain.readable)).all fun ty =>
      d.fs.isKeeping host ty ((gather mem chain.readable).drop 7)
  | _ => true

theorem Virtio9p.Sound.keepsKinds (hd : d.Sound)
    (hcheck : d.isKeeping host event = true) : d.KeepsKinds host event := by
  cases event with
  | message chain mem =>
    intro ty hty
    rw [isKeeping, hty] at hcheck
    exact P9Fs.keepsKinds_of_isKeeping hd.tree.valid hcheck
  | supply | takeChanges => trivial

/-- Both conditions of a run, by evaluation. -/
theorem Virtio9p.LoadedFrom.conditions {start : Virtio9p}
    (h : start.LoadedFrom host) (events : List FileEvent)
    (hchecks : Along (attempt call) (fun s event =>
      checks (fun d event => d.isOnTree event && d.isKeeping host event) s event = true)
      (.ok start) events) :
    Along (attempt call) (Meets Virtio9p.OnTree) (.ok start) events ∧
      Along (attempt call) (Meets (Virtio9p.KeepsKinds host))
        (.ok start) events := by
  have hmeets := Along.meets_of_checks
    (fun _ _ hcheck => Bool.and_eq_true_iff.mp hcheck) hchecks
  refine ⟨hmeets.mono fun _ event hboth d hd => ?_,
    hmeets.attempt_of_invariant ?_ (fun d event hd hboth => hd.sound.keepsKinds hboth.2) h.mirrors⟩
  · exact onTree_of_isOnTree d event (hboth d hd).1
  · exact fun d event d' hd hboth hcall => hd.called (call_cases hcall)
      (onTree_of_isOnTree d event hboth.1) (hd.sound.keepsKinds hboth.2)

/-- The guest unlinks `a`, makes a directory `b`, and a file `c` that it writes to. -/
def remake : List FileEvent :=
  [askFile .unlinkat (putU32 0 ++ putStr [0x61] ++ putU32 0),
    askFile .mkdir (putU32 0 ++ putStr [0x62] ++ putU32 0o755 ++ putU32 0),
    askFile .lcreate (putU32 0 ++ putStr [0x63] ++ putU32 0 ++ putU32 0o644),
    askFile .write (putU32 0 ++ putU64 0 ++ putU32 1 ++ [0x58])]

theorem run_replays_remake :
    ∃ d, run (attempt call) (.ok loadedAE) remake = .ok d ∧
      d.takeChanges.1 =
        [⟨.delete, [0x61], []⟩, ⟨.mkdir, [0x62], []⟩, ⟨.write, [0x63], [0x58]⟩] ∧
      d.ReplaysTo hostWithAE := by
  have hpasses : passes (fun d : Virtio9p => decide (d.takeChanges.1 =
        [⟨.delete, [0x61], []⟩, ⟨.mkdir, [0x62], []⟩, ⟨.write, [0x63], [0x58]⟩]))
      (run (attempt call) (.ok loadedAE) remake) = true := by
    decide +kernel
  obtain ⟨d, hrun, hchanges⟩ := exists_of_passes hpasses
  obtain ⟨htree, hkinds⟩ := loadedAE_loadedFrom.conditions remake (by decide +kernel)
  exact ⟨d, hrun, of_decide_eq_true hchanges,
    run_replays loadedAE_loadedFrom remake htree hkinds hrun⟩

/-- The guest puts a directory in the place of the file `a`. -/
def fileToDir : List FileEvent :=
  [askFile .unlinkat (putU32 0 ++ putStr [0x61] ++ putU32 0),
    askFile .mkdir (putU32 0 ++ putStr [0x61] ++ putU32 0o755 ++ putU32 0)]

/-- The guest puts a file in the place of the directory `e`. -/
def dirToFile : List FileEvent :=
  [askFile .unlinkat (putU32 0 ++ putStr [0x65] ++ putU32 0),
    askFile .lcreate (putU32 0 ++ putStr [0x65] ++ putU32 0 ++ putU32 0o644)]

/-- The run keeps to the tree, and the host is left with another entry at the path. -/
def ReplayMisses (events : List FileEvent) (names : List Bytes) : Prop :=
  Along (attempt call) (Meets Virtio9p.OnTree) (.ok loadedAE) events ∧
    ∃ d, run (attempt call) (.ok loadedAE) events = .ok d ∧
      (hostWithAE.replay d.takeChanges.1).view names ≠ d.fs.view names

theorem replayMisses_of_checks {events : List FileEvent} {names : List Bytes}
    (hchecks : Along (attempt call)
      (fun s event => checks isOnTree s event = true) (.ok loadedAE) events)
    (hpasses : passes (fun d : Virtio9p =>
        decide ((hostWithAE.replay d.takeChanges.1).view names ≠ d.fs.view names))
      (run (attempt call) (.ok loadedAE) events) = true) :
    ReplayMisses events names := by
  obtain ⟨d, hrun, hmiss⟩ := exists_of_passes hpasses
  exact ⟨Along.meets_of_checks onTree_of_isOnTree hchecks, d, hrun,
    of_decide_eq_true hmiss⟩

/-- A directory that replaces a file, and a file that replaces a directory, do not reach
the host: the one record left for the path cannot be applied there. -/
theorem replaced_kinds_are_not_replayed :
    loadedAE.LoadedFrom hostWithAE ∧ ReplayMisses fileToDir [[0x61]] ∧
      ReplayMisses dirToFile [[0x65]] := by
  refine ⟨loadedAE_loadedFrom, ?_, ?_⟩
  · exact replayMisses_of_checks (by decide +kernel) (by decide +kernel)
  · exact replayMisses_of_checks (by decide +kernel) (by decide +kernel)

end TabLinux

/-
The paths that a shared folder gives to the host: in requests, when contents are missing,
and in the records of the write-back log.  They are built from names that the guest chose
and from parent links that outlive the entries, so they name what they should only for
plain names and for inodes that still have a place in the tree.
-/
import TabLinux.Library.SortedAssoc
import TabLinux.P9Share

namespace TabLinux

open Bytes Paths Runs Virtio9p

variable {op : ChangeOp} {target dir : Nat} {payload msg : Bytes}

variable {record : Bytes × ChangeOp} {entry : Bytes × Nat} {node : Inode}
  {head : U16} {writable : List Buf} {i : Nat} {h : Held}

theorem insertSorted_eq (path : Bytes) (op : ChangeOp) (log : List (Bytes × ChangeOp)) :
    insertSorted path op log = SortedAssoc.insert path op log := by
  induction log with
  | nil => rfl
  | cons record rest ih =>
    obtain ⟨key, old⟩ := record
    rw [insertSorted, SortedAssoc.insert, ih]

/-- A record is added for a lazy device, unless it would be for the root. -/
theorem Virtio9p.mark_dirtyChanges (d : Virtio9p) (path : Bytes) (op : ChangeOp) :
    (d.mark path op).dirtyChanges =
      if d.isLazy = true ∧ path ≠ [] then SortedAssoc.insert path op d.dirtyChanges
      else d.dirtyChanges := by
  unfold mark
  split
  · exact insertSorted_eq path op d.dirtyChanges
  · rfl

theorem Virtio9p.mem_mark {d : Virtio9p} {path : Bytes}
    (hmem : record ∈ (d.mark path op).dirtyChanges) :
    record = (path, op) ∨ record ∈ d.dirtyChanges := by
  rw [d.mark_dirtyChanges] at hmem
  split at hmem
  · rcases SortedAssoc.mem_of_mem_insert hmem with ⟨hkey, hop⟩ | hold
    · exact Or.inl (Prod.ext hkey hop)
    · exact Or.inr hold
  · exact Or.inr hmem

variable {fs : P9Fs}

/-- What the host is given for a record. -/
theorem P9Fs.fileChange?_spec {path : Bytes} {change : FileChange}
    (h : fs.fileChange? path op = some change) :
    change.op = op ∧ change.path = path ∧
      (op = .write → ∃ ino, fs.resolve path = some ino ∧ change.data = (fs.node ino).data) := by
  cases op with
  | write =>
    cases hresolve : fs.resolve path with
    | none =>
      rw [fileChange?, hresolve] at h
      cases h
    | some ino =>
      rw [fileChange?, hresolve] at h
      dsimp only at h
      split at h
      · cases h
      · cases h
        exact ⟨rfl, rfl, fun _ => ⟨ino, rfl, rfl⟩⟩
  | delete | mkdir =>
    cases h
    exact ⟨rfl, rfl, fun h => nomatch h⟩

/-- A name that stands for one component of a path and nothing else. -/
def PlainName (name : Bytes) : Prop := ¬ Reserved name ∧ slash ∉ name

/-- Every component of the path is an ordinary name; the path of the root has none. -/
def ConfinedPath (path : Bytes) : Prop :=
  path = [] ∨ ∀ part ∈ path.splitOn slash, ¬ Reserved part

/-- The path is made of the names that lead from the root to an inode. -/
def P9Fs.Spells (fs : P9Fs) (path : Bytes) (ino : Nat) : Prop :=
  ∃ names, path = join slash names ∧ fs.resolveFrom 0 names = some ino

/-- The inode that a recorded message is about. -/
def P9Fs.concerned (fs : P9Fs) (ty : TMsg) (c : Bytes) : Option Nat :=
  match ty with
  | .lcreate | .mkdir => some fs.inodes.length
  | .unlinkat => (fs.subject c).bind fun dir => (parseName c).bind fun name => fs.child dir name
  | _ => fs.subject c

/-- The paths that a call puts into requests and records, and those in the changes that
the host would be given after it, are confined and belong to the inode concerned. -/
structure Virtio9p.Confines (d : Virtio9p) (event : FileEvent) (d' : Virtio9p) : Prop where
  requests : ∀ req ∈ d'.hostReqs, req ∈ d.hostReqs ∨
    (ConfinedPath req.path ∧ ∃ h ∈ d'.held, h.id = req.id ∧ d'.fs.Spells req.path h.target)
  records : ∀ record ∈ d'.dirtyChanges, record ∈ d.dirtyChanges ∨
    (ConfinedPath record.1 ∧ ∃ chain mem ty ino, event = .message chain mem ∧
      msgType? (gather mem chain.readable) = some ty ∧
      d.fs.concerned ty ((gather mem chain.readable).drop 7) = some ino ∧
      (d.fs.Spells record.1 ino ∨ d'.fs.Spells record.1 ino))
  changes : ∀ change ∈ d'.takeChanges.1, ConfinedPath change.path ∧
    (change.op = .write →
      ∃ ino, d'.fs.Spells change.path ino ∧ change.data = (d'.fs.node ino).data)

/-- The listings of the host have no name with a slash. -/
def Virtio9p.ListsNames (d : Virtio9p) : FileEvent → Prop
  | .supply id payload _ => ∀ i h, d.heldAt id = some i → d.held[i]? = some h →
      h.kind = .listDir → ∀ entry ∈ listingEntries payload, slash ∉ entry.name
  | _ => True

/-- The messages that make a path, for a request or a record. -/
def TMsg.makesPath : TMsg → Bool
  | .walk | .read | .readdir | .lcreate | .mkdir | .write | .setattr | .unlinkat
  | .remove => true
  | _ => false

/-- The fid of a message that makes a path refers to an inode with a place in the tree. -/
def Virtio9p.OnLinked (d : Virtio9p) (msg : Bytes) : Prop :=
  ∀ ty ino, msgType? msg = some ty → ty.makesPath = true →
    d.fs.subject (msg.drop 7) = some ino → ∃ names, d.fs.resolveFrom 0 names = some ino

/-- Entries are created under plain names, and paths are made for inodes that have a
place in the tree. -/
def Virtio9p.NamesPlain (d : Virtio9p) : FileEvent → Prop
  | .message chain mem =>
      (∀ ty, msgType? (gather mem chain.readable) = some ty → ty = .lcreate ∨ ty = .mkdir →
        ∀ name, parseName ((gather mem chain.readable).drop 7) = some name → PlainName name) ∧
      d.OnLinked (gather mem chain.readable)
  | .supply id _ _ => ∀ i h, d.heldAt id = some i → d.held[i]? = some h → d.OnLinked h.msg
  | .takeChanges => True

theorem P9Fs.applyListing_entries (htarget : target < fs.inodes.length)
    (hmem : entry ∈ ((fs.applyListing target payload).node dir).children) :
    entry ∈ (fs.node dir).children ∨
      (dir = target ∧ ¬ Reserved entry.1 ∧
        ∃ listed ∈ listingEntries payload, listed.name = entry.1) := by
  unfold applyListing at hmem
  generalize listingEntries payload = entries at hmem ⊢
  induction entries generalizing fs with
  | nil => exact Or.inl hmem
  | cons listed entries ih =>
    have hlt := Nat.lt_of_lt_of_le htarget (fs.length_addListed target listed)
    rcases ih hlt hmem with hold | ⟨hdir, hreserved, other, hother, hname⟩
    · rcases fs.addListed_cases target listed with ⟨-, heq⟩ | ⟨hreserved, -, heq⟩
      · rw [heq] at hold
        exact Or.inl hold
      · obtain ⟨hparent, hchildren⟩ := listed.stub_parent target
        rw [heq] at hold
        change entry ∈ (shape _).children dir at hold
        rw [fs.shape_create htarget _ hparent hchildren] at hold
        rcases Directories.Tree.mem_children_add.mp hold with hold | ⟨hdir, rfl⟩
        · exact Or.inl hold
        · exact Or.inr ⟨hdir, hreserved, listed, List.mem_cons_self, rfl⟩
    · exact Or.inr ⟨hdir, hreserved, other, List.mem_cons_of_mem _ hother, hname⟩

theorem P9Fs.fill_entries (htarget : target < fs.inodes.length) {kind : ReqKind}
    (hmem : entry ∈ ((fs.fill kind target payload).node dir).children) :
    entry ∈ (fs.node dir).children ∨
      (kind = .listDir ∧ dir = target ∧ ¬ Reserved entry.1 ∧
        ∃ listed ∈ listingEntries payload, listed.name = entry.1) := by
  cases kind with
  | readFile =>
    have hkeep := fs.node_setNode_of_keeps target dir (f := fun node => node.filled payload)
      Inode.children fun _ => rfl
    rw [fill, hkeep] at hmem
    exact Or.inl hmem
  | listDir =>
    have hkeep := (fs.applyListing target payload).node_setNode_of_keeps target dir
      (f := fun node => { node with loaded := true }) Inode.children fun _ => rfl
    rw [fill, hkeep] at hmem
    rcases applyListing_entries htarget hmem with hold | hnew
    · exact Or.inl hold
    · exact Or.inr ⟨rfl, hnew⟩

theorem PlainName.clean {name : Bytes} (h : PlainName name) : Paths.Clean slash name :=
  ⟨fun hempty => h.1 (Or.inl hempty), h.2⟩

theorem confinedPath_join {names : List Bytes} (hplain : ∀ name ∈ names, PlainName name) :
    ConfinedPath (join slash names) := by
  cases names with
  | nil => exact Or.inl rfl
  | cons name names =>
    refine Or.inr fun part hpart => ?_
    have hsplit : (join slash (name :: names)).splitOn slash = name :: names :=
      List.splitOn_intercalate slash (fun l hl => (hplain l hl).2) (List.cons_ne_nil _ _)
    rw [hsplit] at hpart
    exact (hplain part hpart).1

section

variable {fs : P9Fs} {ino : Nat}

theorem P9Fs.linked_iff : fs.shape.Linked ino ↔ ∃ names, fs.resolveFrom 0 names = some ino := by
  simp only [fs.resolveFrom_eq]
  exact Iff.rfl

theorem P9Fs.Tree.spells (h : fs.Tree) (hlinked : fs.shape.Linked ino) :
    fs.Spells (fs.pathOf ino) ino := by
  refine ⟨fs.shape.path ino, fs.pathOf_eq ino, ?_⟩
  rw [fs.resolveFrom_eq]
  exact h.valid.follow_path hlinked

theorem P9Fs.path_plain (hplain : ∀ dir, ∀ entry ∈ (fs.node dir).children, PlainName entry.1) :
    ∀ name ∈ fs.shape.path ino, PlainName name := by
  intro name hmem
  obtain ⟨dir, j, hentry⟩ := Directories.Tree.mem_climb hmem
  exact hplain dir (name, j) hentry

end

section

variable {d d' : Virtio9p} {ty : TMsg} {c : Bytes}

/-- A path that is made for the concerned inode, in a tree in which it has a place. -/
def P9Fs.MadeFor (fs : P9Fs) (path : Bytes) (ino : Nat) : Prop :=
  path = fs.pathOf ino ∧ fs.shape.Linked ino

theorem Creates.concerned (h : Creates dir ty node op) :
    d.fs.concerned ty c = some d.fs.inodes.length := by
  cases h with
  | file => rfl
  | dir => rfl

theorem Creates.makesPath (h : Creates dir ty node op) : ty.makesPath = true := by
  cases h with
  | file => rfl
  | dir => rfl

theorem Unlinks.concerned (h : Unlinks fs c ty dir target) : fs.concerned ty c = some target := by
  cases h with
  | remove hsubject => exact hsubject
  | unlinkat hsubject hname hchild =>
    rw [P9Fs.concerned, hsubject, hname]
    exact hchild

/-- The entry to be taken off has a place in the tree if the inode of the fid has. -/
theorem Unlinks.linked (h : Unlinks fs c ty dir target)
    (hlinked : ∀ ino, ty.makesPath = true → fs.subject c = some ino → fs.shape.Linked ino) :
    fs.shape.Linked target := by
  cases h with
  | remove hsubject => exact hlinked target rfl hsubject
  | unlinkat hsubject _ hchild => exact (hlinked dir rfl hsubject).child hchild

theorem TreeEdit.records (h : TreeEdit d ty c d') (hwf : d.fs.Wf) (hvalid : d.fs.shape.Valid)
    (hlinked : ∀ ino, ty.makesPath = true → d.fs.subject c = some ino → d.fs.shape.Linked ino)
    (hmem : record ∈ d'.dirtyChanges) :
    record ∈ d.dirtyChanges ∨ ∃ ino, d.fs.concerned ty c = some ino ∧
      (d.fs.MadeFor record.1 ino ∨ d'.fs.MadeFor record.1 ino) := by
  cases h with
  | keep _ hlog | chmod _ _ _ _ hlog =>
    rw [hlog] at hmem
    exact Or.inl hmem
  | park => exact Or.inl hmem
  | @create _ dir name node op hcreates hsubject _ _ hfresh hinodes hlog =>
    rw [hlog] at hmem
    rcases mem_mark hmem with rfl | hold
    · refine Or.inr ⟨_, hcreates.concerned, Or.inr ⟨?_, ?_⟩⟩
      · exact (P9Fs.pathOf_congr hinodes _).symm
      · obtain ⟨names, hnames⟩ := hlinked dir hcreates.makesPath hsubject
        obtain ⟨hparent, hchildren⟩ := hcreates.made
        have hdir := hwf.subject_lt hsubject
        rw [P9Fs.shape_congr hinodes, d.fs.shape_create hdir name hparent hchildren]
        exact ⟨_, (hvalid.follow_add hdir hfresh).mpr (Or.inr ⟨rfl, names, rfl, hnames⟩)⟩
    · exact Or.inl hold
  | @edit _ ino f hty hsubject hf _ hlog =>
    rw [hlog] at hmem
    rcases mem_mark hmem with rfl | hold
    · have hpath : (d.fs.setNode ino f).pathOf ino = d.fs.pathOf ino := by
        rw [P9Fs.pathOf_eq, P9Fs.pathOf_eq, d.fs.shape_setNode ino hf.parent hf.children]
      have hmakes : ty.makesPath = true ∧ d.fs.concerned ty c = d.fs.subject c := by
        rcases hty with ⟨rfl, -⟩ | ⟨rfl, -⟩
        · exact ⟨rfl, rfl⟩
        · exact ⟨rfl, rfl⟩
      exact Or.inr ⟨ino, hmakes.2.trans hsubject, Or.inl ⟨hpath, hlinked ino hmakes.1 hsubject⟩⟩
    · exact Or.inl hold
  | unlink hunlinks _ _ hlog =>
    rw [hlog] at hmem
    rcases mem_mark hmem with rfl | hold
    · exact Or.inr ⟨_, hunlinks.concerned, Or.inl ⟨rfl, hunlinks.linked hlinked⟩⟩
    · exact Or.inl hold

/-- A request is for the path of the inode it is about. -/
theorem TreeEdit.request (h : TreeEdit d ty c d') (hvalid : d.fs.shape.Valid)
    (hnone : d.deferPending = none)
    (hlinked : ∀ ino, ty.makesPath = true → d.fs.subject c = some ino → d.fs.shape.Linked ino)
    (hparks : ty.parks = true) {defer : Defer} (hdefer : d'.deferPending = some defer) :
    d'.fs.MadeFor defer.path defer.target := by
  cases h with
  | park off len hsubject hreached =>
    cases hdefer
    have hmakes : ty.makesPath = true := by
      cases ty with
      | walk | read | readdir => rfl
      | statfs | lopen | lcreate | getattr | setattr | xattrwalk | fsync | mkdir | unlinkat
      | version | attach | flush | write | clunk | remove => cases hparks
    exact ⟨rfl, hreached.linked hvalid (hlinked _ hmakes hsubject)⟩
  | keep _ _ hkept | create _ _ _ _ _ _ _ hkept | chmod _ _ _ _ _ hkept
  | edit _ _ _ _ _ hkept | unlink _ _ _ _ hkept =>
    rw [hkept, hnone] at hdefer
    cases hdefer

end

/-- A new request has its chain parked beside it. -/
theorem Requested.mem {d d' : Virtio9p}
    {defer? : Option Defer} (h : Requested d head writable msg d' defer?) {req : HostReq}
    (hmem : req ∈ d'.hostReqs) :
    req ∈ d.hostReqs ∨ ∃ defer held, defer? = .some defer ∧ held ∈ d'.held ∧
      held.id = req.id ∧ held.msg = msg ∧ held.target = defer.target ∧ req.path = defer.path := by
  cases h with
  | none hreqs =>
    rw [hreqs] at hmem
    exact Or.inl hmem
  | some defer hreqs hheld =>
    rw [hreqs] at hmem
    rcases List.mem_append.mp hmem with hold | hnew
    · exact Or.inl hold
    cases List.mem_singleton.mp hnew
    refine Or.inr ⟨defer, ⟨d.nextId, head, writable, msg, defer.kind, defer.target⟩, rfl,
      ?_, rfl, rfl, rfl, rfl⟩
    rw [hheld]
    exact List.mem_append_right _ (List.mem_singleton_self _)

/-- A device whose entries and records are made of plain names. -/
structure Virtio9p.Plain (d : Virtio9p) : Prop where
  sound : d.Sound
  names : ∀ dir, ∀ entry ∈ (d.fs.node dir).children, PlainName entry.1
  log : ∀ record ∈ d.dirtyChanges, ∃ names : List Bytes,
    (∀ name ∈ names, PlainName name) ∧ record.1 = join slash names

section

variable {d d' : Virtio9p} {path : Bytes} {ino : Nat}

namespace Virtio9p

theorem newLazy_plain (tag : Bytes) : (newLazy tag).Plain := by
  refine ⟨created_sound true tag, fun dir entry hmem => ?_, fun record hmem => ?_⟩
  · cases dir <;> cases hmem
  · cases hmem

theorem Plain.parts (hd : d.Plain) (h : d.fs.MadeFor path ino) :
    ∃ names : List Bytes,
      (∀ name ∈ names, PlainName name) ∧ path = join slash names := by
  obtain ⟨rfl, -⟩ := h
  exact ⟨d.fs.shape.path ino, P9Fs.path_plain hd.names, d.fs.pathOf_eq ino⟩

theorem Plain.confined (hd : d.Plain) (h : d.fs.MadeFor path ino) : ConfinedPath path := by
  obtain ⟨names, hplain, rfl⟩ := hd.parts h
  exact confinedPath_join hplain

theorem Plain.spells (hd : d.Plain) (h : d.fs.MadeFor path ino) : d.fs.Spells path ino := by
  obtain ⟨rfl, hlinked⟩ := h
  exact hd.sound.tree.spells hlinked

/-- The changes of a plain device are confined, and a written file is found under the
path of its record. -/
theorem Plain.changes (hd : d.Plain) :
    ∀ change ∈ d.takeChanges.1, ConfinedPath change.path ∧
      (change.op = .write →
        ∃ ino, d.fs.Spells change.path ino ∧ change.data = (d.fs.node ino).data) := by
  intro change hmem
  obtain ⟨⟨path, op⟩, hrecord, hchange⟩ := List.mem_filterMap.mp hmem
  obtain ⟨hop, hpath, hwrite⟩ := P9Fs.fileChange?_spec hchange
  obtain ⟨names, hplain, rfl⟩ := hd.log _ hrecord
  rw [hop, hpath]
  refine ⟨confinedPath_join hplain, fun hop' => ?_⟩
  obtain ⟨ino, hresolve, hdata⟩ := hwrite hop'
  refine ⟨ino, ⟨names, rfl, ?_⟩, hdata⟩
  have hcomponents := components_join fun name hmem => (hplain name hmem).clean
  rwa [P9Fs.resolve, ← components, hcomponents] at hresolve

/-- One message served by a plain device. -/
structure PlainStep (d : Virtio9p) (msg : Bytes) (d' : Virtio9p) : Prop where
  plain : d'.Plain
  requests : ∀ req ∈ d'.hostReqs, req ∈ d.hostReqs ∨
    ∃ h ∈ d'.held, h.id = req.id ∧ d'.fs.MadeFor req.path h.target
  records : ∀ record ∈ d'.dirtyChanges, record ∈ d.dirtyChanges ∨
    ∃ ty ino, msgType? msg = some ty ∧ d.fs.concerned ty (msg.drop 7) = some ino ∧
      (d.fs.MadeFor record.1 ino ∨ d'.fs.MadeFor record.1 ino)

theorem Plain.served (hd : d.Plain) {reply : Option Bytes}
    (hserved : Served d head writable msg reply d')
    (hnames : ∀ ty, msgType? msg = some ty → ty = .lcreate ∨ ty = .mkdir →
      ∀ name, parseName (msg.drop 7) = some name → PlainName name)
    (honLinked : d.OnLinked msg) : d.PlainStep msg d' := by
  have hsound : d'.Sound := hd.sound.served hserved fun ty hty hcreates name hname =>
    (hnames ty hty hcreates name hname).clean
  obtain ⟨after, rfl | ⟨ty, hty, hedit⟩, hfs, hlog, hrequested⟩ := hserved.edits
  · refine ⟨⟨hsound, ?_, ?_⟩, fun req hmem => ?_, ?_⟩
    · rw [hfs]
      exact hd.names
    · rw [hlog]
      exact hd.log
    · rcases hrequested.mem hmem with hold | ⟨_, _, hdefer, -⟩
      · exact Or.inl hold
      · cases hdefer
    · rw [hlog]
      exact fun _ hmem => Or.inl hmem
  have hlinked : ∀ ino, ty.makesPath = true → d.fs.subject (msg.drop 7) = some ino →
      d.fs.shape.Linked ino := fun ino hmakes hsubject =>
    P9Fs.linked_iff.mpr (honLinked ty ino hty hmakes hsubject)
  have hentries : ∀ dir, ∀ entry ∈ (d'.fs.node dir).children, PlainName entry.1 := by
    intro dir entry hmem
    rw [hfs] at hmem
    rcases (hedit.shapeEdit hd.sound.wf.tree).mem_children hmem with hold | ⟨hcreates, hname, -⟩
    · exact hd.names dir entry hold
    · exact hnames ty hty hcreates _ hname
  have hrecords : ∀ record ∈ d'.dirtyChanges, record ∈ d.dirtyChanges ∨
      ∃ ino, d.fs.concerned ty (msg.drop 7) = some ino ∧
        (d.fs.MadeFor record.1 ino ∨ d'.fs.MadeFor record.1 ino) := by
    rw [hlog, hfs]
    exact fun _ => hedit.records hd.sound.wf.tree hd.sound.tree.valid hlinked
  have hplain : ({ d' with dirtyChanges := [] } : Virtio9p).Plain :=
    ⟨⟨⟨hsound.wf.tree, hsound.wf.held⟩, hsound.tree, hsound.rootDir⟩, hentries,
      fun _ hmem => nomatch hmem⟩
  refine ⟨⟨hsound, hentries, fun record hmem => ?_⟩, fun req hmem => ?_, fun record hmem => ?_⟩
  · rcases hrecords record hmem with hold | ⟨ino, -, hmade | hmade⟩
    · exact hd.log record hold
    · exact hd.parts hmade
    · exact hplain.parts hmade
  · rcases hrequested.mem hmem with hold | ⟨defer, h, hdefer, hheld, hid, hmsg, htarget, hpath⟩
    · exact Or.inl hold
    · obtain ⟨ty', hty', hparks⟩ := (hsound.wf.held h hheld).msg
      rw [hmsg, hty] at hty'
      cases hty'
      refine Or.inr ⟨h, hheld, hid, ?_⟩
      rw [htarget, hpath, hfs]
      exact hedit.request hd.sound.tree.valid rfl hlinked hparks hdefer
  · rcases hrecords record hmem with hold | ⟨ino, hino, hmade⟩
    · exact Or.inl hold
    · exact Or.inr ⟨ty, ino, hty, hino, hmade⟩

/-- The contents that arrive bring plain names, and no path is made for them. -/
theorem Plain.filledFor (hd : d.Plain)
    (hget : d.held[i]? = some h) (hlists : h.kind = .listDir →
      ∀ entry ∈ listingEntries payload, slash ∉ entry.name) : (d.filledFor i h payload).Plain := by
  have hheld := hd.sound.wf.held h (List.mem_of_getElem? hget)
  refine ⟨hd.sound.filledFor hget hlists, fun dir entry hmem => ?_, hd.log⟩
  rcases P9Fs.fill_entries hheld.target hmem with hold | ⟨hkind, -, hreserved, listed, hmem, hname⟩
  · exact hd.names dir entry hold
  · exact ⟨hreserved, hname ▸ hlists hkind listed hmem⟩

theorem Plain.onLinked_filledFor (hd : d.Plain)
    (hget : d.held[i]? = some h) (honLinked : d.OnLinked msg) :
    (d.filledFor i h payload).OnLinked msg := by
  intro ty ino hty hmakes hsubject
  have hheld := hd.sound.wf.held h (List.mem_of_getElem? hget)
  rw [P9Fs.subject, Virtio9p.filledFor, P9Fs.fill_fids hheld.target, ← P9Fs.subject] at hsubject
  obtain ⟨names, hnames⟩ := honLinked ty ino hty hmakes hsubject
  refine ⟨names, ?_⟩
  rw [P9Fs.resolveFrom_eq] at hnames ⊢
  exact P9Fs.follow_fill hd.sound.tree.valid hheld.target hnames

theorem PlainStep.confines_requests (h : d.PlainStep msg d') :
    ∀ req ∈ d'.hostReqs, req ∈ d.hostReqs ∨ (ConfinedPath req.path ∧
      ∃ h ∈ d'.held, h.id = req.id ∧ d'.fs.Spells req.path h.target) := by
  intro req hmem
  rcases h.requests req hmem with hold | ⟨held, hheld, hid, hmade⟩
  · exact Or.inl hold
  · exact Or.inr ⟨h.plain.confined hmade, held, hheld, hid, h.plain.spells hmade⟩

theorem Plain.called (hd : d.Plain) {event : FileEvent} (hcalled : Called d event d')
    (hlists : d.ListsNames event) (hplain : d.NamesPlain event) :
    d'.Plain ∧ d.Confines event d' := by
  cases hcalled with
  | short | unknown =>
    exact ⟨hd, fun _ hmem => Or.inl hmem, fun _ hmem => Or.inl hmem, hd.changes⟩
  | @message chain mem _ after deferred hserved =>
    have hstep := hd.served hserved hplain.1 hplain.2
    have hafter := hstep.plain
    have hplain' : ({ after with deferred := deferred } : Virtio9p).Plain :=
      ⟨⟨⟨hafter.sound.wf.tree, hafter.sound.wf.held⟩, hafter.sound.tree,
        hafter.sound.rootDir⟩, hafter.names, hafter.log⟩
    refine ⟨hplain', hstep.confines_requests, fun record hmem => ?_, hplain'.changes⟩
    rcases hstep.records record hmem with hold | ⟨ty, ino, hty, hino, hmade⟩
    · exact Or.inl hold
    refine Or.inr ⟨?_, chain, mem, ty, ino, rfl, hty, hino, ?_⟩
    · rcases hmade with hmade | hmade
      · exact hd.confined hmade
      · exact hafter.confined hmade
    · exact hmade.imp hd.spells hafter.spells
  | @answer _ payload _ i h _ _ hfind hget hserved =>
    have hnames := hlists i h hfind hget
    obtain ⟨ty, hty, hparks⟩ := (hd.sound.wf.held h (List.mem_of_getElem? hget)).msg
    have hlog := (hserved.of_parks hty hparks).2
    have hstep := (hd.filledFor hget hnames).served hserved
      (fun ty' hty' hcreates => by
        cases hty.symm.trans hty'
        rcases hcreates with rfl | rfl
        · cases hparks
        · cases hparks)
      (hd.onLinked_filledFor hget (hplain i h hfind hget))
    refine ⟨hstep.plain, hstep.confines_requests, fun record hmem => ?_, hstep.plain.changes⟩
    rw [hlog] at hmem
    exact Or.inl hmem
  | takeChanges =>
    have hdrained : d.takeChanges.2.Plain :=
      ⟨⟨⟨hd.sound.wf.tree, hd.sound.wf.held⟩, hd.sound.tree, hd.sound.rootDir⟩, hd.names,
        fun _ hmem => nomatch hmem⟩
    exact ⟨hdrained, fun _ hmem => Or.inl hmem, (fun _ hmem => nomatch hmem), hdrained.changes⟩

end Virtio9p

end

/-- A call that does not panic gives only confined paths to the host. -/
def Virtio9p.CallConfined (d : Virtio9p) (event : FileEvent) : Prop :=
  ∀ d', d.call event = .ok d' → d.Confines event d'

/-- As long as entries get plain names and no path is made for an inode that has lost its
place, every path that the host is given is confined and that of the inode concerned. -/
theorem run_confined (tag : Bytes) (events : List FileEvent)
    (hlists : Along (attempt call) (Meets Virtio9p.ListsNames)
      (.ok (newLazy tag)) events)
    (hplain : Along (attempt call) (Meets Virtio9p.NamesPlain)
      (.ok (newLazy tag)) events) :
    Along (attempt call) (Meets Virtio9p.CallConfined)
      (.ok (newLazy tag)) events := by
  have hboth := (hlists.and hplain).meets_and
  refine hboth.attempt_of_invariant ?_ ?_ (newLazy_plain tag)
  · intro d event d' hd hmeets hcall
    exact (hd.called (call_cases hcall) hmeets.1 hmeets.2).1
  · intro d event hd hmeets d' hcall
    exact (hd.called (call_cases hcall) hmeets.1 hmeets.2).2

instance (name : Bytes) : Decidable (PlainName name) :=
  inferInstanceAs (Decidable (¬ (name = [] ∨ name = [0x2E] ∨ name = [0x2E, 0x2E]) ∧ slash ∉ name))

/-- The inode of the first fid is found under its own path. -/
def P9Fs.isLinked (fs : P9Fs) (c : Bytes) : Bool :=
  (fs.subject c).all fun ino => fs.resolve (fs.pathOf ino) = some ino

theorem Virtio9p.onLinked_of_isLinked {d : Virtio9p}
    (hcheck : d.fs.isLinked (msg.drop 7) = true) : d.OnLinked msg := by
  intro ty ino _ _ hsubject
  rw [P9Fs.isLinked, hsubject] at hcheck
  exact ⟨_, of_decide_eq_true hcheck⟩

/-- A check of one call that needs no search. -/
def Virtio9p.isPlain (d : Virtio9p) : FileEvent → Bool
  | .message chain mem =>
      let msg := gather mem chain.readable
      ((msgType? msg).all fun ty => ty ∉ [.lcreate, .mkdir] ||
        (parseName (msg.drop 7)).all fun name => PlainName name) && d.fs.isLinked (msg.drop 7)
  | .supply _ payload _ =>
      ((listingEntries payload).all fun entry => Paths.Clean slash entry.name) &&
        d.held.all fun h => d.fs.isLinked (h.msg.drop 7)
  | .takeChanges => true

theorem Virtio9p.namesPlain_of_isPlain (d : Virtio9p) (event : FileEvent)
    (hcheck : d.isPlain event = true) : d.ListsNames event ∧ d.NamesPlain event := by
  cases event with
  | message chain mem =>
    obtain ⟨hname, hlinked⟩ := Bool.and_eq_true_iff.mp hcheck
    refine ⟨trivial, fun ty hty hcreates name hparse => ?_, onLinked_of_isLinked hlinked⟩
    rw [hparse, hty] at hname
    rcases hcreates with rfl | rfl
    · exact of_decide_eq_true hname
    · exact of_decide_eq_true hname
  | supply id payload mem =>
    obtain ⟨hnames, hlinked⟩ := Bool.and_eq_true_iff.mp hcheck
    refine ⟨fun i h _ _ _ entry hmem => ?_, fun i h _ hget => ?_⟩
    · exact (of_decide_eq_true (List.all_eq_true.mp hnames entry hmem)).2
    · exact onLinked_of_isLinked (List.all_eq_true.mp hlinked h (List.mem_of_getElem? hget))
  | takeChanges => exact ⟨trivial, trivial⟩

/-- The host's answer to the first request: the root has one file `a` of two bytes. -/
def supplyA : FileEvent := .supply 1 listingOfA ⟨0x80000000, 0x1000, fun _ => 0⟩

/-- The guest walks to `a`, which has to be listed first, creates `b` beside it and reads
`a`, which has to be fetched. -/
def createBAndReadA : List FileEvent :=
  [askFile .attach (putU32 0),
    askFile .walk (putU32 0 ++ putU32 1 ++ putU16 1 ++ putStr [0x61]), supplyA,
    askFile .lcreate (putU32 0 ++ putStr [0x62] ++ putU32 0 ++ putU32 0o644), readA]

theorem run_confined_createBAndReadA :
    passes (fun d => d.hostReqs.map HostReq.path = [[], [0x61]] ∧
        d.takeChanges.1 = [⟨.write, [0x62], []⟩])
      (run (attempt call) (.ok (newLazy [])) createBAndReadA) =
        true ∧
      Along (attempt call) (Meets Virtio9p.CallConfined)
        (.ok (newLazy [])) createBAndReadA := by
  have hchecks : Along (attempt call)
      (fun d event => checks isPlain d event = true)
      (.ok (newLazy [])) createBAndReadA := by decide +kernel
  refine ⟨by decide +kernel, run_confined [] createBAndReadA ?_ ?_⟩
  · exact Along.meets_of_checks
      (fun d event hcheck => (d.namesPlain_of_isPlain event hcheck).1) hchecks
  · exact Along.meets_of_checks
      (fun d event hcheck => (d.namesPlain_of_isPlain event hcheck).2) hchecks

/-- Create a file under the name `..`. -/
def createDots : FileEvent :=
  askFile .lcreate (putU32 0 ++ putStr [0x2E, 0x2E] ++ putU32 0 ++ putU32 0o644)

/-- Remove the file of fid 1. -/
def removeF : FileEvent := askFile .remove (putU32 1)

/-- The guest creates `f` in the directory `d`, keeps fid 1 on it and unlinks it. -/
def unlinkF : List FileEvent :=
  [askFile .attach (putU32 0),
    askFile .mkdir (putU32 0 ++ putStr [0x64] ++ putU32 0o755 ++ putU32 0),
    askFile .walk (putU32 0 ++ putU32 1 ++ putU16 1 ++ putStr [0x64]),
    .supply 1 [] ⟨0x80000000, 0x1000, fun _ => 0⟩,
    askFile .walk (putU32 0 ++ putU32 2 ++ putU16 1 ++ putStr [0x64]),
    askFile .lcreate (putU32 1 ++ putStr [0x66] ++ putU32 0 ++ putU32 0o644),
    askFile .unlinkat (putU32 2 ++ putStr [0x66] ++ putU32 0)]

/-- The inode at `d` is not the one that `removeF` is about. -/
theorem not_confines_removeF {d d' : Virtio9p} (hnew : ([0x64], ChangeOp.delete) ∈ d'.dirtyChanges)
    (hold : ([0x64], ChangeOp.delete) ∉ d.dirtyChanges) (hfid : d.fs.fids 1 = some 2)
    (hbefore : d.fs.resolveFrom 0 [[0x64]] = some 1)
    (hafter : d'.fs.resolveFrom 0 [[0x64]] = some 1) : ¬ d.Confines removeF d' := by
  have hspells : ∀ {fs : P9Fs} {ino}, fs.resolveFrom 0 [[0x64]] = some 1 →
      fs.Spells [0x64] ino → ino = 1 := by
    rintro fs ino hresolve ⟨names, hpath, hnames⟩
    rw [eq_singleton_of_join hpath (by decide) (by decide), hresolve] at hnames
    exact (Option.some.inj hnames).symm
  intro hconfines
  rcases hconfines.records _ hnew with hmem | ⟨-, chain, mem, ty, ino, hevent, hty, hino, h⟩
  · exact hold hmem
  cases hevent
  cases (show some TMsg.remove = some ty from hty)
  cases (show d.fs.fids 1 = some ino from hino).symm.trans hfid
  rcases h with h | h
  · exact absurd (hspells hbefore h) (by decide)
  · exact absurd (hspells hafter h) (by decide)

/-- A new name `..` goes to the host as it is; and removing the unlinked file of a fid
records the path of the directory it was in. -/
theorem unchecked_paths_escape :
    (∃ d d', run (attempt call) (.ok (newLazy []))
        [askFile .attach (putU32 0)] = .ok d ∧ d.call createDots = .ok d' ∧
        d'.takeChanges.1 = [⟨.write, [0x2E, 0x2E], []⟩] ∧ ¬ d.Confines createDots d') ∧
      ∃ d d', run (attempt call) (.ok (newLazy []))
        unlinkF = .ok d ∧ d.call removeF = .ok d' ∧
        d'.takeChanges.1 = [⟨.delete, [0x64], []⟩, ⟨.delete, [0x64, 0x2F, 0x66], []⟩] ∧
        d.fs.fids 1 = some 2 ∧ d.fs.resolve [0x64] = some 1 ∧ ¬ d.Confines removeF d' := by
  have hdots : passes (fun d => passes
      (fun d' : Virtio9p => decide (d'.takeChanges.1 = [⟨.write, [0x2E, 0x2E], []⟩]))
      (d.call createDots))
      (run (attempt call) (.ok (newLazy []))
        [askFile .attach (putU32 0)]) = true := by decide +kernel
  have hremove : passes (fun d => passes
      (fun d' : Virtio9p => decide (
        d'.takeChanges.1 = [⟨.delete, [0x64], []⟩, ⟨.delete, [0x64, 0x2F, 0x66], []⟩] ∧
        ([0x64], ChangeOp.delete) ∈ d'.dirtyChanges ∧
        ([0x64], ChangeOp.delete) ∉ d.dirtyChanges ∧ d.fs.fids 1 = some 2 ∧
        d.fs.resolveFrom 0 [[0x64]] = some 1 ∧ d'.fs.resolveFrom 0 [[0x64]] = some 1))
      (d.call removeF))
      (run (attempt call) (.ok (newLazy [])) unlinkF) = true := by
    decide +kernel
  constructor
  · obtain ⟨d, hrun, hcall⟩ := exists_of_passes hdots
    obtain ⟨d', hcall, hchanges⟩ := exists_of_passes hcall
    refine ⟨d, d', hrun, hcall, of_decide_eq_true hchanges, fun hconfines => ?_⟩
    have hmem : (⟨.write, [0x2E, 0x2E], []⟩ : FileChange) ∈ d'.takeChanges.1 := by
      rw [of_decide_eq_true hchanges]
      exact List.mem_singleton_self _
    rcases (hconfines.changes _ hmem).1 with hroot | hparts
    · cases hroot
    · exact hparts [0x2E, 0x2E] (by decide) (Or.inr (Or.inr rfl))
  · obtain ⟨d, hrun, hcall⟩ := exists_of_passes hremove
    obtain ⟨d', hcall, hcheck⟩ := exists_of_passes hcall
    obtain ⟨hchanges, hnew, hold, hfid, hbefore, hafter⟩ := of_decide_eq_true hcheck
    exact ⟨d, d', hrun, hcall, hchanges, hfid, hbefore,
      not_confines_removeF hnew hold hfid hbefore hafter⟩

end TabLinux

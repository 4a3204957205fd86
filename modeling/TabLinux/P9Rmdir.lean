/-
Removing directories.  The device takes a directory for empty when it knows no entry of
it, but the entries of a directory that was never listed are still with the host.  While
only listed directories are removed, and none is made where the host has one, the
directories that go are empty.
-/
import TabLinux.Library.Paired
import TabLinux.HostTree

namespace TabLinux

open Bytes Runs

variable {fs : P9Fs} {dir target : Nat} {name msg payload : Bytes} {t : HostTree}
  {ty : TMsg} {mem : GuestMem} {d : Virtio9p}

variable {c : Bytes} {chain : Chain} {d' : Virtio9p} {i : Nat} {h : Held} {kind : ReqKind}
  {event : GuestEvent}

/-- A shared folder with a log of what the host's folder, as the guest has changed it, has
in the place of each inode. -/
structure RmdirLogged where
  dev : Virtio9p
  /-- For every parked request, in their order, the path that the host was asked for. -/
  paths : List Bytes
  /-- What the host had in the place of an inode when it was made. -/
  origin : Nat → Option HostTree
  /-- The names in a directory: those of the host, less those the guest has removed, and
  those it has added. -/
  names : Nat → Bytes → Bool

namespace RmdirLogged

def start (tag : Bytes) (host : HostTree) : RmdirLogged :=
  ⟨Virtio9p.newLazy tag, [], fun ino => if ino = 0 then some host else none,
    fun ino name => ino = 0 && (host.child name).isSome⟩

section

variable (s : RmdirLogged)

/-- A new inode stands for what its directory has under its name. -/
def originOf (dev : Virtio9p) (ino : Nat) : Option HostTree :=
  if ino < s.dev.fs.inodes.length then s.origin ino
  else
    let dir := (dev.fs.node ino).parent
    (nameOf (dev.fs.node dir).children ino).bind fun name =>
      if s.names dir name then (s.origin dir).bind fun t => t.child name else none

/-- A message adds the entries that it makes and takes off those that it removes; a
listing changes nothing. -/
def namesOf (dev : Virtio9p) (guest : Bool) (ino : Nat) (name : Bytes) : Bool :=
  if ino < s.dev.fs.inodes.length then
    if guest && (s.dev.fs.child ino name).isSome != (dev.fs.child ino name).isSome then
      (dev.fs.child ino name).isSome
    else s.names ino name
  else ((s.originOf dev ino).bind fun t => t.child name).isSome

/-- The log after a call, with the paths of the requests that were parked before it. -/
def noted (dev : Virtio9p) (guest : Bool) (kept : List Bytes) : RmdirLogged :=
  ⟨dev, kept ++ (dev.hostReqs.drop s.dev.hostReqs.length).map HostReq.path, s.originOf dev,
    s.namesOf dev guest⟩

/-- The paths of the requests that an answer leaves parked. -/
def pathsWithout (id : U32) : List Bytes :=
  match s.dev.heldAt id with
  | some i => s.paths.eraseIdx i
  | none => s.paths

def step : GuestEvent → Except DevicePanic RmdirLogged
  | .message chain mem => (s.dev.call (.message chain mem)).map fun dev =>
      s.noted dev true s.paths
  | .supply id payload mem => (s.dev.call (.supply id payload mem)).map fun dev =>
      s.noted dev false (s.pathsWithout id)

end

/-- The host lists what its folder has at the path it was asked for. -/
def Truthful (host : HostTree) (s : RmdirLogged) : GuestEvent → Prop
  | .message _ _ => True
  | .supply id payload _ => ∀ i h path, s.dev.heldAt id = some i → s.dev.held[i]? = some h →
      s.paths[i]? = some path → h.kind = .listDir → listingEntries payload = host.listingAt path

end RmdirLogged

/-- The reply to a message that fails. -/
def errorReply (msg : Bytes) (errno : Errno) : Bytes :=
  frame rlerror (msgTag msg) (putU32 errno.code)

/-- A directory with entries is not removed: the reply says so and the device is as
before.  Removing succeeds only for a directory without entries. -/
def RmdirLogged.RemovesEmpty (s : RmdirLogged) : GuestEvent → Prop
  | .message chain mem =>
      let msg := gather mem chain.readable
      ∀ ty dir target, msgType? msg = some ty → Unlinks s.dev.fs (msg.drop 7) ty dir target →
        (s.dev.fs.node target).isDir = true →
        ((∃ name, s.names target name = true) →
          s.dev.serve chain.head chain.writable msg =
            .ok (some (errorReply msg .enotempty), s.dev.cleared)) ∧
        ∀ d', s.dev.serve chain.head chain.writable msg =
            .ok (some (frame (ty.code + 1) (msgTag msg) []), d') →
          ∀ name, s.names target name = false
  | .supply _ _ _ => True

/-- Only directories that were listed are removed, and where a directory was not listed
none is made under the name of one that the host has there. -/
def RmdirLogged.ListedFirst (s : RmdirLogged) : GuestEvent → Prop
  | .message chain mem =>
      let c := (gather mem chain.readable).drop 7
      ∀ ty, msgType? (gather mem chain.readable) = some ty →
        (∀ dir target, Unlinks s.dev.fs c ty dir target → (s.dev.fs.node target).isDir = true →
          (s.dev.fs.node target).loaded = true) ∧
        (ty = .mkdir → ∀ dir name, s.dev.fs.subject c = some dir → parseName c = some name →
          (s.dev.fs.node dir).loaded = true ∨
            ∀ t, (s.origin dir).bind (fun t => t.child name) = some t → t.isDir = false)
  | .supply _ _ _ => True

structure RmdirLogged.Ok (host : HostTree) (s : RmdirLogged) : Prop where
  wf : s.dev.Wf
  valid : s.dev.fs.shape.Valid
  files : ∀ ino, (s.dev.fs.node ino).isDir = false → (s.dev.fs.node ino).children = []
  /-- A name that is not shown is one of the host's, in a directory that was not listed. -/
  shown : ∀ {ino name}, (s.dev.fs.node ino).isDir = true → s.names ino name = true →
    (s.dev.fs.child ino name).isSome = true ∨ ((s.dev.fs.node ino).loaded = false ∧
      ∃ t, s.origin ino = some t ∧ (t.child name).isSome = true)
  /-- A directory of the host that was not listed is found under the same names there. -/
  placed : ∀ {ino t}, (s.dev.fs.node ino).isDir = true →
    (s.dev.fs.node ino).loaded = false → s.origin ino = some t →
    ∃ ways, s.dev.fs.shape.follow 0 ways = some ino ∧ host.follow ways = some t
  asked : List.Forall₂ (fun h path => ∀ t, h.kind = .listDir →
    (s.dev.fs.node h.target).loaded = false → s.origin h.target = some t →
      path = s.dev.fs.pathOf h.target) s.dev.held s.paths

section

variable {host : HostTree} {s : RmdirLogged} {dev : Virtio9p} {ino : Nat}

theorem P9Fs.lt_of_isDir (hdir : (fs.node ino).isDir = true) : ino < fs.inodes.length := by
  by_contra hge
  rw [fs.node_of_ge (Nat.le_of_not_lt hge)] at hdir
  cases hdir

theorem RmdirLogged.originOf_old (hlt : ino < s.dev.fs.inodes.length) (dev : Virtio9p) :
    s.originOf dev ino = s.origin ino :=
  if_pos hlt

theorem RmdirLogged.originOf_new (hge : s.dev.fs.inodes.length ≤ ino)
    (hvalid : dev.fs.shape.Valid) (hmem : (name, ino) ∈ (dev.fs.node dir).children) :
    s.originOf dev ino =
      if s.names dir name then (s.origin dir).bind fun t => t.child name else none := by
  have hparent : (dev.fs.node ino).parent = dir := hvalid.owner hmem
  have hname : nameOf (dev.fs.node dir).children ino = some name :=
    Directories.nameOf_of_mem (hvalid.once dir) hmem
  rw [originOf, if_neg (Nat.not_lt_of_le hge), hparent]
  dsimp only
  rw [hname]
  rfl

/-- A name of the host behind a new entry was hidden by a directory that was not listed. -/
theorem RmdirLogged.Ok.hidden (hok : s.Ok host) (hge : s.dev.fs.inodes.length ≤ ino)
    (hvalid : dev.fs.shape.Valid) (hdir : (s.dev.fs.node dir).isDir = true)
    (hfresh : s.dev.fs.child dir name = none) (hmem : (name, ino) ∈ (dev.fs.node dir).children)
    (horigin : s.originOf dev ino = some t) :
    (s.dev.fs.node dir).loaded = false ∧ ∃ parent, s.origin dir = some parent ∧
      parent.child name = some t := by
  rw [RmdirLogged.originOf_new hge hvalid hmem] at horigin
  split at horigin
  · rename_i hname
    rcases hok.shown hdir hname with hchild | ⟨hstub, -⟩
    · rw [hfresh] at hchild
      cases hchild
    · exact ⟨hstub, Option.bind_eq_some_iff.mp horigin⟩
  · cases horigin

/-- The path of an inode that keeps its way down. -/
theorem P9Fs.pathOf_of_follow {fs' : P9Fs} (hvalid : fs.shape.Valid)
    (hvalid' : fs'.shape.Valid) {ways : List Bytes}
    (hfollow : fs.shape.follow 0 ways = some ino)
    (hfollow' : fs'.shape.follow 0 ways = some ino) : fs'.pathOf ino = fs.pathOf ino := by
  rw [fs.pathOf_eq, fs'.pathOf_eq, hvalid.path_of_follow hfollow, hvalid'.path_of_follow hfollow']

namespace RmdirLogged

/-- What every call does to the directories of the device. -/
structure Move (s : RmdirLogged) (dev : Virtio9p) : Prop where
  valid : dev.fs.shape.Valid
  files : ∀ ino, (dev.fs.node ino).isDir = false → (dev.fs.node ino).children = []
  isDir : ∀ {ino}, ino < s.dev.fs.inodes.length →
    (dev.fs.node ino).isDir = (s.dev.fs.node ino).isDir
  /-- A directory that is still not listed was not listed before. -/
  loaded : ∀ {ino}, (s.dev.fs.node ino).isDir = true → (dev.fs.node ino).loaded = false →
    (s.dev.fs.node ino).loaded = false
  /-- The directories that were not listed stay where they are. -/
  ways : ∀ {ino ways}, (s.dev.fs.node ino).isDir = true →
    (s.dev.fs.node ino).loaded = false → s.dev.fs.shape.follow 0 ways = some ino →
    dev.fs.shape.follow 0 ways = some ino

/-- What a message does to them. -/
structure GuestMove (s : RmdirLogged) (dev : Virtio9p) : Prop extends Move s dev where
  kept : ∀ {ino}, (s.dev.fs.node ino).isDir = true →
    (dev.fs.node ino).loaded = (s.dev.fs.node ino).loaded
  /-- A new directory counts as listed, and hides no directory of the host. -/
  made : ∀ {ino}, s.dev.fs.inodes.length ≤ ino → (dev.fs.node ino).isDir = true →
    (dev.fs.node ino).loaded = true ∧ ∃ dir name, (name, ino) ∈ (dev.fs.node dir).children ∧
      (s.dev.fs.node dir).isDir = true ∧ s.dev.fs.child dir name = none ∧
      ((s.dev.fs.node dir).loaded = true ∨
        ∀ t, (s.origin dir).bind (fun t => t.child name) = some t → t.isDir = false)

variable (hok : s.Ok host)
include hok

/-- A call that leaves the tree alone. -/
theorem Move.of_fs (hfs : dev.fs = s.dev.fs) : s.Move dev where
  valid := hfs ▸ hok.valid
  files := hfs ▸ hok.files
  isDir _ := by rw [hfs]
  loaded _ := hfs ▸ id
  ways _ _ := hfs ▸ id

theorem GuestMove.of_fs (hfs : dev.fs = s.dev.fs) : s.GuestMove dev where
  toMove := .of_fs hok hfs
  kept _ := by rw [hfs]
  made hge hdir := absurd (P9Fs.lt_of_isDir (hfs ▸ hdir)) (Nat.not_lt_of_le hge)

theorem GuestMove.of_edit {after : Virtio9p}
    (hedit : TreeEdit s.dev.cleared ty c after) (hfs : dev.fs = after.fs)
    (hisDir : ∀ {ino}, ino < s.dev.fs.inodes.length →
      (dev.fs.node ino).isDir = (s.dev.fs.node ino).isDir)
    (hremoves : ∀ dir target, Unlinks s.dev.fs c ty dir target →
      (s.dev.fs.node target).isDir = true → (s.dev.fs.node target).loaded = true)
    (hmakes : ty = .mkdir → ∀ dir name, s.dev.fs.subject c = some dir →
      parseName c = some name → (s.dev.fs.node dir).loaded = true ∨
        ∀ t, (s.origin dir).bind (fun t => t.child name) = some t → t.isDir = false) :
    s.GuestMove dev := by
  have hshape := hedit.shapeEdit hok.wf.tree
  have hvalid : dev.fs.shape.Valid := hfs ▸ hshape.valid hok.wf.tree hok.valid
  have hkept : ∀ {ino}, (s.dev.fs.node ino).isDir = true →
      (dev.fs.node ino).loaded = (s.dev.fs.node ino).loaded := fun {ino} hdir => by
    rw [hfs]
    exact hedit.loaded hok.wf.tree hdir
  refine ⟨⟨hvalid, ?_, hisDir, fun hdir => (hkept hdir).symm.trans, ?_⟩, hkept, ?_⟩
  · intro ino hfile
    rw [List.eq_nil_iff_forall_not_mem]
    intro entry hmem
    have hold : (s.dev.fs.node ino).isDir = false := by
      by_cases hlt : ino < s.dev.fs.inodes.length
      · exact (hisDir hlt).symm.trans hfile
      · rw [s.dev.fs.node_of_ge (Nat.le_of_not_lt hlt)]
        rfl
    rw [hfs] at hmem
    rcases hshape.mem_children hmem with hmem | ⟨-, -, hdir⟩
    · have hmem : entry ∈ (s.dev.fs.node ino).children := hmem
      rw [hok.files ino hold] at hmem
      cases hmem
    · cases hold.symm.trans hdir
  · intro ino ways hdir hstub hfollow
    rw [hfs]
    cases hshape with
    | same heq =>
      rw [heq]
      exact hfollow
    | add _ hsubject _ _ hfresh _ heq =>
      rw [heq]
      exact (hok.valid.follow_add (hok.wf.tree.subject_lt hsubject) hfresh).mpr (Or.inl hfollow)
    | @remove dir target hunlinks hempty heq =>
      rw [heq]
      have hleaf : (s.dev.fs.node target).children = [] := by
        cases htarget : (s.dev.fs.node target).isDir with
        | true => exact hempty htarget
        | false => exact hok.files target htarget
      refine hok.valid.follow_remove_of_ne hleaf hfollow ?_
      rintro rfl
      cases hstub.symm.trans (hremoves dir ino hunlinks hdir)
  · intro ino hge hdir
    have hlt : ino < dev.fs.shape.size := P9Fs.lt_of_isDir hdir
    rw [hfs] at hlt hdir ⊢
    cases hshape with
    | same heq | remove _ _ heq =>
      rw [heq] at hlt
      exact absurd hge (Nat.not_le_of_lt hlt)
    | @add parent name node op hcreates hsubject hname hparent hfresh hnode heq =>
      rw [heq] at hlt
      obtain rfl : ino = s.dev.fs.inodes.length := Nat.le_antisymm (Nat.le_of_lt_succ hlt) hge
      rw [show after.fs.node s.dev.fs.inodes.length = node from hnode] at hdir ⊢
      cases hcreates with
      | file => cases hdir
      | dir =>
        refine ⟨rfl, parent, name, ?_, hparent, hfresh, hmakes rfl parent name hsubject hname⟩
        change (name, s.dev.fs.inodes.length) ∈ after.fs.shape.children parent
        rw [heq]
        exact Directories.Tree.mem_children_add.mpr (Or.inr ⟨rfl, rfl⟩)

theorem Ok.guestMove (hcalled : Called s.dev (.message chain mem) dev)
    (hlisted : s.ListedFirst (.message chain mem)) : s.GuestMove dev := by
  cases hcalled with
  | short => exact .of_fs hok rfl
  | message _ hserved =>
    obtain ⟨after, rfl | ⟨ty, hty, hedit⟩, hfs, -, -⟩ := hserved.edits
    · exact .of_fs hok hfs
    · obtain ⟨hremoves, hmakes⟩ := hlisted ty hty
      exact .of_edit hok hedit hfs (fun hlt => hserved.isDir hok.wf.tree hlt) hremoves hmakes

theorem Ok.shown_message (hmove : s.GuestMove dev)
    (hdir : (dev.fs.node ino).isDir = true) (hname : s.namesOf dev true ino name = true) :
    (dev.fs.child ino name).isSome = true ∨ ((dev.fs.node ino).loaded = false ∧
      ∃ t, s.originOf dev ino = some t ∧ (t.child name).isSome = true) := by
  unfold namesOf at hname
  split at hname
  · rename_i hlt
    have hdir' := (hmove.isDir hlt).symm.trans hdir
    split at hname
    · exact Or.inl hname
    rename_i hsame
    have heq : (s.dev.fs.child ino name).isSome = (dev.fs.child ino name).isSome := by
      simpa using hsame
    rw [← heq, hmove.kept hdir', originOf_old hlt]
    exact hok.shown hdir' hname
  · -- A new directory has no names: what it hides is not a directory.
    rename_i hge
    obtain ⟨next, hnext⟩ := Option.isSome_iff_exists.mp hname
    obtain ⟨t, horigin, hchild⟩ := Option.bind_eq_some_iff.mp hnext
    have hge' := Nat.le_of_not_lt hge
    obtain ⟨-, parent, other, hmem, hparent, hfresh, hcond⟩ := hmove.made hge' hdir
    obtain ⟨hstub, hostParent, hhost, hentry⟩ :=
      hok.hidden hge' hmove.valid hparent hfresh hmem horigin
    rcases hcond with hlisted | hfile
    · cases hstub.symm.trans hlisted
    have hfile := hfile t (by rw [hhost]; exact hentry)
    cases t with
    | file => cases hchild
    | dir => cases hfile

theorem Ok.placed_of_move (hmove : s.Move dev)
    (hentry : ∀ {ino}, s.dev.fs.inodes.length ≤ ino → (dev.fs.node ino).isDir = true →
      (dev.fs.node ino).loaded = false → ∃ dir name, (name, ino) ∈ (dev.fs.node dir).children ∧
        (s.dev.fs.node dir).isDir = true ∧ s.dev.fs.child dir name = none)
    (hdir : (dev.fs.node ino).isDir = true) (hstub : (dev.fs.node ino).loaded = false)
    (horigin : s.originOf dev ino = some t) :
    ∃ ways, dev.fs.shape.follow 0 ways = some ino ∧ host.follow ways = some t := by
  by_cases hlt : ino < s.dev.fs.inodes.length
  · have hdir' := (hmove.isDir hlt).symm.trans hdir
    have hstub' := hmove.loaded hdir' hstub
    rw [originOf_old hlt] at horigin
    obtain ⟨ways, hfollow, hhost⟩ := hok.placed hdir' hstub' horigin
    exact ⟨ways, hmove.ways hdir' hstub' hfollow, hhost⟩
  · have hge := Nat.le_of_not_lt hlt
    obtain ⟨parent, name, hmem, hparent, hfresh⟩ := hentry hge hdir hstub
    obtain ⟨hstub', hostParent, hhost, hentry⟩ :=
      hok.hidden hge hmove.valid hparent hfresh hmem horigin
    obtain ⟨ways, hfollow, hways⟩ := hok.placed hparent hstub' hhost
    refine ⟨ways ++ [name], ?_, ?_⟩
    · exact Directories.Tree.follow_concat.mpr
        ⟨parent, hmove.ways hparent hstub' hfollow, hmove.valid.childOf_eq_some.mpr hmem⟩
    · rw [HostTree.follow_concat, hways]
      exact hentry

/-- The paths of parked requests stay those of the directories that are not listed. -/
theorem Ok.asked_of_move (hmove : s.Move dev) :
    List.Forall₂ (fun h path => ∀ t, h.kind = .listDir →
      (dev.fs.node h.target).loaded = false → s.originOf dev h.target = some t →
        path = dev.fs.pathOf h.target) s.dev.held s.paths := by
  refine Paired.forall₂_imp_mem hok.asked fun h hmem path hasked t hkind hstub horigin => ?_
  have hheld := hok.wf.held h hmem
  have hdir : (s.dev.fs.node h.target).isDir = true := by
    rw [hheld.isDir, hkind]
    rfl
  have hstub' := hmove.loaded hdir hstub
  rw [originOf_old hheld.target] at horigin
  obtain ⟨ways, hfollow, -⟩ := hok.placed hdir hstub' horigin
  rw [hasked t hkind hstub' horigin]
  have hfollow' := hmove.ways hdir hstub' hfollow
  exact (P9Fs.pathOf_of_follow hok.valid hmove.valid hfollow hfollow').symm

end RmdirLogged

/-- A request asks for the path of its target. -/
theorem TreeEdit.defer_path (h : TreeEdit d ty c d')
    (hnone : d.deferPending = none) {defer : Defer} (hdefer : d'.deferPending = some defer) :
    defer.path = d'.fs.pathOf defer.target := by
  cases h with
  | park =>
    cases hdefer
    rfl
  | keep _ _ hkept | create _ _ _ _ _ _ _ hkept | chmod _ _ _ _ _ hkept
  | edit _ _ _ _ _ hkept | unlink _ _ _ _ hkept =>
    rw [hkept, hnone] at hdefer
    cases hdefer

/-- The requests that a chain leaves parked, with the paths that they ask for. -/
theorem Served.asked {head : U16} {writable : List Buf}
    {reply : Option Bytes} (h : Served d head writable msg reply d')
    {R : Held → Bytes → Prop} {paths : List Bytes} (hpaired : List.Forall₂ R d.held paths)
    (hnew : ∀ held : Held, R held (d'.fs.pathOf held.target)) :
    List.Forall₂ R d'.held (paths ++ (d'.hostReqs.drop d.hostReqs.length).map HostReq.path) := by
  obtain ⟨after, hedit, hfs, -, hrequested⟩ := h.edits
  cases hdefer : after.deferPending with
  | none =>
    rw [hdefer] at hrequested
    cases hrequested with
    | none hreqs hheld =>
      rw [hheld, hreqs, List.drop_length, List.map_nil, List.append_nil]
      exact hpaired
  | some defer =>
    have hpath : defer.path = d'.fs.pathOf defer.target := by
      rcases hedit with rfl | ⟨ty, -, hedit⟩
      · cases hdefer
      · rw [hfs]
        exact hedit.defer_path rfl hdefer
    rw [hdefer] at hrequested
    cases hrequested with
    | some _ hreqs hheld =>
      rw [hheld, hreqs, List.drop_left]
      refine Paired.forall₂_append hpaired (.cons ?_ .nil)
      rw [hpath]
      exact hnew ⟨d.nextId, head, writable, msg, defer.kind, defer.target⟩

theorem RmdirLogged.Ok.message (hok : s.Ok host) (hcalled : Called s.dev (.message chain mem) dev)
    (hlisted : s.ListedFirst (.message chain mem)) : (s.noted dev true s.paths).Ok host := by
  have hmove := hok.guestMove hcalled hlisted
  have hasked := hok.asked_of_move hmove.toMove
  have hwf : dev.Wf := by
    cases hcalled with
    | short => exact hok.wf
    | message _ hserved =>
      have hafter := hserved.wf hok.wf
      exact ⟨hafter.tree, hafter.held⟩
  refine ⟨hwf, hmove.valid, hmove.files, hok.shown_message hmove,
    hok.placed_of_move hmove.toMove fun hge hdir hstub => ?_, ?_⟩
  · cases hstub.symm.trans (hmove.made hge hdir).1
  cases hcalled with
  | short =>
    change List.Forall₂ _ s.dev.held (s.paths ++ _)
    rw [List.drop_length, List.map_nil, List.append_nil]
    exact hasked
  | message _ hserved => exact hserved.asked hasked fun held t _ _ _ => rfl

/-- An answer is a listing of the directory of the host. -/
theorem RmdirLogged.Ok.listing (hok : s.Ok host) (hplain : host.Plain)
    (hget : s.dev.held[i]? = some h) {path : Bytes} (hpath : s.paths[i]? = some path)
    (hkind : h.kind = .listDir) (hstub : (s.dev.fs.node h.target).loaded = false)
    (horigin : s.origin h.target = some t) : t.Plain ∧ host.listingAt path = t.listing := by
  have hheld := hok.wf.held h (List.mem_of_getElem? hget)
  have hdir : (s.dev.fs.node h.target).isDir = true := by
    rw [hheld.isDir, hkind]
    rfl
  have hasked := Paired.forall₂_getD hok.asked hget []
  rw [List.getD_eq_getElem?_getD, hpath] at hasked
  obtain ⟨ways, hfollow, hhost⟩ := hok.placed hdir hstub horigin
  obtain ⟨hplain', hnames⟩ := hplain.follow hhost
  refine ⟨hplain', ?_⟩
  have hcomponents : Paths.components slash path = ways := by
    rw [show path = s.dev.fs.pathOf h.target from hasked t hkind hstub horigin, P9Fs.pathOf_eq,
      hok.valid.path_of_follow hfollow]
    exact Paths.components_join fun name hmem => (hnames name hmem).clean
  rw [HostTree.listingAt, hcomponents, hhost]
  rfl

/-- What an answer does to the directories of the device. -/
structure RmdirLogged.HostMove (s : RmdirLogged) (dev : Virtio9p) : Prop extends s.Move dev where
  child : ∀ {dir name}, (s.dev.fs.child dir name).isSome = true →
    (dev.fs.child dir name).isSome = true
  /-- A directory that is listed now shows what the host has. -/
  listed : ∀ {ino t name}, (s.dev.fs.node ino).isDir = true →
    (s.dev.fs.node ino).loaded = false → s.origin ino = some t →
    (t.child name).isSome = true →
    (dev.fs.child ino name).isSome = true ∨ (dev.fs.node ino).loaded = false
  /-- A new inode is a stub. -/
  stub : ∀ {ino}, s.dev.fs.inodes.length ≤ ino → (dev.fs.node ino).isDir = true →
    (dev.fs.node ino).loaded = false ∧ ∃ dir name, (name, ino) ∈ (dev.fs.node dir).children ∧
      (s.dev.fs.node dir).isDir = true ∧ s.dev.fs.child dir name = none

theorem P9Fs.isSome_child_fill (htarget : target < fs.inodes.length) :
    ((fs.fill kind target payload).child dir name).isSome = true ↔
      (fs.child dir name).isSome = true ∨ (kind = .listDir ∧ dir = target ∧
        ¬ Reserved name ∧ ∃ entry ∈ listingEntries payload, entry.name = name) := by
  rw [Option.isSome_iff_ne_none, Option.isSome_iff_ne_none, ne_eq, fs.fill_child htarget]
  constructor
  · intro hnot
    by_contra hboth
    obtain ⟨hnone, hlist⟩ := not_or.mp hboth
    refine hnot ⟨not_not.mp hnone, fun hkind hdir entry hmem hname => ?_⟩
    by_contra hreserved
    exact hlist ⟨hkind, hdir, hreserved, entry, hmem, hname⟩
  · rintro (hsome | ⟨hkind, hdir, hreserved, entry, hmem, hname⟩) ⟨hnone, hall⟩
    · exact hsome hnone
    · exact hreserved (hall hkind hdir entry hmem hname)

/-- Filling in contents lists the target of a listing and no other directory. -/
theorem P9Fs.loaded_fill (htarget : target < fs.inodes.length)
    (hkind : (fs.node target).isDir = kind.wantsDir) (payload : Bytes)
    (hdir : (fs.node ino).isDir = true) :
    ((fs.fill kind target payload).node ino).loaded =
      if kind = .listDir ∧ ino = target then true else (fs.node ino).loaded := by
  have hlt := lt_of_isDir hdir
  by_cases hself : ino = target
  · subst hself
    cases kind with
    | readFile => cases hkind.symm.trans hdir
    | listDir =>
      have hlt' : ino < (fs.applyListing ino payload).inodes.length :=
        Nat.lt_of_lt_of_le hlt (addAll_grows hlt _).1
      rw [if_pos ⟨rfl, rfl⟩, fill, node_setNode_self _ _ hlt']
  · rw [if_neg fun h => hself h.2]
    exact fill_other htarget kind payload hlt hself Inode.loaded fun _ _ => rfl

namespace RmdirLogged

variable (hok : s.Ok host)
include hok

theorem HostMove.refl : s.HostMove s.dev where
  toMove := .of_fs hok rfl
  child := id
  listed _ hstub _ _ := Or.inr hstub
  stub hge hdir := absurd (P9Fs.lt_of_isDir hdir) (Nat.not_lt_of_le hge)

theorem HostMove.of_fill (hplain : host.Plain) (hget : s.dev.held[i]? = some h)
    (htruth : ∀ path, s.paths[i]? = some path → h.kind = .listDir →
      listingEntries payload = host.listingAt path)
    (hinodes : dev.fs.inodes = (s.dev.fs.fill h.kind h.target payload).inodes) :
    RmdirLogged.HostMove s dev := by
  have hheld := hok.wf.held h (List.mem_of_getElem? hget)
  have hnode := P9Fs.node_congr hinodes
  have hchild := P9Fs.child_congr hinodes
  have hshape := P9Fs.shape_congr hinodes
  have hisDir : ∀ {ino}, ino < s.dev.fs.inodes.length →
      (dev.fs.node ino).isDir = (s.dev.fs.node ino).isDir := fun {ino} hlt => by
    rw [hnode]
    exact P9Fs.fill_isDir hheld.target h.kind payload hlt
  refine ⟨⟨?_, ?_, hisDir, ?_, ?_⟩, ?_, ?_, ?_⟩
  · rw [hshape]
    exact P9Fs.valid_fill hok.valid hheld.target h.kind payload
  · intro ino hfile
    rw [List.eq_nil_iff_forall_not_mem]
    intro entry hmem
    rw [hnode] at hmem
    rcases P9Fs.fill_entries hheld.target hmem with hold | ⟨hkind, rfl, -⟩
    · by_cases hlt : ino < s.dev.fs.inodes.length
      · rw [hok.files ino ((hisDir hlt).symm.trans hfile)] at hold
        cases hold
      · rw [s.dev.fs.node_of_ge (Nat.le_of_not_lt hlt)] at hold
        cases hold
    · have hdir := hheld.isDir
      rw [← hisDir hheld.target, hfile, hkind] at hdir
      cases hdir
  · intro ino hdir hstub
    rw [hnode, P9Fs.loaded_fill hheld.target hheld.isDir payload hdir] at hstub
    split at hstub
    · cases hstub
    · exact hstub
  · intro ino ways _ _ hfollow
    rw [hshape]
    exact P9Fs.follow_fill hok.valid hheld.target hfollow
  · intro dir name hsome
    rw [hchild, P9Fs.isSome_child_fill hheld.target]
    exact Or.inl hsome
  · intro ino t name hdir hstub horigin hname
    rw [hnode, P9Fs.loaded_fill hheld.target hheld.isDir payload hdir]
    split
    · rename_i hself
      obtain ⟨hkind, rfl⟩ := hself
      have hlt : i < s.paths.length := hok.asked.length_eq ▸ (List.getElem?_eq_some_iff.mp hget).1
      have hpath := List.getElem?_eq_getElem hlt
      obtain ⟨hplain', hlisting⟩ := hok.listing hplain hget hpath hkind hstub horigin
      obtain ⟨next, hnext⟩ := Option.isSome_iff_exists.mp hname
      obtain ⟨entry, hentry, hentryName, -⟩ := HostTree.mem_listing hnext
      rw [← hlisting, ← htruth _ hpath hkind] at hentry
      rw [hchild, P9Fs.isSome_child_fill hheld.target]
      exact Or.inl (Or.inr ⟨hkind, rfl, (hplain'.plainName hnext).1, entry, hentry, hentryName⟩)
    · exact Or.inr hstub
  · intro ino hge hdir
    have hlt := P9Fs.lt_of_isDir hdir
    rw [hinodes] at hlt
    obtain ⟨hkind, entry, hlisted⟩ := P9Fs.listed_fill hheld.target hge hlt
    rw [hnode, hlisted.node] at hdir ⊢
    refine ⟨?_, h.target, entry.name, ?_, ?_, hlisted.fresh⟩
    · unfold ListingEntry.stub
      split <;> rfl
    · rw [hnode]
      exact hlisted.child
    · rw [hheld.isDir, hkind]
      rfl

theorem Ok.shown_supply (hmove : s.HostMove dev)
    (hdir : (dev.fs.node ino).isDir = true) (hname : s.namesOf dev false ino name = true) :
    (dev.fs.child ino name).isSome = true ∨ ((dev.fs.node ino).loaded = false ∧
      ∃ t, s.originOf dev ino = some t ∧ (t.child name).isSome = true) := by
  unfold namesOf at hname
  split at hname
  · rename_i hlt
    have hdir' := (hmove.isDir hlt).symm.trans hdir
    rw [originOf_old hlt]
    rcases hok.shown hdir' hname with hchild | ⟨hstub, t, horigin, hchild⟩
    · exact Or.inl (hmove.child hchild)
    rcases hmove.listed hdir' hstub horigin hchild with hshown | hstub'
    · exact Or.inl hshown
    · exact Or.inr ⟨hstub', t, horigin, hchild⟩
  · rename_i hge
    obtain ⟨next, hnext⟩ := Option.isSome_iff_exists.mp hname
    obtain ⟨t, horigin, hchild⟩ := Option.bind_eq_some_iff.mp hnext
    obtain ⟨hstub, -⟩ := hmove.stub (Nat.le_of_not_lt hge) hdir
    exact Or.inr ⟨hstub, t, horigin, Option.isSome_iff_exists.mpr ⟨next, hchild⟩⟩

theorem Ok.supply (hplain : host.Plain) {id : U32}
    (hcalled : Called s.dev (.supply id payload mem) dev)
    (htruth : s.Truthful host (.supply id payload mem)) :
    (s.noted dev false (s.pathsWithout id)).Ok host := by
  cases hcalled with
  | unknown hnone =>
    have hmove := HostMove.refl hok
    refine ⟨hok.wf, hok.valid, hok.files, hok.shown_supply hmove,
      hok.placed_of_move hmove.toMove fun hge hdir _ => (hmove.stub hge hdir).2, ?_⟩
    change List.Forall₂ _ s.dev.held (s.pathsWithout id ++ _)
    rw [pathsWithout, hnone, List.drop_length, List.map_nil, List.append_nil]
    exact hok.asked_of_move hmove.toMove
  | @answer _ _ _ i h _ _ hfind hget hserved =>
    obtain ⟨ty, hty, hparks⟩ := (hok.wf.held h (List.mem_of_getElem? hget)).msg
    have hmove := RmdirLogged.HostMove.of_fill hok hplain hget
      (fun path => htruth i h path hfind hget) (hserved.of_parks hty hparks).1
    have hasked := hok.asked_of_move hmove.toMove
    refine ⟨hserved.wf (hok.wf.filledFor hget payload), hmove.valid, hmove.files,
      hok.shown_supply hmove,
      hok.placed_of_move hmove.toMove fun hge hdir _ => (hmove.stub hge hdir).2, ?_⟩
    rw [pathsWithout, hfind]
    exact hserved.asked (Paired.forall₂_eraseIdx hasked i) fun held t _ _ _ => rfl

end RmdirLogged

/-- A handler that fails leaves the device alone. -/
theorem Virtio9p.serve_of_fail {errno : Errno} (hty : msgType? msg = some ty)
    (hfail : d.cleared.handleMsg ty (msg.drop 7) = .ok (d.cleared.fail errno))
    (head : U16) (writable : List Buf) :
    d.serve head writable msg = .ok (some (errorReply msg errno), d.cleared) := by
  unfold serve
  rw [show { d with deferPending := none } = d.cleared from rfl, dispatch_of_handleMsg hty hfail]
  rfl

/-- A directory that shows entries is not removed. -/
theorem Unlinks.serve (hty : msgType? msg = some ty)
    (h : Unlinks d.fs (msg.drop 7) ty dir target) (hdir : (d.fs.node target).isDir = true)
    (hfull : (d.fs.node target).children ≠ []) (head : U16) (writable : List Buf) :
    d.serve head writable msg = .ok (some (errorReply msg .enotempty), d.cleared) := by
  have hrefused : ∀ dir, d.fs.unlinkChild dir target = .error .enotempty := by
    intro dir
    rw [P9Fs.unlinkChild, if_pos]
    simp [hdir, hfull]
  refine Virtio9p.serve_of_fail hty ?_ head writable
  generalize msg.drop 7 = c at h
  cases h with
  | remove hsubject =>
    obtain ⟨⟨fid, rest⟩, hfid, hino⟩ := Option.bind_eq_some_iff.mp hsubject
    change Except.ok (d.cleared.tremove c) = _
    rw [Virtio9p.tremove, hfid]
    dsimp only
    rw [show d.cleared.fs.fids fid = some target from hino]
    dsimp only
    rw [show d.cleared.fs.unlinkChild _ target = .error .enotempty from hrefused _]
  | @unlinkat _ _ name hsubject hname hchild =>
    obtain ⟨⟨fid, rest⟩, hfid, hino⟩ := Option.bind_eq_some_iff.mp hsubject
    rw [parseName, hfid] at hname
    obtain ⟨⟨parsed, rest'⟩, hstr, rfl⟩ := Option.map_eq_some_iff.mp hname
    change Except.ok (d.cleared.tunlinkat c) = _
    rw [Virtio9p.tunlinkat, hfid]
    dsimp only [bind, Option.bind]
    rw [hstr]
    dsimp only
    rw [show d.cleared.fs.fids fid = some dir from hino]
    dsimp only
    rw [show d.cleared.fs.child dir parsed = some target from hchild]
    dsimp only
    rw [show d.cleared.fs.unlinkChild dir target = .error .enotempty from hrefused dir]

theorem RmdirLogged.Ok.removesEmpty (hok : s.Ok host)
    (hlisted : s.ListedFirst event) : s.RemovesEmpty event := by
  cases event with
  | supply => trivial
  | message chain mem =>
    intro ty dir target hty hunlinks hdir
    have hloaded := (hlisted ty hty).1 dir target hunlinks hdir
    -- A listed directory shows all its names.
    have hfull : ∀ name, s.names target name = true → (s.dev.fs.node target).children ≠ [] := by
      intro name hname hempty
      rcases hok.shown hdir hname with hchild | ⟨hstub, -⟩
      · rw [P9Fs.child, hempty] at hchild
        cases hchild
      · cases hstub.symm.trans hloaded
    have hrefused : ∀ name, s.names target name = true →
        s.dev.serve chain.head chain.writable (gather mem chain.readable) =
          .ok (some (errorReply (gather mem chain.readable) .enotempty), s.dev.cleared) :=
      fun name hname =>
      hunlinks.serve hty hdir (hfull name hname) chain.head chain.writable
    constructor
    · rintro ⟨name, hname⟩
      exact hrefused name hname
    intro d' hserve name
    by_contra hname
    rw [hrefused name (by simpa using hname)] at hserve
    have hreply := Option.some.inj (Prod.mk.inj (Except.ok.inj hserve)).1
    have hlength := congrArg List.length hreply
    simp [errorReply, frame, putU16, putU32] at hlength

theorem RmdirLogged.Ok.step (hok : s.Ok host) (hplain : host.Plain)
    {s' : RmdirLogged} (htruth : s.Truthful host event) (hlisted : s.ListedFirst event)
    (hstep : s.step event = .ok s') : s'.Ok host := by
  cases event with
  | message chain mem =>
    obtain ⟨dev, hcall, rfl⟩ := Results.map_eq_ok hstep
    exact hok.message (Virtio9p.call_cases hcall) hlisted
  | supply id payload mem =>
    obtain ⟨dev, hcall, rfl⟩ := Results.map_eq_ok hstep
    exact hok.supply hplain (Virtio9p.call_cases hcall) htruth

theorem RmdirLogged.start_ok (tag : Bytes) (host : HostTree) : (start tag host).Ok host := by
  have hsound := Virtio9p.created_sound true tag
  have hroot : ∀ {ino}, ((Virtio9p.newLazy tag).fs.node ino).isDir = true → ino = 0 :=
    fun hdir => Nat.lt_one_iff.mp (P9Fs.lt_of_isDir hdir)
  refine ⟨hsound.wf, hsound.tree.valid, hsound.tree.files, ?_, ?_, .nil⟩
  · intro ino name hdir hname
    obtain rfl := hroot hdir
    refine Or.inr ⟨rfl, host, rfl, ?_⟩
    simpa [start] using hname
  · intro ino t hdir _ horigin
    obtain rfl := hroot hdir
    cases horigin
    exact ⟨[], rfl, rfl⟩

end

/-- As long as only listed directories are removed and the host tells the truth, the
directories that are removed have no entries. -/
theorem run_removesEmpty (tag : Bytes) {host : HostTree} (hplain : host.Plain)
    (events : List GuestEvent)
    (htruth : Along (attempt RmdirLogged.step)
      (Meets (RmdirLogged.Truthful host)) (.ok (RmdirLogged.start tag host)) events)
    (hlisted : Along (attempt RmdirLogged.step)
      (Meets RmdirLogged.ListedFirst) (.ok (RmdirLogged.start tag host)) events) :
    Along (attempt RmdirLogged.step) (Meets RmdirLogged.RemovesEmpty)
      (.ok (RmdirLogged.start tag host)) events := by
  refine (htruth.and hlisted).meets_and.attempt_of_invariant ?_ ?_ (RmdirLogged.start_ok tag host)
  · exact fun s event s' hok hmeets hstep =>
      RmdirLogged.Ok.step hok hplain hmeets.1 hmeets.2 hstep
  · exact fun s event hok hmeets => RmdirLogged.Ok.removesEmpty hok hmeets.2

namespace RmdirLogged

/-- A check of one answer that needs no search. -/
def isTruthful (host : HostTree) (s : RmdirLogged) : GuestEvent → Bool
  | .message _ _ => true
  | .supply id payload _ =>
      (s.dev.heldAt id).all fun i => (s.paths[i]?).all fun path =>
        listingEntries payload = host.listingAt path

theorem truthful_of_isTruthful {host : HostTree} (s : RmdirLogged)
    (event : GuestEvent) (hcheck : s.isTruthful host event = true) : s.Truthful host event := by
  cases event with
  | message chain mem => trivial
  | supply id payload mem =>
    intro i h path hfind _ hpath _
    dsimp only [isTruthful] at hcheck
    rw [hfind] at hcheck
    simpa [hpath] using hcheck

/-- A check of one message that needs no search. -/
def isListedFirst (s : RmdirLogged) : GuestEvent → Bool
  | .message chain mem =>
      let c := (gather mem chain.readable).drop 7
      (msgType? (gather mem chain.readable)).all fun ty =>
        (ty ∉ [.remove, .unlinkat] || (s.dev.fs.concerned ty c).all fun target =>
          !(s.dev.fs.node target).isDir || (s.dev.fs.node target).loaded) &&
        (ty ≠ .mkdir || (s.dev.fs.subject c).all fun dir =>
          (s.dev.fs.node dir).loaded || (parseName c).all fun name =>
            ((s.origin dir).bind fun t => t.child name).all fun t => !t.isDir)
  | .supply _ _ _ => true

theorem listedFirst_of_isListedFirst (s : RmdirLogged) (event : GuestEvent)
    (hcheck : s.isListedFirst event = true) : s.ListedFirst event := by
  cases event with
  | message chain mem =>
    intro ty hty
    dsimp only [isListedFirst] at hcheck
    rw [hty] at hcheck
    obtain ⟨hremoves, hmakes⟩ := Bool.and_eq_true_iff.mp hcheck
    constructor
    · intro dir target hunlinks hdir
      rw [hunlinks.concerned] at hremoves
      have hremove : ty ∈ [TMsg.remove, .unlinkat] := by
        cases hunlinks with
        | remove => exact List.mem_cons_self
        | unlinkat => exact List.mem_cons_of_mem _ (List.mem_singleton_self _)
      simpa [hremove, hdir] using hremoves
    · rintro rfl dir name hsubject hname
      rw [hsubject, hname] at hmakes
      simp only [ne_eq, not_true_eq_false, decide_false, Bool.false_or, Option.all_some,
        Bool.or_eq_true] at hmakes
      refine hmakes.imp id fun hhost t ht => ?_
      rw [ht] at hhost
      simpa using hhost
  | supply => trivial

end RmdirLogged

/-- A folder of the host with the directory `d`, in which there is a file `x`. -/
def hostWithD : HostTree := .dir [([0x64], .dir [([0x78], .file [])])]

theorem hostWithD_plain : hostWithD.Plain := by
  refine .dir (by decide) (by decide) fun entry hmem => ?_
  obtain rfl := List.mem_singleton.mp hmem
  refine .dir (by decide) (by decide) fun entry hmem => ?_
  obtain rfl := List.mem_singleton.mp hmem
  exact .file []

def askRoom : TMsg → Bytes → GuestEvent := posted .message 0 replyRoom

/-- The guest walks to `d`, for which the root has to be listed. -/
def walkToD : List GuestEvent :=
  [askRoom .attach (putU32 0),
    askRoom .walk (putU32 0 ++ putU32 1 ++ putU16 1 ++ putStr [0x64]),
    reply 1 (putStr [0x64] ++ [1] ++ putU64 0)]

/-- Remove the entry `d` of the root. -/
def removeD : GuestEvent := askRoom .unlinkat (putU32 0 ++ putStr [0x64] ++ putU32 0)

/-- The guest reads `d` and then tries to remove it. -/
def readAndRemoveD : List GuestEvent :=
  walkToD ++ [askRoom .readdir (putU32 1 ++ putU64 0 ++ putU32 64),
    reply 2 (putStr [0x78] ++ [0] ++ putU64 0), removeD]

theorem run_removesEmpty_readAndRemoveD :
    passes (fun s => s.names 1 [0x78] && s.dev.dirtyChanges = [] &&
        s.dev.fs.resolve [0x64, 0x2F, 0x78] = some 2)
      (run (attempt RmdirLogged.step) (.ok (RmdirLogged.start [] hostWithD))
        readAndRemoveD) = true ∧
      Along (attempt RmdirLogged.step) (Meets RmdirLogged.RemovesEmpty)
        (.ok (RmdirLogged.start [] hostWithD)) readAndRemoveD := by
  refine ⟨by decide +kernel, run_removesEmpty [] hostWithD_plain readAndRemoveD ?_ ?_⟩
  · refine Along.meets_of_checks RmdirLogged.truthful_of_isTruthful ?_
    decide +kernel
  · refine Along.meets_of_checks RmdirLogged.listedFirst_of_isListedFirst ?_
    decide +kernel

/-- The guest makes `d` in the root, which is not listed yet. -/
def makeD : List GuestEvent :=
  [askRoom .attach (putU32 0),
    askRoom .mkdir (putU32 0 ++ putStr [0x64] ++ putU32 0o755 ++ putU32 0)]

namespace RmdirLogged

/-- The directory `d` has the entry `x`, and removing it succeeds. -/
def losesX (s : RmdirLogged) : Bool :=
  s.names 1 [0x78] && (s.dev.fs.node 1).isDir && s.dev.fs.fids 0 = some 0 &&
    s.dev.fs.child 0 [0x64] = some 1 &&
    passes (fun out : Option Bytes × Virtio9p =>
      decide (out.1 = some (frame (TMsg.unlinkat.code + 1) 0 []) ∧
        ([0x64], ChangeOp.delete) ∈ out.2.dirtyChanges))
      (s.dev.serve 0 [⟨0x80000800, 64⟩]
        (frame TMsg.unlinkat.code 0 (putU32 0 ++ putStr [0x64] ++ putU32 0)))

theorem not_removesEmpty_of_losesX {s : RmdirLogged} (hcheck : s.losesX = true) :
    ¬ s.RemovesEmpty removeD := by
  simp only [losesX, Bool.and_eq_true, decide_eq_true_eq] at hcheck
  obtain ⟨⟨⟨⟨hname, hdir⟩, hfid⟩, hchild⟩, hserve⟩ := hcheck
  obtain ⟨⟨answer, d'⟩, hserve, hout⟩ := exists_of_passes hserve
  obtain ⟨rfl, -⟩ := of_decide_eq_true hout
  intro hremoves
  have hunlinks : Unlinks s.dev.fs ((frame TMsg.unlinkat.code 0
      (putU32 0 ++ putStr [0x64] ++ putU32 0)).drop 7) .unlinkat 0 1 :=
    @Unlinks.unlinkat _ _ 0 1 [0x64] hfid rfl hchild
  have hempty := (hremoves .unlinkat 0 1 rfl hunlinks hdir).2 d' hserve [0x78]
  rw [hname] at hempty
  cases hempty

/-- The host tells the truth up to a state in which `d` is removed with its entry. -/
def LosesX (events : List GuestEvent) : Prop :=
  Along (attempt step) (Meets (RmdirLogged.Truthful hostWithD))
      (.ok (start [] hostWithD)) events ∧
    ∃ s, run (attempt step) (.ok (start [] hostWithD))
      events = .ok s ∧ s.losesX = true ∧ ¬ s.RemovesEmpty removeD

theorem losesX_of_checks {events : List GuestEvent}
    (hchecks : Along (attempt step)
      (fun s event => checks (isTruthful hostWithD) s event = true)
      (.ok (start [] hostWithD)) events)
    (hpasses : passes losesX (run (attempt step)
      (.ok (start [] hostWithD)) events) = true) : RmdirLogged.LosesX events := by
  obtain ⟨s, hrun, hcheck⟩ := exists_of_passes hpasses
  exact ⟨Along.meets_of_checks truthful_of_isTruthful hchecks, s, hrun, hcheck,
    not_removesEmpty_of_losesX hcheck⟩

end RmdirLogged

/-- A directory that was only seen in a listing, or that was made over one of the host
before that was listed, is removed although it has the entry `x`. -/
theorem stub_directories_are_removed : RmdirLogged.LosesX walkToD ∧ RmdirLogged.LosesX makeD := by
  constructor
  · exact RmdirLogged.losesX_of_checks (by decide +kernel) (by decide +kernel)
  · exact RmdirLogged.losesX_of_checks (by decide +kernel) (by decide +kernel)

end TabLinux

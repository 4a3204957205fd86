/-
The virtio-9p device: the handlers of the 9P2000.L requests over the file tree, requests
parked on the host, and the write-back log.
-/
import TabLinux.P9Fs
import TabLinux.Virtio

namespace TabLinux

open Bytes

/-- What the host is asked for. -/
inductive ReqKind where
  | readFile
  | listDir
deriving DecidableEq, Repr

/-- A request to the host. -/
structure HostReq where
  id : U32
  kind : ReqKind
  path : Bytes
  off : U64
  len : U32
deriving DecidableEq, Repr

/-- What a handler that cannot answer yet leaves behind. -/
structure Defer where
  kind : ReqKind
  path : Bytes
  off : U64
  len : U32
  target : Nat
deriving DecidableEq, Repr

/-- A request parked on the host: the chain it came in on and its message. -/
structure Held where
  id : U32
  head : U16
  writable : List Buf
  msg : Bytes
  kind : ReqKind
  target : Nat
deriving DecidableEq, Repr

/-- A guest mutation to propagate to the host. -/
inductive ChangeOp where
  | write
  | delete
  | mkdir
deriving DecidableEq, Repr

structure FileChange where
  op : ChangeOp
  path : Bytes
  data : Bytes
deriving DecidableEq, Repr

structure Virtio9p where
  fs : P9Fs
  tag : Bytes
  isLazy : Bool
  deferPending : Option Defer
  held : List Held
  hostReqs : List HostReq
  deferred : Bool
  nextId : U32
  /-- The last operation on each path, in the order of the paths. -/
  dirtyChanges : List (Bytes × ChangeOp)

def Virtio9p.new (tag : Bytes) : Virtio9p where
  fs := P9Fs.new
  tag := tag
  isLazy := false
  deferPending := none
  held := []
  hostReqs := []
  deferred := false
  nextId := 1
  dirtyChanges := []

/-- A device rooted at an unlisted directory. -/
def Virtio9p.newLazy (tag : Bytes) : Virtio9p :=
  let d := new tag
  { d with
    isLazy := true
    fs := d.fs.setNode 0 fun root => { root with loaded := false } }

/-- Insert into a list of pairs sorted by their keys; an equal key is replaced. -/
def insertSorted (path : Bytes) (op : ChangeOp) :
    List (Bytes × ChangeOp) → List (Bytes × ChangeOp)
  | [] => [(path, op)]
  | (key, old) :: rest =>
      if key = path then (path, op) :: rest
      else if path < key then (path, op) :: (key, old) :: rest
      else (key, old) :: insertSorted path op rest

section

variable (d : Virtio9p)

/-- Record a guest mutation for write-back. -/
def Virtio9p.mark (path : Bytes) (op : ChangeOp) : Virtio9p :=
  if d.isLazy ∧ path ≠ [] then { d with dirtyChanges := insertSorted path op d.dirtyChanges }
  else d

/-- The body of a reply or an error, and the device afterwards. -/
abbrev Outcome := Except Errno Bytes × Virtio9p

def Virtio9p.fail (errno : Errno) : Outcome := (.error errno, d)

def Virtio9p.reply (body : Bytes) : Outcome := (.ok body, d)

/-- Park the current request on the host. -/
def Virtio9p.defer (kind : ReqKind) (target : Nat) (off : U64) (len : U32) : Outcome :=
  (.error .defer, { d with deferPending := some ⟨kind, d.fs.pathOf target, off, len, target⟩ })

/-- Our upper bound on the message size. -/
def msizeMax : U32 := 128 * 1024

/-- The bytes of `9P2000.L` and of `unknown`. -/
def version9p : Bytes := [0x39, 0x50, 0x32, 0x30, 0x30, 0x30, 0x2E, 0x4C]

def versionUnknown : Bytes := [0x75, 0x6E, 0x6B, 0x6E, 0x6F, 0x77, 0x6E]

def Virtio9p.tversion (c : Bytes) : Outcome :=
  match (do
    let (msize, c) ← curU32 c
    let (version, _) ← curStr c
    some (msize, version) : Option _) with
  | none => d.fail .einval
  | some (msize, version) =>
      let msize := if msize ≤ msizeMax then msize else msizeMax
      { d with fs := { d.fs with msize := msize, fids := fun _ => none } }.reply
        (putU32 msize ++ putStr (if version = version9p then version9p else versionUnknown))

def Virtio9p.tattach (c : Bytes) : Outcome :=
  match curU32 c with
  | none => d.fail .einval
  | some (fid, _) =>
      { d with fs := d.fs.bind fid 0 }.reply (putQid (d.fs.node 0).qidType 0)

end

/-- Where the walk over the names of a message ends. -/
inductive Walk where
  | malformed
  /-- The directory has to be listed first. -/
  | unlisted (dir : Nat)
  /-- The inode reached, and the qids of the components on the way. -/
  | ended (cur : Nat) (qids : List (Byte × Nat))
deriving DecidableEq, Repr

namespace Virtio9p

/-- Walk over up to `n` names; a missing component ends the walk early. -/
def walkNames (d : Virtio9p) : (n : Nat) → (c : Bytes) → (cur : Nat) →
    (qids : List (Byte × Nat)) → Walk
  | 0, _, cur, qids => .ended cur qids
  | n + 1, c, cur, qids =>
      match curStr c with
      | none => .malformed
      | some (name, c) =>
          if name = [0x2E, 0x2E] then
            let next := (d.fs.node cur).parent
            d.walkNames n c next (qids ++ [((d.fs.node next).qidType, next)])
          else if name = [0x2E] then
            d.walkNames n c cur (qids ++ [((d.fs.node cur).qidType, cur)])
          else if d.isLazy && (d.fs.node cur).isDir && !(d.fs.node cur).loaded then
            .unlisted cur
          else
            match d.fs.child cur name with
            | none => .ended cur qids
            | some next => d.walkNames n c next (qids ++ [((d.fs.node next).qidType, next)])

variable (d : Virtio9p) (c : Bytes)

def twalk : Outcome :=
  match (do
    let (fid, c) ← curU32 c
    let (newfid, c) ← curU32 c
    let (nwname, c) ← curU16 c
    some (fid, newfid, nwname.toNat, c) : Option _) with
  | none => d.fail .einval
  | some (fid, newfid, nwname, c) =>
      match d.fs.fids fid with
      | none => d.fail .ebadf
      | some start =>
          match d.walkNames nwname c start [] with
          | .malformed => d.fail .einval
          | .unlisted dir => d.defer .listDir dir 0 0
          | .ended cur qids =>
              let body := putU16 (BitVec.ofNat 16 qids.length) ++
                qids.flatMap fun (ty, path) => putQid ty path
              -- a walk over no component still binds the new fid
              if qids.length = nwname then
                { d with fs := d.fs.bind newfid cur }.reply body
              else if qids = [] then d.fail .enoent
              else d.reply body

def tgetattr : Outcome :=
  match curU32 c with
  | none => d.fail .einval
  | some (fid, _) =>
      match d.fs.fids fid with
      | none => d.fail .ebadf
      | some ino =>
          let node := d.fs.node ino
          -- an unread stub knows its size from the listing of its parent
          let size := if node.loaded || node.isDir then BitVec.ofNat 64 node.data.length
            else node.size
          d.reply (putU64 0x7ff ++ putQid node.qidType ino ++ putU32 node.mode ++
            putU32 0 ++ putU32 0 ++ putU64 (if node.isDir then 2 else 1) ++ putU64 0 ++
            putU64 size ++ putU64 4096 ++ putU64 (BitVec.ofNat 64 ((size.toNat + 511) / 512)) ++
            (putU64 node.mtime ++ putU64 0) ++ (putU64 node.mtime ++ putU64 0) ++
            (putU64 node.mtime ++ putU64 0) ++
            putU64 0 ++ putU64 0 ++ putU64 0 ++ putU64 0)

def tlopen : Outcome :=
  match curU32 c with
  | none => d.fail .einval
  | some (fid, _) =>
      match d.fs.fids fid with
      | none => d.fail .ebadf
      | some ino => d.reply (putQid (d.fs.node ino).qidType ino ++ putU32 0)

def tlcreate : Outcome :=
  match (do
    let (dfid, c) ← curU32 c
    let (name, c) ← curStr c
    let (mode, _) ← curU32 (skipU32 c)
    some (dfid, name, mode) : Option _) with
  | none => d.fail .einval
  | some (dfid, name, mode) =>
      match d.fs.fids dfid with
      | none => d.fail .ebadf
      | some dir =>
          if !(d.fs.node dir).isDir then d.fail .enotdir
          else if (d.fs.child dir name).isSome then d.fail .eexist
          else
            let (n, fs) := d.fs.alloc { Inode.file dir with perm := mode &&& 0o777 }
            -- the fid of the directory now refers to the new file
            let fs := ((fs.addChild dir name n).bind dfid n).touch
            let d := { d with fs := fs }
            (d.mark (fs.pathOf n) .write).reply (putQid qtFile n ++ putU32 0)

def tmkdir : Outcome :=
  match (do
    let (dfid, c) ← curU32 c
    let (name, _) ← curStr c
    some (dfid, name) : Option _) with
  | none => d.fail .einval
  | some (dfid, name) =>
      match d.fs.fids dfid with
      | none => d.fail .ebadf
      | some dir =>
          if !(d.fs.node dir).isDir then d.fail .enotdir
          else if (d.fs.child dir name).isSome then d.fail .eexist
          else
            let (n, fs) := d.fs.alloc (Inode.dir dir)
            let fs := (fs.addChild dir name n).touch
            let d := { d with fs := fs }
            (d.mark (fs.pathOf n) .mkdir).reply (putQid qtDir n)

end Virtio9p

/-- The fields of a read: fid, offset and count. -/
def parseTread (c : Bytes) : Option (U32 × U64 × U32) := do
  let (fid, c) ← curU32 c
  let (offset, c) ← curU64 c
  let (count, _) ← curU32 c
  some (fid, offset, count)

/-- The bytes of a file that a read returns. -/
def readSlice (data : Bytes) (offset count : Nat) : Bytes :=
  (data.drop offset).take count

def Virtio9p.tread (d : Virtio9p) (c : Bytes) : Outcome :=
  match parseTread c with
  | none => d.fail .einval
  | some (fid, offset, count) =>
      match d.fs.fids fid with
      | none => d.fail .ebadf
      | some ino =>
          if (d.fs.node ino).isDir then d.fail .eisdir
          -- the first read of a stub fetches the whole file
          else if d.isLazy && !(d.fs.node ino).loaded then d.defer .readFile ino offset count
          else
            let slice := readSlice (d.fs.node ino).data offset.toNat count.toNat
            d.reply (putU32 (BitVec.ofNat 32 slice.length) ++ slice)

/-- The largest number of bytes a vector can hold. -/
def isizeMax : Nat := 0x7FFFFFFFFFFFFFFF

/-- The fields of a write: fid, offset and data. -/
def parseTwrite (c : Bytes) : Option (U32 × U64 × Bytes) := do
  let (fid, c) ← curU32 c
  let (offset, c) ← curU64 c
  let (count, c) ← curU32 c
  let (data, _) ← take? count.toNat c
  some (fid, offset, data)

/-- The contents after a write, which fills a gap with zeros. -/
def writeAt (old : Bytes) (offset : Nat) (data : Bytes) : Bytes :=
  overwrite (if offset + data.length > old.length then resize old (offset + data.length)
    else old) offset data

/-- A file of which these are all the bytes. -/
def Inode.filled (node : Inode) (data : Bytes) : Inode :=
  { node with data := data, loaded := true, size := BitVec.ofNat 64 data.length }

def Virtio9p.twrite (d : Virtio9p) (c : Bytes) : Except DevicePanic Outcome :=
  match parseTwrite c with
  | none => .ok (d.fail .einval)
  | some (fid, offset, data) =>
      match d.fs.fids fid with
      | none => .ok (d.fail .ebadf)
      | some ino =>
          let stop := offset.toNat + data.length
          if (d.fs.node ino).isDir then .ok (d.fail .eisdir)
          -- the end wraps around below the offset
          else if stop ≥ 0x10000000000000000 then .error .sliceIndex
          else if stop > isizeMax then .error .capacityOverflow
          else
            let fs := (d.fs.setNode ino fun node =>
              node.filled (writeAt node.data offset.toNat data)).touch
            let d := { d with fs := fs }
            .ok ((d.mark (fs.pathOf ino) .write).reply (putU32 (BitVec.ofNat 32 data.length)))

/-- The entries of a directory as a client sees them: names, inodes and whether they are
directories. -/
def P9Fs.dirEntries (fs : P9Fs) (ino : Nat) : List (Bytes × Nat × Bool) :=
  ([0x2E], ino, true) :: ([0x2E, 0x2E], (fs.node ino).parent, true) ::
    (fs.node ino).children.map fun (name, idx) => (name, idx, (fs.node idx).isDir)

/-- The entries from `cookie` on, as long as they fit into `count` bytes. -/
def P9Fs.direntsFrom (fs : P9Fs) (offset : U64) (count : Nat) :
    (entries : List (Bytes × Nat × Bool)) → (cookie : Nat) → (data : Bytes) → Bytes
  | [], _, data => data
  | (name, idx, isDir) :: rest, cookie, data =>
      if cookie ≤ offset.toNat then fs.direntsFrom offset count rest (cookie + 1) data
      else if data.length + (13 + 8 + 1 + 2 + name.length) > count then data
      else
        fs.direntsFrom offset count rest (cookie + 1)
          (data ++ putQid (fs.node idx).qidType idx ++ putU64 (BitVec.ofNat 64 cookie) ++
            [if isDir then 4 else 8] ++ putStr name)

def Virtio9p.treaddir (d : Virtio9p) (c : Bytes) : Outcome :=
  match parseTread c with
  | none => d.fail .einval
  | some (fid, offset, count) =>
      match d.fs.fids fid with
      | none => d.fail .ebadf
      | some ino =>
          if !(d.fs.node ino).isDir then d.fail .enotdir
          else if d.isLazy && !(d.fs.node ino).loaded then d.defer .listDir ino 0 0
          else
            let data := d.fs.direntsFrom offset count.toNat (d.fs.dirEntries ino) 1 []
            d.reply (putU32 (BitVec.ofNat 32 data.length) ++ data)

/-- The fields of an attribute change: fid, valid mask, mode and size. -/
def parseTsetattr (c : Bytes) :
    Option (U32 × U32 × U32 × U64) := do
  let (fid, c) ← curU32 c
  let (valid, c) ← curU32 c
  let (mode, c) ← curU32 c
  let (size, _) ← curU64 (skipU32 (skipU32 c))
  some (fid, valid, mode, size)

def Virtio9p.tsetattr (d : Virtio9p) (c : Bytes) : Except DevicePanic Outcome :=
  match parseTsetattr c with
  | none => .ok (d.fail .einval)
  | some (fid, valid, mode, size) =>
      match d.fs.fids fid with
      | none => .ok (d.fail .ebadf)
      | some ino =>
          let fs :=
            if valid.getLsbD 0 then
              d.fs.setNode ino fun node => { node with perm := mode &&& 0o777 }
            else d.fs
          if !valid.getLsbD 3 then .ok ({ d with fs := fs }.reply [])
          else if size.toNat > isizeMax then .error .capacityOverflow
          else
            -- the node stays a stub if it was one
            let fs := (fs.setNode ino fun node =>
              { node with data := resize node.data size.toNat, size := size }).touch
            let d := { d with fs := fs }
            .ok ((d.mark (fs.pathOf ino) .write).reply [])

def Virtio9p.tclunk (d : Virtio9p) (c : Bytes) : Outcome :=
  match curU32 c with
  | none => d.fail .einval
  | some (fid, _) => { d with fs := d.fs.unbind fid }.reply []

/-- Take an inode off the list of a directory. -/
def P9Fs.unlinkChild (fs : P9Fs) (dir target : Nat) : Except Errno P9Fs :=
  if (fs.node target).isDir && (fs.node target).children ≠ [] then .error .enotempty
  else .ok (fs.setNode dir fun node =>
    { node with children := node.children.filter fun entry => entry.2 ≠ target })

namespace Virtio9p

def tremove (d : Virtio9p) (c : Bytes) : Outcome :=
  match curU32 c with
  | none => d.fail .einval
  | some (fid, _) =>
      match d.fs.fids fid with
      | none => d.fail .ebadf
      | some ino =>
          match d.fs.unlinkChild (d.fs.node ino).parent ino with
          | .error errno => d.fail errno
          | .ok fs =>
              let path := d.fs.pathOf ino
              (({ d with fs := (fs.unbind fid).touch }).mark path .delete).reply []

def tunlinkat (d : Virtio9p) (c : Bytes) : Outcome :=
  match (do
    let (dfid, c) ← curU32 c
    let (name, _) ← curStr c
    some (dfid, name) : Option _) with
  | none => d.fail .einval
  | some (dfid, name) =>
      match d.fs.fids dfid with
      | none => d.fail .ebadf
      | some dir =>
          match d.fs.child dir name with
          | none => d.fail .enoent
          | some target =>
              match d.fs.unlinkChild dir target with
              | .error errno => d.fail errno
              | .ok fs =>
                  let path := d.fs.pathOf target
                  (({ d with fs := fs.touch }).mark path .delete).reply []

def tstatfs (d : Virtio9p) (c : Bytes) : Outcome :=
  match curU32 c with
  | none => d.fail .einval
  | some _ =>
      d.reply (putU32 0x01876967 ++ putU32 4096 ++ putU64 (1 <<< 20) ++ putU64 (1 <<< 19) ++
        putU64 (1 <<< 19) ++ putU64 (BitVec.ofNat 64 d.fs.inodes.length) ++
        putU64 (1 <<< 20) ++ putU64 0 ++ putU32 255)

def handleMsg (d : Virtio9p) (ty : TMsg) (c : Bytes) :
    Except DevicePanic Outcome :=
  match ty with
  | .version => .ok (d.tversion c)
  | .attach => .ok (d.tattach c)
  | .walk => .ok (d.twalk c)
  | .getattr => .ok (d.tgetattr c)
  | .lopen => .ok (d.tlopen c)
  | .lcreate => .ok (d.tlcreate c)
  | .mkdir => .ok (d.tmkdir c)
  | .read => .ok (d.tread c)
  | .write => d.twrite c
  | .readdir => .ok (d.treaddir c)
  | .setattr => d.tsetattr c
  | .clunk => .ok (d.tclunk c)
  | .remove => .ok (d.tremove c)
  | .unlinkat => .ok (d.tunlinkat c)
  | .statfs => .ok (d.tstatfs c)
  | .fsync => .ok (d.reply [])
  | .flush => .ok (d.reply [])
  -- no extended attributes
  | .xattrwalk => .ok (d.reply (putU64 0))

end Virtio9p

/-- The reply to a message, empty for a parked request, and the device afterwards. -/
def frameOutcome (ty : Byte) (tag : U16) (out : Outcome) : Bytes × Virtio9p :=
  if out.2.deferPending.isSome then ([], out.2)
  else
    match out.1 with
    | .ok body => (frame (ty + 1) tag body, out.2)
    | .error errno => (frame rlerror tag (putU32 errno.code), out.2)

theorem frameOutcome_snd (ty : Byte) (tag : U16) (out : Outcome) :
    (frameOutcome ty tag out).2 = out.2 := by
  unfold frameOutcome
  split
  · rfl
  · split <;> rfl

def msgTag (msg : Bytes) : U16 := BitVec.ofNat 16 (ofLe ((msg.drop 5).take 2))

section

variable (d : Virtio9p)

/-- Run one message. -/
def Virtio9p.dispatch (msg : Bytes) :
    Except DevicePanic (Bytes × Virtio9p) :=
  if msg.length < 7 then .ok ([], d)
  else do
    let ty := msg.getD 4 0
    let out ←
      match TMsg.ofCode? ty with
      | some t => d.handleMsg t (msg.drop 7)
      | none => .ok (d.fail .enosys)
    .ok (frameOutcome ty (msgTag msg) out)

/-- Turn what a handler left behind into a host request and a parked chain. -/
def Virtio9p.park (defer : Defer) (head : U16) (writable : List Buf)
    (msg : Bytes) : Virtio9p :=
  { d with
    deferPending := none
    nextId := d.nextId + 1
    hostReqs := d.hostReqs ++ [⟨d.nextId, defer.kind, defer.path, defer.off, defer.len⟩]
    held := d.held ++ [⟨d.nextId, head, writable, msg, defer.kind, defer.target⟩] }

/-- Run a message of a chain: its reply, or nothing if the chain is parked. -/
def Virtio9p.serve (head : U16) (writable : List Buf)
    (msg : Bytes) : Except DevicePanic (Option Bytes × Virtio9p) := do
  let (reply, d) ← { d with deferPending := none }.dispatch msg
  match d.deferPending with
  | some defer => .ok (none, d.park defer head writable msg)
  | none => .ok (some reply, d)

/-- Put a reply into the writable buffers of its chain, never overrunning them. -/
def putReply (mem : GuestMem) (writable : List Buf) (reply : Bytes) :
    U32 × GuestMem :=
  let n := min reply.length (sgLen writable)
  (BitVec.ofNat 32 n, (sgWrite mem writable 0 (reply.take n)).2)

/-- The message in the readable buffers of a chain. -/
def gather (mem : GuestMem) (readable : List Buf) : Bytes :=
  resize (sgRead mem readable 0 (sgLen readable)) (sgLen readable)

def Virtio9p.handle (chain : Chain) (mem : GuestMem) :
    Except DevicePanic (U32 × Virtio9p × GuestMem) :=
  if sgLen chain.readable < 7 then .ok (0, d, mem)
  else do
    let (reply, d) ← d.serve chain.head chain.writable (gather mem chain.readable)
    match reply with
    | none => .ok (0, { d with deferred := true }, mem)
    | some reply =>
        let (n, mem) := putReply mem chain.writable reply
        .ok (n, d, mem)

/-- The tree with the host's answer to a request filled in. -/
def P9Fs.fill (fs : P9Fs) (kind : ReqKind) (target : Nat) (payload : Bytes) : P9Fs :=
  match kind with
  | .readFile => fs.setNode target fun node => node.filled payload
  | .listDir =>
      (fs.applyListing target payload).setNode target fun node => { node with loaded := true }

/-- Answer a request: fill in what the host fetched and run the parked message again.
The chain and its reply come first, unless the message is parked again. -/
def Virtio9p.answer (id : U32) (payload : Bytes) :
    Except DevicePanic (Option (Held × Bytes) × Virtio9p) :=
  match d.held.findIdx? fun h => h.id = id with
  | none => .ok (none, d)
  | some i =>
      match d.held[i]? with
      | none => .ok (none, d)
      | some h => do
          let d := { d with held := d.held.eraseIdx i, fs := d.fs.fill h.kind h.target payload }
          let (reply, d) ← d.serve h.head h.writable h.msg
          .ok (reply.map fun reply => (h, reply), d)

def Virtio9p.supply (id : U32) (payload : Bytes) (mem : GuestMem) :
    Except DevicePanic (Option (Nat × U16 × U32) × Virtio9p × GuestMem) := do
  let (answered, d) ← d.answer id payload
  match answered with
  | none => .ok (none, d, mem)
  | some (h, reply) =>
      let (n, mem) := putReply mem h.writable reply
      .ok (some (0, h.head, n), d, mem)

/-- The change that a write-back record stands for.  A written path that is gone is
skipped. -/
def P9Fs.fileChange? (fs : P9Fs) (path : Bytes) (op : ChangeOp) : Option FileChange :=
  match op with
  | .write =>
      match fs.resolve path with
      | some ino => if (fs.node ino).isDir then none else some ⟨op, path, (fs.node ino).data⟩
      | none => none
  | _ => some ⟨op, path, []⟩

/-- Drain the guest mutations for the host to replay. -/
def Virtio9p.takeChanges : List FileChange × Virtio9p :=
  (d.dirtyChanges.filterMap fun (path, op) => d.fs.fileChange? path op,
    { d with dirtyChanges := [] })

/-- The configuration space holds the mount tag, its length in two bytes first. -/
def Virtio9p.configRead (off : Nat) : Byte :=
  if off < 2 then BitVec.ofNat 8 (d.tag.length >>> (8 * off)) else d.tag.getD (off - 2) 0

end

instance : VirtioDevice Virtio9p where
  deviceId _ := 9
  features _ := 1#64 <<< 32 ||| 1
  numQueues _ := 1
  configRead d off := d.configRead off
  handle d _ chain mem := d.handle chain mem
  deferredThis d := (d.deferred, { d with deferred := false })
  supply d id payload mem := d.supply id payload mem

end TabLinux

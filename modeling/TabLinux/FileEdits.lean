/-
The messages that edit a file: a write and a change of the size.  What they do to the
contents is stated once, for the guest's view of a file.
-/
import TabLinux.P9Answers

namespace TabLinux

open Bytes

variable {d d' : Virtio9p} {msg reply : Bytes} {ino : Nat} {offset : U64}
  {count : U32}

variable {c : Bytes} {fid : U32} {out : Outcome} {head : U16} {writable : List Buf}

/-- An edit of the contents of a file. -/
inductive FileEdit where
  | write (offset : Nat) (data : Bytes)
  | truncate (size : Nat)
deriving DecidableEq, Repr

def FileEdit.apply (contents : Bytes) : FileEdit → Bytes
  | .write offset data => writeAt contents offset data
  | .truncate size => resize contents size

/-- The file that a message edits, and how. -/
def Virtio9p.edit? (d : Virtio9p) (msg : Bytes) : Option (Nat × FileEdit) :=
  match msgType? msg with
  | some .write =>
      match parseTwrite (msg.drop 7) with
      | none => none
      | some (fid, offset, data) =>
          match d.fs.fids fid with
          | none => none
          | some ino =>
              if (d.fs.node ino).isDir then none else some (ino, .write offset.toNat data)
  | some .setattr =>
      match parseTsetattr (msg.drop 7) with
      | none => none
      | some (fid, valid, _, size) =>
          match d.fs.fids fid with
          | none => none
          | some ino => if valid.getLsbD 3 then some (ino, .truncate size.toNat) else none
  | _ => none

/-- Are all bytes there after the edit, even if the file was a stub? -/
def FileEdit.loads : FileEdit → Bool
  | .write _ _ => true
  | .truncate _ => false

namespace Virtio9p

variable {edit : FileEdit}

theorem edit?_eq_some (hedit : d.edit? msg = some (ino, edit)) :
    (∃ fid offset data, msgType? msg = some .write ∧
        parseTwrite (msg.drop 7) = some (fid, offset, data) ∧ d.fs.fids fid = some ino ∧
        (d.fs.node ino).isDir = false ∧ edit = .write offset.toNat data) ∨
      ∃ fid valid mode size, msgType? msg = some .setattr ∧
        parseTsetattr (msg.drop 7) = some (fid, valid, mode, size) ∧
        d.fs.fids fid = some ino ∧ valid.getLsbD 3 = true ∧ edit = .truncate size.toNat := by
  unfold Virtio9p.edit? at hedit
  split at hedit
  · rename_i hty
    split at hedit
    · cases hedit
    rename_i fid offset data hparse
    split at hedit
    · cases hedit
    rename_i hfid
    split at hedit
    · cases hedit
    rename_i hfile
    cases hedit
    exact Or.inl ⟨fid, offset, data, hty, hparse, hfid, Bool.not_eq_true _ ▸ hfile, rfl⟩
  · rename_i hty
    split at hedit
    · cases hedit
    rename_i fid valid mode size hparse
    split at hedit
    · cases hedit
    rename_i hfid
    split at hedit
    · rename_i hsize
      cases hedit
      exact Or.inr ⟨fid, valid, mode, size, hty, hparse, hfid, hsize, rfl⟩
    · cases hedit
  · cases hedit

theorem twrite_node {data : Bytes}
    (hparse : parseTwrite c = some (fid, offset, data)) (hfid : d.fs.fids fid = some ino)
    (hfile : (d.fs.node ino).isDir = false) (hlt : ino < d.fs.inodes.length)
    (hout : d.twrite c = .ok out) :
    out.2.fs.node ino =
      (d.fs.node ino).filled (writeAt (d.fs.node ino).data offset.toNat data) := by
  have hnode : ((d.fs.setNode ino fun node =>
      node.filled (writeAt node.data offset.toNat data)).touch).node ino =
        (d.fs.node ino).filled (writeAt (d.fs.node ino).data offset.toNat data) :=
    d.fs.node_setNode_self _ hlt
  unfold twrite at hout
  rw [hparse] at hout
  dsimp only at hout
  rw [hfid] at hout
  dsimp only at hout
  rw [hfile, if_neg Bool.false_ne_true] at hout
  split at hout
  · cases hout
  split at hout
  · cases hout
  cases hout
  rw [reply, mark_fs]
  exact hnode

theorem tsetattr_node {valid mode : U32} {size : U64}
    (hparse : parseTsetattr c = some (fid, valid, mode, size))
    (hfid : d.fs.fids fid = some ino) (hsize : valid.getLsbD 3 = true)
    (hlt : ino < d.fs.inodes.length) (hout : d.tsetattr c = .ok out) :
    (out.2.fs.node ino).data = resize (d.fs.node ino).data size.toNat ∧
      (out.2.fs.node ino).loaded = (d.fs.node ino).loaded := by
  -- the mode is set first, which changes neither the length of the table nor the contents
  have hnode : ∀ fs : P9Fs, ino < fs.inodes.length →
      ((fs.setNode ino fun node =>
        { node with data := resize node.data size.toNat, size := size }).touch).node ino =
      { fs.node ino with data := resize (fs.node ino).data size.toNat, size := size } :=
    fun fs h => fs.node_setNode_self _ h
  unfold tsetattr at hout
  rw [hparse] at hout
  dsimp only at hout
  rw [hfid] at hout
  dsimp only at hout
  rw [hsize, Bool.not_true, if_neg Bool.false_ne_true] at hout
  split at hout
  · cases hout
  cases hout
  rw [reply, mark_fs]
  split
  · rw [hnode _ (by rw [P9Fs.length_setNode]; exact hlt), d.fs.node_setNode_self _ hlt]
    exact ⟨rfl, rfl⟩
  · rw [hnode _ hlt]
    exact ⟨rfl, rfl⟩

/-- What an edit of a file does to its inode. -/
theorem dispatch_edit (hedit : d.edit? msg = some (ino, edit))
    (hlt : ino < d.fs.inodes.length) (hdispatch : d.dispatch msg = .ok (reply, d')) :
    (d'.fs.node ino).data = edit.apply (d.fs.node ino).data ∧
      (d'.fs.node ino).loaded = ((d.fs.node ino).loaded || edit.loads) := by
  rcases dispatch_cases hdispatch with ⟨hnone, -⟩ | ⟨ty, out, hty, hout, hframe⟩
  · rw [Virtio9p.edit?, hnone] at hedit
    cases hedit
  have hafter : d' = out.2 := by
    rw [← frameOutcome_snd (msg.getD 4 0) (msgTag msg) out, ← hframe]
  rw [hafter]
  rcases Virtio9p.edit?_eq_some hedit with
    ⟨fid, offset, data, hty', hparse, hfid, hfile, rfl⟩ |
    ⟨fid, valid, mode, size, hty', hparse, hfid, hsize, rfl⟩
  · rw [hty] at hty'
    cases hty'
    rw [twrite_node hparse hfid hfile hlt hout, FileEdit.loads, Bool.or_true]
    exact ⟨rfl, rfl⟩
  · rw [hty] at hty'
    cases hty'
    obtain ⟨hdata, hloaded⟩ := tsetattr_node hparse hfid hsize hlt hout
    rw [FileEdit.loads, Bool.or_false]
    exact ⟨hdata, hloaded⟩

end Virtio9p

theorem Served.edit {reply : Option Bytes} {edit : FileEdit}
    (h : Served d head writable msg reply d')
    (hedit : d.edit? msg = some (ino, edit)) (hlt : ino < d.fs.inodes.length) :
    (d'.fs.node ino).data = edit.apply (d.fs.node ino).data ∧
      (d'.fs.node ino).loaded = ((d.fs.node ino).loaded || edit.loads) := by
  have hclear : Virtio9p.edit? { d with deferPending := none } msg = some (ino, edit) := hedit
  cases h with
  | replied hdispatch =>
    have hafter := Virtio9p.dispatch_edit hclear hlt hdispatch
    exact hafter
  | parked hdispatch =>
    have hafter := Virtio9p.dispatch_edit hclear hlt hdispatch
    exact hafter

/-- The file that a message reads, and where. -/
def Virtio9p.reads? (d : Virtio9p) (msg : Bytes) : Option (Nat × U64 × U32) :=
  match msgType? msg with
  | some .read =>
      match parseTread (msg.drop 7) with
      | none => none
      | some (fid, offset, count) =>
          match d.fs.fids fid with
          | none => none
          | some ino => some (ino, offset, count)
  | _ => none

/-- The reply to a read of a file with these contents. -/
def readReply (msg contents : Bytes) (offset : U64) (count : U32) : Bytes :=
  let slice := readSlice contents offset.toNat count.toNat
  frame (TMsg.read.code + 1) (msgTag msg) (putU32 (BitVec.ofNat 32 slice.length) ++ slice)

theorem Virtio9p.reads?_eq_some (hreads : d.reads? msg = some (ino, offset, count)) :
    msgType? msg = some .read ∧ ∃ fid, parseTread (msg.drop 7) = some (fid, offset, count) ∧
      d.fs.fids fid = some ino := by
  unfold reads? at hreads
  split at hreads
  · rename_i hty
    split at hreads
    · cases hreads
    rename_i fid _ _ hparse
    split at hreads
    · cases hreads
    rename_i hfid
    cases hreads
    exact ⟨hty, fid, hparse, hfid⟩
  · cases hreads

/-- The type byte of a message that reaches a handler. -/
theorem code_of_msgType? {ty : TMsg} (hty : msgType? msg = some ty) : msg.getD 4 0 = ty.code := by
  unfold msgType? TMsg.ofCode? at hty
  split at hty
  · cases hty
  · have hcode := List.find?_some hty
    exact (of_decide_eq_true hcode).symm

/-- A read of a file that is not parked is answered from its contents, and they are all
there. -/
theorem Virtio9p.dispatch_read (hreads : d.reads? msg = some (ino, offset, count))
    (hfile : (d.fs.node ino).isDir = false) (hdispatch : d.dispatch msg = .ok (reply, d'))
    (hnone : d'.deferPending = none) :
    (d.isLazy = true → (d.fs.node ino).loaded = true) ∧
      reply = readReply msg (d.fs.node ino).data offset count := by
  obtain ⟨hread, fid, hparse, hfid⟩ := reads?_eq_some hreads
  rcases dispatch_cases hdispatch with ⟨hty, -⟩ | ⟨ty, out, hty, hout, hframe⟩
  · rw [hread] at hty
    cases hty
  have hafter : d' = out.2 := by
    rw [← frameOutcome_snd (msg.getD 4 0) (msgTag msg) out, ← hframe]
  rw [hread] at hty
  cases hty
  have hreply : reply = (frameOutcome (msg.getD 4 0) (msgTag msg) out).1 := by rw [← hframe]
  cases hout
  unfold tread at hreply hafter
  rw [hparse] at hreply hafter
  dsimp only at hreply hafter
  rw [hfid] at hreply hafter
  dsimp only at hreply hafter
  rw [hfile, if_neg Bool.false_ne_true] at hreply hafter
  split at hafter
  · rw [hafter] at hnone
    cases hnone
  rename_i hloaded
  rw [if_neg hloaded] at hreply
  have hdefer : d.deferPending = none := by rw [hafter] at hnone; exact hnone
  refine ⟨?_, ?_⟩
  · intro hlazy
    simpa [hlazy] using hloaded
  · rw [hreply, frameOutcome, Virtio9p.reply, hdefer, code_of_msgType? hread]
    rfl

theorem Served.read (h : Served d head writable msg (some reply) d')
    (hreads : d.reads? msg = some (ino, offset, count)) (hfile : (d.fs.node ino).isDir = false) :
    (d.isLazy = true → (d.fs.node ino).loaded = true) ∧
      reply = readReply msg (d.fs.node ino).data offset count := by
  have hclear : Virtio9p.reads? { d with deferPending := none } msg =
      some (ino, offset, count) := hreads
  cases h with
  | replied hdispatch hnone =>
    have hread := Virtio9p.dispatch_read hclear hfile hdispatch hnone
    exact hread

end TabLinux

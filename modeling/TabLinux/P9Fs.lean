/-
The in-memory file tree of the shared folder: a table of inodes, the fids that refer to
them, and the listings the host sends.
-/
import Mathlib.Data.List.Basic
import Mathlib.Logic.Function.Basic
import TabLinux.P9Wire

namespace TabLinux

open Bytes

/-- One node of the tree.  Its index in the table is its qid path. -/
structure Inode where
  isDir : Bool
  /-- File contents. -/
  data : Bytes
  /-- Directory entries: names and indices. -/
  children : List (Bytes × Nat)
  parent : Nat
  perm : U32
  mtime : U64
  /-- Are the contents present: a file's bytes, a directory's entries? -/
  loaded : Bool
  /-- The size of a stub, from the listing of its parent. -/
  size : U64
deriving DecidableEq, Repr

namespace Inode

def dir (parent : Nat) : Inode :=
  ⟨true, [], [], parent, 0o755, 0, true, 0⟩

def file (parent : Nat) : Inode :=
  ⟨false, [], [], parent, 0o644, 0, true, 0⟩

/-- A directory whose entries are not known yet. -/
def stubDir (parent : Nat) : Inode :=
  ⟨true, [], [], parent, 0o755, 0, false, 0⟩

/-- A file whose bytes are not fetched yet. -/
def stubFile (parent : Nat) (size : U64) : Inode :=
  ⟨false, [], [], parent, 0o644, 0, false, size⟩

def mode (node : Inode) : U32 :=
  node.perm ||| if node.isDir then 0o40000 else 0o100000

end Inode

def qtDir : Byte := 0x80

def qtFile : Byte := 0x00

def Inode.qidType (node : Inode) : Byte := if node.isDir then qtDir else qtFile

structure P9Fs where
  inodes : List Inode
  fids : U32 → Option Nat
  msize : U32
  dirty : U64

namespace P9Fs

/-- Inode 0 is the root, its own parent. -/
def new : P9Fs := ⟨[Inode.dir 0], fun _ => none, 8192, 0⟩

/-- The inode of an index.  The indices of the tree are all in range. -/
def node (fs : P9Fs) (ino : Nat) : Inode := fs.inodes.getD ino (Inode.file 0)

def setNode (fs : P9Fs) (ino : Nat) (f : Inode → Inode) : P9Fs :=
  { fs with inodes := fs.inodes.modify ino f }

def alloc (fs : P9Fs) (node : Inode) : Nat × P9Fs :=
  (fs.inodes.length, { fs with inodes := fs.inodes ++ [node] })

/-- Add an entry to a directory. -/
def addChild (fs : P9Fs) (dir : Nat) (name : Bytes) (ino : Nat) : P9Fs :=
  fs.setNode dir fun node => { node with children := node.children ++ [(name, ino)] }

def bind (fs : P9Fs) (fid : U32) (ino : Nat) : P9Fs :=
  { fs with fids := Function.update fs.fids fid (some ino) }

def unbind (fs : P9Fs) (fid : U32) : P9Fs :=
  { fs with fids := Function.update fs.fids fid none }

def touch (fs : P9Fs) : P9Fs := { fs with dirty := fs.dirty + 1 }

end P9Fs

/-- The first entry of a name. -/
def childOf (children : List (Bytes × Nat)) (name : Bytes) : Option Nat :=
  (children.find? fun entry => entry.1 = name).map (·.2)

def P9Fs.child (fs : P9Fs) (dir : Nat) (name : Bytes) : Option Nat :=
  childOf (fs.node dir).children name

def slash : Byte := 0x2F

/-- Follow names down from an inode. -/
def P9Fs.resolveFrom (fs : P9Fs) : Nat → List Bytes → Option Nat
  | cur, [] => some cur
  | cur, seg :: rest =>
      match fs.child cur seg with
      | some next => fs.resolveFrom next rest
      | none => none

/-- The inode of a path, from the root. -/
def P9Fs.resolve (fs : P9Fs) (path : Bytes) : Option Nat :=
  fs.resolveFrom 0 ((path.splitOn slash).filter (· ≠ []))

/-- The first name under which a directory lists an inode. -/
def nameOf (children : List (Bytes × Nat)) (ino : Nat) : Option Bytes :=
  (children.find? fun entry => entry.2 = ino).map (·.1)

/-- The names from the root down to an inode.  Parents precede their children in the
table, so the length of the table bounds the way up. -/
def P9Fs.pathParts (fs : P9Fs) : (fuel : Nat) → (ino : Nat) → List Bytes
  | 0, _ => []
  | fuel + 1, ino =>
      if ino = 0 then []
      else
        let p := (fs.node ino).parent
        fs.pathParts fuel p ++ (nameOf (fs.node p).children ino).toList

/-- The path of an inode; the root has the empty path. -/
def P9Fs.pathOf (fs : P9Fs) (ino : Nat) : Bytes :=
  List.intercalate [slash] (fs.pathParts fs.inodes.length ino)

/-- One record of a listing: a name, whether it is a directory, and its size. -/
structure ListingEntry where
  name : Bytes
  isDir : Bool
  size : U64
deriving DecidableEq, Repr

/-- The record at the front of a listing, and the rest. -/
def listingEntry? (payload : Bytes) : Option (ListingEntry × Bytes) := do
  let (nl, p) ← curU16 payload
  let (name, p) ← take? nl.toNat p
  let (flags, p) ← take? 1 p
  let (size, p) ← curU64 p
  if utf8Valid name then
    some (⟨name, (BitVec.ofNat 8 (ofLe flags)).getLsbD 0, size⟩, p)
  else none

def listingEntriesFrom : (fuel : Nat) → Bytes → List ListingEntry
  | 0, _ => []
  | fuel + 1, payload =>
      match listingEntry? payload with
      | some (entry, rest) => entry :: listingEntriesFrom fuel rest
      | none => []

/-- The records of a listing, up to the first that is malformed. -/
def listingEntries (payload : Bytes) : List ListingEntry :=
  listingEntriesFrom payload.length payload

namespace P9Fs

/-- A listed entry becomes a stub, unless the name is reserved or already there. -/
def addListed (fs : P9Fs) (dir : Nat) (entry : ListingEntry) : P9Fs :=
  if entry.name = [] ∨ entry.name = [0x2E] ∨ entry.name = [0x2E, 0x2E] ∨
      (fs.child dir entry.name).isSome then fs
  else
    let (n, fs) := fs.alloc
      (if entry.isDir then Inode.stubDir dir else Inode.stubFile dir entry.size)
    fs.addChild dir entry.name n

/-- Populate a directory from a listing of the host. -/
def applyListing (fs : P9Fs) (dir : Nat) (payload : Bytes) : P9Fs :=
  (listingEntries payload).foldl (fun fs entry => fs.addListed dir entry) fs

/-- One component of the path of a seeded entry: the directory of that name, or a new
one. -/
def enterDir (fs : P9Fs) (cur : Nat) (seg : Bytes) : Nat × P9Fs :=
  let made :=
    let (n, fs) := fs.alloc (Inode.dir cur)
    (n, fs.addChild cur seg n)
  match fs.child cur seg with
  | some i => if (fs.node i).isDir then (i, fs) else made
  | none => made

def enterDirs (fs : P9Fs) (cur : Nat) : List Bytes → Nat × P9Fs
  | [] => (cur, fs)
  | seg :: rest =>
      let (next, fs) := fs.enterDir cur seg
      fs.enterDirs next rest

/-- Create or overwrite a file in a directory.  A directory of its name stays. -/
def putLeaf (fs : P9Fs) (cur : Nat) (leaf data : Bytes) : P9Fs :=
  match fs.child cur leaf with
  | some i =>
      if (fs.node i).isDir then fs else fs.setNode i fun node => { node with data := data }
  | none =>
      let (n, fs) := fs.alloc { Inode.file cur with data := data }
      fs.addChild cur leaf n

/-- Create or overwrite a file, with the directories on the way to it. -/
def putFile (fs : P9Fs) (path data : Bytes) : P9Fs :=
  let parts := (path.splitOn slash).filter (· ≠ [])
  match parts.getLast? with
  | none => fs
  | some leaf =>
      let (cur, fs) := fs.enterDirs 0 parts.dropLast
      fs.putLeaf cur leaf data

def mkdirP (fs : P9Fs) (path : Bytes) : P9Fs :=
  (fs.enterDirs 0 ((path.splitOn slash).filter (· ≠ []))).2

end P9Fs

end TabLinux

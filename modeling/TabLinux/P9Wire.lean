/-
The wire format of 9P2000.L as the device reads and writes it: message types, error
numbers, the cursor over a received message and the frames of replies.  Names are the
bytes of their UTF-8 form.
-/
import TabLinux.Library.Bytes
import TabLinux.Words

namespace TabLinux

open Bytes

/-- The requests that the device answers. -/
inductive TMsg where
  | statfs | lopen | lcreate | getattr | setattr | xattrwalk | readdir | fsync | mkdir
  | unlinkat | version | attach | flush | walk | read | write | clunk | remove
deriving DecidableEq, Repr

def TMsg.code : TMsg → Byte
  | .statfs => 8
  | .lopen => 12
  | .lcreate => 14
  | .getattr => 24
  | .setattr => 26
  | .xattrwalk => 30
  | .readdir => 40
  | .fsync => 50
  | .mkdir => 72
  | .unlinkat => 76
  | .version => 100
  | .attach => 104
  | .flush => 108
  | .walk => 110
  | .read => 116
  | .write => 118
  | .clunk => 120
  | .remove => 122

def TMsg.all : List TMsg :=
  [.statfs, .lopen, .lcreate, .getattr, .setattr, .xattrwalk, .readdir, .fsync, .mkdir,
    .unlinkat, .version, .attach, .flush, .walk, .read, .write, .clunk, .remove]

/-- The request of a type byte; the other types are not implemented. -/
def TMsg.ofCode? (ty : Byte) : Option TMsg := all.find? fun t => t.code = ty

def rlerror : Byte := 7

/-- The errors a handler returns.  `defer` is none: it says that the request was parked
on the host. -/
inductive Errno where
  | enoent | ebadf | eexist | enotdir | eisdir | einval | enosys | enotempty | defer
deriving DecidableEq, Repr

def Errno.code : Errno → U32
  | .enoent => 2
  | .ebadf => 9
  | .eexist => 17
  | .enotdir => 20
  | .eisdir => 21
  | .einval => 22
  | .enosys => 38
  | .enotempty => 39
  | .defer => 0xFFFFFFFF

/-- The length of the sequence that a byte starts, 0 if it starts none. -/
def utf8Width (first : Byte) : Nat :=
  if first < 0x80 then 1
  else if 0xC2 ≤ first ∧ first ≤ 0xDF then 2
  else if 0xE0 ≤ first ∧ first ≤ 0xEF then 3
  else if 0xF0 ≤ first ∧ first ≤ 0xF4 then 4
  else 0

def isContinuation (b : Byte) : Bool := b &&& 0xC0 = 0x80

/-- Can the second byte follow the first?  Overlong forms, surrogates and values beyond
the last code point are excluded here. -/
def utf8Second (first second : Byte) : Bool :=
  if first = 0xE0 then 0xA0 ≤ second && second ≤ 0xBF
  else if first = 0xED then 0x80 ≤ second && second ≤ 0x9F
  else if first = 0xF0 then 0x90 ≤ second && second ≤ 0xBF
  else if first = 0xF4 then 0x80 ≤ second && second ≤ 0x8F
  else isContinuation second

/-- How many bytes of a well-formed sequence the string starts with, at least one, and
whether the sequence is complete. -/
def utf8Head : Bytes → Nat × Bool
  | [] => (0, true)
  | first :: rest =>
      if utf8Width first = 0 then (1, false)
      else
        let need := utf8Width first - 1
        let found :=
          match rest with
          | [] => 0
          | second :: more =>
              if need ≠ 0 ∧ utf8Second first second then
                1 + ((more.take (need - 1)).takeWhile isContinuation).length
              else 0
        (1 + found, found = need)

/-- U+FFFD, which stands for bytes that are not UTF-8. -/
def replacement : Bytes := [0xEF, 0xBF, 0xBD]

def utf8LossyFrom : (fuel : Nat) → Bytes → Bytes
  | 0, _ => []
  | _ + 1, [] => []
  | fuel + 1, bytes =>
      let (n, valid) := utf8Head bytes
      (if valid then bytes.take n else replacement) ++ utf8LossyFrom fuel (bytes.drop n)

/-- The string with every ill-formed part replaced. -/
def utf8Lossy (bytes : Bytes) : Bytes := utf8LossyFrom bytes.length bytes

def utf8ValidFrom : (fuel : Nat) → Bytes → Bool
  | 0, _ => true
  | _ + 1, [] => true
  | fuel + 1, bytes =>
      let (n, valid) := utf8Head bytes
      valid && utf8ValidFrom fuel (bytes.drop n)

def utf8Valid (bytes : Bytes) : Bool := utf8ValidFrom bytes.length bytes

/-- The next `n` bytes of a message, and what follows them. -/
def take? (n : Nat) (c : Bytes) : Option (Bytes × Bytes) :=
  if n ≤ c.length then some (c.take n, c.drop n) else none

section

variable (c : Bytes)

def curU16 : Option (U16 × Bytes) :=
  (take? 2 c).map fun (bytes, c) => (BitVec.ofNat 16 (ofLe bytes), c)

def curU32 : Option (U32 × Bytes) :=
  (take? 4 c).map fun (bytes, c) => (BitVec.ofNat 32 (ofLe bytes), c)

def curU64 : Option (U64 × Bytes) :=
  (take? 8 c).map fun (bytes, c) => (BitVec.ofNat 64 (ofLe bytes), c)

def curStr : Option (Bytes × Bytes) := do
  let (n, c) ← curU16 c
  let (bytes, c) ← take? n.toNat c
  some (utf8Lossy bytes, c)

/-- Skip a word that the handler ignores, whether or not it is there. -/
def skipU32 : Bytes :=
  match curU32 c with
  | some (_, c) => c
  | none => c

end

def putU16 (v : U16) : Bytes := toLe 2 v.toNat

def putU32 (v : U32) : Bytes := toLe 4 v.toNat

def putU64 (v : U64) : Bytes := toLe 8 v.toNat

def putStr (s : Bytes) : Bytes := putU16 (BitVec.ofNat 16 s.length) ++ s

/-- A qid: its type, version 0 and path. -/
def putQid (ty : Byte) (path : Nat) : Bytes :=
  ty :: (putU32 0 ++ putU64 (BitVec.ofNat 64 path))

@[simp] theorem length_putU16 (v : U16) : (putU16 v).length = 2 := length_toLe ..

@[simp] theorem length_putU32 (v : U32) : (putU32 v).length = 4 := length_toLe ..

@[simp] theorem length_putU64 (v : U64) : (putU64 v).length = 8 := length_toLe ..

@[simp] theorem length_putQid (ty : Byte) (path : Nat) : (putQid ty path).length = 13 := by
  simp [putQid]

@[simp] theorem length_putStr (s : Bytes) : (putStr s).length = 2 + s.length := by
  simp [putStr]

/-- The 7-byte header of size, type and tag in front of a body. -/
def frame (ty : Byte) (tag : U16) (body : Bytes) : Bytes :=
  putU32 (BitVec.ofNat 32 (7 + body.length)) ++ ty :: (putU16 tag ++ body)

end TabLinux

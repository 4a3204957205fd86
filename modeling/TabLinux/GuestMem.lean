/-
Guest memory as the virtio devices see it: a window onto DRAM at guest physical
addresses, and scatter lists of buffers in it.
-/
import TabLinux.Library.Bytes
import TabLinux.Words

namespace TabLinux

open Bytes

/-- DRAM of `len` bytes from guest physical address `base` on. -/
structure GuestMem where
  base : U64
  len : Nat
  dram : Nat → Byte

namespace GuestMem

variable (mem : GuestMem) (gpa : U64)

/-- The offset at which `n` bytes from `gpa` on lie inside DRAM. -/
def window (n : Nat) : Option Nat :=
  if mem.base ≤ gpa ∧ (gpa - mem.base).toNat + n ≤ mem.len then
    some (gpa - mem.base).toNat
  else none

/-- Bytes outside DRAM read as zero. -/
def read (n : Nat) : Bytes :=
  match mem.window gpa n with
  | some off => (List.range n).map fun i => mem.dram (off + i)
  | none => List.replicate n 0

/-- A write that does not fit into DRAM is dropped. -/
def write (src : Bytes) : GuestMem :=
  match mem.window gpa src.length with
  | some off =>
      { mem with
        dram := fun i =>
          if off ≤ i ∧ i < off + src.length then src.getD (i - off) 0 else mem.dram i }
  | none => mem

def readU16 : U16 :=
  BitVec.ofNat 16 (ofLe (mem.read gpa 2))

def readU32 : U32 :=
  BitVec.ofNat 32 (ofLe (mem.read gpa 4))

def readU64 : U64 :=
  BitVec.ofNat 64 (ofLe (mem.read gpa 8))

def writeU16 (v : U16) : GuestMem :=
  mem.write gpa (toLe 2 v.toNat)

def writeU32 (v : U32) : GuestMem :=
  mem.write gpa (toLe 4 v.toNat)

end GuestMem

/-- One descriptor's guest buffer. -/
structure Buf where
  addr : U64
  len : U32
deriving DecidableEq, Repr

/-- A walked descriptor chain, split by direction. -/
structure Chain where
  head : U16
  readable : List Buf
  writable : List Buf
deriving DecidableEq, Repr

/-- Gather `want` bytes from a scatter list, starting `skip` bytes in.  Fewer come back
where the list is shorter. -/
def sgRead (mem : GuestMem) : List Buf → (skip want : Nat) → Bytes
  | [], _, _ => []
  | b :: bufs, skip, want =>
      let blen := b.len.toNat
      if skip ≥ blen then sgRead mem bufs (skip - blen) want
      else
        let take := min (blen - skip) want
        let bytes := mem.read (b.addr + BitVec.ofNat 64 skip) take
        if take = want then bytes else bytes ++ sgRead mem bufs 0 (want - take)

/-- Scatter bytes into a buffer list, starting `skip` bytes in.  The number of bytes
written comes first. -/
def sgWrite (mem : GuestMem) : List Buf → (skip : Nat) → Bytes → Nat × GuestMem
  | [], _, _ => (0, mem)
  | b :: bufs, skip, src =>
      let blen := b.len.toNat
      if skip ≥ blen then sgWrite mem bufs (skip - blen) src
      else
        let take := min (blen - skip) src.length
        let mem := mem.write (b.addr + BitVec.ofNat 64 skip) (src.take take)
        if take = src.length then (take, mem)
        else
          let (done, mem) := sgWrite mem bufs 0 (src.drop take)
          (take + done, mem)

def sgLen : List Buf → Nat
  | [] => 0
  | b :: bufs => b.len.toNat + sgLen bufs

end TabLinux

/-
Scatter lists as lists of the memory cells they name.  Gathering from buffers that lie in
DRAM is a look at the cells in order, and scattering puts the bytes into them.
-/
import TabLinux.GuestMem
import TabLinux.Library.Cells

namespace TabLinux

open Bytes Cells

variable {b : Buf} {skip n : Nat} {bufs : List Buf}

/-- The offsets into DRAM of a buffer's bytes. -/
def Buf.cells (base : U64) (b : Buf) : List Nat :=
  List.range' (b.addr - base).toNat b.len.toNat

def sgCells (base : U64) (bufs : List Buf) : List Nat := bufs.flatMap (Buf.cells base)

/-- The buffer lies in DRAM. -/
structure Buf.Placed (mem : GuestMem) (b : Buf) : Prop where
  base : mem.base ≤ b.addr
  fits : (b.addr - mem.base).toNat + b.len.toNat ≤ mem.len
  noWrap : b.addr.toNat + b.len.toNat < 2 ^ 64

variable {mem : GuestMem}

theorem Buf.length_cells (base : U64) (b : Buf) : (b.cells base).length = b.len.toNat :=
  List.length_range'

theorem length_sgCells (base : U64) (bufs : List Buf) :
    (sgCells base bufs).length = sgLen bufs := by
  induction bufs with
  | nil => rfl
  | cons b bufs ih =>
    rw [sgCells, List.flatMap_cons, List.length_append, b.length_cells, sgLen, ← ih, sgCells]

theorem Buf.Placed.window (h : b.Placed mem) (hskip : skip + n ≤ b.len.toNat) :
    mem.window (b.addr + BitVec.ofNat 64 skip) n = some ((b.addr - mem.base).toNat + skip) := by
  have hbase := h.base
  have hfits := h.fits
  have hnoWrap := h.noWrap
  have hsum : (b.addr + BitVec.ofNat 64 skip).toNat = b.addr.toNat + skip := by
    rw [BitVec.toNat_add, BitVec.toNat_ofNat]
    omega
  have hle : mem.base ≤ b.addr + BitVec.ofNat 64 skip := by
    rw [BitVec.le_def] at hbase ⊢
    omega
  rw [BitVec.toNat_sub_of_le hbase] at hfits ⊢
  rw [BitVec.le_def] at hbase
  rw [GuestMem.window, BitVec.toNat_sub_of_le hle, hsum, if_pos ⟨hle, by omega⟩]
  congr 1
  omega

/-- The bytes of a buffer from `skip` on. -/
theorem Buf.take_drop_cells (base : U64) (b : Buf) (hskip : skip + n ≤ b.len.toNat) :
    ((b.cells base).drop skip).take n = List.range' ((b.addr - base).toNat + skip) n := by
  have htake : n ≤ b.len.toNat - skip := by omega
  rw [cells, List.drop_range', List.take_range'_of_length_ge htake, Nat.mul_one]

theorem Buf.Placed.read (h : b.Placed mem) (hskip : skip + n ≤ b.len.toNat) :
    mem.read (b.addr + BitVec.ofNat 64 skip) n =
      (((b.cells mem.base).drop skip).take n).map mem.dram := by
  rw [GuestMem.read, h.window hskip, b.take_drop_cells mem.base hskip, List.range'_eq_map_range,
    List.map_map]
  rfl

theorem Buf.Placed.write (h : b.Placed mem) {src : Bytes}
    (hskip : skip + src.length ≤ b.len.toNat) :
    mem.write (b.addr + BitVec.ofNat 64 skip) src =
      { mem with dram := put mem.dram ((b.cells mem.base).drop skip) src } := by
  rw [GuestMem.write, h.window hskip, ← put_take, b.take_drop_cells mem.base hskip]
  dsimp only
  congr 1
  funext i
  rw [put_range _ _ _ 0]

/-- The list lies in DRAM, buffer by buffer. -/
def SgPlaced (mem : GuestMem) (bufs : List Buf) : Prop := ∀ b ∈ bufs, b.Placed mem

theorem sgRead_eq (h : SgPlaced mem bufs) (skip want : Nat) :
    sgRead mem bufs skip want = (((sgCells mem.base bufs).drop skip).take want).map mem.dram := by
  induction bufs generalizing skip want with
  | nil => rw [sgRead, sgCells, List.flatMap_nil, List.drop_nil, List.take_nil, List.map_nil]
  | cons b bufs ih =>
    obtain ⟨hb, hbufs⟩ := List.forall_mem_cons.mp h
    have hlen := b.length_cells mem.base
    rw [sgRead, sgCells, List.flatMap_cons, ← sgCells, List.drop_append, hlen]
    dsimp only
    by_cases hskip : skip ≥ b.len.toNat
    · have hnil : (b.cells mem.base).drop skip = [] := List.drop_eq_nil_of_le (by omega)
      rw [if_pos hskip, ih hbufs, hnil, List.nil_append]
    have hrest : ((b.cells mem.base).drop skip).length = b.len.toNat - skip := by
      rw [List.length_drop, hlen]
    rw [if_neg hskip, hb.read (by omega), List.take_append, hrest, List.map_append,
      Nat.sub_eq_zero_of_le (Nat.le_of_not_le hskip), List.drop_zero]
    by_cases hall : min (b.len.toNat - skip) want = want
    · have hnone : want - (b.len.toNat - skip) = 0 := by omega
      rw [if_pos hall, hall, hnone, List.take_zero, List.map_nil, List.append_nil]
    have hmin : min (b.len.toNat - skip) want = b.len.toNat - skip := by omega
    have hfirst : ((b.cells mem.base).drop skip).take want =
        ((b.cells mem.base).drop skip).take (b.len.toNat - skip) := by
      rw [List.take_of_length_le (by omega), List.take_of_length_le (by omega)]
    rw [if_neg hall, ih hbufs, hmin, List.drop_zero, hfirst]

theorem SgPlaced.withDram (h : SgPlaced mem bufs) (dram : Nat → Byte) :
    SgPlaced { mem with dram := dram } bufs :=
  fun b hb => ⟨(h b hb).base, (h b hb).fits, (h b hb).noWrap⟩

theorem sgWrite_eq (h : SgPlaced mem bufs) (skip : Nat) (src : Bytes) :
    (sgWrite mem bufs skip src).2 =
      { mem with dram := put mem.dram ((sgCells mem.base bufs).drop skip) src } := by
  induction bufs generalizing mem skip src with
  | nil => rw [sgWrite, sgCells, List.flatMap_nil, List.drop_nil, put_nil_left]
  | cons b bufs ih =>
    obtain ⟨hb, hbufs⟩ := List.forall_mem_cons.mp h
    have hlen := b.length_cells mem.base
    rw [sgWrite, sgCells, List.flatMap_cons, ← sgCells, List.drop_append, hlen]
    dsimp only
    by_cases hskip : skip ≥ b.len.toNat
    · have hnil : (b.cells mem.base).drop skip = [] := List.drop_eq_nil_of_le (by omega)
      rw [if_pos hskip, ih hbufs, hnil, List.nil_append]
    have hrest : ((b.cells mem.base).drop skip).length = b.len.toNat - skip := by
      rw [List.length_drop, hlen]
    have htake : (src.take (min (b.len.toNat - skip) src.length)).length =
        min (b.len.toNat - skip) src.length := by
      rw [List.length_take]
      omega
    rw [if_neg hskip, hb.write (by omega), Nat.sub_eq_zero_of_le (Nat.le_of_not_le hskip),
      List.drop_zero]
    by_cases hall : min (b.len.toNat - skip) src.length = src.length
    · rw [if_pos hall, hall, List.take_length, put_append_left _ (by omega)]
    have hmin : min (b.len.toNat - skip) src.length = b.len.toNat - skip := by omega
    rw [if_neg hall, hmin]
    have hsplit : ((b.cells mem.base).drop skip).length =
        (src.take (b.len.toNat - skip)).length := by
      rw [hrest, List.length_take]
      omega
    rw [ih (SgPlaced.withDram hbufs _), List.drop_zero, ← put_append _ hsplit,
      List.take_append_drop]

/-- The bytes of the buffers, one after the other. -/
theorem SgPlaced.concat (h : SgPlaced mem bufs) :
    (bufs.flatMap fun b => mem.read b.addr b.len.toNat) = (sgCells mem.base bufs).map mem.dram := by
  rw [sgCells, List.map_flatMap]
  refine List.flatMap_congr fun b hb => ?_
  have hread := (h b hb).read (Nat.le_of_eq (Nat.zero_add b.len.toNat))
  simpa [List.take_of_length_le, b.length_cells] using hread

theorem sgWrite_count (mem : GuestMem) (bufs : List Buf) (skip : Nat) (src : Bytes) :
    (sgWrite mem bufs skip src).1 = min src.length (sgLen bufs - skip) := by
  induction bufs generalizing mem skip src with
  | nil => simp [sgWrite, sgLen]
  | cons b bufs ih =>
    rw [sgWrite, sgLen]
    dsimp only
    split
    · rw [ih]
      omega
    split
    · omega
    rw [ih, List.length_drop]
    omega

/-- What was scattered into distinct cells is gathered again. -/
theorem sgRead_sgWrite (h : SgPlaced mem bufs)
    (hnodup : ((sgCells mem.base bufs).drop skip).Nodup) (src : Bytes) :
    sgRead (sgWrite mem bufs skip src).2 bufs skip src.length = src.take (sgLen bufs - skip) := by
  have hlen : ((sgCells mem.base bufs).drop skip).length = sgLen bufs - skip := by
    rw [List.length_drop, length_sgCells]
  have hfit : (src.take (sgLen bufs - skip)).length ≤
      ((sgCells mem.base bufs).drop skip).length := by
    rw [hlen, List.length_take]
    exact Nat.min_le_left _ _
  have hall : (((sgCells mem.base bufs).drop skip).take src.length).length ≤ sgLen bufs - skip := by
    rw [List.length_take, hlen]
    exact Nat.min_le_right _ _
  have hput := map_put mem.dram hnodup hfit
  rw [← hlen, put_take_values, hlen, List.length_take, ← List.take_take,
    List.take_of_length_le hall] at hput
  rw [sgWrite_eq h, sgRead_eq (h.withDram _)]
  exact hput

/-- Gathering is a slice of the concatenated buffers.  Scattering changes the same slice, and
nothing else; it is read back if the buffers do not overlap. -/
theorem sg_slices (h : SgPlaced mem bufs) (skip want : Nat) (src : Bytes) :
    sgRead mem bufs skip want =
        ((bufs.flatMap fun b => mem.read b.addr b.len.toNat).drop skip).take want ∧
      (sgRead mem bufs skip want).length = min want (sgLen bufs - skip) ∧
      (sgWrite mem bufs skip src).1 = min src.length (sgLen bufs - skip) ∧
      ((bufs.Pairwise fun b b' => (b.cells mem.base).Disjoint (b'.cells mem.base)) →
        sgRead (sgWrite mem bufs skip src).2 bufs skip src.length =
          src.take (sgWrite mem bufs skip src).1) ∧
      (sgWrite mem bufs skip src).2.base = mem.base ∧
      (sgWrite mem bufs skip src).2.len = mem.len ∧
      ∀ i, i ∉ ((sgCells mem.base bufs).drop skip).take (sgWrite mem bufs skip src).1 →
        (sgWrite mem bufs skip src).2.dram i = mem.dram i := by
  have hlen : ((sgCells mem.base bufs).drop skip).length = sgLen bufs - skip := by
    rw [List.length_drop, length_sgCells]
  rw [sgRead_eq h, h.concat, sgWrite_count]
  refine ⟨?_, ?_, rfl, fun hdisjoint => ?_, ?_⟩
  · rw [List.map_take, List.map_drop]
  · rw [List.length_map, List.length_take, hlen]
  · have hnodup : (sgCells mem.base bufs).Nodup :=
      List.nodup_flatMap.mpr ⟨fun b _ => List.nodup_range', hdisjoint⟩
    rw [sgRead_sgWrite h (hnodup.sublist (List.drop_sublist _ _)), Nat.min_comm,
      ← List.take_take, List.take_length]
  rw [sgWrite_eq h]
  refine ⟨rfl, rfl, fun i hi => ?_⟩
  rw [← put_take_values, ← put_take, List.length_take, hlen, Nat.min_comm]
  exact put_of_not_mem _ hi

/-- Sixteen bytes that count up. -/
def countingMem : GuestMem := ⟨0x80000000, 16, BitVec.ofNat 8⟩

/-- Three buffers of it, the second one empty. -/
def splitBufs : List Buf := [⟨0x80000004, 3⟩, ⟨0x80000000, 0⟩, ⟨0x80000001, 2⟩]

/-- The first two bytes of the memory, twice. -/
def twiceBufs : List Buf := [⟨0x80000000, 2⟩, ⟨0x80000000, 2⟩]

/-- Buffers that overlap are gathered as any others. -/
theorem sg_slices_split :
    sgRead countingMem twiceBufs 1 2 =
        ((twiceBufs.flatMap fun b => countingMem.read b.addr b.len.toNat).drop 1).take 2 ∧
      sgRead (sgWrite countingMem splitBufs 1 [7, 8, 9]).2 splitBufs 1 3 =
        [7, 8, 9].take (sgWrite countingMem splitBufs 1 [7, 8, 9]).1 := by
  have hplaced : ∀ b ∈ splitBufs ++ twiceBufs, b.Placed countingMem := by
    have hall : ∀ b ∈ splitBufs ++ twiceBufs, countingMem.base ≤ b.addr ∧
        (b.addr - countingMem.base).toNat + b.len.toNat ≤ countingMem.len ∧
        b.addr.toNat + b.len.toNat < 2 ^ 64 := by decide
    exact fun b hb => ⟨(hall b hb).1, (hall b hb).2.1, (hall b hb).2.2⟩
  obtain ⟨hsplit, htwice⟩ := List.forall_mem_append.mp hplaced
  have hnodup : (sgCells countingMem.base splitBufs).Nodup := by decide
  exact ⟨(sg_slices htwice 1 2 []).1,
    (sg_slices hsplit 1 3 [7, 8, 9]).2.2.2.1 (List.nodup_flatMap.mp hnodup).2⟩

end TabLinux

/-
The block device as an array of sectors.  Requests read and write whole sectors by
number; the array says what each request answers, and the device over a disk in memory
is compared with it over runs of requests.
-/
import TabLinux.ScatterLists
import TabLinux.VirtioBlk
import TabLinux.Library.Runs

namespace TabLinux

open Bytes Cells

abbrev Sector := { bytes : Bytes // bytes.length = sectorSize }

abbrev SectorArray (c : Nat) := Fin c → Sector

/-- The whole sectors of a list of bytes. -/
def sectorsOf (bytes : Bytes) : SectorArray (bytes.length / sectorSize) := fun k =>
  ⟨block sectorSize bytes k, by
    have hk := Nat.mul_le_mul_left sectorSize k.isLt
    have hdiv := Nat.mul_div_le bytes.length sectorSize
    rw [Nat.mul_succ] at hk
    exact length_block (Nat.le_trans hk hdiv)⟩

/-- What the header of a request asks for.  A write comes with its payload, a read with
the number of whole sectors there is room for. -/
inductive SectorRequest where
  | read (sector count : Nat)
  | write (sector : Nat) (payload : Bytes)
  | flush
  | getId (room : Nat)
  | unknown
deriving DecidableEq, Repr

/-- The status of a request, the bytes delivered and the array afterwards. -/
structure SectorAnswer (c : Nat) where
  status : Byte
  data : Bytes
  disk : SectorArray c

section

variable {c : Nat}

/-- The bytes of `n` sectors from `s` on. -/
def SectorArray.load (disk : SectorArray c) (s n : Nat) : Bytes :=
  (List.range' s n).flatMap fun k => if h : k < c then (disk ⟨k, h⟩).1 else []

/-- Sectors from `s` on become those of the payload. -/
def SectorArray.store (disk : SectorArray c) (s : Nat) (payload : Bytes) : SectorArray c :=
  fun i =>
    if h : s ≤ i ∧ i - s < payload.length / sectorSize then sectorsOf payload ⟨i - s, h.2⟩
    else disk i

/-- What a disk with this serial number answers. -/
def SectorArray.answer (disk : SectorArray c) (serial : Bytes) :
    SectorRequest → SectorAnswer c
  | .read s n =>
      if 0 < n ∧ s + n ≤ c then ⟨sOk, disk.load s n, disk⟩ else ⟨sIoErr, [], disk⟩
  | .write s payload =>
      let n := payload.length / sectorSize
      if 0 < n ∧ s + n ≤ c then ⟨sOk, [], disk.store s payload⟩ else ⟨sIoErr, [], disk⟩
  | .flush => ⟨sOk, [], disk⟩
  | .getId room => ⟨sOk, serial.take room, disk⟩
  | .unknown => ⟨sUnsupp, [], disk⟩

/-- The bytes of the disk are those of the sectors, one after the other. -/
structure MemBackend.Holds (backend : MemBackend) (disk : SectorArray c) : Prop where
  size : backend.data.length = sectorSize * c
  sectors : ∀ i : Fin c, block sectorSize backend.data i = (disk i).1

/-- Byte offsets keep the low 55 bits of a sector number. -/
theorem byteOffset_sectors (hc : sectorSize * c < 2 ^ 63) (sector : U64) (n : Nat) :
    byteOffset (sectorSize * c) sector (sectorSize * n) =
      if sector.toNat % 2 ^ 55 + n ≤ c then some (sectorSize * (sector.toNat % 2 ^ 55))
      else none := by
  have hoff : (sector * BitVec.ofNat 64 sectorSize).toNat =
      sectorSize * (sector.toNat % 2 ^ 55) := by
    rw [BitVec.toNat_mul, BitVec.toNat_ofNat]
    unfold sectorSize
    omega
  unfold byteOffset
  dsimp only
  rw [hoff]
  refine if_congr ?_ rfl rfl
  unfold sectorSize at hc ⊢
  omega

variable {backend : MemBackend} {disk : SectorArray c}

theorem MemBackend.Holds.read (h : backend.Holds disk) (sector : U64) (n : Nat) :
    backend.read sector (sectorSize * n) =
      if sector.toNat % 2 ^ 55 + n ≤ c then some (disk.load (sector.toNat % 2 ^ 55) n)
      else none := by
  have hbound := backend.bounded
  rw [h.size] at hbound
  rw [MemBackend.read, h.size, byteOffset_sectors hbound]
  by_cases hin : sector.toNat % 2 ^ 55 + n ≤ c
  · rw [if_pos hin, if_pos hin, Option.map_some, take_drop_eq_blocks, SectorArray.load]
    congr 1
    refine List.flatMap_congr fun k hk => ?_
    rw [List.mem_range'_1] at hk
    have hkc : k < c := by omega
    rw [dif_pos hkc, ← h.sectors]
  · rw [if_neg hin, if_neg hin, Option.map_none]

variable {payload : Bytes}

/-- Bytes after the whole sectors of a payload do not matter. -/
theorem block_wholeSectors {k : Nat} (hk : k < payload.length / sectorSize) :
    block sectorSize (payload.take (wholeSectors payload.length)) k =
      block sectorSize payload k := by
  have hfits : sectorSize * k + sectorSize ≤ wholeSectors payload.length := by
    unfold wholeSectors sectorSize at *
    omega
  apply List.ext_getElem?
  intro j
  rw [getElem?_block, getElem?_block]
  by_cases hj : j < sectorSize
  · rw [if_pos hj, if_pos hj, List.getElem?_take_of_lt (by omega)]
  · rw [if_neg hj, if_neg hj]

theorem wholeSectors_eq (bytes : Nat) : wholeSectors bytes = sectorSize * (bytes / sectorSize) := by
  have := Nat.mod_add_div bytes sectorSize
  unfold wholeSectors
  omega

variable {sector : U64}

theorem MemBackend.write_some {bytes : Bytes} {off : Nat}
    (h : byteOffset backend.data.length sector bytes.length = some off) :
    ∃ backend', backend.write sector bytes = some backend' ∧
      backend'.data = overwrite backend.data off bytes := by
  unfold write
  split
  · rename_i off' h'
    rw [h] at h'
    cases h'
    exact ⟨_, rfl, rfl⟩
  · rename_i h'
    rw [h] at h'
    cases h'

theorem MemBackend.write_none {bytes : Bytes}
    (h : byteOffset backend.data.length sector bytes.length = none) :
    backend.write sector bytes = none := by
  unfold write
  split
  · rename_i off h'
    rw [h] at h'
    cases h'
  · rfl

theorem length_take_wholeSectors (payload : Bytes) :
    (payload.take (wholeSectors payload.length)).length =
      sectorSize * (payload.length / sectorSize) := by
  rw [List.length_take, ← wholeSectors_eq]
  exact Nat.min_eq_left (Nat.sub_le _ _)

theorem MemBackend.Holds.byteOffset_payload (h : backend.Holds disk) (sector : U64)
    (payload : Bytes) :
    byteOffset backend.data.length sector (payload.take (wholeSectors payload.length)).length =
      if sector.toNat % 2 ^ 55 + payload.length / sectorSize ≤ c then
        some (sectorSize * (sector.toNat % 2 ^ 55))
      else none := by
  have hbound := backend.bounded
  rw [h.size] at hbound
  rw [h.size, length_take_wholeSectors, byteOffset_sectors hbound]

/-- The whole sectors of a payload are stored from the sector with the low 55 bits on. -/
theorem MemBackend.Holds.write_some (h : backend.Holds disk)
    (hin : sector.toNat % 2 ^ 55 + payload.length / sectorSize ≤ c) :
    ∃ backend', backend.write sector (payload.take (wholeSectors payload.length)) =
        some backend' ∧ backend'.Holds (disk.store (sector.toNat % 2 ^ 55) payload) := by
  have hlen := length_take_wholeSectors payload
  have hoff := h.byteOffset_payload sector payload
  rw [if_pos hin] at hoff
  generalize hs : sector.toNat % 2 ^ 55 = s at hin hoff
  generalize hbuf : payload.take (wholeSectors payload.length) = buf at hlen hoff
  have hfits := byteOffset_fits hoff
  obtain ⟨backend', hwrite, hdata⟩ := MemBackend.write_some hoff
  refine ⟨backend', hwrite, by rw [hdata, length_overwrite hfits, h.size], fun i => ?_⟩
  rw [hdata, block_overwrite hlen hfits, SectorArray.store]
  by_cases hi : s ≤ i ∧ i - s < payload.length / sectorSize
  · rw [if_pos (by omega), dif_pos hi, ← hbuf, block_wholeSectors hi.2]
    rfl
  · rw [if_neg (by omega), dif_neg hi, h.sectors]

theorem MemBackend.Holds.write_none (h : backend.Holds disk)
    (hout : ¬ sector.toNat % 2 ^ 55 + payload.length / sectorSize ≤ c) :
    backend.write sector (payload.take (wholeSectors payload.length)) = none := by
  apply MemBackend.write_none
  rw [h.byteOffset_payload, if_neg hout]

/-- What a header stands for, with so much room for data and this payload. -/
def SectorRequest.decode (reqType : U32) (sector : U64) (room : Nat)
    (payload : Bytes) : SectorRequest :=
  if reqType = tIn then .read sector.toNat (room / sectorSize)
  else if reqType = tOut then .write sector.toNat payload
  else if reqType = tFlush then .flush
  else if reqType = tGetId then .getId room
  else .unknown

/-- A request as the device finds it. -/
structure BlkInput where
  chain : Chain
  mem : GuestMem

namespace BlkInput

/-- The request in a chain, if there is a header and room for the status. -/
def request (input : BlkInput) : Option SectorRequest :=
  let readable := input.chain.readable
  let room := sgLen input.chain.writable
  if sgLen readable < 16 ∨ room = 0 then none
  else
    let hdr := sgRead input.mem readable 0 16
    some (.decode (BitVec.ofNat 32 (ofLe (hdr.take 4))) (BitVec.ofNat 64 (ofLe (hdr.drop 8)))
      (room - 1) (sgRead input.mem readable 16 (sgLen readable - 16)))

/-- The buffers lie in DRAM and no two of them share a byte. -/
structure Placed (input : BlkInput) : Prop where
  readable : SgPlaced input.mem input.chain.readable
  writable : SgPlaced input.mem input.chain.writable
  disjoint : (sgCells input.mem.base (input.chain.readable ++ input.chain.writable)).Nodup

/-- The guest finds the status in the last writable byte and the data at the start, and
memory outside the writable buffers as it was. -/
structure Answered (input : BlkInput) (ans : SectorAnswer c) (mem : GuestMem) : Prop where
  status : sgRead mem input.chain.writable (sgLen input.chain.writable - 1) 1 = [ans.status]
  data : sgRead mem input.chain.writable 0 ans.data.length = ans.data
  others : ∀ i, i ∉ sgCells input.mem.base input.chain.writable → mem.dram i = input.mem.dram i

/-- What serving a request does before the status is written. -/
structure Served (input : BlkInput) (dev : VirtioBlk MemBackend) (ans : SectorAnswer c)
    (out : Byte × VirtioBlk MemBackend × GuestMem) : Prop where
  status : out.1 = ans.status
  holds : out.2.1.backend.Holds ans.disk
  serial : out.2.1.serial = dev.serial
  mem : out.2.2 = { input.mem with
    dram := put input.mem.dram (sgCells input.mem.base input.chain.writable) ans.data }
  room : ans.data.length ≤ sgLen input.chain.writable - 1

end BlkInput

variable {input : BlkInput} {dev : VirtioBlk MemBackend}

/-- Nothing is delivered and the disk stays as it is. -/
theorem BlkInput.Served.quiet (h : dev.backend.Holds disk) (status : Byte) :
    input.Served dev ⟨status, [], disk⟩ (status, dev, input.mem) where
  status := rfl
  holds := h
  serial := rfl
  mem := by rw [put_nil_right]
  room := Nat.zero_le _

theorem SectorArray.length_load (disk : SectorArray c) {s n : Nat} (h : s + n ≤ c) :
    (disk.load s n).length = sectorSize * n := by
  induction n generalizing s with
  | zero => rfl
  | succ n ih =>
    have hs : s < c := by omega
    have htail := ih (s := s + 1) (by omega)
    rw [load] at htail
    rw [load, List.range'_succ, List.flatMap_cons, List.length_append, htail,
      dif_pos hs, (disk ⟨s, hs⟩).2, Nat.mul_succ, Nat.add_comm]

/-- A read is in range exactly when both checks of the device pass: the sum of the sector
numbers wraps only where the byte range does not fit. -/
theorem read_in_range (hc : sectorSize * c < 2 ^ 63) (sector : U64) (n : Nat) :
    sector.toNat + n ≤ c ↔
      ¬ BitVec.ofNat 64 c < sector + BitVec.ofNat 64 n ∧ sector.toNat % 2 ^ 55 + n ≤ c := by
  unfold sectorSize at hc
  rw [BitVec.lt_def, BitVec.toNat_add, BitVec.toNat_ofNat, BitVec.toNat_ofNat]
  omega

theorem BlkInput.Placed.handleIn (hplaced : input.Placed) (h : dev.backend.Holds disk)
    (sector : U64) :
    input.Served dev
      (disk.answer dev.serial (.read sector.toNat ((sgLen input.chain.writable - 1) / sectorSize)))
      (dev.handleIn sector (sgLen input.chain.writable - 1) input.chain input.mem) := by
  have hbound := dev.backend.bounded
  rw [h.size] at hbound
  have hread := h.read sector ((sgLen input.chain.writable - 1) / sectorSize)
  have hrange := read_in_range hbound sector ((sgLen input.chain.writable - 1) / sectorSize)
  have hcap : BlockBackend.capacitySectors dev.backend = BitVec.ofNat 64 c := by
    change BitVec.ofNat 64 (dev.backend.data.length / sectorSize) = _
    rw [h.size, Nat.mul_div_cancel_left _ (by decide)]
  have hroom := Nat.mul_div_le (sgLen input.chain.writable - 1) sectorSize
  unfold VirtioBlk.handleIn SectorArray.answer
  dsimp only
  rw [wholeSectors_eq, Nat.mul_div_cancel_left _ (by decide), hcap]
  generalize (sgLen input.chain.writable - 1) / sectorSize = n at *
  by_cases hn : n = 0
  · rw [if_neg (by omega), if_pos (by rw [hn, Nat.mul_zero])]
    exact .quiet h sIoErr
  rw [if_neg (Nat.mul_ne_zero (by decide) hn)]
  by_cases hcheck : BitVec.ofNat 64 c < sector + BitVec.ofNat 64 n
  · rw [if_pos hcheck, if_neg fun hin => (hrange.mp hin.2).1 hcheck]
    exact .quiet h sIoErr
  rw [if_neg hcheck]
  change BlockBackend.read dev.backend sector (sectorSize * n) = _ at hread
  rw [hread]
  by_cases hfits : sector.toNat % 2 ^ 55 + n ≤ c
  · have hin := hrange.mpr ⟨hcheck, hfits⟩
    have hmod : sector.toNat % 2 ^ 55 = sector.toNat := by
      unfold sectorSize at hbound
      omega
    rw [if_pos hfits, if_pos ⟨by omega, hin⟩, hmod]
    exact {
      status := rfl
      holds := h
      serial := rfl
      mem := by
        rw [sgWrite_eq hplaced.writable, List.drop_zero]
      room := by
        rw [disk.length_load hin]
        exact hroom }
  · rw [if_neg hfits, if_neg fun hin => hfits (hrange.mp hin.2).2]
    exact .quiet h sIoErr

theorem length_sgRead (hplaced : SgPlaced input.mem input.chain.readable) (skip want : Nat) :
    (sgRead input.mem input.chain.readable skip want).length =
      min want (sgLen input.chain.readable - skip) := by
  rw [sgRead_eq hplaced, List.length_map, List.length_take, List.length_drop, length_sgCells]

/-- The payload of a write, as the device gathers it. -/
theorem BlkInput.Placed.gathered (hplaced : input.Placed) :
    resize (sgRead input.mem input.chain.readable 16
        (wholeSectors (sgLen input.chain.readable - 16)))
        (wholeSectors (sgLen input.chain.readable - 16)) =
      (sgRead input.mem input.chain.readable 16 (sgLen input.chain.readable - 16)).take
        (wholeSectors (sgLen input.chain.readable - 16)) := by
  have hle : wholeSectors (sgLen input.chain.readable - 16) ≤ sgLen input.chain.readable - 16 :=
    Nat.sub_le _ _
  have hlen := length_sgRead hplaced.readable 16 (wholeSectors (sgLen input.chain.readable - 16))
  rw [Nat.min_eq_left hle] at hlen
  rw [resize_of_length hlen, sgRead_eq hplaced.readable, sgRead_eq hplaced.readable,
    ← List.map_take, List.take_take, Nat.min_eq_left hle]

/-- Where the low 55 bits of the sector number decide, as they do for the byte offset. -/
def SectorRequest.Addressable (c : Nat) : SectorRequest → Prop
  | .write s payload =>
      let n := payload.length / sectorSize
      n = 0 ∨ s < 2 ^ 55 ∨ c < s % 2 ^ 55 + n
  | _ => True

namespace BlkInput

theorem Placed.handleOut (hplaced : input.Placed) (h : dev.backend.Holds disk) (sector : U64)
    (hpayload : payload = sgRead input.mem input.chain.readable 16
      (sgLen input.chain.readable - 16))
    (haddr : (SectorRequest.write sector.toNat payload).Addressable c) :
    input.Served dev (disk.answer dev.serial (.write sector.toNat payload))
      (dev.handleOut sector input.chain input.mem) := by
  have hgather := hplaced.gathered
  have hlen := length_sgRead hplaced.readable 16 (sgLen input.chain.readable - 16)
  rw [Nat.min_self, ← hpayload] at hlen
  rw [← hpayload, ← hlen] at hgather
  have hsome := @MemBackend.Holds.write_some c dev.backend disk payload sector h
  have hnone := @MemBackend.Holds.write_none c dev.backend disk payload sector h
  unfold VirtioBlk.handleOut SectorArray.answer
  dsimp only
  rw [if_neg (show ¬ BlockBackend.readOnly dev.backend = true from Bool.false_ne_true), ← hlen]
  by_cases hn : payload.length / sectorSize = 0
  · rw [if_neg (by omega), if_pos (by rw [wholeSectors_eq, hn, Nat.mul_zero])]
    exact .quiet h sIoErr
  have hwant : wholeSectors payload.length ≠ 0 := by
    rw [wholeSectors_eq]
    exact Nat.mul_ne_zero (by decide) hn
  rw [if_neg hwant, hgather]
  change _ = 0 ∨ _ < 2 ^ 55 ∨ c < _ % 2 ^ 55 + _ at haddr
  by_cases hfits : sector.toNat % 2 ^ 55 + payload.length / sectorSize ≤ c
  · obtain ⟨backend', hwrite, hholds⟩ := hsome hfits
    have hmod : sector.toNat % 2 ^ 55 = sector.toNat := by omega
    change BlockBackend.write dev.backend sector _ = _ at hwrite
    rw [hmod] at hholds hfits
    rw [hwrite, if_pos ⟨Nat.pos_of_ne_zero hn, hfits⟩]
    exact {
      status := rfl
      holds := hholds
      serial := rfl
      mem := by rw [put_nil_right]
      room := Nat.zero_le _ }
  · have hwrite := hnone hfits
    change BlockBackend.write dev.backend sector _ = _ at hwrite
    rw [hwrite, if_neg (by omega)]
    exact .quiet h sIoErr

theorem Placed.serve (hplaced : input.Placed) (h : dev.backend.Holds disk)
    (reqType : U32) (sector : U64) {req : SectorRequest}
    (hpayload : payload = sgRead input.mem input.chain.readable 16
      (sgLen input.chain.readable - 16))
    (hreq : req = .decode reqType sector (sgLen input.chain.writable - 1) payload)
    (haddr : req.Addressable c) :
    input.Served dev (disk.answer dev.serial req)
      (dev.serve reqType sector (sgLen input.chain.writable - 1) input.chain input.mem) := by
  unfold SectorRequest.decode at hreq
  unfold VirtioBlk.serve
  split at hreq
  · rename_i hin
    subst hreq
    rw [if_pos hin]
    exact hplaced.handleIn h sector
  rename_i hin
  rw [if_neg hin]
  split at hreq
  · rename_i hout
    subst hreq
    rw [if_pos hout]
    exact hplaced.handleOut h sector hpayload haddr
  rename_i hout
  rw [if_neg hout]
  split at hreq
  · rename_i hflush
    subst hreq
    rw [if_pos hflush]
    exact .quiet h sOk
  rename_i hflush
  rw [if_neg hflush]
  split at hreq
  · rename_i hid
    subst hreq
    rw [if_pos hid, ← List.take_take, List.take_length]
    exact {
      status := rfl
      holds := h
      serial := rfl
      mem := by
        rw [sgWrite_eq hplaced.writable, List.drop_zero]
        rfl
      room := by
        rw [SectorArray.answer, List.length_take]
        exact Nat.min_le_left _ _ }
  · rename_i hid
    subst hreq
    rw [if_neg hid]
    exact .quiet h sUnsupp

theorem Placed.nodup (hplaced : input.Placed) :
    (sgCells input.mem.base input.chain.writable).Nodup := by
  have h := hplaced.disjoint
  rw [sgCells, List.flatMap_append] at h
  exact h.of_append_right

/-- The status byte goes behind the data. -/
theorem Served.answered {ans : SectorAnswer c}
    {out : Byte × VirtioBlk MemBackend × GuestMem} (hserved : input.Served dev ans out)
    (hplaced : input.Placed) (hroom : sgLen input.chain.writable ≠ 0) :
    input.Answered ans
      (sgWrite out.2.2 input.chain.writable (sgLen input.chain.writable - 1) [out.1]).2 := by
  have hnodup := hplaced.nodup
  have hlen := length_sgCells input.mem.base input.chain.writable
  have hdata := hserved.room
  rw [hserved.mem, hserved.status, sgWrite_eq (hplaced.writable.withDram _)]
  generalize hcells : sgCells input.mem.base input.chain.writable = cells at hnodup hlen
  rw [← hlen] at hdata hroom ⊢
  have hlast : (cells.drop (cells.length - 1)).length = 1 := by
    rw [List.length_drop]
    omega
  refine ⟨?_, ?_, ?_⟩
  · rw [sgRead_eq (hplaced.writable.withDram _)]
    rw [hcells, ← hlen]
    have hone : [ans.status].length ≤ (cells.drop (cells.length - 1)).length :=
      Nat.le_of_eq hlast.symm
    exact map_put _ hnodup.drop hone
  · rw [sgRead_eq (hplaced.writable.withDram _)]
    rw [hcells, List.drop_zero, map_put_of_disjoint,
      map_put _ hnodup (Nat.le_trans hdata (Nat.sub_le _ _))]
    exact fun i htake hdrop => List.disjoint_take_drop hnodup hdata htake hdrop
  · intro i hi
    dsimp only
    rw [hcells] at hi
    rw [put_of_not_mem _ (fun hmem => hi (List.mem_of_mem_drop hmem)),
      put_of_not_mem _ hi]

end BlkInput

/-- The device and the array take a request.  Memory is the guest's in between. -/
def blkStep (s : VirtioBlk MemBackend × SectorArray c) (input : BlkInput) :
    VirtioBlk MemBackend × SectorArray c :=
  ((s.1.handle input.chain input.mem).2.1,
    input.request.elim s.2 fun req => (s.2.answer s.1.serial req).disk)

/-- The device answers what the array answers and holds its sectors afterwards.  A chain
without a request leaves memory alone. -/
structure BlkRefines (s : VirtioBlk MemBackend × SectorArray c) (input : BlkInput) : Prop where
  holds : (blkStep s input).1.backend.Holds (blkStep s input).2
  dropped : input.request = none → (s.1.handle input.chain input.mem).2.2 = input.mem
  answered : ∀ req, input.request = some req →
    input.Answered (s.2.answer s.1.serial req) (s.1.handle input.chain input.mem).2.2

/-- A chain without a header or without room for the status. -/
theorem VirtioBlk.handle_dropped (hplaced : input.Placed) (hnone : input.request = none) :
    dev.handle input.chain input.mem = (0, dev.noteChain input.chain, input.mem) := by
  have hhdr := length_sgRead hplaced.readable 0 16
  unfold BlkInput.request at hnone
  unfold handle
  dsimp only at hnone ⊢
  split at hnone
  · rename_i hshort
    split
    · rfl
    · rw [if_pos (by omega)]
  · cases hnone

theorem VirtioBlk.handle_request (hplaced : input.Placed) {req : SectorRequest}
    (hreq : input.request = some req) (h : dev.backend.Holds disk) (haddr : req.Addressable c) :
    (dev.handle input.chain input.mem).2.1.backend.Holds (disk.answer dev.serial req).disk ∧
      input.Answered (disk.answer dev.serial req) (dev.handle input.chain input.mem).2.2 := by
  have hhdr := length_sgRead hplaced.readable 0 16
  unfold BlkInput.request at hreq
  unfold handle
  dsimp only at hreq ⊢
  split at hreq
  · cases hreq
  rename_i hlong
  rw [not_or] at hlong
  rw [if_neg (by omega), if_neg hlong.2]
  have hnoted : (dev.noteChain input.chain).backend.Holds disk := h
  have hserved := hplaced.serve hnoted
    (BitVec.ofNat 32 (ofLe ((sgRead input.mem input.chain.readable 0 16).take 4)))
    (BitVec.ofNat 64 (ofLe ((sgRead input.mem input.chain.readable 0 16).drop 8))) rfl
    (Option.some.inj hreq).symm haddr
  exact ⟨hserved.holds, hserved.answered hplaced hlong.2⟩

theorem BlkInput.Placed.refines (hplaced : input.Placed) (h : dev.backend.Holds disk)
    (haddr : ∀ req, input.request = some req → req.Addressable c) :
    BlkRefines (dev, disk) input := by
  cases hreq : input.request with
  | none =>
    have hdropped := @VirtioBlk.handle_dropped input dev hplaced hreq
    refine ⟨?_, fun _ => ?_, fun req hsome => ?_⟩
    · rw [blkStep, hreq, hdropped]
      exact h
    · rw [hdropped]
    · rw [hreq] at hsome
      cases hsome
  | some req =>
    obtain ⟨hholds, hanswered⟩ := VirtioBlk.handle_request hplaced hreq h (haddr req hreq)
    refine ⟨?_, fun hnone => ?_, fun req' hsome => ?_⟩
    · rw [blkStep, hreq]
      exact hholds
    · rw [hreq] at hnone
      cases hnone
    rw [hreq] at hsome
    cases hsome
    exact hanswered

/-- Over every run of requests the device is the sector array, as long as no write names a
sector beyond 2^55 whose low bits are those of a sector of the disk. -/
theorem virtioBlk_refines_sectors (dev : VirtioBlk MemBackend) (disk : SectorArray c)
    (hholds : dev.backend.Holds disk) (inputs : List BlkInput)
    (hplaced : ∀ input ∈ inputs, input.Placed)
    (haddr : ∀ input ∈ inputs, ∀ req, input.request = some req → req.Addressable c) :
    Runs.Along blkStep BlkRefines (dev, disk) inputs := by
  have hinputs : Runs.Along blkStep (fun _ input => input.Placed ∧
      ∀ req, input.request = some req → req.Addressable c) (dev, disk) inputs :=
    Runs.along_of_forall (fun input hmem _ => ⟨hplaced input hmem, haddr input hmem⟩) _
  have hstep : ∀ (s : VirtioBlk MemBackend × SectorArray c) (input : BlkInput),
      s.1.backend.Holds s.2 →
      (input.Placed ∧ ∀ req, input.request = some req → req.Addressable c) →
      BlkRefines s input := fun _ _ h hinput => hinput.1.refines h hinput.2
  exact hinputs.of_invariant (fun s input h hinput => (hstep s input h hinput).holds) hstep hholds

end

/-- A disk of one sector of zeros. -/
def zeroDisk : MemBackend := ⟨List.replicate sectorSize 0, by rw [List.length_replicate]; decide⟩

def zeroSectors : SectorArray 1 := fun _ => ⟨List.replicate sectorSize 0, List.length_replicate⟩

theorem zeroDisk_holds : zeroDisk.Holds zeroSectors where
  size := by rw [zeroDisk, List.length_replicate, Nat.mul_one]
  sectors i := by
    obtain rfl : i = 0 := Subsingleton.elim _ _
    decide +kernel

/-- Header and payload of a write in one buffer, and the status byte after it. -/
def sectorChain : Chain := ⟨0, [⟨0x80000000, 528⟩], [⟨0x80000210, 1⟩]⟩

/-- A write of 512 bytes; `high` is the byte of the sector number from bit 48 on. -/
def sectorWrite (high : Byte) : BlkInput where
  chain := sectorChain
  mem := ⟨0x80000000, 4096, fun i =>
    if i = 0 then 1 else if i = 14 then high else if i < 16 then 0 else 0xAA⟩

theorem sectorWrite_placed (high : Byte) : (sectorWrite high).Placed where
  readable := by
    rintro b (_ | ⟨_, ⟨⟩⟩)
    exact ⟨show 0x80000000#64 ≤ 0x80000000#64 by decide,
      show (0x80000000#64 - 0x80000000#64).toNat + (528#32).toNat ≤ 4096 by decide, by decide⟩
  writable := by
    rintro b (_ | ⟨_, ⟨⟩⟩)
    exact ⟨show 0x80000000#64 ≤ 0x80000210#64 by decide,
      show (0x80000210#64 - 0x80000000#64).toNat + (1#32).toNat ≤ 4096 by decide, by decide⟩
  disjoint := by
    have hcells : sgCells 0x80000000 (sectorChain.readable ++ sectorChain.writable) =
        List.range' 0 529 := by decide +kernel
    change (sgCells 0x80000000 (sectorChain.readable ++ sectorChain.writable)).Nodup
    rw [hcells]
    exact List.nodup_range'

theorem sectorWrite_request :
    (sectorWrite 0).request = some (.write 0 (List.replicate sectorSize 0xAA)) := by
  decide +kernel

theorem virtioBlk_refines_sectors_write :
    BlkRefines (VirtioBlk.new zeroDisk, zeroSectors) (sectorWrite 0) := by
  refine (virtioBlk_refines_sectors (VirtioBlk.new zeroDisk) zeroSectors zeroDisk_holds
    [sectorWrite 0] (fun input hinput => ?_) (fun input hinput req hreq => ?_)).1
  · obtain rfl := List.mem_singleton.mp hinput
    exact sectorWrite_placed 0
  obtain rfl := List.mem_singleton.mp hinput
  rw [sectorWrite_request] at hreq
  cases hreq
  exact .inr (.inl (by decide))

/-- A write to sector 2^55 of a disk of one sector lands in sector 0 and reports success. -/
theorem write_beyond_disk_lands :
    (sectorWrite 0x80).Placed ∧ zeroDisk.Holds zeroSectors ∧
      (sectorWrite 0x80).request = some (.write (2 ^ 55) (List.replicate sectorSize 0xAA)) ∧
      ((VirtioBlk.new zeroDisk).handle (sectorWrite 0x80).chain
        (sectorWrite 0x80).mem).2.1.backend.data = List.replicate sectorSize 0xAA ∧
      sgRead ((VirtioBlk.new zeroDisk).handle (sectorWrite 0x80).chain
        (sectorWrite 0x80).mem).2.2 (sectorWrite 0x80).chain.writable 0 1 = [sOk] := by
  refine ⟨sectorWrite_placed 0x80, zeroDisk_holds, ?_, ?_, ?_⟩
  · decide +kernel
  · decide +kernel
  · decide +kernel

end TabLinux

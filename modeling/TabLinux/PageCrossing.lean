/-
Accesses that straddle two pages.  `executeTranslated` translates the first byte of an
access and hands the bus one physical address for all of its bytes.  That is the
bytewise access of the ISA as long as the access stays in its page, or the next page
happens to be mapped to the next frame.
-/
import TabLinux.Step
import TabLinux.PageOffset

namespace TabLinux

open ByteMemory BitVec

variable {trap : Trap}

variable {access : AccessType}

/-- The first address of the page after the one of `addr`. -/
def nextPage (addr : U64) : U64 := (addr >>> 12 + 1) <<< 12

theorem toNat_and_pageMask (addr : U64) : (addr &&& 0xFFF).toNat = addr.toNat % 4096 := by
  rw [toNat_and, show (0xFFF : U64).toNat = 2 ^ 12 - 1 from rfl,
    Nat.and_two_pow_sub_one_eq_mod]

theorem toNat_shiftRight_twelve (addr : U64) : (addr >>> 12).toNat = addr.toNat / 4096 := by
  rw [toNat_ushiftRight, Nat.shiftRight_eq_div_pow]

theorem toNat_nextPage (addr : U64) :
    (nextPage addr).toNat = (addr.toNat / 4096 + 1) * 4096 % 2 ^ 64 := by
  have hone : (1 : U64).toNat = 1 := rfl
  rw [nextPage, toNat_shiftLeft, Nat.shiftLeft_eq, toNat_add,
    toNat_shiftRight_twelve, hone]
  omega

theorem toNat_rebase (paddr vaddr : U64) :
    (rebase paddr vaddr).toNat = paddr.toNat / 4096 * 4096 + vaddr.toNat % 4096 := by
  have hdisjoint : paddr >>> 12 <<< 12 &&& (vaddr &&& 0xFFF) = 0 := by
    have hmask : (0xFFF : U64) = 0xFFF#64 := rfl
    apply eq_of_getLsbD_eq
    intro i _
    rw [hmask]
    simp only [getLsbD_and, getLsbD_shiftLeft, getLsbD_pageMask]
    by_cases hlow : i < 12 <;> simp [hlow]
  rw [rebase, ← add_eq_or_of_and_eq_zero _ _ hdisjoint, toNat_add,
    toNat_and_pageMask, toNat_shiftLeft, Nat.shiftLeft_eq, toNat_shiftRight_twelve]
  omega

theorem mod_page_eq {paddr vaddr : U64} (h : paddr &&& 0xFFF = vaddr &&& 0xFFF) :
    paddr.toNat % 4096 = vaddr.toNat % 4096 := by
  rw [← toNat_and_pageMask, ← toNat_and_pageMask, h]

section

variable {paddr vaddr : U64} {i : Nat}

theorem page_of_inside (hi : i < 4096) (hinside : vaddr.toNat % 4096 + i < 4096) :
    (vaddr + BitVec.ofNat 64 i) >>> 12 = vaddr >>> 12 := by
  apply eq_of_toNat_eq
  rw [toNat_shiftRight_twelve, toNat_shiftRight_twelve, toNat_add, toNat_ofNat]
  omega

theorem page_of_beyond (hi : i < 4096) (hbeyond : 4096 ≤ vaddr.toNat % 4096 + i) :
    (vaddr + BitVec.ofNat 64 i) >>> 12 = nextPage vaddr >>> 12 := by
  apply eq_of_toNat_eq
  rw [toNat_shiftRight_twelve, toNat_shiftRight_twelve, toNat_add, toNat_ofNat,
    toNat_nextPage]
  omega

variable (hoffset : paddr.toNat % 4096 = vaddr.toNat % 4096)
include hoffset

theorem rebase_of_inside (hi : i < 4096) (hinside : vaddr.toNat % 4096 + i < 4096) :
    rebase paddr (vaddr + BitVec.ofNat 64 i) = paddr + BitVec.ofNat 64 i := by
  apply eq_of_toNat_eq
  rw [toNat_rebase, toNat_add, toNat_add, toNat_ofNat]
  omega

theorem rebase_of_beyond (hi : i < 4096) (hbeyond : 4096 ≤ vaddr.toNat % 4096 + i) :
    rebase (nextPage paddr) (vaddr + BitVec.ofNat 64 i) = paddr + BitVec.ofNat 64 i := by
  apply eq_of_toNat_eq
  rw [toNat_rebase, toNat_nextPage, toNat_add, toNat_add, toNat_ofNat]
  omega

/-- The first byte beyond the page. -/
theorem add_to_nextPage (hi : vaddr.toNat % 4096 + i = 4096) :
    paddr + BitVec.ofNat 64 i = nextPage paddr := by
  apply eq_of_toNat_eq
  rw [toNat_nextPage, toNat_add, toNat_ofNat]
  omega

end

/-- The access that a memory instruction asks for. -/
structure MemAccess where
  kind : AccessType
  vaddr : U64
  width : Width
deriving DecidableEq, Repr

def Supervisor.memAccess? (s : Supervisor) : Instr → Option MemAccess
  | .load op _ rs1 imm => some ⟨.load, s.cpu.address rs1 imm, op.width⟩
  | .store w rs1 _ imm => some ⟨.store, s.cpu.address rs1 imm, w⟩
  | .fload fw _ rs1 imm => some ⟨.load, s.cpu.address rs1 imm, fw.width⟩
  | .fstore fw rs1 _ imm => some ⟨.store, s.cpu.address rs1 imm, fw.width⟩
  | .amo _ aw _ rs1 _ _ _ => some ⟨.store, s.cpu.readReg rs1, aw.width⟩
  | _ => none

/-- Byte `i` of the value is the memory byte at `paddr + i`. -/
def HoldsBytes (mem : Ram) (paddr : U64) (width : Width) (val : width.Value) : Prop :=
  ∀ i < width.bytes, byteOf val i = mem (paddr + BitVec.ofNat 64 i)

/-- The instruction reads its value from, and writes it to, the bytes from `paddr`
on. -/
def Supervisor.MovesBytes (s : Supervisor) (before : Ram) (paddr : U64)
    (s' : Supervisor) (after : Ram) : Instr → Prop
  | .load op rd _ _ => ∃ val : op.width.Value, HoldsBytes before paddr op.width val ∧
      s'.cpu.x = (s.cpu.writeReg rd (op.extend val)).x ∧ after = before
  | .fload fw rd _ _ => ∃ val : fw.width.Value, HoldsBytes before paddr fw.width val ∧
      s'.cpu.f = (s.cpu.writeFreg rd (fw.boxed val)).f ∧ after = before
  | .store w _ rs2 _ => HoldsBytes after paddr w ((s.cpu.readReg rs2).setWidth (8 * w.bytes))
  | .fstore fw _ rs2 _ => HoldsBytes after paddr fw.width
      ((s.cpu.f rs2).setWidth (8 * fw.width.bytes))
  | .amo op aw rd _ rs2 _ _ => ∃ old : aw.width.Value, HoldsBytes before paddr aw.width old ∧
      s'.cpu.x = (s.cpu.writeReg rd (aw.extend old)).x ∧
      HoldsBytes after paddr aw.width
        (op.eval old ((s.cpu.readReg rs2).setWidth (8 * aw.width.bytes)))
  | _ => False

theorem holdsBytes_load (mem : Ram) (paddr : U64) (width : Width) :
    HoldsBytes mem paddr width (Bus.read width mem paddr).1 :=
  fun _ hi => byteOf_load mem paddr hi

theorem holdsBytes_store (mem : Ram) (paddr : U64) (width : Width) (val : width.Value) :
    HoldsBytes (Bus.write width mem paddr val : Ram) paddr width val := by
  intro i hi
  have hwidth : width.bytes ≤ 8 := by cases width <;> decide
  have hoff : (paddr + BitVec.ofNat 64 i - paddr).toNat = i := by
    rw [BitVec.add_comm, BitVec.add_sub_cancel, BitVec.toNat_ofNat]
    omega
  change byteOf val i = mem.store paddr val (paddr + BitVec.ofNat 64 i)
  rw [store_apply, hoff, if_pos hi]

section

variable {s s' : Supervisor} {mem mem' : Ram} {instr : Instr} {a : MemAccess}

/-- Where the first byte translates, all bytes are moved at its address. -/
theorem Supervisor.executeTranslated_ok {paddr : U64} (width : U64)
    (ha : s.memAccess? instr = some a)
    (htranslate : s.translate mem a.kind a.vaddr = (.ok paddr, s', mem')) :
    (s.executeTranslated instr width mem).1 = .running ∧
      s.MovesBytes mem' paddr (s.executeTranslated instr width mem).2.1
        (s.executeTranslated instr width mem).2.2 instr := by
  have hcpu : s'.cpu = s.cpu := by
    have hstate := s.translate_state mem a.kind a.vaddr
    rw [htranslate] at hstate
    dsimp only at hstate
    rw [hstate]
  cases instr <;> cases ha <;>
    simp only [executeTranslated, LoadOp.translated_eq, Width.translated_eq, FWidth.translated_eq,
      FWidth.translatedStore_eq, AmoOp.translated_eq, withPaddr, htranslate, MovesBytes, hcpu,
      true_and]
  · exact ⟨_, holdsBytes_load mem' paddr _, rfl, rfl⟩
  · exact holdsBytes_store mem' paddr _ _
  · exact ⟨_, holdsBytes_load mem' paddr _, rfl, rfl⟩
  · exact holdsBytes_store mem' paddr _ _
  · exact ⟨_, holdsBytes_load mem' paddr _, rfl, holdsBytes_store mem' paddr _ _⟩

theorem Supervisor.executeTranslated_error (width : U64) (ha : s.memAccess? instr = some a)
    (htranslate : s.translate mem a.kind a.vaddr = (.error trap, s', mem')) :
    s.executeTranslated instr width mem =
      ((s'.takeTrapWithVaddr trap (some a.vaddr)).1,
        (s'.takeTrapWithVaddr trap (some a.vaddr)).2, mem') := by
  cases instr <;> cases ha <;> simp only [executeTranslated, withPaddr, htranslate]

end

theorem Mmu.translate_error_ram {mmu : Mmu} {mem : Ram} {satp : Satp} {privLevel : Privilege}
    {sum mxr : Bool} {vaddr : U64}
    (herror : (mmu.translate mem satp privLevel sum mxr access vaddr).1 = .error trap) :
    (mmu.translate mem satp privLevel sum mxr access vaddr).2.2 = mem := by
  have hwalk : (mmu.translateWalk mem satp privLevel sum mxr access vaddr).1 = .error trap →
      (mmu.translateWalk mem satp privLevel sum mxr access vaddr).2.2 = mem := by
    unfold translateWalk
    rw [walkSv39_ram]
    cases mappedLeaf? mem satp vaddr with
    | none =>
      intro _
      dsimp only [Option.map_none]
      split <;> rfl
    | some leaf =>
      dsimp only [Option.map_some]
      cases applyPteFlags (leaf.walked vaddr).flags access privLevel sum mxr with
      | error trap => exact fun _ => rfl
      | ok => exact fun h => by cases h
  revert herror
  unfold translate
  split
  · exact fun _ => rfl
  split
  · exact fun _ => rfl
  split
  · exact fun _ => rfl
  split
  · split
    · exact fun _ => rfl
    · exact hwalk
  · exact hwalk

namespace Supervisor

theorem translate_error_ram {s : Supervisor} {mem : Ram}
    {vaddr : U64} (herror : (s.translate mem access vaddr).1 = .error trap) :
    (s.translate mem access vaddr).2.2 = mem := by
  have hmmu : ∀ privLevel, (s.mmuTranslate mem privLevel access vaddr).1 = .error trap →
      (s.mmuTranslate mem privLevel access vaddr).2.2 = mem :=
    fun privLevel h => Mmu.translate_error_ram h
  revert herror
  unfold translate
  split
  · split
    · exact fun h => by cases h
    split
    · exact fun h => by cases h
    split
    · exact fun h => by cases h
    · exact hmmu _
  · exact hmmu _

theorem takeTrapWithVaddr_regs (s : Supervisor) (trap : Trap) (faultVaddr : Option U64) :
    (s.takeTrapWithVaddr trap faultVaddr).1 ≠ .running ∧
      (s.takeTrapWithVaddr trap faultVaddr).2.cpu.x = s.cpu.x ∧
      (s.takeTrapWithVaddr trap faultVaddr).2.cpu.f = s.cpu.f := by
  unfold takeTrapWithVaddr
  split <;> exact ⟨by simp, rfl, rfl⟩

/-- An access in which every byte is moved at its own translation, and in which a fault
of any byte is a trap without effect. -/
structure BytewiseAccess (s : Supervisor) (mem : Ram) (instr : Instr)
    (width : U64) (a : MemAccess) : Prop where
  served : (s.executeTranslated instr width mem).1 = .running →
    ∃ paddr, s.MovesBytes (s.translate mem a.kind a.vaddr).2.2 paddr
        (s.executeTranslated instr width mem).2.1
        (s.executeTranslated instr width mem).2.2 instr ∧
      ∀ i < a.width.bytes, (s.translate mem a.kind (a.vaddr + BitVec.ofNat 64 i)).1 =
        .ok (paddr + BitVec.ofNat 64 i)
  faulted : (∃ i < a.width.bytes, ∃ trap,
      (s.translate mem a.kind (a.vaddr + BitVec.ofNat 64 i)).1 = .error trap) →
    (s.executeTranslated instr width mem).1 ≠ .running ∧
      (s.executeTranslated instr width mem).2.1.cpu.x = s.cpu.x ∧
      (s.executeTranslated instr width mem).2.1.cpu.f = s.cpu.f ∧
      (s.executeTranslated instr width mem).2.2 = mem

/-- If the access runs over the end of its page, the next page is mapped to the next
frame. -/
def FramesContiguous (s : Supervisor) (mem : Ram) (a : MemAccess) : Prop :=
  ∀ paddr, (s.translate mem a.kind a.vaddr).1 = .ok paddr →
    4096 < a.vaddr.toNat % 4096 + a.width.bytes →
      (s.translate mem a.kind (nextPage a.vaddr)).1 = .ok (nextPage paddr)

end Supervisor

/-- With contiguous frames every byte of a translating access translates to its place
behind the first. -/
theorem Supervisor.FramesContiguous.translate_byte {s : Supervisor} {mem : Ram}
    {a : MemAccess} (h : s.FramesContiguous mem a) {paddr : U64}
    (hpaddr : (s.translate mem a.kind a.vaddr).1 = .ok paddr) {i : Nat} (hi : i < a.width.bytes) :
    (s.translate mem a.kind (a.vaddr + BitVec.ofNat 64 i)).1 = .ok (paddr + BitVec.ofNat 64 i) := by
  have hwidth := a.width.bytes_le
  have hoffset := mod_page_eq (Supervisor.translate_offset hpaddr)
  rcases Nat.lt_or_ge (a.vaddr.toNat % 4096 + i) 4096 with hinside | hbeyond
  · rw [s.translate_page mem a.kind (page_of_inside (by omega) hinside), hpaddr]
    exact congrArg Except.ok (rebase_of_inside hoffset (by omega) hinside)
  · rw [s.translate_page mem a.kind (page_of_beyond (by omega) hbeyond), h paddr hpaddr (by omega)]
    exact congrArg Except.ok (rebase_of_beyond hoffset (by omega) hbeyond)

/-- The emulator's access is the bytewise one exactly when it stays in its page or finds
contiguous frames. -/
theorem Supervisor.bytewiseAccess_iff (s : Supervisor) (mem : Ram) (instr : Instr)
    (width : U64) (a : MemAccess) (ha : s.memAccess? instr = some a) :
    s.BytewiseAccess mem instr width a ↔ s.FramesContiguous mem a := by
  constructor
  · intro hbytes paddr hpaddr hcross
    rcases htranslate : s.translate mem a.kind a.vaddr with ⟨res, s', mem'⟩
    rw [htranslate] at hpaddr
    cases hpaddr
    obtain ⟨first, -, hall⟩ := hbytes.served (Supervisor.executeTranslated_ok width ha htranslate).1
    have hfirst := hall 0 (by omega)
    rw [BitVec.add_zero, BitVec.add_zero, htranslate] at hfirst
    cases hfirst
    have hoffset := mod_page_eq (Supervisor.translate_offset (congrArg Prod.fst htranslate))
    -- the byte at which the access enters the next page
    obtain ⟨i, hi⟩ : ∃ i, a.vaddr.toNat % 4096 + i = 4096 := ⟨4096 - a.vaddr.toNat % 4096, by omega⟩
    have hbyte := hall i (by omega)
    rw [add_to_nextPage rfl hi, add_to_nextPage hoffset hi] at hbyte
    exact hbyte
  · intro hcontiguous
    rcases htranslate : s.translate mem a.kind a.vaddr with ⟨trap | paddr, s', mem'⟩
    · have herror : (s.translate mem a.kind a.vaddr).1 = .error trap := congrArg Prod.fst htranslate
      have hmem : mem' = mem := by
        have hram := Supervisor.translate_error_ram herror
        rw [htranslate] at hram
        exact hram
      have hcpu : s'.cpu = s.cpu := by
        have hstate := s.translate_state mem a.kind a.vaddr
        rw [htranslate] at hstate
        dsimp only at hstate
        rw [hstate]
      obtain ⟨hstatus, hx, hf⟩ := s'.takeTrapWithVaddr_regs trap (some a.vaddr)
      rw [hcpu] at hx hf
      have hout := Supervisor.executeTranslated_error width ha htranslate
      constructor
      · intro hrunning
        rw [hout] at hrunning
        exact absurd hrunning hstatus
      · intro _
        rw [hout]
        exact ⟨hstatus, hx, hf, hmem⟩
    · have hpaddr : (s.translate mem a.kind a.vaddr).1 = .ok paddr := congrArg Prod.fst htranslate
      constructor
      · intro _
        refine ⟨paddr, ?_, fun i hi => hcontiguous.translate_byte hpaddr hi⟩
        rw [htranslate]
        exact (Supervisor.executeTranslated_ok width ha htranslate).2
      · rintro ⟨i, hi, trap, herror⟩
        rw [hcontiguous.translate_byte hpaddr hi] at herror
        cases herror

/-- Three levels of tables at 0x1000, 0x2000 and 0x3000 that map the first page to the
frame at 0x5000 and the second to the frame at 0x7000, whose first byte is 0xAA. -/
def splitTables : Ram := fun addr =>
  if addr = 0x1000 then 0x01 else if addr = 0x1001 then 0x08
  else if addr = 0x2000 then 0x01 else if addr = 0x2001 then 0x0C
  else if addr = 0x3000 then 0xC7 else if addr = 0x3001 then 0x14
  else if addr = 0x3008 then 0xC7 else if addr = 0x3009 then 0x1C
  else if addr = 0x7000 then 0xAA else 0

def splitState : Supervisor :=
  { Supervisor.new 0 0 with privLevel := .supervisor, satp := ⟨8, 0, 1⟩ }

/-- `ld x1, 0xFFC(x0)`: four bytes in either page. -/
def splitLoad : Instr := .load .ld 1 0 0xFFC

theorem splitLoad_bytewise_iff :
    splitState.memAccess? splitLoad = some ⟨.load, 0xFFC, .u64⟩ ∧
      (splitState.BytewiseAccess splitTables splitLoad 4 ⟨.load, 0xFFC, .u64⟩ ↔
        splitState.FramesContiguous splitTables ⟨.load, 0xFFC, .u64⟩) :=
  have ha : splitState.memAccess? splitLoad = some ⟨.load, 0xFFC, .u64⟩ := by decide
  ⟨ha, splitState.bytewiseAccess_iff splitTables splitLoad 4 _ ha⟩

/-- The fifth byte of the load comes from the frame behind the first page's, not from
the frame of the second page. -/
theorem splitLoad_reads_wrong_frame :
    ((splitState.executeTranslated splitLoad 4 splitTables).1 = .running ∧
      byteOf ((splitState.executeTranslated splitLoad 4 splitTables).2.1.cpu.x 1) 4 = 0 ∧
      (splitState.translate splitTables .load (0xFFC + 4)).1 = .ok 0x7000 ∧
      splitTables 0x7000 = 0xAA) ∧
    ¬ splitState.BytewiseAccess splitTables splitLoad 4 ⟨.load, 0xFFC, .u64⟩ := by
  refine ⟨by decide +kernel, ?_⟩
  intro hbytes
  obtain ⟨paddr, -, hall⟩ := hbytes.served (by decide +kernel)
  have hfirst := hall 0 (by decide)
  have hfifth := hall 4 (by decide)
  have hpaddr : (splitState.translate splitTables .load (0xFFC + BitVec.ofNat 64 0)).1 =
      .ok 0x5FFC := by decide +kernel
  have hnext : (splitState.translate splitTables .load (0xFFC + BitVec.ofNat 64 4)).1 =
      .ok 0x7000 := by decide +kernel
  rw [hpaddr] at hfirst
  rw [hnext] at hfifth
  have hbase : paddr = 0x5FFC := by simpa using (Except.ok.inj hfirst).symm
  subst hbase
  revert hfifth
  decide

end TabLinux

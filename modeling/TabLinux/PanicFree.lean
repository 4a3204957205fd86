/-
The base interpreter under overflow-checked semantics.  Every operation of the
source that can stop the program is checked here as the language checks it:
products in 128 bits, shift amounts, quotients, and register indices, which the
source keeps in bytes.
-/
import TabLinux.Execute
import TabLinux.Formats
import TabLinux.Library.Checked

namespace TabLinux

open Checked

/-- A register index as the source holds it. -/
def Reg.byte (r : Reg) : BitVec 8 := r.setWidth 8

section

variable (cpu : Cpu) (i : BitVec 8)

/-- `x[i as usize] = val`, which fails on an index past the array. -/
def Cpu.writeRegChecked (val : U64) : Except Fault Cpu :=
  if i = 0 then .ok cpu
  else if i.toNat < 32 then
    .ok { cpu with x := Function.update cpu.x (i.setWidth 5) val }
  else .error .index

/-- `x[i as usize & 31]`. -/
def Cpu.readRegMasked : U64 :=
  cpu.x ((i &&& 31).setWidth 5)

/-- `f[i as usize]`. -/
def Cpu.readFregChecked : Except Fault U64 :=
  if i.toNat < 32 then .ok (cpu.f (i.setWidth 5)) else .error .index

/-- `f[i as usize] = val`. -/
def Cpu.writeFregChecked (val : U64) : Except Fault Cpu :=
  if i.toNat < 32 then .ok (cpu.writeFreg (i.setWidth 5) val) else .error .index

end

def ShiftOp.evalChecked (op : ShiftOp) (a : U64) (shamt : BitVec 8) :
    Except Fault U64 :=
  match op with
  | .slli => shl a shamt.toNat
  | .srli => shr a shamt.toNat
  | .srai => sar a shamt.toNat

def ShiftWOp.evalChecked (op : ShiftWOp) (a : U64) (shamt : BitVec 8) :
    Except Fault U64 :=
  match op with
  | .slliw => wordResult <$> shl (a.setWidth 32) shamt.toNat
  | .srliw => wordResult <$> shr (a.setWidth 32) shamt.toNat
  | .sraiw => wordResult <$> sar (a.setWidth 32) shamt.toNat

/-- The `wrapping_` operations, comparisons and bit operations never fail. -/
def RegOp.evalChecked (op : RegOp) (a b : U64) : Except Fault U64 :=
  match op with
  | .add | .sub | .slt | .sltu | .xor | .or | .and | .addw | .subw | .mul | .mulw =>
      .ok (op.eval a b)
  | .sll => shl a (b &&& 0x3F).toNat
  | .srl => shr a (b &&& 0x3F).toNat
  | .sra => sar a (b &&& 0x3F).toNat
  | .sllw => wordResult <$> shl (a.setWidth 32) (b &&& 0x1F).toNat
  | .srlw => wordResult <$> shr (a.setWidth 32) (b &&& 0x1F).toNat
  | .sraw => wordResult <$> sar (a.setWidth 32) (b &&& 0x1F).toNat
  | .mulh => highHalf <$> mulS (a.signExtend 128) (b.signExtend 128)
  -- `a as u128 * b`: the sign-extended operand is multiplied as unsigned.
  | .mulhsu => highHalf <$> mulU (a.signExtend 128) (b.zeroExtend 128)
  | .mulhu => highHalf <$> mulU (a.zeroExtend 128) (b.zeroExtend 128)
  | .div =>
      if b = 0 then .ok (BitVec.allOnes 64)
      else if a = BitVec.intMin 64 ∧ b = BitVec.allOnes 64 then .ok a
      else divS a b
  | .divu => if b = 0 then .ok (BitVec.allOnes 64) else divU a b
  | .rem =>
      if b = 0 then .ok a
      else if a = BitVec.intMin 64 ∧ b = BitVec.allOnes 64 then .ok 0
      else remS a b
  | .remu => if b = 0 then .ok a else remU a b
  | .divw =>
      let a := a.setWidth 32
      let b := b.setWidth 32
      if b = 0 then .ok (BitVec.allOnes 64)
      else if a = BitVec.intMin 32 ∧ b = BitVec.allOnes 32 then .ok (wordResult a)
      else wordResult <$> divS a b
  | .divuw =>
      let a := a.setWidth 32
      let b := b.setWidth 32
      if b = 0 then .ok (BitVec.allOnes 64) else wordResult <$> divU a b
  | .remw =>
      let a := a.setWidth 32
      let b := b.setWidth 32
      if b = 0 then .ok (wordResult a)
      else if a = BitVec.intMin 32 ∧ b = BitVec.allOnes 32 then .ok 0
      else wordResult <$> remS a b
  | .remuw =>
      let a := a.setWidth 32
      let b := b.setWidth 32
      if b = 0 then .ok (wordResult a) else wordResult <$> remU a b

section Bytes

variable (r : Reg)

theorem Reg.byte_toNat_lt : r.byte.toNat < 32 := by
  rw [byte, BitVec.toNat_setWidth_of_le (by decide)]
  exact r.isLt

theorem Reg.byte_setWidth : r.byte.setWidth 5 = r := by
  revert r
  decide

theorem Reg.byte_masked : (r.byte &&& 31).setWidth 5 = r := by
  revert r
  decide

theorem Reg.byte_eq_zero_iff : r.byte = 0 ↔ r = 0 := by
  revert r
  decide

end Bytes

section Access

variable (cpu : Cpu) (r : Reg) (val : U64)

@[simp] theorem Cpu.writeRegChecked_byte :
    cpu.writeRegChecked r.byte val = .ok (cpu.writeReg r val) := by
  unfold writeRegChecked writeReg
  by_cases hr : r = 0
  · rw [if_pos (r.byte_eq_zero_iff.mpr hr), if_pos hr]
  · rw [if_neg (fun h => hr (r.byte_eq_zero_iff.mp h)), if_neg hr, if_pos r.byte_toNat_lt,
      r.byte_setWidth]

@[simp] theorem Cpu.readRegMasked_byte : cpu.readRegMasked r.byte = cpu.readReg r := by
  rw [readRegMasked, r.byte_masked, readReg]

@[simp] theorem Cpu.readFregChecked_byte : cpu.readFregChecked r.byte = .ok (cpu.f r) := by
  rw [readFregChecked, if_pos r.byte_toNat_lt, r.byte_setWidth]

@[simp] theorem Cpu.writeFregChecked_byte :
    cpu.writeFregChecked r.byte val = .ok (cpu.writeFreg r val) := by
  rw [writeFregChecked, if_pos r.byte_toNat_lt, r.byte_setWidth]

end Access

theorem ShiftOp.evalChecked_eq (op : ShiftOp) (a : U64) (shamt : BitVec 6) :
    op.evalChecked a (shamt.setWidth 8) = .ok (op.eval a shamt) := by
  have hshamt : (shamt.setWidth 8).toNat = shamt.toNat := BitVec.toNat_setWidth_of_le (by decide)
  have hlt : shamt.toNat < 64 := shamt.isLt
  cases op <;> simp [evalChecked, eval, hshamt, shl_eq_ok hlt, shr_eq_ok hlt, sar_eq_ok hlt]

theorem ShiftWOp.evalChecked_eq (op : ShiftWOp) (a : U64) (shamt : BitVec 5) :
    op.evalChecked a (shamt.setWidth 8) = .ok (op.eval a shamt) := by
  have hshamt : (shamt.setWidth 8).toNat = shamt.toNat := BitVec.toNat_setWidth_of_le (by decide)
  have hlt : shamt.toNat < 32 := shamt.isLt
  cases op <;> simp [evalChecked, eval, hshamt, shl_eq_ok hlt, shr_eq_ok hlt, sar_eq_ok hlt]

/-- The product of two signed words fits in twice the width. -/
theorem mulS_signExtend (a b : U64) :
    mulS (a.signExtend 128) (b.signExtend 128) = .ok (a.signExtend 128 * b.signExtend 128) := by
  have habs (x : U64) : (x.signExtend 128).toInt.natAbs ≤ 2 ^ 63 := by
    have hlo := BitVec.le_toInt x
    have hhi := x.toInt_lt
    rw [BitVec.toInt_signExtend_of_le (by decide)]
    omega
  have hproduct := Nat.mul_le_mul (habs a) (habs b)
  rw [← Int.natAbs_mul] at hproduct
  apply mulS_eq_ok <;> omega

/-- The sign-extended operand, as unsigned, overflows against anything but zero and one. -/
theorem mulU_signExtend (a b : U64) :
    (a.signExtend 128).toNat * (b.zeroExtend 128).toNat < 2 ^ 128 ↔ ¬(a.msb ∧ 2 ≤ b.toNat) := by
  have hb : (b.zeroExtend 128).toNat = b.toNat := BitVec.toNat_setWidth_of_le (by decide)
  have hsign : (a.signExtend 128).toNat = a.toNat + if a.msb then 2 ^ 128 - 2 ^ 64 else 0 := by
    rw [BitVec.toNat_signExtend, BitVec.toNat_setWidth_of_le (by decide)]
  rw [hb, hsign]
  cases hmsb : a.msb with
  | false =>
    have hfits := Nat.mul_lt_mul'' a.isLt b.isLt
    simpa using hfits
  | true =>
    simp only [if_true, true_and, Nat.not_le]
    constructor
    · intro hfits
      by_contra htwo
      have := Nat.mul_le_mul_left (a.toNat + (2 ^ 128 - 2 ^ 64)) (Nat.not_lt.mp htwo)
      omega
    · intro htwo
      have := Nat.mul_le_mul_left (a.toNat + (2 ^ 128 - 2 ^ 64)) (Nat.le_of_lt_succ htwo)
      omega

theorem RegOp.evalChecked_eq {op : RegOp} {a b : U64}
    (h : op = .mulhsu → ¬(a.msb ∧ 2 ≤ b.toNat)) : op.evalChecked a b = .ok (op.eval a b) := by
  have h6 : (b &&& 0x3F).toNat < 64 := by
    rw [BitVec.toNat_and]
    exact Nat.lt_of_le_of_lt Nat.and_le_right (by decide)
  have h5 : (b &&& 0x1F).toNat < 32 := by
    rw [BitVec.toNat_and]
    exact Nat.lt_of_le_of_lt Nat.and_le_right (by decide)
  cases op
  all_goals unfold evalChecked
  all_goals try rfl
  case sll => exact shl_eq_ok h6
  case srl => exact shr_eq_ok h6
  case sra => exact sar_eq_ok h6
  case sllw => rw [shl_eq_ok h5]; rfl
  case srlw => rw [shr_eq_ok h5]; rfl
  case sraw => rw [sar_eq_ok h5]; rfl
  case mulh => rw [mulS_signExtend]; rfl
  case mulhsu => rw [mulU_eq_ok ((mulU_signExtend a b).mpr (h rfl))]; rfl
  case mulhu => rw [mulU_zeroExtend (w := 64)]; rfl
  case div =>
    simp only [eval]
    split_ifs with h0 hq
    · rfl
    · rfl
    · exact divS_eq_ok h0 hq
  case divu =>
    simp only [eval]
    split_ifs with h0
    · rfl
    · exact divU_eq_ok h0
  case rem =>
    simp only [eval]
    split_ifs with h0 hq
    · rfl
    · rfl
    · exact remS_eq_ok h0 hq
  case remu =>
    simp only [eval]
    split_ifs with h0
    · rfl
    · exact remU_eq_ok h0
  case divw =>
    simp only [eval]
    split_ifs with h0 hq
    · rfl
    · rfl
    · rw [divS_eq_ok h0 hq]; rfl
  case divuw =>
    simp only [eval]
    split_ifs with h0
    · rfl
    · rw [divU_eq_ok h0]; rfl
  case remw =>
    simp only [eval]
    split_ifs with h0 hq
    · rfl
    · rfl
    · rw [remS_eq_ok h0 hq]; rfl
  case remuw =>
    simp only [eval]
    split_ifs with h0
    · rfl
    · rw [remU_eq_ok h0]; rfl

section Interpreter

variable [FloatOps] {β : Type} [Bus β]

/-- Write `rd` and step past the instruction. -/
def Cpu.finishChecked (cpu : Cpu) (rd : Reg) (val width : U64) (bus : β) :
    Except Fault (Status × Cpu × β) := do
  let next ← cpu.writeRegChecked rd.byte val
  return (.running, next.advance width, bus)

/-- Execute one instruction of `width` bytes, with every check the language makes.
The float unit is not part of it. -/
def executeChecked (cpu : Cpu) (instr : Instr) (width : U64) (bus : β) :
    Except Fault (Status × Cpu × β) :=
  let read (r : Reg) := cpu.readRegMasked r.byte
  match instr with
  | .lui rd imm => cpu.finishChecked rd imm width bus
  | .auipc rd imm => cpu.finishChecked rd (cpu.pc + imm) width bus
  | .jal rd imm => do
      let next ← cpu.writeRegChecked rd.byte (cpu.pc + width)
      return (.running, { next with pc := cpu.pc + imm }, bus)
  | .jalr rd rs1 imm => do
      let target := (read rs1 + imm) &&& ~~~ 1#64
      let next ← cpu.writeRegChecked rd.byte (cpu.pc + width)
      return (.running, { next with pc := target }, bus)
  | .branch op rs1 rs2 imm =>
      let step := if op.taken (read rs1) (read rs2) then imm else width
      .ok (.running, cpu.advance step, bus)
  | .load op rd rs1 imm =>
      let (val, bus) := Bus.read op.width bus (read rs1 + imm)
      cpu.finishChecked rd (op.extend val) width bus
  | .store w rs1 rs2 imm =>
      let bus := Bus.write w bus (read rs1 + imm) ((read rs2).setWidth (8 * w.bytes))
      .ok (.running, cpu.advance width, bus)
  | .fload fw rd rs1 imm => do
      let (val, bus) := Bus.read fw.width bus (read rs1 + imm)
      let next ← cpu.writeFregChecked rd.byte (fw.boxed val)
      return (.running, { next with fsDirty := true }.advance width, bus)
  | .fstore fw rs1 rs2 imm => do
      let val ← cpu.readFregChecked rs2.byte
      let bus := Bus.write fw.width bus (read rs1 + imm) (val.setWidth (8 * fw.width.bytes))
      return (.running, cpu.advance width, bus)
  | .opImm op rd rs1 imm => cpu.finishChecked rd (op.eval (read rs1) imm) width bus
  | .shiftImm op rd rs1 shamt => do
      let val ← op.evalChecked (read rs1) (shamt.setWidth 8)
      cpu.finishChecked rd val width bus
  | .shiftImmW op rd rs1 shamt => do
      let val ← op.evalChecked (read rs1) (shamt.setWidth 8)
      cpu.finishChecked rd val width bus
  | .op op rd rs1 rs2 => do
      let val ← op.evalChecked (read rs1) (read rs2)
      cpu.finishChecked rd val width bus
  | .lr aw rd rs1 _ _ =>
      let (val, bus) := Bus.read aw.width bus (read rs1)
      cpu.finishChecked rd (aw.extend val) width bus
  | .sc aw rd rs1 rs2 _ _ =>
      let bus := Bus.write aw.width bus (read rs1) ((read rs2).setWidth (8 * aw.width.bytes))
      cpu.finishChecked rd 0 width bus
  | .amo op aw rd rs1 rs2 _ _ =>
      let (old, bus) := Bus.read aw.width bus (read rs1)
      let bus := Bus.write aw.width bus (read rs1)
        (op.eval old ((read rs2).setWidth (8 * aw.width.bytes)))
      cpu.finishChecked rd (aw.extend old) width bus
  | .fp _ => .ok (executeWidth cpu instr width bus)
  | .ecall => .ok (.trap (.exception .environmentCallFromM), cpu, bus)
  | .ebreak => .ok (.trap (.exception .breakpoint), cpu, bus)
  | .fence _ _ | .fenceI | .sfenceVma _ _ => .ok (.running, cpu.advance width, bus)
  | .wfi => .ok (.wfi, cpu, bus)
  | .unimp | .mret | .sret | .uret | .csrReg _ _ _ _ | .csrImm _ _ _ _ =>
      .ok (.trap (.exception .illegalInstruction), cpu, bus)

omit [FloatOps] [Bus β] in
@[simp] theorem Cpu.finishChecked_eq (cpu : Cpu) (r : Reg) (val width : U64) (bus : β) :
    cpu.finishChecked r val width bus =
      .ok (.running, (cpu.writeReg r val).advance width, bus) := by
  rw [finishChecked, writeRegChecked_byte]
  rfl

/-- A negative `rs1` and an `rs2` above one under `mulhsu`. -/
def MulhsuOverflows (cpu : Cpu) : Instr → Prop
  | .op .mulhsu _ rs1 rs2 => (cpu.readReg rs1).msb ∧ 2 ≤ (cpu.readReg rs2).toNat
  | _ => False

/-- Away from that product the checked interpreter is the interpreter. -/
theorem executeChecked_eq {cpu : Cpu} {instr : Instr} (h : ¬MulhsuOverflows cpu instr)
    (width : U64) (bus : β) :
    executeChecked cpu instr width bus = .ok (executeWidth cpu instr width bus) := by
  unfold executeChecked
  simp only [Cpu.readRegMasked_byte, Cpu.writeRegChecked_byte, Cpu.readFregChecked_byte,
    Cpu.writeFregChecked_byte, Cpu.finishChecked_eq, ShiftOp.evalChecked_eq,
    ShiftWOp.evalChecked_eq]
  cases instr
  case op op rd rs1 rs2 =>
    have hval : op.evalChecked (cpu.readReg rs1) (cpu.readReg rs2) =
        .ok (op.eval (cpu.readReg rs1) (cpu.readReg rs2)) := by
      apply RegOp.evalChecked_eq
      rintro rfl
      exact h
    simp only [hval]
    rfl
  all_goals rfl

theorem executeChecked_of_overflows {cpu : Cpu} {instr : Instr}
    (h : MulhsuOverflows cpu instr) (width : U64) (bus : β) :
    executeChecked cpu instr width bus = .error .overflow := by
  unfold MulhsuOverflows at h
  split at h
  · rename_i rd rs1 rs2
    have hval : RegOp.mulhsu.evalChecked (cpu.readReg rs1) (cpu.readReg rs2) =
        .error .overflow := by
      rw [RegOp.evalChecked, mulU_eq_error (fun hfits => (mulU_signExtend _ _).mp hfits h)]
      rfl
    simp only [executeChecked, Cpu.readRegMasked_byte, hval]
    rfl
  · exact h.elim

omit [FloatOps] in
/-- No halfword expands to `mulhsu`. -/
theorem decompress_ne_mulhsu {raw : U16} {instr : Instr}
    (h : decompress raw = some instr) (rd rs1 rs2 : Reg) : instr ≠ .op .mulhsu rd rs1 rs2 := by
  rintro rfl
  unfold decompress at h
  split at h
  · unfold decompressQ0 at h
    dsimp only at h
    repeat' split at h
    all_goals cases h
  · unfold decompressQ1 decompressArith at h
    dsimp only at h
    repeat' split at h
    all_goals cases h
  · unfold decompressQ2 at h
    dsimp only at h
    repeat' split at h
    all_goals cases h
  · cases h

/-- The interpreter returns from every word but a `mulhsu` whose product overflows,
and from every halfword. -/
theorem executeChecked_returns_iff (cpu : Cpu) (width : U64) (bus : β) :
    (∀ raw : U32, (∀ word, decode raw ≠ .fp word) →
      (executeChecked cpu (decode raw) width bus =
          .ok (executeWidth cpu (decode raw) width bus) ↔
        ¬MulhsuOverflows cpu (decode raw))) ∧
    (∀ (raw : U16) (instr : Instr), decompress raw = some instr →
      executeChecked cpu instr width bus = .ok (executeWidth cpu instr width bus)) := by
  constructor
  · intro raw _
    constructor
    · intro hok hoverflows
      rw [executeChecked_of_overflows hoverflows] at hok
      cases hok
    · exact fun h => executeChecked_eq h width bus
  · intro raw instr h
    apply executeChecked_eq
    intro hoverflows
    unfold MulhsuOverflows at hoverflows
    split at hoverflows
    · exact decompress_ne_mulhsu h _ _ _ rfl
    · exact hoverflows

end Interpreter

/-- `mulhsu x3, x1, x2` with `x1 = -1` and `x2 = 2`. -/
def mulhsuHart : Cpu :=
  ((Cpu.new 0).writeReg 1 (BitVec.allOnes 64)).writeReg 2 2

/-- The product `(2 ^ 128 - 1) * 2` is computed unchecked in 128 bits. -/
theorem mulhsu_panics :
    letI := FloatOps.zero
    decode 0x0220A1B3 = .op .mulhsu 3 1 2 ∧ MulhsuOverflows mulhsuHart (decode 0x0220A1B3) ∧
      executeChecked mulhsuHart (decode 0x0220A1B3) 4 (Ram.ofWords []) = .error .overflow := by
  have hdecode : decode 0x0220A1B3 = .op .mulhsu 3 1 2 := by decide
  have hoverflows : MulhsuOverflows mulhsuHart (decode 0x0220A1B3) := by
    rw [hdecode]
    exact ⟨by decide, by decide⟩
  exact ⟨hdecode, hoverflows, @executeChecked_of_overflows FloatOps.zero _ _ _ _ hoverflows _ _⟩

end TabLinux

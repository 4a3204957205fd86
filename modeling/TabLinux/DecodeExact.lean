/-
Which words the decoder accepts.  The ISA assigns one word to each instruction;
the decoder takes some other words for it as well, those that differ in a field
it does not look at.
-/
import TabLinux.Encodings

namespace TabLinux

variable {raw : U32}

/-- The instructions whose words the decoder is measured on: the base ISA
without fences, M, load-reserved, Zicsr, and the five trap instructions. -/
def Instr.Measured : Instr → Bool
  | .lui .. | .auipc .. | .jal .. | .jalr .. | .branch .. | .load .. | .store ..
  | .opImm .. | .shiftImm .. | .shiftImmW .. | .op .. | .lr .. | .csrReg .. | .csrImm ..
  | .ecall | .ebreak | .mret | .sret | .wfi => true
  | .fload .. | .fstore .. | .sc .. | .amo .. | .fp _ | .fence .. | .fenceI | .uret
  | .sfenceVma .. | .unimp => false

/-- The major opcodes of those instructions. -/
def measuredOpcodes : List (BitVec 7) :=
  [0b0110111, 0b0010111, 0b1101111, 0b1100111, 0b1100011, 0b0000011, 0b0100011, 0b0010011,
    0b0110011, 0b0101111, 0b0011011, 0b0111011, 0b1110011]

/-- The function bits of `ecall`, `ebreak`, `sret`, `wfi` and `mret`. -/
def trapFunct12 : List (BitVec 12) := [0x000, 0x001, 0x102, 0x105, 0x302]

/-- The decoder is exact at a word: what it makes of the word is encoded by that
very word, and a word that encodes nothing is `unimp`. -/
structure DecodesExactly (raw : U32) : Prop where
  encoded : (decode raw).Measured → (decode raw).encoding = some raw
  undefined : opcodeOf raw ∈ measuredOpcodes → (∀ i : Instr, i.encoding ≠ some raw) →
    decode raw = .unimp

/-- The fields that the decoder does not look at hold what the ISA fixes there. -/
structure FixedFields (raw : U32) : Prop where
  jalr : opcodeOf raw = 0b1100111 → funct3Of raw = 0b000
  slli : opcodeOf raw = 0b0010011 → funct3Of raw = 0b001 → raw.extractLsb' 26 6 = 0b000000
  slliw : opcodeOf raw = 0b0011011 → funct3Of raw = 0b001 → funct7Of raw = 0b0000000
  lr : opcodeOf raw = 0b0101111 → funct3Of raw = 0b010 ∨ funct3Of raw = 0b011 →
    raw.extractLsb' 27 5 = 0b00010 → rs2Of raw = 0
  trap : opcodeOf raw = 0b1110011 → funct3Of raw = 0b000 →
    raw.extractLsb' 20 12 ∈ trapFunct12 →
    rs1Of raw = 0 ∧ rdOf raw = 0
  sfence : opcodeOf raw = 0b1110011 → funct3Of raw = 0b000 → funct7Of raw = 0b0001001 → rdOf raw = 0
  uret : opcodeOf raw = 0b1110011 → funct3Of raw = 0b000 → raw.extractLsb' 20 12 ≠ 0x002

/-- What the decoder made of a word: nothing, or an instruction of that word. -/
def Faithful (i : Instr) (raw : U32) : Prop := i = .unimp ∨ i.encoding = some raw

section Words

variable (funct7 : BitVec 7) (rs2 rs1 : Reg) (funct3 : BitVec 3) (rd : Reg)

theorem decodeBranch_faithful : Faithful (decodeBranch (word funct7 rs2 rs1 funct3 rd 0b1100011))
      (word funct7 rs2 rs1 funct3 rd 0b1100011) := by
  have himm := bWord_bImm rs2 rs1 funct3 rd 0b1100011 funct7
  unfold decodeBranch
  simp only [funct3Of_word, rs1Of_word, rs2Of_word]
  split <;> first | exact .inl rfl | exact .inr (congrArg some himm)

theorem decodeLoad_faithful : Faithful (decodeLoad (word funct7 rs2 rs1 funct3 rd 0b0000011))
      (word funct7 rs2 rs1 funct3 rd 0b0000011) := by
  have himm := iWord_iImm rs2 rs1 funct3 rd 0b0000011 funct7
  unfold decodeLoad
  simp only [funct3Of_word, rs1Of_word, rdOf_word]
  split <;> first | exact .inl rfl | exact .inr (congrArg some himm)

theorem decodeStore_faithful : Faithful (decodeStore (word funct7 rs2 rs1 funct3 rd 0b0100011))
      (word funct7 rs2 rs1 funct3 rd 0b0100011) := by
  have himm := sWord_sImm rs2 rs1 funct3 rd 0b0100011 funct7
  unfold decodeStore
  simp only [funct3Of_word, rs1Of_word, rs2Of_word]
  split <;> first | exact .inl rfl | exact .inr (congrArg some himm)

theorem decodeOp_faithful : Faithful (decodeOp (word funct7 rs2 rs1 funct3 rd 0b0110011))
      (word funct7 rs2 rs1 funct3 rd 0b0110011) := by
  unfold decodeOp
  simp only [funct3Of_word, funct7Of_word, rs1Of_word, rs2Of_word, rdOf_word]
  split_ifs with h1 h0 h2
  all_goals try subst funct7
  · rcases funct3_cases funct3 with rfl | rfl | rfl | rfl | rfl | rfl | rfl | rfl <;> exact .inr rfl
  · rcases funct3_cases funct3 with rfl | rfl | rfl | rfl | rfl | rfl | rfl | rfl <;> exact .inr rfl
  · split <;> first | exact .inl rfl | exact .inr rfl
  · exact .inl rfl

theorem decodeOp32_faithful : Faithful (decodeOp32 (word funct7 rs2 rs1 funct3 rd 0b0111011))
      (word funct7 rs2 rs1 funct3 rd 0b0111011) := by
  unfold decodeOp32
  simp only [funct3Of_word, funct7Of_word, rs1Of_word, rs2Of_word, rdOf_word]
  split_ifs with h1 h0 h2
  all_goals try subst funct7
  · split <;> first | exact .inl rfl | exact .inr rfl
  · split <;> first | exact .inl rfl | exact .inr rfl
  · split <;> first | exact .inl rfl | exact .inr rfl
  · exact .inl rfl

/-- The word of an immediate shift, from its twelve top bits. -/
theorem shiftImm_encoding (op : ShiftOp) (h : funct7.extractLsb' 1 6 = op.funct6) :
    (Instr.shiftImm op rd rs1 (funct7.extractLsb' 0 1 ++ rs2)).encoding =
      some (word funct7 rs2 rs1 op.funct3 rd 0b0010011) := by
  have hfunct7 : op.funct6 ++ (funct7.extractLsb' 0 1 ++ rs2).extractLsb' 5 1 = funct7 := by
    rw [← h, BitVec.extractLsb'_append_eq_of_le (by decide), BitVec.extractLsb'_eq_self,
      BitVec.extractLsb'_append_extractLsb'_eq_extractLsb' (by decide)]
    exact BitVec.extractLsb'_eq_self
  have hrs2 : (funct7.extractLsb' 0 1 ++ rs2).extractLsb' 0 5 = rs2 := by
    rw [BitVec.extractLsb'_append_eq_of_add_le (by decide), BitVec.extractLsb'_eq_self]
  rw [Instr.encoding, hfunct7, hrs2]

theorem decodeOpImm_faithful (hslli : funct3 = 0b001 → funct7.extractLsb' 1 6 = 0b000000) :
    Faithful (decodeOpImm (word funct7 rs2 rs1 funct3 rd 0b0010011))
      (word funct7 rs2 rs1 funct3 rd 0b0010011) := by
  have himm := iWord_iImm rs2 rs1 funct3 rd 0b0010011 funct7
  have htop (funct6 : BitVec 6) (h : funct7 >>> 1 = funct6.setWidth 7) :
      funct7.extractLsb' 1 6 = funct6 := by
    rw [← extract_ushiftRight, h, BitVec.extractLsb'_setWidth_of_le (by decide),
      BitVec.extractLsb'_eq_self]
  unfold decodeOpImm
  simp only [funct3Of_word, funct7Of_word, rs1Of_word, rdOf_word, shamt_word]
  rcases funct3_cases funct3 with rfl | rfl | rfl | rfl | rfl | rfl | rfl | rfl
  case inr.inl => exact .inr (shiftImm_encoding funct7 rs2 rs1 rd .slli (hslli rfl))
  case inr.inr.inr.inr.inr.inl =>
    split_ifs with h0 h1
    · exact .inr (shiftImm_encoding funct7 rs2 rs1 rd .srli (htop 0b000000 h0))
    · exact .inr (shiftImm_encoding funct7 rs2 rs1 rd .srai (htop 0b010000 h1))
    · exact .inl rfl
  all_goals exact .inr (congrArg some himm)

theorem decodeOpImm32_faithful (hslliw : funct3 = 0b001 → funct7 = 0b0000000) :
    Faithful (decodeOpImm32 (word funct7 rs2 rs1 funct3 rd 0b0011011))
      (word funct7 rs2 rs1 funct3 rd 0b0011011) := by
  have himm := iWord_iImm rs2 rs1 funct3 rd 0b0011011 funct7
  unfold decodeOpImm32
  simp only [funct3Of_word, funct7Of_word, rs1Of_word, rdOf_word, shamtW_word]
  split
  · exact .inr (congrArg some himm)
  · rw [hslliw rfl]
    exact .inr rfl
  · split_ifs with h0 h1
    · rw [h0]
      exact .inr rfl
    · rw [h1]
      exact .inr rfl
    · exact .inl rfl
  · exact .inl rfl

theorem funct7_split (funct7 : BitVec 7) :
    funct7.extractLsb' 2 5 ++ BitVec.ofBool (funct7.getLsbD 1) ++
      BitVec.ofBool (funct7.getLsbD 0) = funct7 := by
  revert funct7
  decide

theorem decodeAtomic_faithful (aw : AtomicWidth)
    (hlr : funct7.extractLsb' 2 5 = 0b00010 → rs2 = 0) :
    Faithful (decodeAtomic (word funct7 rs2 rs1 aw.funct3 rd 0b0101111) aw)
      (word funct7 rs2 rs1 aw.funct3 rd 0b0101111) := by
  have haq : (word funct7 rs2 rs1 aw.funct3 rd 0b0101111).getLsbD 26 = funct7.getLsbD 1 := by
    rw [getLsbD_funct7Of _ 1 (by decide), funct7Of_word]
  have hrl : (word funct7 rs2 rs1 aw.funct3 rd 0b0101111).getLsbD 25 = funct7.getLsbD 0 := by
    rw [getLsbD_funct7Of _ 0 (by decide), funct7Of_word]
  have hword (funct5 : BitVec 5) (h : funct7.extractLsb' 2 5 = funct5) :
      aWord funct5 (funct7.getLsbD 1) (funct7.getLsbD 0) aw rs2 rs1 rd =
        word funct7 rs2 rs1 aw.funct3 rd 0b0101111 := by
    rw [aWord, ← h, funct7_split]
  unfold decodeAtomic
  simp only [haq, hrl, rs1Of_word, rs2Of_word, rdOf_word, funct5_word]
  generalize funct7.extractLsb' 2 5 = funct5 at hlr hword
  split
  · cases hlr rfl
    exact .inr (congrArg some (hword _ rfl))
  all_goals first | exact .inl rfl | exact .inr (congrArg some (hword _ rfl))

theorem systemWord_append :
    systemWord (funct7 ++ rs2) rs1 funct3 rd = word funct7 rs2 rs1 funct3 rd 0b1110011 := by
  simp (disch := omega) only [systemWord, Nat.reduceSub, BitVec.extractLsb'_eq_self,
    BitVec.extractLsb'_append_eq_of_le, BitVec.extractLsb'_append_eq_of_add_le]

theorem decodeSystem_faithful
    (htrap : funct3 = 0b000 → funct7 ++ rs2 ∈ trapFunct12 → rs1 = 0 ∧ rd = 0)
    (hsfence : funct3 = 0b000 → funct7 = 0b0001001 → rd = 0)
    (huret : funct3 = 0b000 → funct7 ++ rs2 ≠ 0x002#12) :
    Faithful (decodeSystem (word funct7 rs2 rs1 funct3 rd 0b1110011))
      (word funct7 rs2 rs1 funct3 rd 0b1110011) := by
  have hword := systemWord_append funct7 rs2 rs1 funct3 rd
  have hfixed (csr : Csr) (h0 : funct3 = 0b000) (hcsr : funct7 ++ rs2 = csr)
      (hmem : csr ∈ trapFunct12) :
      systemWord csr 0 0b000 0 = word funct7 rs2 rs1 funct3 rd 0b1110011 := by
    obtain ⟨rfl, rfl⟩ := htrap h0 (hcsr ▸ hmem)
    rw [← hword, hcsr, h0]
  unfold decodeSystem
  simp only [funct3Of_word, funct7Of_word, funct12_word, rs1Of_word, rs2Of_word, rdOf_word]
  split
  · split_ifs with hs h0 h1 h2 h3 h4 h5
    · cases hsfence rfl hs
      rw [hs]
      exact .inr rfl
    · exact .inr (congrArg some (hfixed _ rfl h0 (by decide)))
    · exact .inr (congrArg some (hfixed _ rfl h1 (by decide)))
    · exact absurd h2 (huret rfl)
    · exact .inr (congrArg some (hfixed _ rfl h3 (by decide)))
    · exact .inr (congrArg some (hfixed _ rfl h4 (by decide)))
    · exact .inr (congrArg some (hfixed _ rfl h5 (by decide)))
    · exact .inl rfl
  all_goals first | exact .inl rfl | exact .inr (congrArg some hword)

end Words

/-- With the fixed fields in place, no word of these opcodes is taken for an
instruction of another word. -/
theorem decode_faithful (h : FixedFields raw) (hop : opcodeOf raw ∈ measuredOpcodes) :
    Faithful (decode raw) raw := by
  obtain ⟨funct7, rs2, rs1, funct3, rd, opcode, rfl⟩ :
      ∃ funct7 rs2 rs1 funct3 rd opcode, raw = word funct7 rs2 rs1 funct3 rd opcode :=
    ⟨_, _, _, _, _, _, (word_fields raw).symm⟩
  obtain ⟨hjalr, hslli, hslliw, hlr, htrap, hsfence, huret⟩ := h
  have hfunct6 : (word funct7 rs2 rs1 funct3 rd opcode).extractLsb' 26 6 =
      funct7.extractLsb' 1 6 := by
    simp (disch := omega) only [extract_word, Nat.reduceSub, BitVec.extractLsb'_append_eq_of_le]
  simp only [opcodeOf_word, funct3Of_word, funct7Of_word, rs1Of_word, rs2Of_word, rdOf_word,
    funct12_word, funct5_word, hfunct6] at *
  unfold decode
  simp only [opcodeOf_word, funct3Of_word, rs1Of_word, rdOf_word]
  split
  · exact .inr (congrArg some (uWord_uImm rs2 rs1 funct3 rd 0b0110111 funct7))
  · exact .inr (congrArg some (uWord_uImm rs2 rs1 funct3 rd 0b0010111 funct7))
  · exact .inr (congrArg some (jWord_jImm rs2 rs1 funct3 rd 0b1101111 funct7))
  · cases hjalr rfl
    exact .inr (congrArg some (iWord_iImm rs2 rs1 0b000 rd 0b1100111 funct7))
  · exact decodeBranch_faithful funct7 rs2 rs1 funct3 rd
  · exact decodeLoad_faithful funct7 rs2 rs1 funct3 rd
  · exact absurd hop (by decide)
  · exact decodeStore_faithful funct7 rs2 rs1 funct3 rd
  · exact absurd hop (by decide)
  · exact decodeOpImm_faithful funct7 rs2 rs1 funct3 rd (hslli rfl)
  · exact decodeOp_faithful funct7 rs2 rs1 funct3 rd
  · split
    · exact decodeAtomic_faithful funct7 rs2 rs1 rd .w (hlr rfl (.inl rfl))
    · exact decodeAtomic_faithful funct7 rs2 rs1 rd .d (hlr rfl (.inr rfl))
    · exact .inl rfl
  · exact decodeOpImm32_faithful funct7 rs2 rs1 funct3 rd (hslliw rfl)
  · exact decodeOp32_faithful funct7 rs2 rs1 funct3 rd
  · exact absurd hop (by decide)
  · exact decodeSystem_faithful funct7 rs2 rs1 funct3 rd (htrap rfl) (hsfence rfl) (huret rfl)
  all_goals first | exact absurd hop (by decide) | exact .inl rfl

/-- The measured instructions come from the measured opcodes. -/
theorem opcode_of_measured (h : (decode raw).Measured) : opcodeOf raw ∈ measuredOpcodes := by
  unfold decode at h
  split at h
  all_goals
    rename_i hop
    try (rw [hop]; decide)
  · cases hw : fwidthOf raw <;> simp [hw, Instr.Measured] at h
  · cases hw : fwidthOf raw <;> simp [hw, Instr.Measured] at h
  · split at h <;> cases h
  all_goals cases h

/-- A word that the decoder takes for an instruction encodes some instruction,
if the decoder is exact at it. -/
theorem DecodesExactly.exists_encoding (h : DecodesExactly raw)
    (hop : opcodeOf raw ∈ measuredOpcodes) (hdecode : decode raw ≠ .unimp) :
    ∃ i : Instr, i.encoding = some raw := by
  by_contra hnone
  exact hdecode (h.undefined hop (fun i hi => hnone ⟨i, hi⟩))

/-- Words of SYSTEM with `funct3 = 0` encode a trap instruction or `sfence.vma`. -/
theorem system_encoding {i : Instr} (h : i.encoding = some raw)
    (hop : opcodeOf raw = 0b1110011) (hfunct3 : funct3Of raw = 0b000) :
    (∃ csr ∈ trapFunct12, raw = systemWord csr 0 0b000 0) ∨
      ∃ rs1 rs2, raw = word 0b0001001 rs2 rs1 0b000 0 0b1110011 := by
  cases i <;> simp only [Instr.encoding, Option.some.injEq, reduceCtorEq] at h
  all_goals subst h
  case ecall => exact .inl ⟨0x000, by decide, rfl⟩
  case ebreak => exact .inl ⟨0x001, by decide, rfl⟩
  case sret => exact .inl ⟨0x102, by decide, rfl⟩
  case wfi => exact .inl ⟨0x105, by decide, rfl⟩
  case mret => exact .inl ⟨0x302, by decide, rfl⟩
  case sfenceVma rs1 rs2 => exact .inr ⟨rs1, rs2, rfl⟩
  case opImm op rd rs1 imm => cases op <;> simp [ImmOp.opcode] at hop
  case op op rd rs1 rs2 => cases op <;> simp [RegOp.opcode] at hop
  case csrReg op rd rs1 csr => cases op <;> simp [CsrOp.funct2] at hfunct3
  case csrImm op rd zimm csr => cases op <;> simp [CsrOp.funct2] at hfunct3
  all_goals simp [aWord] at hop

theorem system_ne_unimp (hop : opcodeOf raw = 0b1110011) (hfunct3 : funct3Of raw = 0b000)
    (h : funct7Of raw = 0b0001001 ∨ raw.extractLsb' 20 12 ∈ 0x002 :: trapFunct12) :
    decode raw ≠ .unimp := by
  simp only [decode, hop, decodeSystem, hfunct3]
  split_ifs
  case neg => simp_all [trapFunct12]
  all_goals simp

/-- The function bits of `sfence.vma` are those of no other instruction. -/
theorem sfence_funct12 (rs2 : Reg) : 0b0001001#7 ++ rs2 ∉ 0x002 :: trapFunct12 := by
  revert rs2
  decide

theorem DecodesExactly.fixedFields (h : DecodesExactly raw) :
    FixedFields raw where
  jalr hop := by
    have hdecode : decode raw = .jalr (rdOf raw) (rs1Of raw) (iImm raw) := by
      simp [decode, hop]
    have hword := h.encoded (by rw [hdecode]; rfl)
    rw [hdecode, Instr.encoding, Option.some.injEq] at hword
    rw [← hword, funct3Of_iWord]
  slli hop hfunct3 := by
    have hdecode : decode raw = .shiftImm .slli (rdOf raw) (rs1Of raw) (raw.extractLsb' 20 6) := by
      simp [decode, hop, decodeOpImm, hfunct3]
    have hword := h.encoded (by rw [hdecode]; rfl)
    rw [hdecode, Instr.encoding, Option.some.injEq] at hword
    rw [← hword]
    simp (disch := omega) only [extract_word, Nat.reduceSub, BitVec.extractLsb'_eq_self,
      BitVec.extractLsb'_append_eq_of_le, ShiftOp.funct6]
  slliw hop hfunct3 := by
    have hdecode : decode raw =
        .shiftImmW .slliw (rdOf raw) (rs1Of raw) (raw.extractLsb' 20 5) := by
      simp [decode, hop, decodeOpImm32, hfunct3]
    have hword := h.encoded (by rw [hdecode]; rfl)
    rw [hdecode, Instr.encoding, Option.some.injEq] at hword
    rw [← hword, funct7Of_word]
    rfl
  lr hop hfunct3 hfunct5 := by
    obtain ⟨aw, hdecode⟩ : ∃ aw, decode raw =
        .lr aw (rdOf raw) (rs1Of raw) (raw.getLsbD 26) (raw.getLsbD 25) := by
      rcases hfunct3 with hw | hd
      · exact ⟨.w, by simp [decode, hop, hw, decodeAtomic, hfunct5]⟩
      · exact ⟨.d, by simp [decode, hop, hd, decodeAtomic, hfunct5]⟩
    have hword := h.encoded (by rw [hdecode]; rfl)
    rw [hdecode, Instr.encoding, Option.some.injEq] at hword
    rw [← hword, aWord, rs2Of_word]
  trap hop hfunct3 hcsr := by
    have hne := system_ne_unimp hop hfunct3 (.inr (List.mem_cons_of_mem _ hcsr))
    obtain ⟨i, hi⟩ := h.exists_encoding (by rw [hop]; decide) hne
    rcases system_encoding hi hop hfunct3 with ⟨csr, -, rfl⟩ | ⟨rs1, rs2, rfl⟩
    · exact ⟨rs1Of_systemWord .., rdOf_systemWord ..⟩
    · rw [funct12_word] at hcsr
      exact absurd (List.mem_cons_of_mem _ hcsr) (sfence_funct12 rs2)
  sfence hop hfunct3 hfunct7 := by
    have hne := system_ne_unimp hop hfunct3 (.inl hfunct7)
    obtain ⟨i, hi⟩ := h.exists_encoding (by rw [hop]; decide) hne
    rcases system_encoding hi hop hfunct3 with ⟨csr, -, rfl⟩ | ⟨rs1, rs2, rfl⟩
    · exact rdOf_systemWord ..
    · exact rdOf_word ..
  uret hop hfunct3 hcsr := by
    have hne := system_ne_unimp hop hfunct3 (.inr (hcsr ▸ List.mem_cons_self))
    obtain ⟨i, hi⟩ := h.exists_encoding (by rw [hop]; decide) hne
    rcases system_encoding hi hop hfunct3 with ⟨csr, hmem, rfl⟩ | ⟨rs1, rs2, rfl⟩
    · rw [funct12_systemWord] at hcsr
      subst hcsr
      exact absurd hmem (by decide)
    · rw [funct12_word] at hcsr
      exact absurd (hcsr ▸ List.mem_cons_self) (sfence_funct12 rs2)

/-- The decoder accepts only the encoding of an instruction at exactly the words
whose unread fields hold what the ISA fixes there. -/
theorem decodesExactly_iff (raw : U32) : DecodesExactly raw ↔ FixedFields raw := by
  constructor
  · exact DecodesExactly.fixedFields
  intro hfixed
  refine ⟨fun hmeasured => ?_, fun hop hnone => ?_⟩
  · rcases decode_faithful hfixed (opcode_of_measured hmeasured) with hunimp | hword
    · rw [hunimp] at hmeasured
      cases hmeasured
    · exact hword
  · rcases decode_faithful hfixed hop with hunimp | hword
    · exact hunimp
    · exact absurd hword (hnone _)

/-- `clz x1, x2` of an extension that is not there runs as `slli x1, x2, 0`. -/
theorem clz_decodes_as_slli :
    decode 0x60011093 = .shiftImm .slli 1 2 0 ∧ (decode 0x60011093).Measured ∧
      (decode 0x60011093).encoding ≠ some 0x60011093 ∧ ¬DecodesExactly 0x60011093 := by
  have hne : (decode 0x60011093).encoding ≠ some 0x60011093 := by decide
  exact ⟨by decide, by decide, hne, fun h => hne (h.encoded (by decide))⟩

end TabLinux

/-
The instruction formats.  Every format of the base ISA cuts a word at the same
places, so a word is six fields and a format only says which bits of its
immediate lie in which field.
-/
import TabLinux.Decode

namespace TabLinux

open BitVec

variable {n w v : Nat}

/-- A word from its six fields, as every format cuts it. -/
def word (funct7 : BitVec 7) (rs2 rs1 : Reg) (funct3 : BitVec 3) (rd : Reg)
    (opcode : BitVec 7) : U32 :=
  funct7 ++ rs2 ++ rs1 ++ funct3 ++ rd ++ opcode

section Fields

variable (funct7 : BitVec 7) (rs2 rs1 : Reg) (funct3 : BitVec 3) (rd : Reg) (opcode : BitVec 7)

/-- The width as a sum, in which the extraction lemmas find the fields. -/
theorem extract_word (start len : Nat) :
    (word funct7 rs2 rs1 funct3 rd opcode).extractLsb' start len =
      (funct7 ++ rs2 ++ rs1 ++ funct3 ++ rd ++ opcode).extractLsb' start len :=
  rfl

@[simp] theorem opcodeOf_word : opcodeOf (word funct7 rs2 rs1 funct3 rd opcode) = opcode := by
  simp (disch := omega) only [opcodeOf, extract_word, extractLsb'_eq_self,
    extractLsb'_append_eq_of_add_le]

@[simp] theorem rdOf_word : rdOf (word funct7 rs2 rs1 funct3 rd opcode) = rd := by
  simp (disch := omega) only [rdOf, extract_word, Nat.reduceSub, extractLsb'_eq_self,
    extractLsb'_append_eq_of_le, extractLsb'_append_eq_of_add_le]

@[simp] theorem funct3Of_word : funct3Of (word funct7 rs2 rs1 funct3 rd opcode) = funct3 := by
  simp (disch := omega) only [funct3Of, extract_word, Nat.reduceSub,
    extractLsb'_eq_self, extractLsb'_append_eq_of_le,
    extractLsb'_append_eq_of_add_le]

@[simp] theorem rs1Of_word : rs1Of (word funct7 rs2 rs1 funct3 rd opcode) = rs1 := by
  simp (disch := omega) only [rs1Of, extract_word, Nat.reduceSub, extractLsb'_eq_self,
    extractLsb'_append_eq_of_le, extractLsb'_append_eq_of_add_le]

@[simp] theorem rs2Of_word : rs2Of (word funct7 rs2 rs1 funct3 rd opcode) = rs2 := by
  simp (disch := omega) only [rs2Of, extract_word, Nat.reduceSub, extractLsb'_eq_self,
    extractLsb'_append_eq_of_le, extractLsb'_append_eq_of_add_le]

@[simp] theorem funct7Of_word : funct7Of (word funct7 rs2 rs1 funct3 rd opcode) = funct7 := by
  simp (disch := omega) only [funct7Of, extract_word, Nat.reduceSub,
    extractLsb'_eq_self, extractLsb'_append_eq_of_le]

@[simp] theorem funct12_word :
    (word funct7 rs2 rs1 funct3 rd opcode).extractLsb' 20 12 = funct7 ++ rs2 := by
  simp (disch := omega) only [extract_word, Nat.reduceSub, extractLsb'_eq_self,
    extractLsb'_append_eq_of_le]

@[simp] theorem funct5_word :
    (word funct7 rs2 rs1 funct3 rd opcode).extractLsb' 27 5 = funct7.extractLsb' 2 5 := by
  simp (disch := omega) only [extract_word, Nat.reduceSub, extractLsb'_append_eq_of_le]

@[simp] theorem shamtW_word : (word funct7 rs2 rs1 funct3 rd opcode).extractLsb' 20 5 = rs2 :=
  rs2Of_word ..

theorem shamt_word :
    (word funct7 rs2 rs1 funct3 rd opcode).extractLsb' 20 6 = funct7.extractLsb' 0 1 ++ rs2 := by
  rw [← extractLsb'_append_extractLsb'_eq_extractLsb' (show 25 = 20 + 5 from rfl),
    shamtW_word]
  simp (disch := omega) only [extract_word, Nat.reduceSub, extractLsb'_append_eq_of_le]

theorem iImm_word :
    iImm (word funct7 rs2 rs1 funct3 rd opcode) = (funct7 ++ rs2).signExtend 64 := by
  rw [iImm, funct12_word]

theorem sImm_word : sImm (word funct7 rs2 rs1 funct3 rd opcode) = (funct7 ++ rd).signExtend 64 := by
  simp (disch := omega) only [sImm, extract_word, Nat.reduceSub, extractLsb'_eq_self,
    extractLsb'_append_eq_of_le, extractLsb'_append_eq_of_add_le]

theorem bImm_word :
    bImm (word funct7 rs2 rs1 funct3 rd opcode) =
      (funct7.extractLsb' 6 1 ++ rd.extractLsb' 0 1 ++ funct7.extractLsb' 0 6 ++
        rd.extractLsb' 1 4 ++ 0#1).signExtend 64 := by
  simp (disch := omega) only [bImm, extract_word, Nat.reduceSub,
    extractLsb'_append_eq_of_le, extractLsb'_append_eq_of_add_le]

theorem jImm_word :
    jImm (word funct7 rs2 rs1 funct3 rd opcode) =
      (funct7.extractLsb' 6 1 ++ (rs1 ++ funct3) ++ rs2.extractLsb' 0 1 ++
        (funct7.extractLsb' 0 6 ++ rs2.extractLsb' 1 4) ++ 0#1).signExtend 64 := by
  have hmid : (word funct7 rs2 rs1 funct3 rd opcode).extractLsb' 12 8 = rs1 ++ funct3 := by
    rw [← extractLsb'_append_extractLsb'_eq_extractLsb' (show 15 = 12 + 3 from rfl)]
    exact congrArg₂ (· ++ ·) (rs1Of_word ..) (funct3Of_word ..)
  have hlow : (word funct7 rs2 rs1 funct3 rd opcode).extractLsb' 21 10 =
      funct7.extractLsb' 0 6 ++ rs2.extractLsb' 1 4 := by
    rw [← extractLsb'_append_extractLsb'_eq_extractLsb' (show 25 = 21 + 4 from rfl)]
    simp (disch := omega) only [extract_word, Nat.reduceSub,
      extractLsb'_append_eq_of_le, extractLsb'_append_eq_of_add_le]
  rw [jImm, hmid, hlow]
  simp (disch := omega) only [extract_word, Nat.reduceSub,
    extractLsb'_append_eq_of_le, extractLsb'_append_eq_of_add_le]

theorem uImm_word :
    uImm (word funct7 rs2 rs1 funct3 rd opcode) =
      (funct7 ++ rs2 ++ rs1 ++ funct3 ++ 0#5 ++ 0#7).signExtend 64 := by
  have hmask : (0xFFFFF000#32 : U32) =
      (allOnes 7 ++ allOnes 5 ++ allOnes 5 ++ allOnes 3 ++ 0#5 ++
        0#7 : BitVec (7 + 5 + 5 + 3 + 5 + 7)) := by decide
  have hword : word funct7 rs2 rs1 funct3 rd opcode &&& 0xFFFFF000#32 =
      (funct7 ++ rs2 ++ rs1 ++ funct3 ++ 0#5 ++ 0#7 : BitVec (7 + 5 + 5 + 3 + 5 + 7)) := by
    rw [hmask]
    change (funct7 ++ rs2 ++ rs1 ++ funct3 ++ rd ++ opcode :
      BitVec (7 + 5 + 5 + 3 + 5 + 7)) &&& _ = _
    simp only [and_append, and_allOnes, and_zero]
  exact congrArg (signExtend 64) hword

end Fields

/-- A word is its fields. -/
theorem word_fields (raw : U32) :
    word (funct7Of raw) (rs2Of raw) (rs1Of raw) (funct3Of raw) (rdOf raw) (opcodeOf raw) = raw := by
  simp (disch := omega) only [word, funct7Of, rs2Of, rs1Of, funct3Of, rdOf, opcodeOf,
    extractLsb'_append_extractLsb'_eq_extractLsb', extractLsb'_eq_self]

theorem funct3_cases (funct3 : BitVec 3) :
    funct3 = 0b000#3 ∨ funct3 = 0b001#3 ∨ funct3 = 0b010#3 ∨ funct3 = 0b011#3 ∨
      funct3 = 0b100#3 ∨ funct3 = 0b101#3 ∨ funct3 = 0b110#3 ∨ funct3 = 0b111#3 := by
  revert funct3
  decide

/-- Values of an `n`-bit signed field. -/
def Signed (n : Nat) (imm : U64) : Prop :=
  -2 ^ (n - 1) ≤ imm.toInt ∧ imm.toInt < 2 ^ (n - 1)

instance (n : Nat) (imm : U64) : Decidable (Signed n imm) :=
  inferInstanceAs (Decidable (_ ∧ _))

/-- A field of `n` bits holds every value in its range. -/
theorem Signed.signExtend_extract {imm : U64} (h : Signed (n + 1) imm)
    (hn : n + 1 ≤ 64) : (imm.extractLsb' 0 (n + 1)).signExtend 64 = imm := by
  apply eq_of_toInt_eq
  have hdvd : 2 ^ (n + 1) ∣ 2 ^ 64 := Nat.pow_dvd_pow 2 hn
  calc ((imm.extractLsb' 0 (n + 1)).signExtend 64).toInt
      = (imm.toNat : Int).bmod (2 ^ (n + 1)) := by
        rw [toInt_signExtend_of_le hn, ← setWidth_eq_extractLsb' hn,
          toInt_setWidth]
    _ = imm.toInt.bmod (2 ^ (n + 1)) := by
        rw [toInt_eq_toNat_bmod, Int.bmod_bmod_of_dvd hdvd]
    _ = imm.toInt := by
        obtain ⟨hlo, hhi⟩ := h
        rw [Nat.add_sub_cancel] at hlo hhi
        apply Int.bmod_eq_of_le <;> push_cast [Nat.pow_succ] <;> omega

/-- The low bits of a sign-extended field are the field. -/
theorem extract_signExtend {start len : Nat} (x : BitVec w) (h : start + len ≤ w) (hw : w ≤ 64) :
    (x.signExtend 64).extractLsb' start len = x.extractLsb' start len := by
  apply eq_of_getLsbD_eq
  intro i hi
  have hlow : start + i < w := by omega
  have hword : start + i < 64 := by omega
  simp only [getLsbD_extractLsb', getLsbD_signExtend, hi, hlow, hword,
    decide_true, Bool.true_and, if_true]

theorem extract_ushiftRight (x : BitVec n) (pos w : Nat) :
    (x >>> pos).extractLsb' 0 w = x.extractLsb' pos w := by
  apply eq_of_getLsbD_eq
  intro i hi
  simp only [getLsbD_extractLsb', getLsbD_ushiftRight, Nat.zero_add]

/-- A mask of `w` ones keeps the low `w` bits. -/
theorem and_ones (x : BitVec n) (w : Nat) :
    x &&& BitVec.ofNat n (2 ^ w - 1) = (x.extractLsb' 0 w).setWidth n := by
  apply eq_of_getLsbD_eq
  intro i hi
  simp only [getLsbD_and, getLsbD_ofNat, getLsbD_setWidth,
    getLsbD_extractLsb', Nat.testBit_two_pow_sub_one, hi, decide_true, Bool.true_and,
    Nat.zero_add]
  exact Bool.and_comm _ _

/-- Neighbouring fields, shifted to their places and put together. -/
theorem shifted_or_shifted (x : BitVec v) (y : BitVec w) {j k : Nat} (h : j = k + w) :
    x.setWidth n <<< j ||| y.setWidth n <<< k = (x ++ y).setWidth n <<< k := by
  subst h
  apply eq_of_getLsbD_eq
  intro i hi
  simp only [getLsbD_or, getLsbD_shiftLeft, getLsbD_setWidth,
    getLsbD_append]
  by_cases hk : i < k
  · simp [hk, show i < k + w by omega]
  by_cases hw : i < k + w
  · simp [hi, hk, hw, show i - k < w by omega, show i - k < n by omega]
  have hy : y.getLsbD (i - k) = false := getLsbD_of_ge y _ (by omega)
  simp [hi, hk, hw, hy, show ¬i - k < w by omega, show i - k < n by omega, Nat.sub_sub,
    show i - (k + w) < n by omega]

/-- The bits below a field are zeros. -/
theorem shifted_eq_append (x : BitVec v) (k : Nat) :
    x.setWidth n <<< k = (x ++ 0#k).setWidth n := by
  have h := shifted_or_shifted (n := n) x 0#k (Nat.zero_add k).symm
  simpa using h

section Words

variable (imm : U64) (rs2 rs1 : Reg) (funct3 : BitVec 3) (rd : Reg) (opcode : BitVec 7)

def iWord : U32 :=
  word (imm.extractLsb' 5 7) (imm.extractLsb' 0 5) rs1 funct3 rd opcode

def sWord : U32 :=
  word (imm.extractLsb' 5 7) rs2 rs1 funct3 (imm.extractLsb' 0 5) opcode

def bWord : U32 :=
  word (imm.extractLsb' 12 1 ++ imm.extractLsb' 5 6) rs2 rs1 funct3
    (imm.extractLsb' 1 4 ++ imm.extractLsb' 11 1) opcode

def uWord : U32 :=
  word (imm.extractLsb' 25 7) (imm.extractLsb' 20 5) (imm.extractLsb' 15 5)
    (imm.extractLsb' 12 3) rd opcode

def jWord : U32 :=
  word (imm.extractLsb' 20 1 ++ imm.extractLsb' 5 6) (imm.extractLsb' 1 4 ++ imm.extractLsb' 11 1)
    (imm.extractLsb' 15 5) (imm.extractLsb' 12 3) rd opcode

@[simp] theorem opcodeOf_iWord : opcodeOf (iWord imm rs1 funct3 rd opcode) = opcode :=
  opcodeOf_word ..

@[simp] theorem funct3Of_iWord : funct3Of (iWord imm rs1 funct3 rd opcode) = funct3 :=
  funct3Of_word ..

@[simp] theorem rdOf_iWord : rdOf (iWord imm rs1 funct3 rd opcode) = rd :=
  rdOf_word ..

@[simp] theorem rs1Of_iWord : rs1Of (iWord imm rs1 funct3 rd opcode) = rs1 :=
  rs1Of_word ..

@[simp] theorem opcodeOf_sWord : opcodeOf (sWord imm rs2 rs1 funct3 opcode) = opcode :=
  opcodeOf_word ..

@[simp] theorem funct3Of_sWord : funct3Of (sWord imm rs2 rs1 funct3 opcode) = funct3 :=
  funct3Of_word ..

@[simp] theorem rs1Of_sWord : rs1Of (sWord imm rs2 rs1 funct3 opcode) = rs1 :=
  rs1Of_word ..

@[simp] theorem rs2Of_sWord : rs2Of (sWord imm rs2 rs1 funct3 opcode) = rs2 :=
  rs2Of_word ..

@[simp] theorem opcodeOf_bWord : opcodeOf (bWord imm rs2 rs1 funct3 opcode) = opcode :=
  opcodeOf_word ..

@[simp] theorem funct3Of_bWord : funct3Of (bWord imm rs2 rs1 funct3 opcode) = funct3 :=
  funct3Of_word ..

@[simp] theorem rs1Of_bWord : rs1Of (bWord imm rs2 rs1 funct3 opcode) = rs1 :=
  rs1Of_word ..

@[simp] theorem rs2Of_bWord : rs2Of (bWord imm rs2 rs1 funct3 opcode) = rs2 :=
  rs2Of_word ..

@[simp] theorem opcodeOf_uWord : opcodeOf (uWord imm rd opcode) = opcode :=
  opcodeOf_word ..

@[simp] theorem rdOf_uWord : rdOf (uWord imm rd opcode) = rd :=
  rdOf_word ..

@[simp] theorem opcodeOf_jWord : opcodeOf (jWord imm rd opcode) = opcode :=
  opcodeOf_word ..

@[simp] theorem rdOf_jWord : rdOf (jWord imm rd opcode) = rd :=
  rdOf_word ..

variable {imm}

theorem iImm_iWord (h : Signed 12 imm) : iImm (iWord imm rs1 funct3 rd opcode) = imm := by
  rw [iWord, iImm_word, extractLsb'_append_extractLsb'_eq_extractLsb' (by decide)]
  exact h.signExtend_extract (by decide)

theorem sImm_sWord (h : Signed 12 imm) : sImm (sWord imm rs2 rs1 funct3 opcode) = imm := by
  rw [sWord, sImm_word, extractLsb'_append_extractLsb'_eq_extractLsb' (by decide)]
  exact h.signExtend_extract (by decide)

theorem bImm_bWord (h : Signed 13 imm) (heven : imm.extractLsb' 0 1 = 0) :
    bImm (bWord imm rs2 rs1 funct3 opcode) = imm := by
  have heven' : (0#1 : BitVec 1) = imm.extractLsb' 0 1 := heven.symm
  rw [bWord, bImm_word, heven']
  simp (disch := omega) only [Nat.reduceSub, extractLsb'_eq_self,
    extractLsb'_append_eq_of_le, extractLsb'_append_eq_of_add_le,
    extractLsb'_append_extractLsb'_eq_extractLsb']
  exact h.signExtend_extract (by decide)

theorem uImm_uWord (h : Signed 32 imm) (hpage : imm.extractLsb' 0 12 = 0) :
    uImm (uWord imm rd opcode) = imm := by
  have hlow : (0#7 : BitVec 7) = imm.extractLsb' 0 7 := by
    have := congrArg (extractLsb' 0 7) hpage
    rw [extractLsb'_extractLsb'_of_le (by decide)] at this
    exact this.symm
  have hhigh : (0#5 : BitVec 5) = imm.extractLsb' 7 5 := by
    have := congrArg (extractLsb' 7 5) hpage
    rw [extractLsb'_extractLsb'_of_le (by decide)] at this
    exact this.symm
  rw [uWord, uImm_word, hlow, hhigh]
  simp (disch := omega) only [extractLsb'_append_extractLsb'_eq_extractLsb']
  exact h.signExtend_extract (by decide)

theorem jImm_jWord (h : Signed 21 imm) (heven : imm.extractLsb' 0 1 = 0) :
    jImm (jWord imm rd opcode) = imm := by
  have heven' : (0#1 : BitVec 1) = imm.extractLsb' 0 1 := heven.symm
  rw [jWord, jImm_word, heven']
  simp (disch := omega) only [Nat.reduceSub, extractLsb'_eq_self,
    extractLsb'_append_eq_of_le, extractLsb'_append_eq_of_add_le,
    extractLsb'_append_extractLsb'_eq_extractLsb']
  exact h.signExtend_extract (by decide)

variable (funct7 : BitVec 7)

theorem iWord_iImm :
    iWord (iImm (word funct7 rs2 rs1 funct3 rd opcode)) rs1 funct3 rd opcode =
      word funct7 rs2 rs1 funct3 rd opcode := by
  simp (disch := omega) only [iWord, iImm_word, extract_signExtend, Nat.reduceSub,
    extractLsb'_eq_self, extractLsb'_append_eq_of_le,
    extractLsb'_append_eq_of_add_le]

theorem sWord_sImm :
    sWord (sImm (word funct7 rs2 rs1 funct3 rd opcode)) rs2 rs1 funct3 opcode =
      word funct7 rs2 rs1 funct3 rd opcode := by
  simp (disch := omega) only [sWord, sImm_word, extract_signExtend, Nat.reduceSub,
    extractLsb'_eq_self, extractLsb'_append_eq_of_le,
    extractLsb'_append_eq_of_add_le]

theorem bWord_bImm :
    bWord (bImm (word funct7 rs2 rs1 funct3 rd opcode)) rs2 rs1 funct3 opcode =
      word funct7 rs2 rs1 funct3 rd opcode := by
  simp (disch := omega) only [bWord, bImm_word, extract_signExtend, Nat.reduceSub,
    extractLsb'_eq_self, extractLsb'_append_eq_of_le,
    extractLsb'_append_eq_of_add_le,
    extractLsb'_append_extractLsb'_eq_extractLsb']

theorem uWord_uImm :
    uWord (uImm (word funct7 rs2 rs1 funct3 rd opcode)) rd opcode =
      word funct7 rs2 rs1 funct3 rd opcode := by
  simp (disch := omega) only [uWord, uImm_word, extract_signExtend, Nat.reduceSub,
    extractLsb'_eq_self, extractLsb'_append_eq_of_le,
    extractLsb'_append_eq_of_add_le]

theorem jWord_jImm :
    jWord (jImm (word funct7 rs2 rs1 funct3 rd opcode)) rd opcode =
      word funct7 rs2 rs1 funct3 rd opcode := by
  have hhigh : (funct7.extractLsb' 6 1 ++ funct7.extractLsb' 0 6 : BitVec 7) = funct7 :=
    (extractLsb'_append_extractLsb'_eq_extractLsb' (by decide)).trans
      extractLsb'_eq_self
  have hlow : (rs2.extractLsb' 1 4 ++ rs2.extractLsb' 0 1 : BitVec 5) = rs2 :=
    (extractLsb'_append_extractLsb'_eq_extractLsb' (by decide)).trans
      extractLsb'_eq_self
  simp (disch := omega) only [jWord, jImm_word, extract_signExtend, Nat.reduceSub,
    extractLsb'_eq_self, extractLsb'_append_eq_of_le,
    extractLsb'_append_eq_of_add_le]
  -- The widths of the two nested fields are sums, reduced only once they stand alone.
  simp only [Nat.reduceAdd, Nat.reduceSub, extractLsb'_eq_self]
  rw [hhigh, hlow]

end Words

theorem decode_uWord {imm : U64} (rd : Reg) (h : Signed 32 imm)
    (hpage : imm.extractLsb' 0 12 = 0) :
    decode (uWord imm rd 0b0110111) = .lui rd imm ∧
      decode (uWord imm rd 0b0010111) = .auipc rd imm := by
  simp [decode, uImm_uWord _ _ h hpage]

end TabLinux

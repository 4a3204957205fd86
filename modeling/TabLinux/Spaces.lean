/-
Address spaces and their generations.  Writing `satp` selects the generations
of a remembered space or hands out new ones; fences forget.  As a ledger of
generations, every step of the hart only forgets entries or adds a new one.
-/
import TabLinux.StepEffects
import TabLinux.Library.Generations

namespace TabLinux

open Generations

variable {satp : Satp} {s s' : Supervisor} {val : U64}

variable {kind : GenKind} {op : SpaceOp}

namespace Satp

/-- The modes that the register can hold: Bare and Sv39. -/
def Legal (satp : Satp) : Prop := satp.mode = 0 ∨ satp.mode = 8

theorem toBits_mode (satp : Satp) : satp.toBits.extractLsb' 60 4 = satp.mode := by
  apply BitVec.eq_of_getLsbD_eq
  intro i hi
  simp only [toBits, BitVec.getLsbD_extractLsb', BitVec.getLsbD_or,
    BitVec.getLsbD_shiftLeft, BitVec.getLsbD_setWidth, hi, decide_true, Bool.true_and]
  have hasid : satp.asid.getLsbD (60 + i - 44) = false := BitVec.getLsbD_of_ge _ _ (by omega)
  have hppn : satp.ppn.getLsbD (60 + i) = false := BitVec.getLsbD_of_ge _ _ (by omega)
  simp [hasid, hppn, show 60 + i < 64 by omega, show i < 64 by omega]

theorem toBits_asid (satp : Satp) : satp.toBits.extractLsb' 44 16 = satp.asid := by
  apply BitVec.eq_of_getLsbD_eq
  intro i hi
  simp only [toBits, BitVec.getLsbD_extractLsb', BitVec.getLsbD_or,
    BitVec.getLsbD_shiftLeft, BitVec.getLsbD_setWidth, hi, decide_true, Bool.true_and]
  simp [show 44 + i < 60 by omega, show 44 + i < 64 by omega, show i < 64 by omega]

theorem toBits_ppn (satp : Satp) : satp.toBits.extractLsb' 0 44 = satp.ppn := by
  apply BitVec.eq_of_getLsbD_eq
  intro i hi
  simp only [toBits, BitVec.getLsbD_extractLsb', BitVec.getLsbD_or,
    BitVec.getLsbD_shiftLeft, BitVec.getLsbD_setWidth, hi, decide_true, Bool.true_and]
  simp [hi, show i < 60 by omega, show i < 64 by omega]

theorem fromBits_toBits (hlegal : satp.Legal) : fromBits satp.toBits = satp := by
  rw [Satp.Legal] at hlegal
  rw [fromBits, satp.toBits_mode, satp.toBits_asid, satp.toBits_ppn, if_pos hlegal]

theorem fromBits_legal (val : U64) : (fromBits val).Legal := by
  unfold Satp.Legal fromBits
  split
  · assumption
  · exact Or.inl rfl

theorem Legal.toBits_ne_allOnes (hlegal : satp.Legal) : satp.toBits ≠ BitVec.allOnes 64 := by
  intro hbits
  have hmode := satp.toBits_mode
  rw [hbits] at hmode
  rcases hlegal with hzero | height
  · rw [hzero] at hmode
    exact absurd hmode (by decide)
  · rw [height] at hmode
    exact absurd hmode (by decide)

theorem Legal.eq_of_toBits_eq {other : Satp} (hlegal : satp.Legal) (hother : other.Legal)
    (hbits : satp.toBits = other.toBits) : satp = other := by
  rw [← fromBits_toBits hlegal, hbits, fromBits_toBits hother]

end Satp

/-- The part of the supervisor state that selects address spaces and says which
cached translations are valid. -/
structure Spaces where
  satp : Satp
  transGen : U32
  dataTransGen : U32
  asidTbl : BitVec 7 → AsidSlot
  asidGenNext : U32
  pendingFlush : List U64
  icacheGen : U32

def Supervisor.spaces (s : Supervisor) : Spaces where
  satp := s.satp
  transGen := s.transGen
  dataTransGen := s.dataTransGen
  asidTbl := s.asidTbl
  asidGenNext := s.asidGenNext
  pendingFlush := s.pendingFlush
  icacheGen := s.icacheGen

namespace Spaces

variable (sp : Spaces)

/-- Forget every space and hand out a new generation. -/
def invalidateAll : Spaces :=
  { sp with
    asidTbl := fun _ => AsidSlot.empty
    asidGenNext := sp.asidGenNext + 1
    transGen := sp.asidGenNext + 1
    dataTransGen := sp.asidGenNext + 1 }

def advanceChain : Spaces :=
  { sp with asidGenNext := sp.asidGenNext + 1, transGen := sp.asidGenNext + 1 }

/-- The table after the current space's generations have been put away. -/
def stash : BitVec 7 → AsidSlot :=
  Function.update sp.asidTbl (asidIndex sp.satp.toBits)
    ⟨sp.satp.toBits, sp.transGen, sp.dataTransGen⟩

def writeSatp (val : U64) : Spaces :=
  if sp.satp.toBits ≠ val then
    let slot := sp.stash (asidIndex val)
    if slot.satp = val then
      { sp with
        satp := Satp.fromBits val
        asidTbl := sp.stash
        transGen := slot.transGen
        dataTransGen := slot.dataTransGen }
    else
      { sp with
        satp := Satp.fromBits val
        asidTbl := sp.stash
        asidGenNext := sp.asidGenNext + 1
        transGen := sp.asidGenNext + 1
        dataTransGen := sp.asidGenNext + 1 }
  else { sp with satp := Satp.fromBits val }

/-- A fence that names a page queues it; a full queue forgets every space. -/
def fencePage (va : U64) : Spaces :=
  if sp.pendingFlush.length < pendingFlushLen then
    { sp with pendingFlush := sp.pendingFlush ++ [va] }
  else { sp with pendingFlush := [] }.invalidateAll

end Spaces

/-- What an instruction does to the address spaces. -/
inductive SpaceOp where
  | keep
  | satp (val : U64)
  | page (va : U64)
  | all
  | code
deriving DecidableEq, Repr

def Spaces.apply (sp : Spaces) : SpaceOp → Spaces
  | .keep => sp
  | .satp val => sp.writeSatp val
  | .page va => sp.fencePage va
  | .all => sp.invalidateAll
  | .code => { sp.invalidateAll with icacheGen := sp.icacheGen + 1 }

/-- The effect of a CSR instruction that passes its checks. -/
def Supervisor.csrSpaceOp (s : Supervisor) (csr : Csr) (src : Reg)
    (val : U64) (op : CsrOp) : SpaceOp :=
  if csr = 0x180 ∧ csrWillWrite op src then .satp (op.combine s.satp.toBits val) else .keep

/-- The effect of an instruction. -/
def Supervisor.spaceOp (s : Supervisor) (instr : Instr) : SpaceOp :=
  if instr = .fenceI then .code
  else if s.takesOwnPath instr then
    match instr with
    | .csrReg op _ rs1 csr => s.csrSpaceOp csr rs1 (s.cpu.readReg rs1) op
    | .csrImm op _ zimm csr => s.csrSpaceOp csr zimm (zimm.setWidth 64) op
    | .sfenceVma rs1 _ => if rs1 ≠ 0 then .page (s.cpu.readReg rs1) else .all
    | _ => .keep
  else .keep

section

variable {β : Type*} [Bus β]

/-- The effect of a step. -/
def Supervisor.stepSpaceOp (s : Supervisor) (bus : β) : SpaceOp :=
  match s.stepInstr bus with
  | none => .keep
  | some instr => s.spaceOp instr

theorem HartEffect.spaces_eq (h : HartEffect s s') : s'.spaces = s.spaces := by
  rw [h]
  rfl

theorem FetchEffect.spaces_eq (h : FetchEffect s s') : s'.spaces = s.spaces := by
  rw [h]
  rfl

theorem Supervisor.takeTrapWithVaddr_spaces (s : Supervisor) (trap : Trap)
    (faultVaddr : Option U64) :
    (s.takeTrapWithVaddr trap faultVaddr).2.spaces = s.spaces := by
  unfold takeTrapWithVaddr
  split <;> rfl

theorem ExecEffect.spaces_eq (h : ExecEffect s s') : s'.spaces = s.spaces := by
  cases h with
  | quiet effect => exact effect.spaces_eq
  | trap effect trap faultVaddr =>
    exact (Supervisor.takeTrapWithVaddr_spaces _ trap faultVaddr).trans effect.spaces_eq

namespace Supervisor

variable (s : Supervisor)

theorem writeSatp_spaces (val : U64) : (s.writeSatp val).spaces = s.spaces.writeSatp val := by
  unfold writeSatp Spaces.writeSatp
  by_cases hsame : s.satp.toBits ≠ val
  · have hsame' : s.spaces.satp.toBits ≠ val := hsame
    simp only [if_pos hsame, if_pos hsame']
    exact (ite_map spaces rfl rfl).symm
  · have hsame' : ¬ s.spaces.satp.toBits ≠ val := hsame
    simp only [if_neg hsame, if_neg hsame']
    rfl

theorem sfenceVma_spaces (rs1 : Reg) :
    (s.sfenceVma rs1).spaces =
      s.spaces.apply (if rs1 ≠ 0 then .page (s.cpu.readReg rs1) else .all) := by
  unfold sfenceVma
  by_cases hnamed : rs1 ≠ 0
  · simp only [if_pos hnamed]
    exact (ite_map spaces rfl rfl).symm
  · simp only [if_neg hnamed]
    rfl

theorem csrRead_satp (bus : β) : s.csrRead bus 0x180 = s.satp.toBits := by
  simp [csrRead]

theorem csrWrite_satp (val : U64) : s.csrWrite 0x180 val = s.writeSatp val := by
  simp [csrWrite]

end Supervisor

theorem CsrEffect.spaces_eq {csr : Csr} (h : CsrEffect s csr val s') (hcsr : csr ≠ 0x180) :
    s'.spaces = s.spaces := by
  cases h with
  | ignored => rfl
  | fcsr => rfl
  | register _ effect =>
    rw [effect]
    rfl
  | satp hsatp => exact absurd hsatp hcsr

theorem Supervisor.csrAccess_spaces (s : Supervisor) (bus : β) (csr : Csr)
    (rd src : Reg) (val : U64) (op : CsrOp) :
    (s.csrAccess bus csr rd src val op).spaces = s.spaces.apply (s.csrSpaceOp csr src val op) := by
  have hcpu : (s.csrAccess bus csr rd src val op).spaces =
      (if csrWillWrite op src then s.csrWrite csr (op.combine (s.csrRead bus csr) val)
        else s).spaces := rfl
  rw [hcpu, csrSpaceOp]
  by_cases hwrite : csrWillWrite op src
  · rw [if_pos hwrite]
    by_cases hcsr : csr = 0x180
    · rw [if_pos ⟨hcsr, hwrite⟩, hcsr, csrRead_satp, csrWrite_satp, writeSatp_spaces]
      rfl
    · rw [if_neg fun h => hcsr h.1]
      exact (s.csrWrite_effect csr _).spaces_eq hcsr
  · rw [if_neg hwrite, if_neg fun h => hwrite h.2]
    rfl

theorem Supervisor.park_spaces (s : Supervisor) (width : U64) :
    (s.park width).2.spaces = s.spaces := by
  unfold park
  split
  · exact s.takeTrapWithVaddr_spaces _ none
  · rfl

theorem ExecOutcome.spaces_eq {bus : β} {width : U64} {instr : Instr}
    (h : ExecOutcome s bus width instr s') (hinstr : instr ≠ .fenceI) :
    s'.spaces = s.spaces.apply (s.spaceOp instr) := by
  unfold Supervisor.spaceOp
  rw [if_neg hinstr]
  cases h with
  | hart hpath effect =>
    rw [hpath]
    exact effect.spaces_eq
  | @csrReg op rd rs1 csr hallowed =>
    have hpath : s.takesOwnPath (.csrReg op rd rs1 csr) = true := by
      simp [Supervisor.takesOwnPath, hallowed]
    rw [hpath]
    exact s.csrAccess_spaces bus csr rd rs1 _ op
  | @csrImm op rd zimm csr hallowed =>
    have hpath : s.takesOwnPath (.csrImm op rd zimm csr) = true := by
      simp [Supervisor.takesOwnPath, hallowed]
    rw [hpath]
    exact s.csrAccess_spaces bus csr rd zimm _ op
  | sbi hpriv => split <;> rfl
  | mret => rfl
  | sret hallowed => split <;> rfl
  | wait hallowed =>
    have hpark := (s.pollNow bus).park_spaces width
    split <;> exact hpark
  | @fence rs1 rs2 hallowed =>
    have hpath : s.takesOwnPath (.sfenceVma rs1 rs2) = true := by
      simp [Supervisor.takesOwnPath, hallowed]
    rw [hpath]
    exact s.sfenceVma_spaces rs1

theorem FetchEffect.spaceOp_eq (h : FetchEffect s s') (instr : Instr) :
    s'.spaceOp instr = s.spaceOp instr := by
  rw [h]
  rfl

theorem Supervisor.pollDevices_spaces (s : Supervisor) (bus : β) :
    (s.pollDevices bus).spaces = s.spaces :=
  ite_keep Supervisor.spaces rfl rfl

theorem Supervisor.pollDevices_spaceOp (s : Supervisor) (bus : β) (instr : Instr) :
    (s.pollDevices bus).spaceOp instr = s.spaceOp instr :=
  ite_keep (fun s' : Supervisor => s'.spaceOp instr) rfl rfl

omit [Bus β] in
theorem Supervisor.deliver_spaces (s : Supervisor) (status : Status) (bus : β) :
    (s.deliver status bus).2.1.spaces = s.spaces := by
  rcases s.deliver_cases status bus with ⟨trap, hout⟩ | hout
  · rw [hout]
    exact s.takeTrapWithVaddr_spaces trap none
  · rw [hout]

section

variable [FloatOps]

theorem Supervisor.finishStep_spaces (s : Supervisor) (instr : Instr) (width : U64)
    (bus : β) : (s.finishStep instr width bus).2.1.spaces = s.spaces.apply (s.spaceOp instr) := by
  have hdeliver := fun (s' : Supervisor) status (bus : β) =>
    ((s'.countRetired (s.cpu.pc + width)).deliver_spaces status bus :)
  refine (hdeliver _ _ _).trans ?_
  change spaces (executeSupervisor _ _ _ _).2.1 = _
  by_cases hfence : instr = .fenceI
  · subst hfence
    exact (executeSupervisor_hart (s := s.flushedFor .fenceI) rfl width bus).effect.spaces_eq
  · rw [flushedFor, if_neg hfence]
    exact (s.executeSupervisor_outcome instr width bus).spaces_eq hfence

/-- A step does to the address spaces what its instruction says. -/
theorem Supervisor.step_spaces (s : Supervisor) (bus : β) :
    (s.step bus).2.1.spaces = s.spaces.apply (s.stepSpaceOp bus) := by
  rw [stepSpaceOp]
  rcases s.step_cases bus with ⟨hnone, s', trap, vaddr, heffect, hstep⟩ |
    ⟨instr, width, s', bus', hinstr, heffect, hstep⟩
  · rw [hstep, hnone, takeTrapWithVaddr_spaces, heffect.spaces_eq, pollDevices_spaces]
    rfl
  · rw [hstep, hinstr, finishStep_spaces, heffect.spaces_eq, heffect.spaceOp_eq,
      pollDevices_spaces, pollDevices_spaceOp]

end

end

/-- A space has one generation for block chains and one for data. -/
inductive GenKind where
  | chain
  | data
deriving DecidableEq, Repr

def AsidSlot.gen (slot : AsidSlot) : GenKind → U32
  | .chain => slot.transGen
  | .data => slot.dataTransGen

def Spaces.gen (sp : Spaces) : GenKind → U32
  | .chain => sp.transGen
  | .data => sp.dataTransGen

/-- The current space uses the current generation; any other space could get
back the one that the table remembers for it. -/
def Spaces.ledger (sp : Spaces) (kind : GenKind) : Ledger Satp where
  live satp n := satp.Legal ∧
    ((satp = sp.satp ∧ n = (sp.gen kind).toNat) ∨
      (satp ≠ sp.satp ∧ ∃ i, (sp.asidTbl i).satp = satp.toBits ∧
        n = ((sp.asidTbl i).gen kind).toNat))
  next := sp.asidGenNext.toNat

/-- A slot is empty, or remembers a legal space that hashes to it. -/
def AsidSlot.Placed (slot : AsidSlot) (i : BitVec 7) : Prop :=
  slot.satp = BitVec.allOnes 64 ∨
    ∃ satp : Satp, satp.Legal ∧ slot.satp = satp.toBits ∧ asidIndex satp.toBits = i

/-- The register holds a legal value, every slot is where it belongs, and each
generation in use belongs to one space. -/
structure Spaces.Wf (sp : Spaces) : Prop where
  legal : sp.satp.Legal
  slots : ∀ i, (sp.asidTbl i).Placed i
  ledger : ∀ kind, (sp.ledger kind).Wf

variable {sp : Spaces}

namespace Spaces

theorem Wf.current (hwf : sp.Wf) (kind : GenKind) :
    (sp.ledger kind).live sp.satp (sp.gen kind).toNat :=
  ⟨hwf.legal, Or.inl ⟨rfl, rfl⟩⟩

/-- The next generation exists: the counter does not wrap. -/
def Room (sp : Spaces) : Prop := sp.asidGenNext.toNat + 1 < 2 ^ 32

theorem Room.toNat_succ (hroom : sp.Room) :
    (sp.asidGenNext + 1).toNat = sp.asidGenNext.toNat + 1 := by
  unfold Spaces.Room at hroom
  bv_omega

/-- After everything has been forgotten, only the new generation is in use. -/
theorem invalidateAll_live (hroom : sp.Room) {n : Nat}
    (hlive : (sp.invalidateAll.ledger kind).live satp n) :
    satp = sp.satp ∧ n = sp.asidGenNext.toNat + 1 := by
  obtain ⟨hlegal, ⟨hsatp, hn⟩ | ⟨-, i, hslot, -⟩⟩ := hlive
  · refine ⟨hsatp, ?_⟩
    rw [hn, ← hroom.toNat_succ]
    cases kind <;> rfl
  · exact absurd hslot.symm hlegal.toBits_ne_allOnes

theorem invalidateAll_advance (hroom : sp.Room) (kind : GenKind) :
    (sp.ledger kind).Advance (sp.invalidateAll.ledger kind) := by
  have hnext : (sp.invalidateAll.ledger kind).next = (sp.ledger kind).next + 1 := hroom.toNat_succ
  refine ⟨by omega, sp.satp, fun satp n hlive => Or.inr ?_⟩
  obtain ⟨hsatp, hn⟩ := invalidateAll_live hroom hlive
  refine ⟨hsatp, ?_, ?_⟩
  · rw [hn]
    exact Nat.lt_succ_self _
  · rw [hn, hnext]
    exact Nat.le_refl _

theorem advanceChain_advance (hroom : sp.Room) (kind : GenKind) :
    (sp.ledger kind).Advance (sp.advanceChain.ledger kind) := by
  have hnext : (sp.advanceChain.ledger kind).next = (sp.ledger kind).next + 1 := hroom.toNat_succ
  refine ⟨by omega, sp.satp, fun satp n hlive => ?_⟩
  obtain ⟨hlegal, ⟨hsatp, hn⟩ | hsaved⟩ := hlive
  · cases kind with
    | chain =>
      have hn' : n = (sp.ledger .chain).next + 1 := hn.trans hroom.toNat_succ
      exact Or.inr ⟨hsatp, by omega, by omega⟩
    | data => exact Or.inl ⟨hlegal, Or.inl ⟨hsatp, hn⟩⟩
  · exact Or.inl ⟨hlegal, Or.inr hsaved⟩

theorem Wf.stash_slots (hwf : sp.Wf) (i : BitVec 7) : (sp.stash i).Placed i := by
  unfold stash
  by_cases hi : i = asidIndex sp.satp.toBits
  · subst hi
    rw [Function.update_self]
    exact Or.inr ⟨sp.satp, hwf.legal, rfl, rfl⟩
  · rw [Function.update_of_ne hi]
    exact hwf.slots i

/-- What the stashed table remembers was live before: for the space put away,
its current generation. -/
theorem Wf.stash_live (hwf : sp.Wf) {i : BitVec 7}
    (hlegal : satp.Legal) (hslot : (sp.stash i).satp = satp.toBits) :
    (sp.ledger kind).live satp ((sp.stash i).gen kind).toNat := by
  refine ⟨hlegal, ?_⟩
  unfold stash at hslot ⊢
  by_cases hi : i = asidIndex sp.satp.toBits
  · subst hi
    rw [Function.update_self] at hslot ⊢
    refine Or.inl ⟨(hwf.legal.eq_of_toBits_eq hlegal hslot).symm, ?_⟩
    cases kind <;> rfl
  · rw [Function.update_of_ne hi] at hslot ⊢
    refine Or.inr ⟨?_, i, hslot, rfl⟩
    -- A remembered space sits where its own register value hashes to.
    rintro rfl
    rcases hwf.slots i with hempty | ⟨other, hother, hbits, hindex⟩
    · exact hlegal.toBits_ne_allOnes (hslot.symm.trans hempty)
    · exact hi (by rw [← hindex, ← hbits, hslot])

theorem writeSatp_same (hwf : sp.Wf) (hsame : sp.satp.toBits = val) : sp.writeSatp val = sp := by
  rw [writeSatp, if_neg (not_not.mpr hsame), ← hsame, Satp.fromBits_toBits hwf.legal]

/-- Selecting a space uses a generation it owned already, or a new one.  Writing
all ones is the exception: it matches an empty slot. -/
theorem writeSatp_advance (hwf : sp.Wf) (hroom : sp.Room)
    (hval : val ≠ BitVec.allOnes 64) (kind : GenKind) :
    (sp.ledger kind).Advance ((sp.writeSatp val).ledger kind) := by
  by_cases hsame : sp.satp.toBits ≠ val
  · unfold writeSatp
    rw [if_pos hsame]
    by_cases hfound : (sp.stash (asidIndex val)).satp = val
    · rw [if_pos hfound]
      refine ⟨Nat.le_refl _, sp.satp, fun satp n hlive => Or.inl ?_⟩
      obtain ⟨hlegal, ⟨hsatp, hn⟩ | ⟨-, i, hslot, hn⟩⟩ := hlive
      · -- The remembered space is the one selected, so its bits are `val`.
        rcases hwf.stash_slots (asidIndex val) with hempty | ⟨other, hother, hbits, -⟩
        · exact absurd (hfound.symm.trans hempty) hval
        have hsatp' : satp = other := by
          rw [hsatp]
          rw [← hfound, hbits, Satp.fromBits_toBits hother]
        rw [hsatp', hn]
        have hlive : (sp.ledger kind).live other _ := hwf.stash_live hother hbits
        cases kind <;> exact hlive
      · rw [hn]
        exact hwf.stash_live hlegal hslot
    · rw [if_neg hfound]
      have hsucc := hroom.toNat_succ
      refine ⟨?_, Satp.fromBits val, fun satp n hlive => ?_⟩
      · change sp.asidGenNext.toNat ≤ (sp.asidGenNext + 1).toNat
        omega
      obtain ⟨hlegal, ⟨hsatp, hn⟩ | ⟨-, i, hslot, hn⟩⟩ := hlive
      · have hn' : n = (sp.asidGenNext + 1).toNat := by
          rw [hn]
          cases kind <;> rfl
        refine Or.inr ⟨hsatp, ?_, Nat.le_of_eq hn'⟩
        rw [hn', hsucc]
        exact Nat.lt_succ_self _
      · refine Or.inl ?_
        rw [hn]
        exact hwf.stash_live hlegal hslot
  · rw [writeSatp_same hwf (not_not.mp hsame)]
    exact ⟨Nat.le_refl _, sp.satp, fun _ _ hlive => Or.inl hlive⟩

theorem writeSatp_satp (sp : Spaces) (val : U64) :
    (sp.writeSatp val).satp = Satp.fromBits val :=
  ite_keep Spaces.satp (ite_keep Spaces.satp rfl rfl) rfl

theorem Wf.writeSatp (hwf : sp.Wf) (hroom : sp.Room) (hval : val ≠ BitVec.allOnes 64) :
    (sp.writeSatp val).Wf where
  legal := by
    rw [writeSatp_satp]
    exact Satp.fromBits_legal val
  slots i := ite_holds (fun sp' : Spaces => (sp'.asidTbl i).Placed i)
    (ite_holds (fun sp' : Spaces => (sp'.asidTbl i).Placed i) (hwf.stash_slots i)
      (hwf.stash_slots i))
    (hwf.slots i)
  ledger kind := (hwf.ledger kind).advance (writeSatp_advance hwf hroom hval kind)

end Spaces

/-- The all-ones value is the mark of an empty slot, and must not be selected. -/
def SpaceOp.Sane (op : SpaceOp) : Prop := op ≠ .satp (BitVec.allOnes 64)

instance (op : SpaceOp) : Decidable op.Sane := inferInstanceAs (Decidable (op ≠ _))

instance : Nonempty Satp := ⟨Satp.default⟩

theorem Spaces.apply_advance (hwf : sp.Wf) (hroom : sp.Room)
    (hsane : op.Sane) (kind : GenKind) : (sp.ledger kind).Advance ((sp.apply op).ledger kind) := by
  cases op with
  | keep => exact Ledger.Advance.refl _
  | satp val => exact writeSatp_advance hwf hroom (fun h => hsane (by rw [h])) kind
  | page va =>
    exact ite_holds (fun sp' : Spaces => (sp.ledger kind).Advance (sp'.ledger kind))
      (by cases kind <;> exact Ledger.Advance.refl _)
      (by cases kind <;> exact @invalidateAll_advance sp hroom _)
  | all => exact invalidateAll_advance hroom kind
  | code => cases kind <;> exact invalidateAll_advance hroom _

theorem Spaces.Wf.apply (hwf : sp.Wf) (hroom : sp.Room) (hsane : op.Sane) : (sp.apply op).Wf := by
  refine ⟨?_, ?_, fun kind =>
    (hwf.ledger kind).advance (Spaces.apply_advance hwf hroom hsane kind)⟩
  · cases op with
    | keep | all | code => exact hwf.legal
    | satp val => exact (hwf.writeSatp hroom fun h => hsane (by rw [h])).legal
    | page va =>
      exact ite_holds (fun sp' : Spaces => sp'.satp.Legal) hwf.legal hwf.legal
  · cases op with
    | keep => exact hwf.slots
    | all | code => exact fun _ => Or.inl rfl
    | satp val => exact (hwf.writeSatp hroom fun h => hsane (by rw [h])).slots
    | page va =>
      exact iteInduction (motive := fun sp' : Spaces => ∀ i, (sp'.asidTbl i).Placed i)
        (fun _ => hwf.slots) (fun _ _ => Or.inl rfl)

/-- A fresh start: nothing remembered and nothing queued. -/
structure Spaces.Reset (sp : Spaces) : Prop where
  legal : sp.satp.Legal
  empty : ∀ i, sp.asidTbl i = AsidSlot.empty
  gen : ∀ kind, sp.gen kind = sp.asidGenNext
  drained : sp.pendingFlush = []

theorem Spaces.Reset.wf (hreset : sp.Reset) : sp.Wf := by
  have hlive : ∀ kind satp n, (sp.ledger kind).live satp n →
      satp = sp.satp ∧ n = sp.asidGenNext.toNat := by
    rintro kind satp n ⟨hlegal, ⟨hsatp, hn⟩ | ⟨-, i, hslot, -⟩⟩
    · exact ⟨hsatp, by rw [hn, hreset.gen]⟩
    · rw [hreset.empty i] at hslot
      exact absurd hslot.symm hlegal.toBits_ne_allOnes
  refine ⟨hreset.legal, fun i => Or.inl (by rw [hreset.empty i]; rfl), fun kind => ?_⟩
  exact ⟨fun h => Nat.le_of_eq (hlive kind _ _ h).2,
    fun hs ht => (hlive kind _ _ hs).1.trans (hlive kind _ _ ht).1.symm⟩

theorem Supervisor.new_reset (pc hartid : U64) :
    (new pc hartid).spaces.Reset where
  legal := Or.inl rfl
  empty _ := rfl
  gen kind := by cases kind <;> rfl
  drained := rfl

end TabLinux

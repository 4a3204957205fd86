/-
What a data access depends on besides the address: the address space and the status
bits that the MMU looks at.  The services of compiled code and CSR writes against it.
-/
import TabLinux.PageFence
import TabLinux.TlbTransparency

namespace TabLinux

variable {s : Supervisor} {mem : Ram}

variable {satp : Satp} {s' : Supervisor}

/-- The effective privilege, SUM and MXR of data accesses; none where they bypass the
MMU. -/
abbrev DataView := Option (Privilege × Bool × Bool)

def Supervisor.dataView (s : Supervisor) : DataView :=
  if s.dataBypass then none
  else
    some (if s.privLevel = .machine then Privilege.ofMpp s.mstatus.mpp else s.privLevel,
      s.mstatus.sum, s.mstatus.mxr)

/-- The answer to a data access, as a function of memory and status. -/
def dataAnswer (mem : Ram) (satp : Satp) (view : DataView)
    (access : AccessType) (vaddr : U64) : Except Trap U64 :=
  match view with
  | none => .ok vaddr
  | some (privLevel, sum, mxr) =>
      (translateAnswer mem satp privLevel sum mxr access vaddr).1

theorem Supervisor.mmuTranslate_answer (hok : TlbSound mem s.satp s.mmu.tlb)
    (privLevel : Privilege) (access : AccessType) (vaddr : U64) :
    (s.mmuTranslate mem privLevel access vaddr).1 =
      (translateAnswer mem s.satp privLevel s.mstatus.sum s.mstatus.mxr access vaddr).1 :=
  congrArg Prod.fst (Mmu.translate_answer hok privLevel s.mstatus.sum s.mstatus.mxr access vaddr)

/-- With a sound TLB, translation depends on the address space and the status only. -/
theorem Supervisor.translate_dataAnswer (hok : TlbSound mem s.satp s.mmu.tlb) (store : Bool)
    (vaddr : U64) :
    (s.translate mem (tlbAccess store) vaddr).1 =
      dataAnswer mem s.satp s.dataView (tlbAccess store) vaddr := by
  have hdata : tlbAccess store ≠ .instruction := by cases store <;> decide
  unfold translate dataView dataBypass
  by_cases hmachine : s.privLevel = .machine
  · rw [if_pos hmachine, if_neg hdata]
    cases hmprv : s.mstatus.mprv with
    | false => simp [hmachine, dataAnswer]
    | true =>
      by_cases hmpp : Privilege.ofMpp s.mstatus.mpp = .machine
      · simp [hmachine, hmpp, dataAnswer]
      simp only [hmachine, hmpp, Bool.not_true, Bool.false_eq_true, if_false, if_true,
        decide_true, decide_false, Bool.or_self, Bool.and_false, dataAnswer]
      exact mmuTranslate_answer hok _ _ _
  · simp only [hmachine, if_false, decide_false, Bool.false_and, Bool.false_eq_true, dataAnswer]
    exact mmuTranslate_answer hok _ _ _

/-- Walks in the address space end alike in both memories. -/
def WalksAlike (satp : Satp) (before after : Ram) : Prop :=
  ∀ privLevel sum mxr access vaddr,
    translateResult after satp privLevel sum mxr access vaddr =
      translateResult before satp privLevel sum mxr access vaddr

theorem WalksAlike.refl (satp : Satp) (mem : Ram) : WalksAlike satp mem mem := fun _ _ _ _ _ => rfl

theorem WalksAlike.trans {mem' mem'' : Ram} (h : WalksAlike satp mem mem')
    (h' : WalksAlike satp mem' mem'') : WalksAlike satp mem mem'' := by
  intro privLevel sum mxr access vaddr
  rw [h' privLevel sum mxr access vaddr, h privLevel sum mxr access vaddr]

theorem WalksAlike.dataAnswer_eq {before after : Ram}
    (halike : WalksAlike satp before after) (view : DataView)
    (access : AccessType) (vaddr : U64) :
    dataAnswer after satp view access vaddr = dataAnswer before satp view access vaddr := by
  rcases view with _ | ⟨privLevel, sum, mxr⟩
  · rfl
  dsimp only [dataAnswer]
  unfold translateAnswer
  rw [halike privLevel sum mxr access vaddr]
  split
  · rfl
  split
  · rfl
  split
  · rfl
  · rfl

/-- A call of the MMU keeps the TLB sound and only grows A and D bits. -/
theorem Supervisor.translate_sound (hok : TlbSound mem s.satp s.mmu.tlb) (access : AccessType)
    (vaddr : U64) :
    TlbSound (s.translate mem access vaddr).2.2 s.satp
        (s.translate mem access vaddr).2.1.mmu.tlb ∧
      mem.AdGrow (s.translate mem access vaddr).2.2 := by
  have hcall : ∀ privLevel, TlbSound (s.mmuTranslate mem privLevel access vaddr).2.2 s.satp
          (s.mmuTranslate mem privLevel access vaddr).2.1.mmu.tlb ∧
        mem.AdGrow (s.mmuTranslate mem privLevel access vaddr).2.2 := by
    intro privLevel
    have hstate : TlbSound (s.mmu, mem).2 s.satp (s.mmu, mem).1.tlb := hok
    exact ⟨MmuCall.apply_sound hstate (.translate privLevel _ _ access vaddr),
      Mmu.translate_adGrow hok privLevel _ _ access vaddr⟩
  unfold translate
  split
  · split
    · exact ⟨hok, Ram.AdGrow.refl mem⟩
    split
    · exact ⟨hok, Ram.AdGrow.refl mem⟩
    split
    · exact ⟨hok, Ram.AdGrow.refl mem⟩
    · exact hcall _
  · exact hcall _

theorem HartEffect.dataView_eq (h : HartEffect s s') : s'.dataView = s.dataView := by
  rw [h]
  rfl

theorem pageHostAddr_rebase {dram : DramWindow} (pa vaddr : U64) :
    dram.pageHostAddr (rebase pa vaddr) = dram.pageHostAddr pa := by
  have hpage : rebase pa vaddr &&& ~~~ 0xFFF#64 = pa &&& ~~~ 0xFFF#64 := by
    apply BitVec.eq_of_getLsbD_eq
    intro i hi
    rw [BitVec.getLsbD_and, BitVec.getLsbD_and, getLsbD_rebase, BitVec.getLsbD_not,
      getLsbD_pageMask]
    by_cases hlow : i < 12
    · simp [hlow]
    · simp [hlow]
  unfold DramWindow.pageHostAddr
  rw [hpage]

theorem TablesKept.refl (satp : Satp) (mem : Ram) : TablesKept satp mem mem := fun _ _ _ _ _ => rfl

/-- A load leaves the memory of its translation. -/
theorem Machine.jitLoad_memory (m : Machine Ram) (width : Width) (addr pc : U64) :
    (m.jitLoad width addr pc).2.cpu.mmu = (m.cpu.translate m.bus .load addr).2.1.mmu ∧
      (m.jitLoad width addr pc).2.bus = (m.cpu.translate m.bus .load addr).2.2 ∧
      (m.jitLoad width addr pc).2.dram = m.dram := by
  unfold jitLoad
  rcases m.cpu.translate m.bus .load addr with ⟨_ | pa, cpu, mem⟩
  · exact ⟨rfl, rfl, rfl⟩
  · exact ⟨rfl, rfl, rfl⟩

theorem Machine.jitStore_memory (m : Machine Ram) (width : Width) (addr val pc : U64) :
    (m.jitStore width addr val pc).cpu.mmu = (m.cpu.translate m.bus .store addr).2.1.mmu ∧
      (m.jitStore width addr val pc).dram = m.dram := by
  unfold jitStore
  rcases m.cpu.translate m.bus .store addr with ⟨_ | pa, cpu, mem⟩
  · exact ⟨rfl, rfl⟩
  · exact ⟨rfl, rfl⟩

/-- Writing a CSR keeps `satp` and the TLB, or flushes the TLB. -/
theorem CsrEffect.tlb_cases {csr : Csr} {val : U64}
    (h : CsrEffect s csr val s') (hlegal : s.satp.Legal) :
    (s'.satp = s.satp ∧ s'.mmu = s.mmu) ∨ s'.mmu = s.mmu.flushTlb := by
  cases h with
  | ignored => exact Or.inl ⟨rfl, rfl⟩
  | fcsr => exact Or.inl ⟨rfl, rfl⟩
  | register _ effect =>
    rw [effect]
    exact Or.inl ⟨rfl, rfl⟩
  | satp _ =>
    by_cases hchanged : s.satp.toBits ≠ val
    · right
      rw [Supervisor.writeSatp, if_pos hchanged]
      exact ite_keep Supervisor.mmu rfl rfl
    · left
      rw [Supervisor.writeSatp, if_neg hchanged, ← not_not.mp hchanged]
      exact ⟨Satp.fromBits_toBits hlegal, rfl⟩

theorem Supervisor.csrAccess_tlbSound (hlegal : s.satp.Legal)
    (hok : TlbSound mem s.satp s.mmu.tlb) (csr : Csr) (rd src : Reg) (val : U64)
    (op : CsrOp) :
    TlbSound mem (s.csrAccess mem csr rd src val op).satp
      (s.csrAccess mem csr rd src val op).mmu.tlb := by
  unfold csrAccess
  split
  · rcases (s.csrWrite_effect csr _).tlb_cases hlegal with ⟨hsatp, hmmu⟩ | hflush
    · rw [hsatp, hmmu]
      exact hok
    · rw [hflush]
      exact TlbSound.flush mem _ _
  · exact hok

end TabLinux

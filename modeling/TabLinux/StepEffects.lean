/-
What one executed instruction can do to the supervisor state.  Apart from the
CSR, return, call, wait and fence instructions, it changes the hart's registers,
the MMU, the FP status field and the reservation, and then may take a trap.
-/
import TabLinux.Step

namespace TabLinux

variable {β : Type*} [Bus β]

variable {s s' s'' : Supervisor}

variable {c : Prop} {csr : Csr}

/-- Branch by branch, when the condition does not look at what `g` replaces. -/
theorem ite_map {γ δ : Type*} (g : γ → δ) [Decidable c] {yes no : γ}
    {yes' no' : δ} (hyes : yes' = g yes) (hno : no' = g no) :
    (if c then yes' else no') = g (if c then yes else no) := by
  split <;> assumption

/-- What both branches have, the choice between them has. -/
theorem ite_holds {γ : Type*} (P : γ → Prop) [Decidable c] {yes no : γ}
    (hyes : P yes) (hno : P no) : P (if c then yes else no) :=
  iteInduction (fun _ => hyes) (fun _ => hno)

theorem ite_keep {γ δ : Type*} (g : γ → δ) [Decidable c] {yes no : γ} {out : δ}
    (hyes : g yes = out) (hno : g no = out) : g (if c then yes else no) = out :=
  ite_holds (g · = out) hyes hno

/-- The hart, the MMU, `mstatus.fs` and the reservation may differ; nothing else
does. -/
def HartEffect (s s' : Supervisor) : Prop :=
  s' = { s with
    cpu := s'.cpu
    mmu := s'.mmu
    mstatus := { s.mstatus with fs := s'.mstatus.fs }
    reservationAddr := s'.reservationAddr }

/-- A hart effect, possibly followed by the delivery of a trap. -/
inductive ExecEffect (s : Supervisor) : Supervisor → Prop
  | quiet {s' : Supervisor} (effect : HartEffect s s') : ExecEffect s s'
  | trap {s' : Supervisor} (effect : HartEffect s s') (trap : Trap)
      (faultVaddr : Option U64) :
      ExecEffect s (s'.takeTrapWithVaddr trap faultVaddr).2

theorem HartEffect.refl (s : Supervisor) : HartEffect s s := rfl

theorem HartEffect.trans (h : HartEffect s s') (h' : HartEffect s' s'') : HartEffect s s'' := by
  rw [HartEffect] at h h'
  rw [h']
  rw [h]
  rfl

theorem HartEffect.cpu (s : Supervisor) (cpu : Cpu) : HartEffect s { s with cpu := cpu } := rfl

namespace Supervisor

theorem translate_effect (s : Supervisor) (bus : β) (access : AccessType)
    (vaddr : U64) : HartEffect s (s.translate bus access vaddr).2.1 := by
  rw [s.translate_state bus access vaddr]
  rfl

theorem settleFs_effect (s : Supervisor) : HartEffect s s.settleFs := by
  unfold settleFs
  split <;> rfl

theorem settleFs_clean (hclean : s.cpu.fsDirty = false) : s.settleFs = s := by
  simp [settleFs, hclean]

theorem takeTrapWithVaddr_fsDirty (s : Supervisor) (trap : Trap) (faultVaddr : Option U64) :
    (s.takeTrapWithVaddr trap faultVaddr).2.cpu.fsDirty = s.cpu.fsDirty := by
  unfold takeTrapWithVaddr
  split <;> rfl

theorem delegates_congr (trap : Trap) (hmedeleg : s'.medeleg = s.medeleg)
    (hmideleg : s'.mideleg = s.mideleg) : s'.delegates trap = s.delegates trap := by
  unfold delegates
  rw [hmedeleg, hmideleg]

/-- Settling the FP status commutes with the delivery of a trap, which touches
neither it nor the dirty flag. -/
theorem settleFs_takeTrap (s : Supervisor) (trap : Trap) (faultVaddr : Option U64) :
    (s.takeTrapWithVaddr trap faultVaddr).2.settleFs =
      (s.settleFs.takeTrapWithVaddr trap faultVaddr).2 := by
  cases hdirty : s.cpu.fsDirty with
  | false =>
    rw [settleFs_clean hdirty,
      settleFs_clean ((s.takeTrapWithVaddr_fsDirty trap faultVaddr).trans hdirty)]
  | true =>
    have hdelegates : s.settleFs.delegates trap = s.delegates trap := by
      apply delegates_congr <;> simp [settleFs, hdirty]
    have hpriv : s.settleFs.privLevel = s.privLevel := by simp [settleFs, hdirty]
    unfold takeTrapWithVaddr
    rw [hdelegates, hpriv]
    split <;> simp [settleFs, hdirty, trapToSupervisor, trapToMachine]

end Supervisor

theorem ExecEffect.settleFs (h : ExecEffect s s') : ExecEffect s s'.settleFs := by
  cases h with
  | quiet effect => exact .quiet (effect.trans s'.settleFs_effect)
  | trap effect trap faultVaddr =>
    rw [Supervisor.settleFs_takeTrap]
    exact .trap (effect.trans (Supervisor.settleFs_effect _)) trap faultVaddr

namespace Supervisor

theorem takeTrap_effect (s : Supervisor) (trap : Trap) : ExecEffect s (s.takeTrap trap).2 :=
  .trap (.refl s) trap none

/-- A memory access that only changes the hart either does so or traps. -/
theorem withPaddr_effect (s : Supervisor) (bus : β) (access : AccessType)
    (vaddr : U64) (next : Supervisor → β → U64 → Supervisor × β)
    (hnext : ∀ s bus paddr, HartEffect s (next s bus paddr).1) :
    ExecEffect s (s.withPaddr bus access vaddr next).2.1 := by
  have htranslate := s.translate_effect bus access vaddr
  unfold withPaddr
  rcases hres : s.translate bus access vaddr with ⟨_ | paddr, s', bus'⟩ <;> rw [hres] at htranslate
  · exact .trap htranslate _ (some vaddr)
  · exact .quiet (htranslate.trans (hnext s' bus' paddr))

theorem commitSc_effect (s : Supervisor) (bus : β) (aw : AtomicWidth)
    (granule : U64) (rd rs2 : Reg) (width paddr : U64) :
    HartEffect s (s.commitSc bus aw granule rd rs2 width paddr).1 := by
  unfold commitSc
  split <;> rfl

end Supervisor

section

variable [FloatOps]

/-- How an instruction ends that does not reach privileged state by a path of its
own. -/
inductive HartOutcome (s : Supervisor) (bus : β) : Status × Supervisor × β → Prop
  | refused (cause : Exception) : HartOutcome s bus
        ((s.takeTrap (.exception cause)).1, (s.takeTrap (.exception cause)).2, bus)
  | memory (access : AccessType) (vaddr : U64)
      (next : Supervisor → β → U64 → Supervisor × β)
      (effect : ∀ s bus paddr, HartEffect s (next s bus paddr).1)
      (fixed : ∀ s bus paddr, (next s bus paddr).1.cpu.fixed = s.cpu.fixed) :
      HartOutcome s bus (s.withPaddr bus access vaddr next)
  | base (instr : Instr) (width : U64) :
      HartOutcome s bus ((executeWidth s.cpu instr width bus).1,
        { s with cpu := (executeWidth s.cpu instr width bus).2.1 },
        (executeWidth s.cpu instr width bus).2.2)
  | settled {out : Status × Supervisor × β} (h : HartOutcome s bus out) :
      HartOutcome s bus (out.1, out.2.1.settleFs, out.2.2)

theorem HartOutcome.effect {bus : β} {out : Status × Supervisor × β}
    (h : HartOutcome s bus out) : ExecEffect s out.2.1 := by
  induction h with
  | refused cause => exact s.takeTrap_effect _
  | memory access vaddr next effect fixed => exact s.withPaddr_effect bus access vaddr next effect
  | base instr width => exact .quiet (.cpu s _)
  | settled h ih => exact ih.settleFs

theorem Supervisor.executeBase_hart (s : Supervisor) (instr : Instr) (width : U64)
    (bus : β) : HartOutcome s bus (s.executeBase instr width bus) := by
  unfold executeBase
  split
  · exact .refused _
  split
  · have htranslated : HartOutcome s bus (s.executeTranslated instr width bus) := by
      cases instr
      case load | amo =>
        dsimp only [executeTranslated]
        refine .memory _ _ _ (fun _ _ _ => ?_) (fun s _ _ => ?_)
        · rfl
        · exact s.cpu.writeReg_fixed _ _
      case store | fload | fstore =>
        dsimp only [executeTranslated]
        refine .memory _ _ _ (fun _ _ _ => ?_) (fun _ _ _ => ?_) <;> rfl
      all_goals exact .refused _
    exact htranslated.settled
  · exact .settled (.base instr width)

end

/-- The translation and decode caches, the generations and the flush queue may
differ; nothing else does. -/
def CacheEffect (s s' : Supervisor) : Prop :=
  s' = { s with
    mmu := s'.mmu
    fetchVpn := s'.fetchVpn
    fetchPriv := s'.fetchPriv
    fetchPpn := s'.fetchPpn
    transGen := s'.transGen
    dataTransGen := s'.dataTransGen
    asidTbl := s'.asidTbl
    asidGenNext := s'.asidGenNext
    pendingFlush := s'.pendingFlush
    icacheGen := s'.icacheGen
    dcache := s'.dcache }

namespace CacheEffect

variable (h : CacheEffect s s')
include h

theorem trans (h' : CacheEffect s' s'') : CacheEffect s s'' := by
  rw [CacheEffect] at h h'
  rw [h']
  rw [h]
  rfl

theorem cpu_eq : s'.cpu = s.cpu := by
  rw [h]

theorem privLevel_eq : s'.privLevel = s.privLevel := by
  rw [h]

theorem mstatus_eq : s'.mstatus = s.mstatus := by
  rw [h]

end CacheEffect

/-- Fetching changes the MMU, the fetch-page cache and the decode cache only. -/
def FetchEffect (s s' : Supervisor) : Prop :=
  s' = { s with
    mmu := s'.mmu
    fetchVpn := s'.fetchVpn
    fetchPriv := s'.fetchPriv
    fetchPpn := s'.fetchPpn
    dcache := s'.dcache }

theorem FetchEffect.refl (s : Supervisor) : FetchEffect s s := rfl

theorem FetchEffect.trans (h : FetchEffect s s') (h' : FetchEffect s' s'') : FetchEffect s s'' := by
  rw [FetchEffect] at h h'
  rw [h']
  rw [h]
  rfl

theorem FetchEffect.cacheEffect (h : FetchEffect s s') : CacheEffect s s' := by
  rw [h]
  rfl

namespace Supervisor

variable (s : Supervisor)

theorem translate_fetchEffect (bus : β) (access : AccessType)
    (vaddr : U64) : FetchEffect s (s.translate bus access vaddr).2.1 := by
  rw [s.translate_state bus access vaddr]
  rfl

theorem switchAddressSpace_effect (old new : U64) :
    CacheEffect s (s.switchAddressSpace old new) :=
  ite_holds (CacheEffect s) rfl rfl

theorem writeSatp_effect (val : U64) :
    CacheEffect { s with satp := Satp.fromBits val } (s.writeSatp val) := by
  refine ite_holds (CacheEffect { s with satp := Satp.fromBits val }) ?_ rfl
  refine CacheEffect.trans ?_ (switchAddressSpace_effect _ _ _)
  rfl

theorem sfenceVma_effect (rs1 : Reg) : CacheEffect s (s.sfenceVma rs1) :=
  ite_holds (CacheEffect s) (ite_holds (CacheEffect s) rfl rfl) rfl

theorem fetchTranslate_effect (bus : β)
    (vaddr : U64) : FetchEffect s (s.fetchTranslate bus vaddr).2.1 := by
  have htranslate := s.translate_fetchEffect bus .instruction vaddr
  unfold fetchTranslate
  split
  · rfl
  rcases hres : s.translate bus .instruction vaddr with ⟨_ | paddr, s', bus'⟩ <;>
    rw [hres] at htranslate
  · exact htranslate
  · exact htranslate.trans rfl

theorem fetchUpperHalf_effect (bus : β)
    (loPaddr : U64) : FetchEffect s (s.fetchUpperHalf bus loPaddr).2.1 := by
  have htranslate := s.translate_fetchEffect bus .instruction (s.cpu.pc + 2)
  unfold fetchUpperHalf
  split
  · rfl
  · rcases hres : s.translate bus .instruction (s.cpu.pc + 2) with ⟨_ | paddr, s', bus'⟩ <;>
      rw [hres] at htranslate <;> exact htranslate

theorem fetchDecode_effect (bus : β) (paddr : U64) :
    FetchEffect s (s.fetchDecode bus paddr).2.1 := by
  unfold fetchDecode
  rcases readU16 bus paddr with ⟨half, bus⟩
  have hupper := s.fetchUpperHalf_effect bus paddr
  dsimp only
  by_cases hwide : half &&& 3 ≠ 3
  · rw [if_pos hwide]
    cases decompress half with
    | some instr => exact .refl s
    | none => exact hupper
  · rw [if_neg hwide]
    rcases hres : s.fetchUpperHalf bus paddr with ⟨_ | hi, s', bus'⟩ <;>
      rw [hres] at hupper <;> exact hupper

theorem fetch_effect (bus : β) : FetchEffect s (s.fetch bus).2.1 := by
  have htranslate := s.fetchTranslate_effect bus s.cpu.pc
  unfold fetch
  rcases hres : s.fetchTranslate bus s.cpu.pc with ⟨_ | paddr, s', bus'⟩ <;> rw [hres] at htranslate
  · exact htranslate
  have hdecode := s'.fetchDecode_effect bus' paddr
  simp only
  cases s'.dcacheHit paddr with
  | some fetched => exact htranslate
  | none =>
    rcases hres' : s'.fetchDecode bus' paddr with ⟨_ | fetched, s'', bus''⟩ <;>
      rw [hres'] at hdecode
    · exact htranslate.trans hdecode
    · exact (htranslate.trans hdecode).trans rfl

end Supervisor

/-- The CSR registers, `satp` apart, and the flags that go with the counters may
differ; nothing else does. -/
def RegisterEffect (s s' : Supervisor) : Prop :=
  s' = { s with
    mstatus := s'.mstatus
    mie := s'.mie
    mip := s'.mip
    mtvec := s'.mtvec
    mepc := s'.mepc
    mcause := s'.mcause
    mtval := s'.mtval
    mscratch := s'.mscratch
    medeleg := s'.medeleg
    mideleg := s'.mideleg
    stvec := s'.stvec
    sepc := s'.sepc
    scause := s'.scause
    stval := s'.stval
    sscratch := s'.sscratch
    stimecmp := s'.stimecmp
    mcycle := s'.mcycle
    minstret := s'.minstret
    pmpcfg := s'.pmpcfg
    pmpaddr := s'.pmpaddr
    wroteMcycle := s'.wroteMcycle
    wroteMinstret := s'.wroteMinstret }

/-- The lowest privilege that may access a CSR, as its number encodes it. -/
def csrPriv (csr : Csr) : BitVec 2 := csr.extractLsb' 8 2

/-- User mode gets past the checks with unprivileged CSRs only. -/
theorem Supervisor.csrPriv_of_not_denied {op : CsrOp} {src : Reg}
    (huser : s.privLevel = .user) (hallowed : s.csrDenied csr op src = false) :
    csrPriv csr = 0 := by
  simp only [csrDenied, huser, Bool.or_eq_false_iff] at hallowed
  have hlevel := hallowed.1.1
  simp only [Privilege.bits, BitVec.ult_eq_decide, decide_eq_false_iff_not] at hlevel
  unfold csrPriv
  bv_omega

/-- What writing a CSR can do. -/
inductive CsrEffect (s : Supervisor) (csr : Csr) (val : U64) :
    Supervisor → Prop
  | ignored : CsrEffect s csr val s
  | fcsr (fcsr : U64) (hcsr : csr = 0x001 ∨ csr = 0x002 ∨ csr = 0x003) :
      CsrEffect s csr val (s.writeFcsr fcsr)
  | register {s' : Supervisor} (hpriv : csrPriv csr ≠ 0) (effect : RegisterEffect s s') :
      CsrEffect s csr val s'
  | satp (hcsr : csr = 0x180) : CsrEffect s csr val (s.writeSatp val)

theorem csrPriv_of_mem_range {lo hi : BitVec 12}
    (hcsr : (decide (lo ≤ csr) && decide (csr ≤ hi)) = true)
    (hlo : 0x300#12 ≤ lo) (hhi : hi < 0x400#12) : csrPriv csr = 3 := by
  apply BitVec.eq_of_toNat_eq
  have hvalue : (csrPriv csr).toNat = csr.toNat / 256 % 4 := by
    simp [csrPriv, BitVec.extractLsb'_toNat, Nat.shiftRight_eq_div_pow]
  rw [hvalue]
  simp only [Bool.and_eq_true, decide_eq_true_eq] at hcsr
  bv_omega

theorem Supervisor.csrWrite_effect (s : Supervisor) (csr : Csr) (val : U64) :
    CsrEffect s csr val (s.csrWrite csr val) := by
  unfold csrWrite
  repeat' with_reducible
    refine iteInduction (motive := CsrEffect s csr val) (fun hif => ?_) (fun _ => ?_)
  all_goals first
    | exact .ignored
    | exact .fcsr _ (by simp [hif])
    | exact .satp hif
    | exact .register (by subst hif; decide) rfl
    | exact .register (by rw [csrPriv_of_mem_range hif (by decide) (by decide)]; decide) rfl

/-- The instruction reaches privileged state by a path of its own and no check
stops it. -/
def Supervisor.takesOwnPath (s : Supervisor) : Instr → Bool
  | .csrReg op _ rs1 csr => !s.csrDenied csr op rs1
  | .csrImm op _ zimm csr => !s.csrDenied csr op zimm
  | .ecall => s.sbiEnabled && s.privLevel = .supervisor
  | .mret => true
  | .sret => !s.trappedBy s.mstatus.tsr
  | .wfi => !s.trappedBy s.mstatus.tw
  | .sfenceVma _ _ => !s.trappedBy s.mstatus.tvm
  | _ => false

/-- What executing an instruction leaves behind, one constructor for each way
to reach privileged state. -/
inductive ExecOutcome (s : Supervisor) (bus : β) (width : U64) :
    Instr → Supervisor → Prop
  | hart {instr : Instr} {s' : Supervisor} (hpath : s.takesOwnPath instr = false)
      (effect : ExecEffect s s') : ExecOutcome s bus width instr s'
  | csrReg {op : CsrOp} {rd rs1 : Reg} {csr : Csr}
      (hallowed : s.csrDenied csr op rs1 = false) :
      ExecOutcome s bus width (.csrReg op rd rs1 csr)
        { s.csrAccess bus csr rd rs1 (s.cpu.readReg rs1) op with
          cpu := (s.csrAccess bus csr rd rs1 (s.cpu.readReg rs1) op).cpu.advance width }
  | csrImm {op : CsrOp} {rd zimm : Reg} {csr : Csr}
      (hallowed : s.csrDenied csr op zimm = false) :
      ExecOutcome s bus width (.csrImm op rd zimm csr)
        { s.csrAccess bus csr rd zimm (zimm.setWidth 64) op with
          cpu := (s.csrAccess bus csr rd zimm (zimm.setWidth 64) op).cpu.advance width }
  | sbi (hpriv : s.privLevel = .supervisor) : ExecOutcome s bus width .ecall (s.sbiCall bus width).1
  | mret : ExecOutcome s bus width .mret s.doMret.2
  | sret (hallowed : s.trappedBy s.mstatus.tsr = false) : ExecOutcome s bus width .sret s.doSret.2
  | wait (hallowed : s.trappedBy s.mstatus.tw = false) :
      ExecOutcome s bus width .wfi (s.waitForInterrupt bus width).2
  | fence {rs1 rs2 : Reg} (hallowed : s.trappedBy s.mstatus.tvm = false) :
      ExecOutcome s bus width (.sfenceVma rs1 rs2)
        { s.sfenceVma rs1 with cpu := (s.sfenceVma rs1).cpu.advance width }

section

variable [FloatOps]

variable {instr : Instr}

theorem Supervisor.executeSupervisor_hart (hpath : s.takesOwnPath instr = false)
    (width : U64) (bus : β) : HartOutcome s bus (s.executeSupervisor instr width bus) := by
  have hcsr : ∀ csr rd src val op, (!s.csrDenied csr op src) = false →
      HartOutcome s bus ((s.csrOp bus csr rd src val op width).1,
        (s.csrOp bus csr rd src val op width).2, bus) := by
    intro csr rd src val op hdenied
    rw [csrOp, if_pos (by simpa using hdenied)]
    exact .refused _
  have hguarded : ∀ (c : Bool) (out : Status × Supervisor × β), (!c) = false →
      HartOutcome s bus (if c then ((s.takeTrap (.exception .illegalInstruction)).1,
        (s.takeTrap (.exception .illegalInstruction)).2, bus) else out) := by
    intro c out htrapped
    rw [if_pos (by simpa using htrapped)]
    exact .refused _
  cases instr
  case csrReg | csrImm => exact hcsr _ _ _ _ _ hpath
  case ecall =>
    simp only [takesOwnPath] at hpath
    simp only [executeSupervisor, hpath]
    exact .refused _
  case mret => cases hpath
  case sret | wfi | sfenceVma => exact hguarded _ _ hpath
  case ebreak => exact .refused _
  case lr =>
    dsimp only [executeSupervisor, loadReserved]
    refine .memory _ _ _ (fun _ _ _ => ?_) (fun s _ _ => ?_)
    · rfl
    · exact s.cpu.writeReg_fixed _ _
  case sc =>
    refine .memory _ _ _ (fun s bus paddr => s.commitSc_effect bus _ _ _ _ width paddr) ?_
    intro s bus paddr
    exact ite_keep (fun out : Supervisor × β => out.1.cpu.fixed) (s.cpu.writeReg_fixed _ _)
      (s.cpu.writeReg_fixed _ _)
  all_goals exact s.executeBase_hart _ width bus

/-- Past its check, an instruction with a path of its own does not trap, but for a
`wfi` that finds an interrupt. -/
theorem Supervisor.executeSupervisor_own (hpath : s.takesOwnPath instr = true)
    (width : U64) (bus : β) :
    ExecOutcome s bus width instr (s.executeSupervisor instr width bus).2.1 ∧
      (instr ≠ .wfi → (s.executeSupervisor instr width bus).1 = .running) := by
  have hfalse : ∀ {c : Bool}, (!c) = true → c = false := by simp
  cases instr
  case csrReg | csrImm =>
    have hallowed := hfalse hpath
    simp only [executeSupervisor, csrOp, hallowed]
    first
      | exact ⟨.csrReg hallowed, fun _ => rfl⟩
      | exact ⟨.csrImm hallowed, fun _ => rfl⟩
  case ecall =>
    simp only [takesOwnPath] at hpath
    simp only [executeSupervisor, hpath]
    exact ⟨.sbi (of_decide_eq_true (Bool.and_eq_true_iff.mp hpath).2), fun _ => rfl⟩
  case mret => exact ⟨.mret, fun _ => rfl⟩
  case sret =>
    have hallowed := hfalse hpath
    simp only [executeSupervisor, hallowed]
    exact ⟨.sret hallowed, fun _ => rfl⟩
  case wfi =>
    have hallowed := hfalse hpath
    simp only [executeSupervisor, hallowed]
    exact ⟨.wait hallowed, fun h => absurd rfl h⟩
  case sfenceVma =>
    have hallowed := hfalse hpath
    simp only [executeSupervisor, hallowed]
    exact ⟨.fence hallowed, fun _ => rfl⟩
  all_goals cases hpath

theorem Supervisor.executeSupervisor_outcome (s : Supervisor) (instr : Instr)
    (width : U64) (bus : β) :
    ExecOutcome s bus width instr (s.executeSupervisor instr width bus).2.1 := by
  cases hpath : s.takesOwnPath instr with
  | false => exact .hart hpath (executeSupervisor_hart hpath width bus).effect
  | true => exact (executeSupervisor_own hpath width bus).1

end

theorem Supervisor.flushedFor_effect (s : Supervisor) (instr : Instr) :
    CacheEffect s (s.flushedFor instr) :=
  ite_holds (CacheEffect s) rfl rfl

omit [Bus β] in
theorem Supervisor.deliver_cases (s : Supervisor) (status : Status) (bus : β) :
    (∃ trap, (s.deliver status bus).2 = ((s.takeTrap trap).2, bus)) ∨
      (s.deliver status bus).2 = (s, bus) := by
  cases status with
  | running => exact Or.inr rfl
  | wfi => exact Or.inr rfl
  | trap cause =>
    unfold deliver
    dsimp only
    split
    · exact Or.inr rfl
    · exact Or.inl ⟨cause, rfl⟩

/-- The instruction executed after the poll, where no interrupt or fetch fault
comes first. -/
def Supervisor.polledInstr (s : Supervisor) (bus : β) : Option Instr :=
  match s.checkInterrupts with
  | some _ => none
  | none =>
      match (s.fetch bus).1 with
      | .error _ => none
      | .ok (instr, _) => some instr

/-- The instruction a step executes, if any. -/
def Supervisor.stepInstr (s : Supervisor) (bus : β) : Option Instr :=
  (s.pollDevices bus).polledInstr bus

section

variable [FloatOps]

/-- A step delivers a trap instead of an instruction, or executes the fetched
one in a state that differs in its caches only. -/
theorem Supervisor.step_cases (s : Supervisor) (bus : β) :
    (s.stepInstr bus = none ∧
      ∃ s' trap faultVaddr, FetchEffect (s.pollDevices bus) s' ∧
        (s.step bus).2.1 = (s'.takeTrapWithVaddr trap faultVaddr).2) ∨
    ∃ instr width s' bus', s.stepInstr bus = some instr ∧
      FetchEffect (s.pollDevices bus) s' ∧ s.step bus = s'.finishStep instr width bus' := by
  have hfetch := (s.pollDevices bus).fetch_effect bus
  unfold step stepPolled stepInstr polledInstr
  cases (s.pollDevices bus).checkInterrupts with
  | some trap => exact Or.inl ⟨rfl, _, trap, none, .refl _, rfl⟩
  | none =>
    rcases hres : (s.pollDevices bus).fetch bus with ⟨⟨trap, vaddr⟩ | ⟨instr, width⟩, s', bus'⟩ <;>
      rw [hres] at hfetch
    · exact Or.inl ⟨rfl, s', trap, vaddr, hfetch, rfl⟩
    · exact Or.inr ⟨instr, width, s', bus', rfl, hfetch, rfl⟩

end

/-- Machine mode without `mprv` translates nothing, and there the translated
interpreter does what the plain one does. -/
theorem Supervisor.executeTranslated_plain [FloatOps] (hmachine : s.privLevel = .machine)
    (hmprv : s.mstatus.mprv = false) {instr : Instr} (hinstr : instr.isTranslated = true)
    (width : U64) (bus : β) :
    s.executeTranslated instr width bus =
      ((executeWidth s.cpu instr width bus).1,
        { s with cpu := (executeWidth s.cpu instr width bus).2.1 },
        (executeWidth s.cpu instr width bus).2.2) := by
  have htranslate : ∀ access vaddr, s.translate bus access vaddr = (.ok vaddr, s, bus) := by
    intro access vaddr
    simp [translate, hmachine, hmprv]
  cases instr
  case load | store | fload | fstore | amo =>
    simp only [executeTranslated, LoadOp.translated_eq, Width.translated_eq, FWidth.translated_eq,
      FWidth.translatedStore_eq, AmoOp.translated_eq, withPaddr, htranslate, executeWidth,
      executeAmo]
  all_goals cases hinstr

/-- `amominu.w x1, x2, (x0)` after a reset. -/
theorem Supervisor.executeTranslated_plain_amo :
    letI := FloatOps.zero
    let out := (Supervisor.new 0 0).executeTranslated (.amo .minu .w 1 0 2 false false) 4
      (Ram.ofWords [])
    out.1 = .running ∧ out.2.1.cpu.pc = 4 :=
  letI := FloatOps.zero
  have h := @executeTranslated_plain Ram _ (new 0 0) _ rfl rfl (.amo .minu .w 1 0 2 false false)
    rfl 4 (Ram.ofWords [])
  ⟨congrArg (·.1) h, congrArg (·.2.1.cpu.pc) h⟩

end TabLinux

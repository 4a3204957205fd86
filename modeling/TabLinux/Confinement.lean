/-
Confinement of the lower privilege levels: what a step that takes no trap can do
to privileged state.  The return instructions are not checked against the
current privilege, so confinement holds exactly where they happen to be
harmless.
-/
import TabLinux.StepEffects

namespace TabLinux

variable {β : Type*} [Bus β]

variable {s s' : Supervisor}

variable {csr : Csr} {val : U64}

/-- The bits of `mip` that the devices drive. -/
def deviceMip : U64 := 1#64 <<< 5 ||| 1#64 <<< 9

/-- The privilege level and the CSRs, without `mstatus.fs`, `fcsr`, the device
bits of `mip` and the counters. -/
structure PrivView where
  privLevel : Privilege
  mstatus : MStatus
  mie : U64
  mip : U64
  mtvec : U64
  mepc : U64
  mcause : U64
  mtval : U64
  mscratch : U64
  medeleg : U64
  mideleg : U64
  stvec : U64
  sepc : U64
  scause : U64
  stval : U64
  sscratch : U64
  satp : Satp
  stimecmp : U64
  pmpcfg : BitVec 4 → U64
  pmpaddr : BitVec 6 → U64
  mhartid : U64

def Supervisor.privView (s : Supervisor) : PrivView where
  privLevel := s.privLevel
  mstatus := { s.mstatus with fs := 0 }
  mie := s.mie
  mip := s.mip &&& ~~~ deviceMip
  mtvec := s.mtvec
  mepc := s.mepc
  mcause := s.mcause
  mtval := s.mtval
  mscratch := s.mscratch
  medeleg := s.medeleg
  mideleg := s.mideleg
  stvec := s.stvec
  sepc := s.sepc
  scause := s.scause
  stval := s.stval
  sscratch := s.sscratch
  satp := s.satp
  stimecmp := s.stimecmp
  pmpcfg := s.pmpcfg
  pmpaddr := s.pmpaddr
  mhartid := s.mhartid

/-- A step from `s` to `s'` that takes no trap leaves user mode's view of
privileged state alone, and does not lead from supervisor to machine mode. -/
def Confined (s s' : Supervisor) : Prop :=
  (s.privLevel = .user → s'.trapDelivered = false → s'.privView = s.privView) ∧
    (s.privLevel = .supervisor → s'.trapDelivered = false → s'.privLevel ≠ .machine)

/-- A trap was taken, or neither the trap flag nor privileged state changed. -/
def TrapOrKeeps (s s' : Supervisor) : Prop :=
  s'.trapDelivered = true ∨ (s'.trapDelivered = s.trapDelivered ∧ s'.privView = s.privView)

theorem HartEffect.privView_eq (h : HartEffect s s') : s'.privView = s.privView := by
  rw [h]
  rfl

theorem HartEffect.trapDelivered_eq (h : HartEffect s s') : s'.trapDelivered = s.trapDelivered := by
  rw [h]

theorem ExecEffect.trapOrKeeps (h : ExecEffect s s') : TrapOrKeeps s s' := by
  cases h with
  | quiet effect => exact Or.inr ⟨effect.trapDelivered_eq, effect.privView_eq⟩
  | trap effect trap faultVaddr =>
    exact Or.inl (Supervisor.takeTrapWithVaddr_delivered _ trap faultVaddr)

theorem CacheEffect.privView_eq (h : CacheEffect s s') : s'.privView = s.privView := by
  rw [h]
  rfl

theorem CacheEffect.trapDelivered_eq (h : CacheEffect s s') :
    s'.trapDelivered = s.trapDelivered := by
  rw [h]

/-- The CSRs that user mode may name are the floating-point ones and the
read-only counters: writing one changes the hart only. -/
theorem CsrEffect.hartEffect (h : CsrEffect s csr val s')
    (hpriv : csrPriv csr = 0) : HartEffect s s' := by
  cases h with
  | ignored => exact .refl s
  | fcsr => rfl
  | register hreg => exact absurd hpriv hreg
  | satp hcsr => subst hcsr; exact absurd hpriv (by decide)

namespace Supervisor

variable (s : Supervisor) (bus : β)

theorem csrAccess_unprivileged (csr : Csr)
    (rd src : Reg) (val : U64) (op : CsrOp) (hpriv : csrPriv csr = 0) :
    HartEffect s (s.csrAccess bus csr rd src val op) := by
  refine HartEffect.trans ?_ (HartEffect.cpu _ _)
  exact ite_holds (HartEffect s) ((s.csrWrite_effect csr _).hartEffect hpriv) (.refl s)

theorem pollNow_privView : (s.pollNow bus).privView = s.privView := by
  have htimer := putBit_and_of_getLsbD (show 5 < 64 by decide)
    (show (~~~ deviceMip).getLsbD 5 = false by decide)
  have hexternal := putBit_and_of_getLsbD (show 9 < 64 by decide)
    (show (~~~ deviceMip).getLsbD 9 = false by decide)
  simp only [pollNow, syncDeviceInterrupts, privView, htimer, hexternal]

theorem waitForInterrupt_trapOrKeeps (width : U64) : TrapOrKeeps s
    (s.waitForInterrupt bus width).2 := by
  unfold waitForInterrupt park
  split
  · exact Or.inl (takeTrapWithVaddr_delivered _ _ _)
  · exact Or.inr ⟨rfl, s.pollNow_privView bus⟩

end Supervisor

variable {bus : β} {width : U64} {instr : Instr}

/-- In user mode every instruction but the two returns traps or keeps privileged
state. -/
theorem ExecOutcome.trapOrKeeps (h : ExecOutcome s bus width instr s')
    (huser : s.privLevel = .user) (hmret : instr ≠ .mret) (hsret : instr ≠ .sret) :
    TrapOrKeeps s s' := by
  cases h with
  | hart hpath effect => exact effect.trapOrKeeps
  | csrReg hallowed | csrImm hallowed =>
    have hpriv := Supervisor.csrPriv_of_not_denied huser hallowed
    refine (ExecEffect.quiet (HartEffect.trans ?_ (HartEffect.cpu _ _))).trapOrKeeps
    exact s.csrAccess_unprivileged bus _ _ _ _ _ hpriv
  | sbi hpriv => cases hpriv.symm.trans huser
  | mret => exact absurd rfl hmret
  | sret hallowed => exact absurd rfl hsret
  | wait hallowed => exact s.waitForInterrupt_trapOrKeeps bus width
  | @fence rs1 rs2 hallowed =>
    have hfence := s.sfenceVma_effect rs1
    exact Or.inr ⟨hfence.trapDelivered_eq, hfence.privView_eq⟩

/-- A trap was taken, or the privilege level did not change. -/
def TrapOrSamePriv (s s' : Supervisor) : Prop :=
  s'.trapDelivered = true ∨ s'.privLevel = s.privLevel

/-- A trap was taken, or the hart is not in machine mode. -/
def TrapOrBelow (s' : Supervisor) : Prop :=
  s'.trapDelivered = true ∨ s'.privLevel ≠ .machine

theorem TrapOrKeeps.samePriv (h : TrapOrKeeps s s') : TrapOrSamePriv s s' :=
  h.imp_right fun hkeeps => congrArg PrivView.privLevel hkeeps.2

theorem CsrEffect.privLevel_eq (h : CsrEffect s csr val s') : s'.privLevel = s.privLevel := by
  cases h with
  | ignored => rfl
  | fcsr => rfl
  | register _ effect => rw [effect]
  | satp => rw [s.writeSatp_effect val]

/-- In supervisor mode every instruction but `mret` traps or stays out of machine
mode. -/
theorem ExecOutcome.trapOrBelow (h : ExecOutcome s bus width instr s')
    (hsup : s.privLevel = .supervisor) (hmret : instr ≠ .mret) : TrapOrBelow s' := by
  have hstay : ∀ {s'}, TrapOrSamePriv s s' → TrapOrBelow s' := fun h =>
    h.imp_right fun hpriv => by rw [hpriv, hsup]; decide
  cases h with
  | hart hpath effect => exact hstay effect.trapOrKeeps.samePriv
  | csrReg hallowed | csrImm hallowed =>
    exact hstay (Or.inr (ite_keep Supervisor.privLevel ((s.csrWrite_effect _ _).privLevel_eq) rfl))
  | sbi hpriv => exact hstay (Or.inr rfl)
  | mret => exact absurd rfl hmret
  | sret hallowed =>
    refine Or.inr ?_
    simp only [Supervisor.doSret]
    cases s.mstatus.spp <;> decide
  | wait hallowed => exact hstay (s.waitForInterrupt_trapOrKeeps bus width).samePriv
  | @fence rs1 rs2 hallowed =>
    exact hstay (Or.inr (congrArg PrivView.privLevel (s.sfenceVma_effect rs1).privView_eq))

theorem TrapOrKeeps.trans {s'' : Supervisor} (h : TrapOrKeeps s s') (h' : TrapOrKeeps s' s'') :
    TrapOrKeeps s s'' := by
  rcases h' with htrap | ⟨hflag, hview⟩
  · exact Or.inl htrap
  rcases h with htrap | ⟨hflag', hview'⟩
  · exact Or.inl (hflag.trans htrap)
  · exact Or.inr ⟨hflag.trans hflag', hview.trans hview'⟩

theorem TrapOrKeeps.below (h : TrapOrKeeps s s') (hbelow : TrapOrBelow s) : TrapOrBelow s' := by
  rcases h with htrap | ⟨hflag, hview⟩
  · exact Or.inl htrap
  · have hpriv : s'.privLevel = s.privLevel := congrArg PrivView.privLevel hview
    exact hbelow.imp (fun htrap => hflag.trans htrap) (fun hne => by rwa [hpriv])

theorem CacheEffect.trapOrKeeps (h : CacheEffect s s') : TrapOrKeeps s s' :=
  Or.inr ⟨h.trapDelivered_eq, h.privView_eq⟩

theorem Supervisor.pollDevices_privView (s : Supervisor) (bus : β) :
    (s.pollDevices bus).privView = s.privView :=
  ite_keep Supervisor.privView (pollNow_privView _ bus) rfl

theorem Supervisor.pollDevices_trapDelivered (s : Supervisor) (bus : β) :
    (s.pollDevices bus).trapDelivered = false :=
  ite_keep Supervisor.trapDelivered rfl rfl

theorem Supervisor.pollDevices_mstatus (s : Supervisor) (bus : β) :
    (s.pollDevices bus).mstatus = s.mstatus :=
  ite_keep Supervisor.mstatus rfl rfl

theorem Privilege.ofMpp_eq_machine_iff (mpp : BitVec 2) : ofMpp mpp = .machine ↔ mpp = 3 := by
  revert mpp
  decide

/-- The return instruction, executed in this state, would not leave the privilege
level it is meant to be confined to. -/
def Supervisor.harmlessReturn (s : Supervisor) (instr : Instr) : Bool :=
  match instr, s.privLevel with
  | .mret, .user => s.mstatus.mpp = 0 && s.mstatus.mpie && s.mstatus.mie
  | .sret, .user => !s.mstatus.spp && s.mstatus.spie && s.mstatus.sie
  | .mret, .supervisor => s.mstatus.mpp ≠ 3
  | _, _ => true

theorem Supervisor.doMret_privView_iff (huser : s.privLevel = .user) :
    s.doMret.2.privView = s.privView ↔
      s.mstatus.mpp = 0 ∧ s.mstatus.mpie = true ∧ s.mstatus.mie = true := by
  constructor
  · intro hview
    have hstatus := congrArg PrivView.mstatus hview
    have hmpie : true = s.mstatus.mpie := congrArg MStatus.mpie hstatus
    have hmie : s.mstatus.mpie = s.mstatus.mie := congrArg MStatus.mie hstatus
    exact ⟨(congrArg MStatus.mpp hstatus).symm, hmpie.symm, (hmpie.trans hmie).symm⟩
  · rintro ⟨hmpp, hmpie, hmie⟩
    have hpriv : Privilege.ofMpp s.mstatus.mpp = s.privLevel := by
      rw [hmpp, huser]
      rfl
    have hstatus : { s.mstatus with mie := s.mstatus.mpie, mpie := true, mpp := 0 } =
        s.mstatus := by
      rw [MStatus.ext_iff]
      simp [hmpp, hmpie, hmie]
    simp only [doMret, privView, hpriv, hstatus]

theorem Supervisor.doSret_privView_iff (huser : s.privLevel = .user) :
    s.doSret.2.privView = s.privView ↔
      s.mstatus.spp = false ∧ s.mstatus.spie = true ∧ s.mstatus.sie = true := by
  constructor
  · intro hview
    have hstatus := congrArg PrivView.mstatus hview
    have hspie : true = s.mstatus.spie := congrArg MStatus.spie hstatus
    have hsie : s.mstatus.spie = s.mstatus.sie := congrArg MStatus.sie hstatus
    exact ⟨(congrArg MStatus.spp hstatus).symm, hspie.symm, (hspie.trans hsie).symm⟩
  · rintro ⟨hspp, hspie, hsie⟩
    have hstatus : { s.mstatus with sie := s.mstatus.spie, spie := true, spp := false } =
        s.mstatus := by
      rw [MStatus.ext_iff]
      simp [hspp, hspie, hsie]
    simp only [doSret, privView, hstatus]
    simp [hspp, huser]

section

variable [FloatOps]

namespace Supervisor

/-- After the instruction itself, a step keeps privileged state or traps. -/
theorem finishStep_keeps (s : Supervisor) (instr : Instr) (width : U64) (bus : β) :
    TrapOrKeeps ((s.flushedFor instr).executeSupervisor instr width bus).2.1
      (s.finishStep instr width bus).2.1 := by
  unfold finishStep
  rcases deliver_cases _ _ _ with ⟨trap, hout⟩ | hout
  · rw [hout]
    exact Or.inl (takeTrapWithVaddr_delivered _ _ _)
  · rw [hout]
    exact Or.inr ⟨rfl, rfl⟩

theorem finishStep_mret (s : Supervisor) (width : U64) (bus : β) :
    (s.finishStep .mret width bus).2.1.trapDelivered = s.trapDelivered ∧
      (s.finishStep .mret width bus).2.1.privView = s.doMret.2.privView :=
  ⟨rfl, rfl⟩

theorem finishStep_sret (huser : s.privLevel = .user) (width : U64) (bus : β) :
    (s.finishStep .sret width bus).2.1.trapDelivered = s.trapDelivered ∧
      (s.finishStep .sret width bus).2.1.privView = s.doSret.2.privView := by
  have hexec : (s.flushedFor .sret).executeSupervisor .sret width bus =
      (.running, s.doSret.2, bus) := by
    simp [flushedFor, executeSupervisor, trappedBy, huser, doSret]
  unfold finishStep
  rw [hexec]
  exact ⟨rfl, rfl⟩

theorem finishStep_user_iff (huser : s.privLevel = .user)
    (hflag : s.trapDelivered = false) (instr : Instr) (width : U64) (bus : β) :
    Confined s (s.finishStep instr width bus).2.1 ↔ s.harmlessReturn instr = true := by
  have hconfined : ∀ s' : Supervisor, s'.trapDelivered = false →
      (Confined s s' ↔ s'.privView = s.privView) := by
    intro s' hflag'
    simp [Confined, huser, hflag']
  by_cases hmret : instr = .mret
  · subst hmret
    obtain ⟨hflag', hview⟩ := s.finishStep_mret width bus
    rw [hconfined _ (hflag'.trans hflag), hview, doMret_privView_iff huser]
    simp [harmlessReturn, huser, and_assoc]
  by_cases hsret : instr = .sret
  · subst hsret
    obtain ⟨hflag', hview⟩ := finishStep_sret huser width bus
    rw [hconfined _ (hflag'.trans hflag), hview, doSret_privView_iff huser]
    simp [harmlessReturn, huser, and_assoc]
  have hflush := s.flushedFor_effect instr
  have hexec := ((s.flushedFor instr).executeSupervisor_outcome instr width bus).trapOrKeeps
    (by rw [hflush]; exact huser) hmret hsret
  have hkeeps := (hflush.trapOrKeeps.trans hexec).trans (s.finishStep_keeps instr width bus)
  have hharmless : s.harmlessReturn instr = true := by
    cases instr <;> simp_all [harmlessReturn]
  simp only [hharmless, iff_true]
  refine ⟨fun _ hno => ?_, fun hsup => ?_⟩
  · rcases hkeeps with htrap | hkeeps
    · rw [htrap] at hno
      cases hno
    · exact hkeeps.2
  · rw [huser] at hsup
    cases hsup

theorem finishStep_supervisor_iff (hsup : s.privLevel = .supervisor)
    (hflag : s.trapDelivered = false) (instr : Instr) (width : U64) (bus : β) :
    Confined s (s.finishStep instr width bus).2.1 ↔ s.harmlessReturn instr = true := by
  have hconfined : ∀ s', Confined s s' ↔ TrapOrBelow s' := by
    intro s'
    cases hflag' : s'.trapDelivered <;> simp [Confined, TrapOrBelow, hsup, hflag']
  rw [hconfined]
  by_cases hmret : instr = .mret
  · subst hmret
    obtain ⟨hflag', hview⟩ := s.finishStep_mret width bus
    have hpriv : (s.finishStep .mret width bus).2.1.privLevel =
        Privilege.ofMpp s.mstatus.mpp := congrArg PrivView.privLevel hview
    simp only [TrapOrBelow, hflag', hflag, hpriv, harmlessReturn, hsup]
    simp [Privilege.ofMpp_eq_machine_iff]
  · have hflush := s.flushedFor_effect instr
    have hexec := ((s.flushedFor instr).executeSupervisor_outcome instr width bus).trapOrBelow
      (by rw [hflush]; exact hsup) hmret
    have hharmless : s.harmlessReturn instr = true := by
      cases instr <;> simp_all [harmlessReturn]
    simp only [hharmless, iff_true]
    exact (s.finishStep_keeps instr width bus).below hexec

theorem finishStep_confined_iff (hflag : s.trapDelivered = false) (instr : Instr)
    (width : U64) (bus : β) :
    Confined s (s.finishStep instr width bus).2.1 ↔ s.harmlessReturn instr = true := by
  cases hpriv : s.privLevel with
  | user => exact finishStep_user_iff hpriv hflag instr width bus
  | supervisor => exact finishStep_supervisor_iff hpriv hflag instr width bus
  | machine =>
    have hharmless : s.harmlessReturn instr = true := by
      cases instr <;> simp [harmlessReturn, hpriv]
    simp [Confined, hpriv, hharmless]

/-- A step is confined exactly when the instruction it executes is not a return
that carries the hart out of its privilege level. -/
theorem step_confined_iff (s : Supervisor) (bus : β) :
    Confined s (s.step bus).2.1 ↔
      ∀ instr, s.stepInstr bus = some instr → s.harmlessReturn instr = true := by
  rcases s.step_cases bus with ⟨hnone, s', trap, vaddr, -, hstep⟩ |
    ⟨instr, width, s', bus', hinstr, heffect, hstep⟩
  · have htrap : (s.step bus).2.1.trapDelivered = true := by
      rw [hstep]
      exact takeTrapWithVaddr_delivered s' trap vaddr
    simp [Confined, htrap, hnone]
  · have hview : s'.privView = s.privView :=
      heffect.cacheEffect.privView_eq.trans (s.pollDevices_privView bus)
    have hpriv : s'.privLevel = s.privLevel := congrArg PrivView.privLevel hview
    have hstatus : s'.mstatus = s.mstatus :=
      heffect.cacheEffect.mstatus_eq.trans (s.pollDevices_mstatus bus)
    have hflag : s'.trapDelivered = false :=
      heffect.cacheEffect.trapDelivered_eq.trans (s.pollDevices_trapDelivered bus)
    have hfinish := finishStep_confined_iff hflag instr width bus'
    simp only [Confined, harmlessReturn, hpriv, hview, hstatus] at hfinish
    simp only [hinstr, Option.some.injEq, forall_eq', hstep, Confined, harmlessReturn]
    exact hfinish

end Supervisor

end

/-- `lui x1, 2; addi x1, x1, -2048; csrw mstatus, x1; csrwi sepc, 20; sret; mret`:
machine mode leaves 3 in `mpp` and enters user mode, which executes `mret`. -/
def escapeProgram : Ram := Ram.ofWords
  [0x000020B7, 0x80008093, 0x30009073, 0x141A5073, 0x10200073, 0x30200073]

/-- The state from which user mode executes the last instruction. -/
def escapeState : Supervisor × Ram :=
  letI := FloatOps.zero
  (Supervisor.new 0 0).run escapeProgram 5

def escapeStep : Status × Supervisor × Ram :=
  letI := FloatOps.zero
  escapeState.1.step escapeState.2

/-- User mode reaches machine mode without a trap. -/
theorem user_mret_enters_machine :
    ¬ Confined escapeState.1 escapeStep.2.1 ∧ escapeState.1.privLevel = .user ∧
      escapeStep.2.1.trapDelivered = false ∧ escapeStep.2.1.privLevel = .machine := by
  have huser : escapeState.1.privLevel = .user := by decide +kernel
  have hflag : escapeStep.2.1.trapDelivered = false := by decide +kernel
  have hmachine : escapeStep.2.1.privLevel = .machine := by decide +kernel
  refine ⟨fun hconfined => ?_, huser, hflag, hmachine⟩
  have hpriv : escapeStep.2.1.privLevel = escapeState.1.privLevel :=
    congrArg PrivView.privLevel (hconfined.1 huser hflag)
  rw [huser, hmachine] at hpriv
  cases hpriv

end TabLinux

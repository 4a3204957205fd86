/-
Trap delivery and the two return instructions.  A return whose `epc` and
`mstatus` are those the delivery left undoes it, and a step delivers one trap at
most, at the PC and with the privileged state it started from.
-/
import TabLinux.Confinement
import TabLinux.FpEvents

namespace TabLinux

open Supervisor

variable {β : Type*} [Bus β]

variable {s s' : Supervisor}

variable {trap : Trap} {status : Status}

theorem even_and_not_one {pc : U64} (heven : pc.getLsbD 0 = false) :
    pc &&& ~~~ 1#64 = pc := by
  apply BitVec.eq_of_getLsbD_eq
  intro i _
  refine (getLsbD_putBit pc (show 0 < 64 by decide) false i).trans ?_
  by_cases h0 : i = 0
  · rw [if_pos h0, h0, heven]
  · rw [if_neg h0]

@[simp] theorem Privilege.ofMpp_bits (privLevel : Privilege) :
    ofMpp privLevel.bits = privLevel := by
  cases privLevel <;> rfl

namespace Supervisor

/-- The trap goes to supervisor mode. -/
def TrapsToSupervisor (s : Supervisor) (trap : Trap) : Prop :=
  s.delegates trap = true ∧ s.privLevel ≠ .machine

theorem takeTrapWithVaddr_supervisor (h : s.TrapsToSupervisor trap)
    (faultVaddr : Option U64) :
    (s.takeTrapWithVaddr trap faultVaddr).2 = s.trapToSupervisor trap faultVaddr := by
  obtain ⟨hdelegates, hpriv⟩ := h
  unfold takeTrapWithVaddr
  cases hlevel : s.privLevel with
  | machine => exact absurd hlevel hpriv
  | user => simp [hdelegates]
  | supervisor => simp [hdelegates]

theorem takeTrapWithVaddr_machine (h : ¬ s.TrapsToSupervisor trap)
    (faultVaddr : Option U64) :
    (s.takeTrapWithVaddr trap faultVaddr).2 = s.trapToMachine trap faultVaddr := by
  unfold takeTrapWithVaddr
  rw [if_neg]
  intro hboth
  simp only [Bool.and_eq_true, Bool.or_eq_true, decide_eq_true_eq] at hboth
  refine h ⟨hboth.1, ?_⟩
  rintro hmachine
  simp [hmachine] at hboth

/-- What a return restores. -/
def resumePoint (s : Supervisor) : U64 × Privilege × Bool × Bool :=
  (s.cpu.pc, s.privLevel, s.mstatus.sie, s.mstatus.mie)

end Supervisor

/-- `mstatus` without the enables and what a delivery saves of them. -/
def MStatus.unstacked (m : MStatus) : MStatus :=
  { m with
    sie := false, spie := false, spp := false, mie := false, mpie := false, mpp := 0 }

namespace Supervisor

/-- The registers of the hart, and the CSRs that neither report a trap nor are
pending bits. -/
def setup (s : Supervisor) :=
  (s.cpu.x, s.cpu.f, s.cpu.fcsr, s.mie, s.medeleg, s.mideleg, s.mtvec, s.stvec, s.satp,
    s.mstatus.unstacked)

theorem takeTrapWithVaddr_setup (s : Supervisor) (trap : Trap) (faultVaddr : Option U64) :
    (s.takeTrapWithVaddr trap faultVaddr).2.setup = s.setup := by
  unfold takeTrapWithVaddr
  split <;> rfl

/-- `sret` from any state that kept `sepc` and `mstatus` resumes. -/
theorem doSret_resumes (heven : s.cpu.pc.getLsbD 0 = false)
    (h : s.TrapsToSupervisor trap) (faultVaddr : Option U64)
    (hsepc : s'.sepc = (s.takeTrapWithVaddr trap faultVaddr).2.sepc)
    (hmstatus : s'.mstatus = (s.takeTrapWithVaddr trap faultVaddr).2.mstatus) :
    s'.doSret.2.resumePoint = s.resumePoint := by
  rw [takeTrapWithVaddr_supervisor h] at hsepc hmstatus
  simp only [doSret, resumePoint, hsepc, hmstatus, trapToSupervisor, even_and_not_one heven]
  rcases hlevel : s.privLevel with _ | _ | _
  · simp
  · simp
  · exact absurd hlevel h.2

/-- `mret` from any state that kept `mepc` and `mstatus` resumes. -/
theorem doMret_resumes (heven : s.cpu.pc.getLsbD 0 = false)
    (h : ¬ s.TrapsToSupervisor trap) (faultVaddr : Option U64)
    (hmepc : s'.mepc = (s.takeTrapWithVaddr trap faultVaddr).2.mepc)
    (hmstatus : s'.mstatus = (s.takeTrapWithVaddr trap faultVaddr).2.mstatus) :
    s'.doMret.2.resumePoint = s.resumePoint := by
  rw [takeTrapWithVaddr_machine h] at hmepc hmstatus
  simp only [doMret, resumePoint, hmepc, hmstatus, trapToMachine, even_and_not_one heven,
    Privilege.ofMpp_bits]

theorem takeTrapWithVaddr_privLevel (s : Supervisor) (trap : Trap)
    (faultVaddr : Option U64) :
    s.privLevel.bits ≤ (s.takeTrapWithVaddr trap faultVaddr).2.privLevel.bits := by
  by_cases h : s.TrapsToSupervisor trap
  · rw [takeTrapWithVaddr_supervisor h]
    cases hlevel : s.privLevel with
    | machine => exact absurd hlevel h.2
    | user => exact BitVec.le_def.mpr (Nat.zero_le _)
    | supervisor => exact BitVec.le_refl _
  · rw [takeTrapWithVaddr_machine h]
    exact (show ∀ privLevel : Privilege, privLevel.bits ≤ Privilege.machine.bits by
      rintro ⟨⟩ <;> decide) _

/-- What a delivery saves or overwrites. -/
def trapSite (s : Supervisor) : U64 × PrivView := (s.cpu.pc, s.privView)

end Supervisor

/-- Executing an instruction either leaves the trap flag alone, and everything a
delivery saves where it only reports a trap, or delivers one trap in a state
that still has what a delivery saves, and does nothing after it. -/
inductive TrapsOnce (s : Supervisor) : Status → Supervisor → Prop
  | reported {status : Status} {s' : Supervisor} (hflag : s'.trapDelivered = s.trapDelivered)
      (hsite : ∀ trap, status = .trap trap → s'.trapSite = s.trapSite) : TrapsOnce s status s'
  | delivered {s' : Supervisor} (hsite : s'.trapSite = s.trapSite)
      (hflag : s'.trapDelivered = s.trapDelivered) (trap : Trap)
      (faultVaddr : Option U64) :
      TrapsOnce s (.trap trap) (s'.takeTrapWithVaddr trap faultVaddr).2

namespace TrapsOnce

theorem running (hflag : s'.trapDelivered = s.trapDelivered) : TrapsOnce s .running s' :=
  .reported hflag fun _ h => nomatch h

theorem takeTrap (s : Supervisor) (trap : Trap) :
    TrapsOnce s (s.takeTrap trap).1 (s.takeTrap trap).2 := by
  rw [Supervisor.takeTrap, Supervisor.takeTrapWithVaddr_status]
  exact .delivered rfl rfl trap none

theorem settleFs (h : TrapsOnce s status s') : TrapsOnce s status s'.settleFs := by
  have hsite : ∀ t : Supervisor, t.settleFs.trapSite = t.trapSite := by
    intro t
    exact ite_keep trapSite rfl rfl
  cases h with
  | reported hflag hreported =>
    refine .reported (s'.settleFs_effect.trapDelivered_eq.trans hflag) ?_
    exact fun trap htrap => (hsite s').trans (hreported trap htrap)
  | @delivered t hsame hflag trap faultVaddr =>
    rw [settleFs_takeTrap]
    exact .delivered ((hsite t).trans hsame) (t.settleFs_effect.trapDelivered_eq.trans hflag)
      trap faultVaddr

theorem withPaddr (s : Supervisor) (bus : β) (access : AccessType) (vaddr : U64)
    (next : Supervisor → β → U64 → Supervisor × β)
    (hnext : ∀ s bus paddr, HartEffect s (next s bus paddr).1) :
    TrapsOnce s (s.withPaddr bus access vaddr next).1 (s.withPaddr bus access vaddr next).2.1 := by
  have hstate := s.translate_state bus access vaddr
  unfold Supervisor.withPaddr
  rcases hres : s.translate bus access vaddr with ⟨trap | paddr, s', bus'⟩ <;> rw [hres] at hstate
  · rw [takeTrapWithVaddr_status]
    exact .delivered (by rw [show s' = _ from hstate]; rfl) (by rw [show s' = _ from hstate])
      trap (some vaddr)
  · refine .running ((hnext s' bus' paddr).trapDelivered_eq.trans ?_)
    rw [show s' = _ from hstate]

end TrapsOnce

theorem CsrEffect.trapDelivered_eq {csr : Csr} {val : U64}
    (h : CsrEffect s csr val s') : s'.trapDelivered = s.trapDelivered := by
  cases h with
  | ignored => rfl
  | fcsr => rfl
  | register hpriv effect => rw [effect]
  | satp => exact (s.writeSatp_effect val).trapDelivered_eq

variable {bus : β} {width : U64} {instr : Instr}

theorem ExecOutcome.trapDelivered_eq (h : ExecOutcome s bus width instr s')
    (hpath : s.takesOwnPath instr = true) (hwfi : instr ≠ .wfi) :
    s'.trapDelivered = s.trapDelivered := by
  cases h with
  | hart hnone effect => cases hnone.symm.trans hpath
  | csrReg hallowed | csrImm hallowed =>
    exact ite_keep trapDelivered ((s.csrWrite_effect _ _).trapDelivered_eq) rfl
  | sbi hpriv => rfl
  | mret => rfl
  | sret hallowed => rfl
  | wait hallowed => exact absurd rfl hwfi
  | fence hallowed => exact (s.sfenceVma_effect _).trapDelivered_eq

section

variable [FloatOps]

/-- The base interpreter reports a trap at the instruction it refused. -/
theorem executeWidth_trap_pc (cpu : Cpu) (instr : Instr) (width : U64) (bus : β)
    (htrap : (executeWidth cpu instr width bus).1 = .trap trap) :
    (executeWidth cpu instr width bus).2.1.pc = cpu.pc := by
  cases instr
  case fp raw =>
    have hout := fpuExecute_outcome cpu raw
    simp only [executeWidth] at htrap ⊢
    generalize fpuExecute cpu raw = out at hout htrap ⊢
    cases hout with
    | bad => rfl
    | float => cases htrap
    | int => cases htrap
  all_goals first | rfl | cases htrap

theorem HartOutcome.trapsOnce {out : Status × Supervisor × β} (h : HartOutcome s bus out) :
    TrapsOnce s out.1 out.2.1 := by
  induction h with
  | refused cause => exact .takeTrap s _
  | memory access vaddr next effect zero => exact .withPaddr s bus access vaddr next effect
  | base instr width =>
    refine .reported rfl fun trap hstatus => ?_
    exact Prod.ext (executeWidth_trap_pc s.cpu instr width bus hstatus) rfl
  | settled h ih => exact ih.settleFs

theorem Supervisor.executeSupervisor_trapsOnce (s : Supervisor) (instr : Instr)
    (width : U64) (bus : β) :
    TrapsOnce s (s.executeSupervisor instr width bus).1
      (s.executeSupervisor instr width bus).2.1 := by
  cases hpath : s.takesOwnPath instr with
  | false => exact (executeSupervisor_hart hpath width bus).trapsOnce
  | true =>
    by_cases hwfi : instr = .wfi
    · subst hwfi
      have hallowed : s.trappedBy s.mstatus.tw = false := by simpa [takesOwnPath] using hpath
      -- The poll changes the device bits of `mip` only.
      have hsite : (s.pollNow bus).trapSite = s.trapSite := Prod.ext rfl (s.pollNow_privView bus)
      simp only [executeSupervisor, hallowed, Bool.false_eq_true, if_false, waitForInterrupt, park]
      split
      · rw [takeTrap, takeTrapWithVaddr_status]
        exact .delivered hsite rfl _ _
      · exact .reported rfl fun _ h => (by cases h)
    · obtain ⟨houtcome, hrunning⟩ := executeSupervisor_own hpath width bus
      rw [hrunning hwfi]
      exact .running (houtcome.trapDelivered_eq hpath hwfi)

end

/-- From `s`, no trap is delivered, or exactly one is: in a state with the PC and
the privileged state of `s`, and with nothing after it but the retirement
counters.  A second delivery would find the PC of the first one's vector. -/
def DeliversOnce (s : Supervisor) (status : Status) (s' : Supervisor) : Prop :=
  (s'.trapDelivered = false ∧ ∀ trap, status ≠ .trap trap) ∨
    ∃ (t : Supervisor) (trap : Trap) (faultVaddr : Option U64),
      t.trapSite = s.trapSite ∧ t.trapDelivered = false ∧ status = .trap trap ∧
        (s' = (t.takeTrapWithVaddr trap faultVaddr).2 ∨ ∃ fallThrough,
          s' = (t.takeTrapWithVaddr trap faultVaddr).2.countRetired fallThrough)

omit [Bus β] in
/-- The epilogue delivers what was only reported, and nothing else. -/
theorem TrapsOnce.deliver (h : TrapsOnce s status s')
    (hclear : s.trapDelivered = false) (fallThrough : U64) (bus : β) :
    DeliversOnce s ((s'.countRetired fallThrough).deliver status bus).1
      ((s'.countRetired fallThrough).deliver status bus).2.1 := by
  cases h with
  | reported hflag hsite =>
    have hundelivered : s'.trapDelivered = false := hflag.trans hclear
    cases status with
    | running => exact Or.inl ⟨hundelivered, fun _ h => nomatch h⟩
    | wfi => exact Or.inl ⟨hundelivered, fun _ h => nomatch h⟩
    | trap trap =>
      have hdeliver : (s'.countRetired fallThrough).deliver (.trap trap) bus =
          (.trap trap, ((s'.countRetired fallThrough).takeTrap trap).2, bus) := by
        simp [Supervisor.deliver, Supervisor.countRetired, hundelivered, Supervisor.takeTrap,
          Supervisor.takeTrapWithVaddr_status]
      rw [hdeliver]
      exact Or.inr ⟨s'.countRetired fallThrough, trap, none, hsite trap rfl, hundelivered,
        rfl, Or.inl rfl⟩
  | @delivered t hsite hundelivered trap faultVaddr =>
    have hdeliver : ((t.takeTrapWithVaddr trap faultVaddr).2.countRetired fallThrough).deliver
        (.trap trap) bus =
        (.trap trap, (t.takeTrapWithVaddr trap faultVaddr).2.countRetired fallThrough, bus) := by
      simp [Supervisor.deliver, Supervisor.countRetired, Supervisor.takeTrapWithVaddr_delivered]
    rw [hdeliver]
    exact Or.inr ⟨t, trap, faultVaddr, hsite, hundelivered.trans hclear, rfl,
      Or.inr ⟨fallThrough, rfl⟩⟩

theorem Supervisor.pollDevices_trapSite (s : Supervisor) (bus : β) :
    (s.pollDevices bus).trapSite = s.trapSite :=
  Prod.ext (ite_keep (fun t : Supervisor => t.cpu.pc) rfl rfl) (s.pollDevices_privView bus)

theorem CacheEffect.trapSite_eq (h : CacheEffect s s') : s'.trapSite = s.trapSite :=
  Prod.ext (congrArg Cpu.pc h.cpu_eq) h.privView_eq

theorem Supervisor.step_deliversOnce [FloatOps] (s : Supervisor) (bus : β) :
    DeliversOnce s (s.step bus).1 (s.step bus).2.1 := by
  have hpoll := s.pollDevices_trapSite bus
  have hflag := s.pollDevices_trapDelivered bus
  have hfetch := (s.pollDevices bus).fetch_effect bus
  unfold step stepPolled
  cases (s.pollDevices bus).checkInterrupts with
  | some trap =>
    refine Or.inr ⟨_, trap, none, hpoll, hflag, ?_, Or.inl rfl⟩
    exact takeTrapWithVaddr_status _ trap none
  | none =>
    rcases hres : (s.pollDevices bus).fetch bus with ⟨⟨trap, vaddr⟩ | ⟨instr, width⟩, t, bus'⟩ <;>
      rw [hres] at hfetch <;> have hsite := hfetch.cacheEffect.trapSite_eq.trans hpoll <;>
      have hclear := hfetch.cacheEffect.trapDelivered_eq.trans hflag
    · refine Or.inr ⟨t, trap, vaddr, hsite, hclear, ?_, Or.inl rfl⟩
      exact takeTrapWithVaddr_status t trap vaddr
    have hflushed := t.flushedFor_effect instr
    have hexec := (t.flushedFor instr).executeSupervisor_trapsOnce instr width bus'
    have honce := hexec.deliver (hflushed.trapDelivered_eq.trans hclear)
      (t.cpu.pc + width) ((t.flushedFor instr).executeSupervisor instr width bus').2.2
    unfold DeliversOnce at honce ⊢
    rw [hflushed.trapSite_eq.trans hsite] at honce
    exact honce

/-- A trap and the return from it are inverse to each other, and a step delivers
one trap at most.  Neither the delivery nor the returns touch the bus. -/
theorem Supervisor.trap_return [FloatOps] (s : Supervisor)
    (heven : s.cpu.pc.getLsbD 0 = false) (trap : Trap) (faultVaddr : Option U64) :
    let out := (s.takeTrapWithVaddr trap faultVaddr).2
    (s.TrapsToSupervisor trap → out.doSret.2.setup = s.setup ∧
      ∀ s' : Supervisor, s'.sepc = out.sepc → s'.mstatus = out.mstatus →
        s'.doSret.2.resumePoint = s.resumePoint) ∧
    (¬ s.TrapsToSupervisor trap → out.doMret.2.setup = s.setup ∧
      ∀ s' : Supervisor, s'.mepc = out.mepc → s'.mstatus = out.mstatus →
        s'.doMret.2.resumePoint = s.resumePoint) ∧
    out.setup = s.setup ∧ s.privLevel.bits ≤ out.privLevel.bits ∧
    ∀ bus : β, DeliversOnce s (s.step bus).1 (s.step bus).2.1 := by
  have hsetup := s.takeTrapWithVaddr_setup trap faultVaddr
  refine ⟨fun h => ⟨hsetup, fun s' hsepc hmstatus => ?_⟩,
    fun h => ⟨hsetup, fun s' hmepc hmstatus => ?_⟩, hsetup,
    s.takeTrapWithVaddr_privLevel trap faultVaddr, s.step_deliversOnce⟩
  · exact doSret_resumes heven h faultVaddr hsepc hmstatus
  · exact doMret_resumes heven h faultVaddr hmepc hmstatus

/-- A page fault of user mode that supervisor mode takes. -/
theorem Supervisor.trap_return_user :
    let s := { new 0x100 0 with privLevel := .user }
    (s.takeTrapWithVaddr (.exception .loadPageFault) (some 0)).2.doSret.2.resumePoint =
      s.resumePoint :=
  letI := FloatOps.zero
  ((@trap_return Ram _ _ { new 0x100 0 with privLevel := .user } (by decide)
    (.exception .loadPageFault) (some 0)).1 ⟨by decide, nofun⟩).2 _ rfl rfl

end TabLinux

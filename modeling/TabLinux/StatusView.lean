/-
The machine state behind the supervisor's CSRs.  `sstatus`, `sie` and `sip` are
windows onto machine registers: writes through them are confined to the window,
and reads of `sie` and `sip` are too, but `sstatus` reads as the whole of
`mstatus`.
-/
import TabLinux.StatusBits
import TabLinux.StepEffects

namespace TabLinux

open Supervisor

variable {β : Type*} [Bus β]

variable {csr : Csr} {rd : Reg}

variable {left right : U64} {op : CsrOp} {src : Reg}

/-- The interrupt bits that belong to supervisor mode. -/
def supervisorBits : U64 := 0x222

/-- `mstatus` with the fields that only machine mode may see or change taken from
another word. -/
def MStatus.withMachine (m machine : MStatus) : MStatus :=
  { m with
    mbe := machine.mbe
    sbe := machine.sbe
    sxl := machine.sxl
    tsr := machine.tsr
    tw := machine.tw
    tvm := machine.tvm
    mprv := machine.mprv
    mpp := machine.mpp
    mpie := machine.mpie
    mie := machine.mie }

/-- The machine-only state of two harts is the same. -/
structure MachineKept (s t : Supervisor) : Prop where
  mstatus : t.mstatus = t.mstatus.withMachine s.mstatus
  mie : AgreeOn (~~~ supervisorBits) s.mie t.mie
  mip : AgreeOn (~~~ supervisorBits) s.mip t.mip
  mtvec : t.mtvec = s.mtvec
  mepc : t.mepc = s.mepc
  mcause : t.mcause = s.mcause
  mtval : t.mtval = s.mtval
  mscratch : t.mscratch = s.mscratch
  medeleg : t.medeleg = s.medeleg
  mideleg : t.mideleg = s.mideleg
  pmpcfg : t.pmpcfg = s.pmpcfg
  pmpaddr : t.pmpaddr = s.pmpaddr

/-- Two harts that differ only in what supervisor mode is not meant to see: the
machine-only fields of `mstatus` other than TVM, and the machine bits of `mie`
and `mip`. -/
structure SameView (s t : Supervisor) : Prop where
  rest : t = { s with mstatus := t.mstatus, mie := t.mie, mip := t.mip }
  mstatus : t.mstatus = s.mstatus.withMachine t.mstatus
  tvm : t.mstatus.tvm = s.mstatus.tvm
  mie : AgreeOn supervisorBits s.mie t.mie
  mip : AgreeOn supervisorBits s.mip t.mip

/-- The bits of the fields that only machine mode may change. -/
def machineMask : U64 :=
  1#64 <<< 37 ||| 1#64 <<< 36 ||| 3#64 <<< 34 ||| 1#64 <<< 22 ||| 1#64 <<< 21 |||
    1#64 <<< 20 ||| 1#64 <<< 17 ||| 3#64 <<< 11 ||| 1#64 <<< 7 ||| 1#64 <<< 3

theorem MStatus.fromBits_sameMachine (h : AgreeOn machineMask left right) :
    fromBits right = (fromBits right).withMachine (fromBits left) := by
  have hbit : ∀ {i : Nat}, machineMask.getLsbD i = true → right.getLsbD i = left.getLsbD i :=
    fun hi => (h _ hi).symm
  have hfield : ∀ {i : Nat}, machineMask.getLsbD i = true →
      machineMask.getLsbD (i + 1) = true → right.extractLsb' i 2 = left.extractLsb' i 2 :=
    fun hi hnext => (h.field_eq hi hnext).symm
  unfold fromBits withMachine
  rw [hbit (i := 37) rfl, hbit (i := 36) rfl, hfield (i := 34) rfl rfl, hbit (i := 22) rfl,
    hbit (i := 21) rfl, hbit (i := 20) rfl, hbit (i := 17) rfl, hfield (i := 11) rfl rfl,
    hbit (i := 7) rfl, hbit (i := 3) rfl]

theorem MStatus.fromBits_sameView (h : AgreeOn sstatusMask left right) :
    fromBits right = (fromBits left).withMachine (fromBits right) := by
  have hbit : ∀ {i : Nat}, sstatusMask.getLsbD i = true → right.getLsbD i = left.getLsbD i :=
    fun hi => (h _ hi).symm
  have hfield : ∀ {i : Nat}, sstatusMask.getLsbD i = true →
      sstatusMask.getLsbD (i + 1) = true → right.extractLsb' i 2 = left.extractLsb' i 2 :=
    fun hi hnext => (h.field_eq hi hnext).symm
  unfold fromBits withMachine
  rw [hbit (i := 63) rfl, hfield (i := 32) rfl rfl, hbit (i := 19) rfl, hbit (i := 18) rfl,
    hfield (i := 15) rfl rfl, hfield (i := 13) rfl rfl, hfield (i := 9) rfl rfl,
    hbit (i := 8) rfl, hbit (i := 5) rfl, hbit (i := 1) rfl]

/-- The machine-only fields do not show under the mask of `sstatus`. -/
theorem MStatus.toBits_withMachine (m machine : MStatus) :
    (m.withMachine machine).toBits &&& sstatusMask = m.toBits &&& sstatusMask := by
  simp (disch := decide) only [toBits, withMachine,
    BitVec.and_or_distrib_right, flagBit_and_of_clear, fieldBits_and_of_clear]

variable {s t : Supervisor}

theorem SameView.toBits (h : SameView s t) :
    AgreeOn sstatusMask s.mstatus.toBits t.mstatus.toBits := by
  apply AgreeOn.of_and_eq
  rw [h.mstatus, MStatus.toBits_withMachine]

namespace MachineKept

theorem refl (s : Supervisor) : MachineKept s s :=
  ⟨rfl, .refl _ _, .refl _ _, rfl, rfl, rfl, rfl, rfl, rfl, rfl, rfl, rfl⟩

theorem writeFcsr (s : Supervisor) (fcsr : U64) : MachineKept s (s.writeFcsr fcsr) :=
  ⟨rfl, .refl _ _, .refl _ _, rfl, rfl, rfl, rfl, rfl, rfl, rfl, rfl, rfl⟩

theorem of_cacheEffect (h : CacheEffect s t) : MachineKept s t := by
  rw [h]
  exact ⟨rfl, .refl _ _, .refl _ _, rfl, rfl, rfl, rfl, rfl, rfl, rfl, rfl, rfl⟩

theorem writeSatp (s : Supervisor) (val : U64) : MachineKept s (s.writeSatp val) := by
  obtain ⟨h1, h2, h3, h4, h5, h6, h7, h8, h9, h10, h11, h12⟩ :=
    of_cacheEffect (s.writeSatp_effect val)
  exact ⟨h1, h2, h3, h4, h5, h6, h7, h8, h9, h10, h11, h12⟩

theorem writeSstatus (s : Supervisor) (val : U64) :
    MachineKept s { s with
      mstatus := MStatus.fromBits (mergeBits s.mstatus.toBits sstatusMask val) } := by
  refine ⟨?_, .refl _ _, .refl _ _, rfl, rfl, rfl, rfl, rfl, rfl, rfl, rfl, rfl⟩
  have hdisjoint : machineMask &&& sstatusMask = 0 := by decide
  have hkept := MStatus.fromBits_sameMachine (mergeBits_agreeOn_old hdisjoint s.mstatus.toBits val)
  rwa [MStatus.fromBits_toBits] at hkept

end MachineKept

/-- The CSRs that supervisor mode can name leave machine-only state alone. -/
theorem Supervisor.csrWrite_machineKept (s : Supervisor) (hcsr : csrPriv csr ≠ 3)
    (val : U64) : MachineKept s (s.csrWrite csr val) := by
  unfold csrWrite
  repeat' with_reducible
    refine iteInduction (motive := MachineKept s) (fun hif => ?_) (fun _ => ?_)
  all_goals first
    | exact absurd (by subst hif; rfl) hcsr
    | exact absurd (csrPriv_of_mem_range hif (by decide) (by decide)) hcsr
    | exact .refl s
    | exact .writeFcsr s _
    | exact .writeSstatus s val
    | exact .writeSatp s val
    | exact ⟨rfl, .refl _ _, .refl _ _, rfl, rfl, rfl, rfl, rfl, rfl, rfl, rfl, rfl⟩
    | exact ⟨rfl, mergeBits_agreeOn_old (by decide) _ _, .refl _ _, rfl, rfl, rfl, rfl, rfl,
        rfl, rfl, rfl, rfl⟩
    | exact ⟨rfl, .refl _ _, mergeBits_agreeOn_old (by decide) _ _, rfl, rfl, rfl, rfl, rfl,
        rfl, rfl, rfl, rfl⟩

/-- The parts of a state that a CSR access reads, with the rest replaced. -/
theorem SameView.exists_eq (h : SameView s t) :
    ∃ m mie mip, t = { s with mstatus := m, mie := mie, mip := mip } :=
  ⟨t.mstatus, t.mie, t.mip, h.rest⟩

namespace SameView

variable {s t : Supervisor}

theorem cpu_eq (h : SameView s t) : t.cpu = s.cpu := by
  rw [h.rest]

theorem privLevel_eq (h : SameView s t) : t.privLevel = s.privLevel := by
  rw [h.rest]

/-- What the same update does to both is the same, as long as it leaves the
three registers alone. -/
theorem withCpu (h : SameView s t) (cpu : Cpu) :
    SameView { s with cpu := cpu } { t with cpu := cpu } := by
  obtain ⟨hrest, hmstatus, htvm, hmie, hmip⟩ := h
  refine ⟨?_, hmstatus, htvm, hmie, hmip⟩
  rw [hrest]

/-- Every CSR but `sstatus` reads the same. -/
theorem csrRead_eq (h : SameView s t) (bus : β) (hcsr : csrPriv csr ≠ 3)
    (hsstatus : csr ≠ 0x100) : t.csrRead bus csr = s.csrRead bus csr := by
  have hmie := h.mie.and_eq
  have hmip := h.mip.and_eq
  obtain ⟨m, mie, mip, rfl⟩ := h.exists_eq
  unfold csrRead
  repeat' with_reducible refine ite_congr rfl (fun hif => ?_) (fun _ => ?_)
  all_goals first
    | rfl
    | exact absurd (by subst hif; rfl) hcsr
    | exact absurd hif hsstatus
    | exact hmie.symm
    | exact hmip.symm

theorem ite {α : Type*} {R : α → α → Prop} {c : Prop} [Decidable c] {yes no yes' no' : α}
    (hyes : c → R yes yes') (hno : ¬ c → R no no') :
    R (if c then yes else no) (if c then yes' else no') := by
  split
  · exact hyes ‹c›
  · exact hno ‹¬ c›

variable (h : SameView s t)
include h

theorem writeFcsr (fcsr : U64) : SameView (s.writeFcsr fcsr) (t.writeFcsr fcsr) := by
  obtain ⟨hrest, hmstatus, htvm, hmie, hmip⟩ := h
  refine ⟨?_, ?_, htvm, hmie, hmip⟩
  · rw [hrest]
    rfl
  · exact congrArg (fun m : MStatus => { m with fs := 3 }) hmstatus

theorem switchAddressSpace (old new : U64) :
    SameView (s.switchAddressSpace old new) (t.switchAddressSpace old new) := by
  obtain ⟨hrest, hmstatus, htvm, hmie, hmip⟩ := h
  rw [hrest]
  exact ite (fun _ => ⟨rfl, hmstatus, htvm, hmie, hmip⟩) fun _ => ⟨rfl, hmstatus, htvm, hmie, hmip⟩

theorem writeSatp (val : U64) : SameView (s.writeSatp val) (t.writeSatp val) := by
  have hsatp : t.satp = s.satp := by rw [h.rest]
  unfold Supervisor.writeSatp
  rw [hsatp]
  obtain ⟨hrest, hmstatus, htvm, hmie, hmip⟩ := h
  refine ite (fun _ => switchAddressSpace ?_ _ _) fun _ => ?_
  · rw [hrest]
    exact ⟨rfl, hmstatus, htvm, hmie, hmip⟩
  · rw [hrest]
    exact ⟨rfl, hmstatus, htvm, hmie, hmip⟩

/-- A write to `sstatus` of values that agree under its mask. -/
theorem writeSstatus {val val' : U64} (hval : AgreeOn sstatusMask val val') : SameView
      { s with mstatus := MStatus.fromBits (mergeBits s.mstatus.toBits sstatusMask val) }
      { t with mstatus := MStatus.fromBits (mergeBits t.mstatus.toBits sstatusMask val') } := by
  have hshown := h.toBits.mergeBits hval
  have htvm : ∀ (m : MStatus) (word : U64),
      (MStatus.fromBits (mergeBits m.toBits sstatusMask word)).tvm = m.tvm := by
    intro m word
    have hbit : (mergeBits m.toBits sstatusMask word).getLsbD 20 = m.toBits.getLsbD 20 := by
      rw [getLsbD_mergeBits]
      rfl
    exact hbit.trans (congrArg MStatus.tvm m.fromBits_toBits)
  refine ⟨?_, MStatus.fromBits_sameView hshown, ?_, h.mie, h.mip⟩
  · rw [h.rest]
  · exact (htvm t.mstatus val').trans (h.tvm.trans (htvm s.mstatus val).symm)

/-- The same value written to any other CSR that supervisor mode can name. -/
theorem csrWrite (hcsr : csrPriv csr ≠ 3) (hsstatus : csr ≠ 0x100)
    (val : U64) : SameView (s.csrWrite csr val) (t.csrWrite csr val) := by
  have hcpu := h.cpu_eq
  unfold Supervisor.csrWrite
  rw [hcpu]
  repeat' with_reducible refine ite (fun hif => ?_) (fun _ => ?_)
  all_goals first
    | exact h
    | exact absurd (by subst hif; rfl) hcsr
    | exact absurd (csrPriv_of_mem_range hif (by decide) (by decide)) hcsr
    | exact absurd hif hsstatus
    | exact h.writeFcsr _
    | exact h.writeSatp val
    | skip
  all_goals
    obtain ⟨hrest, hmstatus, htvm, hmie, hmip⟩ := h
    rw [hrest]
  all_goals first
    | exact ⟨rfl, hmstatus, htvm, hmie, hmip⟩
    | exact ⟨rfl, hmstatus, htvm, hmie.mergeBits (.refl _ _), hmip⟩
    | exact ⟨rfl, hmstatus, htvm, hmie, hmip.mergeBits (.refl _ _)⟩

/-- The mode that takes an exception does not depend on what is hidden, and
neither does anything the trap shows to supervisor mode. -/
theorem takeTrap (trap : Exception) :
    (t.takeTrap (.exception trap)).1 = (s.takeTrap (.exception trap)).1 ∧
      SameView (s.takeTrap (.exception trap)).2 (t.takeTrap (.exception trap)).2 := by
  obtain ⟨hrest, hmstatus, htvm, hmie, hmip⟩ := h
  generalize t.mstatus = m at *
  generalize t.mie = mie at *
  generalize t.mip = mip at *
  subst hrest
  have hdelegates : delegates { s with mstatus := m, mie := mie, mip := mip }
      (.exception trap) = s.delegates (.exception trap) :=
    delegates_congr _ rfl rfl
  unfold takeTrap takeTrapWithVaddr
  rw [hdelegates]
  refine ite (R := fun out out' : Status × Supervisor =>
    out'.1 = out.1 ∧ SameView out.2 out'.2) (fun _ => ⟨rfl, ?_⟩) (fun _ => ⟨rfl, ?_⟩)
  · refine ⟨rfl, ?_, htvm, hmie, hmip⟩
    rw [hmstatus]
    rfl
  · refine ⟨rfl, ?_, htvm, hmie, hmip⟩
    rw [hmstatus]
    rfl

/-- The checks of a CSR access look at TVM and at nothing else that is hidden. -/
theorem csrDenied_eq (csr : Csr) (op : CsrOp) (src : Reg) :
    t.csrDenied csr op src = s.csrDenied csr op src := by
  unfold csrDenied
  rw [h.privLevel_eq, h.tvm]

/-- A CSR access that does not show `sstatus` in a register. -/
theorem csrAccess (bus : β) (hcsr : csrPriv csr ≠ 3)
    (hunread : csr = 0x100 → rd = 0) (src : Reg) (val : U64) (op : CsrOp) :
    SameView (s.csrAccess bus csr rd src val op) (t.csrAccess bus csr rd src val op) := by
  unfold Supervisor.csrAccess
  by_cases hsstatus : csr = 0x100
  · obtain rfl := hunread hsstatus
    subst hsstatus
    exact ite (fun _ => h.writeSstatus (h.toBits.combine op val)) (fun _ => h)
  · rw [h.csrRead_eq bus hcsr hsstatus]
    have hwritten := ite (R := SameView) (c := csrWillWrite op src = true)
      (fun _ => h.csrWrite hcsr hsstatus (op.combine (s.csrRead bus csr) val)) (fun _ => h)
    dsimp only
    rw [hwritten.cpu_eq]
    exact hwritten.withCpu _

end SameView

namespace Supervisor

theorem csrPriv_ne_of_allowed (hpriv : s.privLevel = .supervisor)
    (hallowed : s.csrDenied csr op src = false) : csrPriv csr ≠ 3 := by
  simp only [csrDenied, hpriv, Bool.or_eq_false_iff] at hallowed
  intro hthree
  have hlevel := hallowed.1.1
  change Privilege.supervisor.bits.ult (csrPriv csr) = false at hlevel
  rw [hthree] at hlevel
  exact absurd hlevel (by decide)

theorem csrAccess_machineKept (s : Supervisor) (bus : β) (hcsr : csrPriv csr ≠ 3)
    (rd src : Reg) (val : U64) (op : CsrOp) :
    MachineKept s (s.csrAccess bus csr rd src val op) := by
  have hwritten : MachineKept s
      (if csrWillWrite op src then s.csrWrite csr (op.combine (s.csrRead bus csr) val) else s) :=
    ite_holds (MachineKept s) (s.csrWrite_machineKept hcsr _) (.refl s)
  obtain ⟨h1, h2, h3, h4, h5, h6, h7, h8, h9, h10, h11, h12⟩ := hwritten
  exact ⟨h1, h2, h3, h4, h5, h6, h7, h8, h9, h10, h11, h12⟩

theorem csrOp_machineKept (hpriv : s.privLevel = .supervisor)
    (bus : β) (csr : Csr) (rd src : Reg) (val : U64) (op : CsrOp) (width : U64) :
    (∃ trap, (s.csrOp bus csr rd src val op width).1 = .trap trap) ∨
      MachineKept s (s.csrOp bus csr rd src val op width).2 := by
  unfold csrOp
  cases hdenied : s.csrDenied csr op src with
  | true =>
    refine .inl ⟨.exception .illegalInstruction, ?_⟩
    rw [if_pos rfl, takeTrap, takeTrapWithVaddr_status]
  | false =>
    obtain ⟨h1, h2, h3, h4, h5, h6, h7, h8, h9, h10, h11, h12⟩ :=
      s.csrAccess_machineKept bus (csrPriv_ne_of_allowed hpriv hdenied) rd src val op
    exact .inr ⟨h1, h2, h3, h4, h5, h6, h7, h8, h9, h10, h11, h12⟩

theorem csrJit_machineKept (hpriv : s.privLevel = .supervisor)
    (bus : β) (csr : Csr) (rd src : Reg) (val : U64) (op : CsrOp) :
    MachineKept s (s.csrJit bus csr rd src val op).2 := by
  unfold csrJit
  cases hdenied : s.csrDenied csr op src with
  | true => exact .refl s
  | false =>
    exact s.csrAccess_machineKept bus (csrPriv_ne_of_allowed hpriv hdenied) rd src val op

end Supervisor

theorem SameView.csrOp (h : SameView s t)
    (hpriv : s.privLevel = .supervisor) (bus : β) (hunread : csr = 0x100 → rd = 0) (src : Reg)
    (val : U64) (op : CsrOp) (width : U64) :
    (t.csrOp bus csr rd src val op width).1 = (s.csrOp bus csr rd src val op width).1 ∧
      SameView (s.csrOp bus csr rd src val op width).2 (t.csrOp bus csr rd src val op width).2 := by
  unfold Supervisor.csrOp
  rw [h.csrDenied_eq]
  cases hdenied : s.csrDenied csr op src with
  | true => exact h.takeTrap .illegalInstruction
  | false =>
    have haccess := h.csrAccess bus (csrPriv_ne_of_allowed hpriv hdenied)
      hunread src val op
    refine ⟨rfl, ?_⟩
    dsimp only
    rw [haccess.cpu_eq]
    exact haccess.withCpu _

theorem SameView.csrJit (h : SameView s t)
    (hpriv : s.privLevel = .supervisor) (bus : β) (hunread : csr = 0x100 → rd = 0) (src : Reg)
    (val : U64) (op : CsrOp) :
    (t.csrJit bus csr rd src val op).1 = (s.csrJit bus csr rd src val op).1 ∧
      SameView (s.csrJit bus csr rd src val op).2 (t.csrJit bus csr rd src val op).2 := by
  unfold Supervisor.csrJit
  rw [h.csrDenied_eq]
  cases hdenied : s.csrDenied csr op src with
  | true => exact ⟨rfl, h⟩
  | false =>
    exact ⟨rfl, h.csrAccess bus (csrPriv_ne_of_allowed hpriv hdenied) hunread src val op⟩

namespace Supervisor

/-- The same hart with the machine interrupt enable flipped. -/
def flipMie (s : Supervisor) : Supervisor :=
  { s with mstatus := { s.mstatus with mie := !s.mstatus.mie } }

theorem flipMie_sameView (s : Supervisor) : SameView s s.flipMie :=
  ⟨rfl, rfl, rfl, .refl _ _, .refl _ _⟩

theorem csrDenied_sstatus (hpriv : s.privLevel = .supervisor)
    (op : CsrOp) (src : Reg) : s.csrDenied 0x100 op src = false := by
  rw [csrDenied, hpriv]
  cases csrWillWrite op src with
  | false => rfl
  | true => rfl

/-- The register that receives `sstatus` holds all of `mstatus`. -/
theorem csrAccess_sstatus (s : Supervisor) (bus : β) (hrd : rd ≠ 0) (src : Reg)
    (val : U64) (op : CsrOp) :
    (s.csrAccess bus 0x100 rd src val op).cpu.x rd = s.mstatus.toBits := by
  have hvalue : s.csrRead bus 0x100 = s.mstatus.toBits := rfl
  unfold csrAccess
  rw [hvalue]
  simp only [Cpu.writeReg, if_neg hrd, Function.update_self]

/-- A register that receives `sstatus` tells the hart from the flipped one. -/
theorem csrAccess_flipMie_ne (s : Supervisor) (bus : β) (hrd : rd ≠ 0) (src : Reg)
    (val : U64) (op : CsrOp) :
    (s.flipMie.csrAccess bus 0x100 rd src val op).cpu.x
      ≠ (s.csrAccess bus 0x100 rd src val op).cpu.x := by
  intro hsame
  have hbits := congrFun hsame rd
  rw [csrAccess_sstatus _ bus hrd, csrAccess_sstatus _ bus hrd] at hbits
  have hfields := congrArg (fun word => (MStatus.fromBits word).mie) hbits
  simp only [MStatus.fromBits_toBits] at hfields
  exact Bool.not_ne_self _ hfields

theorem csrOp_x_of_allowed
    (hallowed : s.csrDenied csr op src = false) (bus : β) (rd : Reg) (val width : U64) :
    (s.csrOp bus csr rd src val op width).2.cpu.x = (s.csrAccess bus csr rd src val op).cpu.x := by
  unfold csrOp
  rw [hallowed]
  rfl

/-- A CSR instruction cannot be told apart exactly when it does not put `sstatus`
in a register. -/
theorem csrOp_sameView_iff (hpriv : s.privLevel = .supervisor)
    (bus : β) (csr : Csr) (rd src : Reg) (val : U64) (op : CsrOp) (width : U64) :
    (∀ t, SameView s t →
      (t.csrOp bus csr rd src val op width).1 = (s.csrOp bus csr rd src val op width).1 ∧
      SameView (s.csrOp bus csr rd src val op width).2
        (t.csrOp bus csr rd src val op width).2) ↔ (csr = 0x100 → rd = 0) := by
  refine ⟨fun hall hcsr => ?_, fun hunread t h => h.csrOp hpriv bus hunread src val op width⟩
  subst hcsr
  by_contra hrd
  have hcpu := (hall s.flipMie s.flipMie_sameView).2.cpu_eq
  apply s.csrAccess_flipMie_ne bus hrd src val op
  rw [← csrOp_x_of_allowed (csrDenied_sstatus (s := s.flipMie) hpriv op src) bus rd val width,
    ← csrOp_x_of_allowed (csrDenied_sstatus hpriv op src) bus rd val width, hcpu]

theorem csrJit_sameView_iff (hpriv : s.privLevel = .supervisor)
    (bus : β) (csr : Csr) (rd src : Reg) (val : U64) (op : CsrOp) :
    (∀ t, SameView s t →
      (t.csrJit bus csr rd src val op).1 = (s.csrJit bus csr rd src val op).1 ∧
      SameView (s.csrJit bus csr rd src val op).2 (t.csrJit bus csr rd src val op).2) ↔
      (csr = 0x100 → rd = 0) := by
  refine ⟨fun hall hcsr => ?_, fun hunread t h => h.csrJit hpriv bus hunread src val op⟩
  subst hcsr
  by_contra hrd
  have hsame := (hall s.flipMie s.flipMie_sameView).2.cpu_eq
  unfold csrJit at hsame
  rw [csrDenied_sstatus hpriv, csrDenied_sstatus (s := s.flipMie) hpriv] at hsame
  exact s.csrAccess_flipMie_ne bus hrd src val op (congrArg Cpu.x hsame)

end Supervisor

/-- The CSR an instruction accesses, and the register that receives its value. -/
def Instr.csrTarget : Instr → Option (BitVec 12 × Reg)
  | .csrReg _ rd _ csr => some (csr, rd)
  | .csrImm _ rd _ csr => some (csr, rd)
  | _ => none

/-- A CSR instruction of supervisor mode, interpreted or compiled.  It leaves
machine-only state alone unless it traps; and everything it does is the same in
every state that looks the same to supervisor mode, exactly when it does not put
`sstatus` in a register. -/
theorem sstatus_restricted [FloatOps] {s : Supervisor} (hpriv : s.privLevel = .supervisor)
    (csr : Csr) (rd : Reg) (bus : β) :
    (∀ (instr : Instr) (width : U64), instr.csrTarget = some (csr, rd) →
      ((∃ trap, (s.executeSupervisor instr width bus).1 = .trap trap) ∨
        MachineKept s (s.executeSupervisor instr width bus).2.1) ∧
      ((∀ t, SameView s t →
        (t.executeSupervisor instr width bus).1 = (s.executeSupervisor instr width bus).1 ∧
        SameView (s.executeSupervisor instr width bus).2.1
          (t.executeSupervisor instr width bus).2.1) ↔ (csr = 0x100 → rd = 0))) ∧
    ∀ (src : Reg) (val : U64) (op : CsrOp),
      MachineKept s (s.csrJit bus csr rd src val op).2 ∧
      ((∀ t, SameView s t →
        (t.csrJit bus csr rd src val op).1 = (s.csrJit bus csr rd src val op).1 ∧
        SameView (s.csrJit bus csr rd src val op).2 (t.csrJit bus csr rd src val op).2) ↔
          (csr = 0x100 → rd = 0)) := by
  refine ⟨fun instr width hinstr => ?_, fun src val op => ?_⟩
  · cases instr with
    | csrReg op rd' rs1 csr' =>
      obtain ⟨rfl, rfl⟩ := Prod.mk.inj (Option.some.inj hinstr)
      refine ⟨csrOp_machineKept hpriv bus _ _ _ _ op width, ?_⟩
      rw [← csrOp_sameView_iff hpriv bus _ _ rs1 (s.cpu.readReg rs1) op width]
      -- Both harts hold the same registers, so both write the same operand.
      refine forall_congr' fun t => forall_congr' fun h => ?_
      change (t.csrOp bus _ _ _ (t.cpu.readReg rs1) op width).1 = _ ∧
        SameView _ (t.csrOp bus _ _ _ (t.cpu.readReg rs1) op width).2 ↔ _
      rw [h.cpu_eq]
      exact Iff.rfl
    | csrImm op rd' zimm csr' =>
      obtain ⟨rfl, rfl⟩ := Prod.mk.inj (Option.some.inj hinstr)
      exact ⟨csrOp_machineKept hpriv bus _ _ _ _ op width,
        csrOp_sameView_iff hpriv bus _ _ zimm (zimm.setWidth 64) op width⟩
    | _ => cases hinstr
  · exact ⟨csrJit_machineKept hpriv bus _ _ src val op,
      csrJit_sameView_iff hpriv bus csr rd src val op⟩

/-- Two harts in supervisor mode, the second with machine interrupts enabled. -/
def plainHart : Supervisor := { new 0 0 with privLevel := .supervisor }

def enabledHart : Supervisor :=
  { plainHart with mstatus := { plainHart.mstatus with mie := true } }

theorem plainHart_sameView : SameView plainHart enabledHart := ⟨rfl, rfl, rfl, .refl _ _, .refl _ _⟩

/-- Reading `sie` does not tell the two apart. -/
theorem sstatus_restricted_sie :
    letI := FloatOps.zero
    plainHart.privLevel = .supervisor ∧
      SameView (plainHart.executeSupervisor (.csrReg .rs 5 0 0x104) 4 (Ram.ofWords [])).2.1
        (enabledHart.executeSupervisor (.csrReg .rs 5 0 0x104) 4 (Ram.ofWords [])).2.1 :=
  letI := FloatOps.zero
  ⟨rfl, ((((sstatus_restricted (s := plainHart) rfl 0x104 5 (Ram.ofWords [])).1
    (.csrReg .rs 5 0 0x104) 4 rfl).2.mpr (fun h => absurd h (by decide))) enabledHart
      plainHart_sameView).2⟩

/-- Reading `sstatus` does: the machine's interrupt enable is in the value. -/
theorem sstatus_shows_mie :
    letI := FloatOps.zero
    SameView plainHart enabledHart ∧
      (plainHart.executeSupervisor (.csrReg .rs 5 0 0x100) 4 (Ram.ofWords [])).2.1.cpu.x 5
          = 0xA00000000 ∧
      (enabledHart.executeSupervisor (.csrReg .rs 5 0 0x100) 4 (Ram.ofWords [])).2.1.cpu.x 5
          = 0xA00000008 := by
  refine ⟨plainHart_sameView, ?_, ?_⟩
  · rfl
  · rfl

end TabLinux

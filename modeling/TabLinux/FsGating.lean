/-
The FS gate as a property of runs.  In a user-mode run that starts with FS Off
and does not name `fflags`, `frm` or `fcsr`, the floating-point state is neither
changed nor observed.
-/
import TabLinux.FpCommute

namespace TabLinux

variable {β : Type*} [Bus β]

variable {s : Supervisor} {fp : FpState} {act : UserAct}

/-- One instruction executed in user mode: by the interpreter, or by compiled
code through the floating-point or the CSR shim. -/
inductive UserAct where
  | step
  | fpJit (call : FpCall)
  | csrJit (csr : Csr) (rd src : Reg) (imm : Bool) (op : CsrOp)
deriving DecidableEq, Repr

/-- The source operand of a CSR instruction: a register or the immediate. -/
def Supervisor.csrSource (s : Supervisor) (src : Reg) (imm : Bool) : U64 :=
  if imm then src.setWidth 64 else s.cpu.readReg src

section

variable [FloatOps]

def UserAct.exec (s : Supervisor) (bus : β) : UserAct → Supervisor × β
  | .step => (s.step bus).2
  | .fpJit call => (s.fpJit bus call).2
  | .csrJit csr rd src imm op =>
      ((s.csrJit bus csr rd src (s.csrSource src imm) op).2, bus)

/-- The run is over: the act left user mode or took a trap.  A shim that gives
up takes no trap: the interpreter runs the instruction next. -/
def UserAct.stops (s : Supervisor) (bus : β) (act : UserAct) : Bool :=
  (act.exec s bus).1.privLevel ≠ .user || (act = .step && (act.exec s bus).1.trapDelivered)

/-- Execute acts in user mode, up to the first trap. -/
def runUser (s : Supervisor) (bus : β) : List UserAct → Supervisor × β
  | [] => (s, bus)
  | act :: rest =>
      if act.stops s bus then act.exec s bus
      else runUser (act.exec s bus).1 (act.exec s bus).2 rest

/-- The act does not name `fflags`, `frm` or `fcsr`. -/
def UserAct.fcsrFree (s : Supervisor) (bus : β) : UserAct → Bool
  | .step =>
      match s.stepInstr bus with
      | some instr => !instr.touchesFcsr
      | none => true
  | .fpJit _ => true
  | .csrJit csr rd src _ op => s.csrDenied csr op src || !touchesFcsr csr op rd src

/-- Every act of the run is free of `fcsr` accesses. -/
def fcsrFreeRun (s : Supervisor) (bus : β) : List UserAct → Bool
  | [] => true
  | act :: rest =>
      act.fcsrFree s bus &&
        (act.stops s bus || fcsrFreeRun (act.exec s bus).1 (act.exec s bus).2 rest)

section

variable (huser : s.privLevel = .user) (hs : s.fpState.Off)
include huser hs

theorem UserAct.exec_withFp (hfp : fp.Off) (bus : β) (hfree : act.fcsrFree s bus = true) :
    act.exec (s.withFp fp) bus = ((act.exec s bus).1.withFp fp, (act.exec s bus).2) := by
  cases act with
  | step =>
    have hinstr : ∀ instr, s.stepInstr bus = some instr → instr.touchesFcsr = false := by
      intro instr hinstr
      simpa [fcsrFree, hinstr] using hfree
    exact congrArg Prod.snd (Supervisor.step_withFp huser hs hfp bus hinstr)
  | fpJit call =>
    have hgate : s.mstatus.fs = 0 := hs.1
    have hgate' : (s.withFp fp).mstatus.fs = 0 := hfp.1
    simp only [exec, Supervisor.fpJit, hgate, hgate', ↓reduceIte]
  | csrJit csr rd src imm op =>
    have hsame : (s.withFp fp).csrDenied csr op src = s.csrDenied csr op src := rfl
    simp only [exec, Supervisor.csrJit, hsame]
    cases hdenied : s.csrDenied csr op src with
    | true => rfl
    | false =>
      have hpriv := Supervisor.csrPriv_of_not_denied huser hdenied
      simp only [fcsrFree, hdenied, Bool.false_or, Bool.not_eq_true'] at hfree
      exact congrArg (·, bus) (s.csrAccess_withFp fp bus _ hpriv hfree)

theorem UserAct.exec_fpState (bus : β)
    (hfree : act.fcsrFree s bus = true) : (act.exec s bus).1.fpState = s.fpState := by
  have hself := congrArg Prod.fst (exec_withFp huser hs hs bus hfree)
  rw [s.withFp_fpState] at hself
  rw [hself]
  rfl

theorem UserAct.stops_withFp (hfp : fp.Off) (bus : β) (hfree : act.fcsrFree s bus = true) :
    act.stops (s.withFp fp) bus = act.stops s bus := by
  unfold stops
  rw [exec_withFp huser hs hfp bus hfree]
  rfl

end

theorem UserAct.user_of_not_stops {bus : β} (hstops : act.stops s bus = false) :
    (act.exec s bus).1.privLevel = .user := by
  simp only [stops, Bool.or_eq_false_iff, ne_eq, decide_eq_false_iff_not, not_not] at hstops
  exact hstops.1

/-- A whole user-mode run with FS Off commutes with replacing the floating-point
state. -/
theorem runUser_withFp (huser : s.privLevel = .user) (hs : s.fpState.Off) (hfp : fp.Off)
    (bus : β) (acts : List UserAct) (hfree : fcsrFreeRun s bus acts = true) :
    runUser (s.withFp fp) bus acts =
      ((runUser s bus acts).1.withFp fp, (runUser s bus acts).2) := by
  induction acts generalizing s bus with
  | nil => rfl
  | cons act rest ih =>
    simp only [fcsrFreeRun, Bool.and_eq_true, Bool.or_eq_true] at hfree
    obtain ⟨hact, hrest⟩ := hfree
    have hexec := UserAct.exec_withFp huser hs hfp bus hact
    have hstops := UserAct.stops_withFp huser hs hfp bus hact
    simp only [runUser, hstops, hexec]
    cases hstop : act.stops s bus with
    | true => rfl
    | false =>
      have huser' := UserAct.user_of_not_stops hstop
      have hs' : (act.exec s bus).1.fpState.Off := UserAct.exec_fpState huser hs bus hact ▸ hs
      rw [hstop] at hrest
      exact ih huser' hs' _ (hrest.resolve_left Bool.false_ne_true)

/-- Replace the floating-point registers and `fcsr` only. -/
def Supervisor.withFpRegs (s : Supervisor) (f : Reg → U64) (fcsr : U64) :
    Supervisor :=
  { s with cpu := { s.cpu with f := f, fcsr := fcsr } }

/-- In a user-mode run that starts with FS Off and does not name `fflags`, `frm`
or `fcsr`, the status field stays Off, the floating-point registers and `fcsr`
keep their values, and the run does not depend on them. -/
theorem runUser_fs_off {s : Supervisor} (huser : s.privLevel = .user)
    (hoff : s.mstatus.fs = 0) (hclean : s.cpu.fsDirty = false) (bus : β)
    (acts : List UserAct) (hfree : fcsrFreeRun s bus acts = true) :
    (runUser s bus acts).1.mstatus.fs = 0 ∧
      (runUser s bus acts).1.cpu.f = s.cpu.f ∧
      (runUser s bus acts).1.cpu.fcsr = s.cpu.fcsr ∧
      ∀ f fcsr, runUser (s.withFpRegs f fcsr) bus acts =
        ((runUser s bus acts).1.withFpRegs f fcsr, (runUser s bus acts).2) := by
  have hs : s.fpState.Off := ⟨hoff, hclean⟩
  have hself := runUser_withFp huser hs hs bus acts hfree
  have hstate : (runUser s bus acts).1.fpState = s.fpState := by
    rw [s.withFp_fpState] at hself
    rw [hself]
    rfl
  have hfs : (runUser s bus acts).1.mstatus.fs = s.mstatus.fs := congrArg FpState.fs hstate
  have hdirty : (runUser s bus acts).1.cpu.fsDirty = s.cpu.fsDirty :=
    congrArg FpState.fsDirty hstate
  refine ⟨hfs.trans hoff, congrArg FpState.f hstate, congrArg FpState.fcsr hstate, ?_⟩
  intro f fcsr
  have hfp : (⟨f, fcsr, s.cpu.fsDirty, s.mstatus.fs⟩ : FpState).Off := hs
  have hrun := runUser_withFp huser hs hfp bus acts hfree
  have hout : (runUser s bus acts).1.withFp ⟨f, fcsr, s.cpu.fsDirty, s.mstatus.fs⟩ =
      (runUser s bus acts).1.withFpRegs f fcsr := by
    rw [← hdirty, ← hfs]
    rfl
  rw [hout] at hrun
  exact hrun

end

/-- `csrwi mepc, 8; mret; csrr x1, cycle`: user mode reads a counter. -/
def cycleProgram : Ram := Ram.ofWords [0x34145073, 0x30200073, 0xC00020F3]

def cycleState : Supervisor × Ram :=
  letI := FloatOps.zero
  (Supervisor.new 0 0).run cycleProgram 2

/-- A compiled FP instruction that gives up, the interpreted read, and a compiled
one. -/
def cycleActs : List UserAct := [.fpJit (.arith 0), .step, .csrJit 0xC00 2 0 false .rs]

theorem runUser_fs_off_cycle :
    @fcsrFreeRun Ram _ FloatOps.zero cycleState.1 cycleState.2 cycleActs = true ∧
      (@runUser Ram _ FloatOps.zero cycleState.1 cycleState.2 cycleActs).1.mstatus.fs = 0 :=
  have hfree : @fcsrFreeRun Ram _ FloatOps.zero cycleState.1 cycleState.2 cycleActs = true := by
    decide +kernel
  ⟨hfree, (@runUser_fs_off Ram _ FloatOps.zero cycleState.1 (by decide +kernel)
    (by decide +kernel) (by decide +kernel) cycleState.2 cycleActs hfree).1⟩

/-- `csrwi mepc, 8; mret; csrwi fflags, 1`: user mode writes `fflags` with FS
Off. -/
def fflagsProgram : Ram := Ram.ofWords [0x34145073, 0x30200073, 0x0010D073]

/-- The state from which user mode executes the last instruction. -/
def fflagsState : Supervisor × Ram :=
  letI := FloatOps.zero
  (Supervisor.new 0 0).run fflagsProgram 2

def fflagsRun : Supervisor × Ram :=
  letI := FloatOps.zero
  runUser fflagsState.1 fflagsState.2 [.step]

/-- The write takes no trap and turns FS from Off to Dirty. -/
theorem fflags_write_with_fs_off :
    fflagsState.1.privLevel = .user ∧ fflagsState.1.mstatus.fs = 0 ∧
      fflagsState.1.cpu.fsDirty = false ∧ fflagsState.1.cpu.fcsr = 0 ∧
      fflagsRun.1.trapDelivered = false ∧ fflagsRun.1.mstatus.fs = 3 ∧
      fflagsRun.1.cpu.fcsr = 1 := by
  decide +kernel

end TabLinux

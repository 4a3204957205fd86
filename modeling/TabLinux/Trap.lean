/-
Interrupts, trap delivery and the return instructions.
-/
import TabLinux.Supervisor

namespace TabLinux

variable {β : Type*} [Bus β]

variable {pos : Nat}

/-- Set or clear a bit of a register word. -/
def putBit (word : U64) (pos : Nat) (value : Bool) : U64 :=
  if value then word ||| 1#64 <<< pos else word &&& ~~~ (1#64 <<< pos)

theorem getLsbD_putBit (word : U64) (hpos : pos < 64) (value : Bool) (i : Nat) :
    (putBit word pos value).getLsbD i = if i = pos then value else word.getLsbD i := by
  by_cases hlt : i < 64
  · unfold putBit
    cases value <;> by_cases hi : i = pos <;> simp [hi, hlt]
    all_goals omega
  · have hi : i ≠ pos := by omega
    rw [if_neg hi, BitVec.getLsbD_of_ge _ _ (by omega), BitVec.getLsbD_of_ge _ _ (by omega)]

/-- Writing a bit outside a mask does not show through the mask. -/
theorem putBit_and_of_getLsbD {mask : U64} (hpos : pos < 64)
    (hmask : mask.getLsbD pos = false) (word : U64) (value : Bool) :
    putBit word pos value &&& mask = word &&& mask := by
  apply BitVec.eq_of_getLsbD_eq
  intro i _
  rw [BitVec.getLsbD_and, BitVec.getLsbD_and, getLsbD_putBit word hpos]
  by_cases hi : i = pos
  · rw [hi, hmask, Bool.and_false, Bool.and_false]
  · rw [if_neg hi]

/-- Reflect the timer and the external interrupt controller into `mip`. -/
def Supervisor.syncDeviceInterrupts (s : Supervisor) (bus : β) : Supervisor :=
  let timerFired := Bus.checkTimerInterrupt bus || !(Bus.readMtime bus).ult s.stimecmp
  { s with
    mip := putBit (putBit s.mip 5 timerFired) 9 (Bus.checkExternalInterrupt bus) }

/-- The interrupt taken next, delegated ones first. -/
def Supervisor.checkInterrupts (s : Supervisor) : Option Trap :=
  let mEnabled := s.privLevel ≠ .machine || s.mstatus.mie
  let sEnabled := s.privLevel = .user || (s.privLevel = .supervisor && s.mstatus.sie)
  let pending := s.mip &&& s.mie
  let delegated := pending &&& s.mideleg
  let mPending := pending &&& ~~~ s.mideleg
  if pending = 0 then none
  else if sEnabled && s.privLevel ≠ .machine && delegated.getLsbD 7 then
    some (.interrupt .supervisorTimer)
  else if sEnabled && s.privLevel ≠ .machine && delegated.getLsbD 5 then
    some (.interrupt .supervisorTimer)
  else if sEnabled && s.privLevel ≠ .machine && delegated.getLsbD 1 then
    some (.interrupt .supervisorSoftware)
  else if sEnabled && s.privLevel ≠ .machine && delegated.getLsbD 9 then
    some (.interrupt .supervisorExternal)
  else if mEnabled && mPending.getLsbD 11 then some (.interrupt .machineExternal)
  else if mEnabled && mPending.getLsbD 3 then some (.interrupt .machineSoftware)
  else if mEnabled && mPending.getLsbD 7 then some (.interrupt .machineTimer)
  else if mEnabled && mPending.getLsbD 9 then some (.interrupt .supervisorExternal)
  else if mEnabled && mPending.getLsbD 1 then some (.interrupt .supervisorSoftware)
  else if mEnabled && mPending.getLsbD 5 then some (.interrupt .supervisorTimer)
  else none

/-- Would an interrupt be taken now?  The run loop asks at block boundaries. -/
def Supervisor.interruptPending (s : Supervisor) (bus : β) : Bool × Supervisor :=
  let s := s.syncDeviceInterrupts bus
  (s.checkInterrupts.isSome, s)

def Trap.cause : Trap → U64
  | .exception e => e.code
  | .interrupt i => 1#64 <<< 63 ||| i.code

def Trap.isInterrupt : Trap → Bool
  | .exception _ => false
  | .interrupt _ => true

def Trap.isPageFault : Trap → Bool
  | .exception .instructionPageFault | .exception .loadPageFault
  | .exception .storePageFault => true
  | _ => false

/-- Is the trap delegated to supervisor mode?  An environment call from machine
mode never is. -/
def Supervisor.delegates (s : Supervisor) : Trap → Bool
  | .exception .environmentCallFromM => false
  | .exception e => s.medeleg.getLsbD e.code.toNat
  | .interrupt .supervisorSoftware => s.mideleg.getLsbD 1
  | .interrupt .supervisorTimer => s.mideleg.getLsbD 5 || s.mideleg.getLsbD 7
  | .interrupt .supervisorExternal => s.mideleg.getLsbD 9
  | .interrupt _ => false

/-- The pending bits that delivering an interrupt to supervisor mode clears. -/
def clearPending (mip : U64) : Trap → U64
  | .interrupt .supervisorSoftware => putBit mip 1 false
  | .interrupt .supervisorTimer => putBit (putBit mip 5 false) 7 false
  | .interrupt .supervisorExternal => putBit mip 9 false
  | _ => mip

/-- Where a trap vector sends control: interrupts use the vectored mode. -/
def vectorTarget (tvec : U64) (trap : Trap) : U64 :=
  if trap.isInterrupt && tvec.getLsbD 0 then
    (tvec &&& ~~~ 1#64) + 4 * (trap.cause &&& ~~~ (1#64 <<< 63))
  else tvec &&& ~~~ 1#64

namespace Supervisor

variable (s : Supervisor)

section

variable (trap : Trap) (faultVaddr : Option U64)

def trapToSupervisor : Supervisor :=
  { s with
    trapDelivered := true
    sepc := s.cpu.pc
    scause := trap.cause
    stval := if trap.isPageFault then faultVaddr.getD 0 else 0
    mstatus := { s.mstatus with
      spp := s.privLevel = .supervisor, spie := s.mstatus.sie, sie := false }
    privLevel := .supervisor
    cpu := { s.cpu with pc := vectorTarget s.stvec trap }
    mip := clearPending s.mip trap
    wfi := false }

/-- A trap to machine mode mirrors its cause into the supervisor CSRs. -/
def trapToMachine : Supervisor :=
  { s with
    trapDelivered := true
    mepc := s.cpu.pc
    mcause := trap.cause
    sepc := s.cpu.pc
    scause := trap.cause
    mtval := if trap.isPageFault then faultVaddr.getD 0 else 0
    mstatus := { s.mstatus with
      mpp := s.privLevel.bits, mpie := s.mstatus.mie, mie := false }
    privLevel := .machine
    cpu := { s.cpu with pc := vectorTarget s.mtvec trap }
    wfi := false }

def takeTrapWithVaddr : Status × Supervisor :=
  if s.delegates trap && (s.privLevel = .supervisor || s.privLevel = .user) then
    (.trap trap, s.trapToSupervisor trap faultVaddr)
  else (.trap trap, s.trapToMachine trap faultVaddr)

end

def takeTrap (trap : Trap) : Status × Supervisor :=
  s.takeTrapWithVaddr trap none

def doMret : Status × Supervisor :=
  (.running,
    { s with
      mstatus := { s.mstatus with mie := s.mstatus.mpie, mpie := true, mpp := 0 }
      privLevel := Privilege.ofMpp s.mstatus.mpp
      cpu := { s.cpu with pc := s.mepc &&& ~~~ 1#64 } })

def doSret : Status × Supervisor :=
  (.running,
    { s with
      mstatus := { s.mstatus with sie := s.mstatus.spie, spie := true, spp := false }
      privLevel := if s.mstatus.spp then .supervisor else .user
      cpu := { s.cpu with pc := s.sepc &&& ~~~ 1#64 } })

theorem takeTrapWithVaddr_status (trap : Trap)
    (faultVaddr : Option U64) : (s.takeTrapWithVaddr trap faultVaddr).1 = .trap trap := by
  unfold takeTrapWithVaddr
  split <;> rfl

theorem takeTrapWithVaddr_delivered (trap : Trap) (faultVaddr : Option U64) :
    (s.takeTrapWithVaddr trap faultVaddr).2.trapDelivered = true := by
  unfold takeTrapWithVaddr
  split <;> rfl

end Supervisor

end TabLinux

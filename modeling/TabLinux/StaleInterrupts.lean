/-
Delivered device interrupts and the lines they stand for.

The interpreter copies the timer and the external line into `mip` every 64 instructions
and at a `wfi`.  In between a line can fall while its bit stays, and nothing looks again
before the bit is delivered: neither a write that enables interrupts nor a return from a
handler.  An interrupt is fresh in runs that leave a line alone while its bit is shown.
-/
import TabLinux.BusMap
import TabLinux.DeviceLines
import TabLinux.Library.Runs
import TabLinux.PendingBits
import TabLinux.Virtio9p

namespace TabLinux

open Bytes Runs

variable {event : BusEvent} {s : Supervisor}

/-- The interpreter and the bus it runs over. -/
structure HartBus (δ : Type) where
  hart : Supervisor
  bus : DeviceBus δ

/-- A step of the hart, or what the run loop and the host do between two steps. -/
inductive BusEvent where
  | step
  | tick (n : U64)
  | forward (target : U64)
  | input (bytes : Bytes)
  | flush
  | supply (id : U32) (payload : Bytes)

section

variable {δ : Type} [VirtioDevice δ] [FloatOps]
variable {m : HartBus δ} {bus : DeviceBus δ}

namespace HartBus

def after (m : HartBus δ) : BusEvent → HartBus δ
  | .step => ⟨(m.hart.step m.bus).2.1, (m.hart.step m.bus).2.2⟩
  | .tick n => { m with bus := m.bus.tickN n }
  | .forward target => { m with bus := m.bus.fastForwardMtime target }
  | .input bytes => { m with bus := m.bus.uartPushInput bytes }
  | .flush => { m with bus := m.bus.flushVirtioCompletions }
  | .supply id payload => { m with bus := m.bus.p9Supply id payload }

/-- A panic of the bus ends the run. -/
def next (m : HartBus δ) (event : BusEvent) : Except BusPanic (HartBus δ) :=
  match (m.after event).bus.panicked with
  | some panic => .error panic
  | none => .ok (m.after event)

theorem next_eq_ok {m' : HartBus δ} (h : m.next event = .ok m') : m' = m.after event := by
  unfold next at h
  split at h
  · cases h
  · exact (Except.ok.inj h).symm

/-- An interrupt delivered by this step is one whose line is up at that moment, which is
the end of the step. -/
def DeliversFresh (m : HartBus δ) : BusEvent → Prop
  | .step => ∀ i, (m.hart.step m.bus).1 = .trap (.interrupt i) →
      (m.after .step).hart.lineUp (m.after .step).bus i = true
  | _ => True

/-- The guest does not write `mip` or `sip`. -/
def LeavesMip (m : HartBus δ) : BusEvent → Prop
  | .step => m.hart.stepWrites m.bus 0x344 = false ∧ m.hart.stepWrites m.bus 0x144 = false
  | _ => True

/-- The bits of `mip` that the next step starts with. -/
def shown (m : HartBus δ) : U64 := (m.hart.pollDevices m.bus).mip

/-- While the timer's bit is shown, the step writes neither comparator and the clock does
not wrap; while the external bit is shown, the step keeps to guest memory and the CLINT.
The last step before a poll is free. -/
def HoldsLines (m : HartBus δ) : BusEvent → Prop
  | .step => m.hart.intSyncCountdown = 1 ∨
      (m.shown.getLsbD 5 = true →
        (∀ access ∈ m.hart.accesses m.bus, SparesTimer access) ∧
          m.hart.stepWrites m.bus 0x14D = false) ∧
      (m.shown.getLsbD 9 = true → ∀ access ∈ m.hart.accesses m.bus, m.bus.SparesDevices access)
  | .tick n => m.hart.mip.getLsbD 5 = true → m.bus.mtime.toNat + m.bus.clockTicks n < 2 ^ 64
  | _ => True

/-- The bits are right, or the next step polls. -/
structure InSync (m : HartBus δ) : Prop where
  machineTimer : m.hart.mip.getLsbD 7 = false
  shows : m.hart.intSyncCountdown = 0 ∨ m.hart.Shows m.bus

omit [FloatOps] in
theorem InSync.polled (h : m.InSync) : (m.hart.pollDevices m.bus).Shows m.bus :=
  Supervisor.pollDevices_shows h.machineTimer h.shows

end HartBus

omit [FloatOps] in
theorem Supervisor.timerFired_mono {bus' : DeviceBus δ}
    (hcmp : bus'.mtimecmp = bus.mtimecmp) (hclock : bus.mtime ≤ bus'.mtime)
    (h : s.timerFired bus = true) : s.timerFired bus' = true := by
  rw [timerFired, Bool.or_eq_true] at h ⊢
  refine h.imp (fun hfired => ?_) fun hreached => ?_
  · change bus'.checkTimerInterrupt = true
    rw [DeviceBus.checkTimerInterrupt, hcmp]
    exact decide_eq_true (BitVec.le_trans (of_decide_eq_true hfired) hclock)
  rw [Bool.not_eq_true', BitVec.ult_eq_decide, decide_eq_false_iff_not] at hreached ⊢
  change ¬ bus.mtime < s.stimecmp at hreached
  change ¬ bus'.mtime < s.stimecmp
  bv_omega

omit [FloatOps] in
/-- Lines that are shown and do not fall are shown rightly afterwards. -/
theorem Supervisor.Shows.of_bus {bus' : DeviceBus δ} (h : s.Shows bus)
    (htimer : s.mip.getLsbD 5 = true → bus'.mtimecmp = bus.mtimecmp ∧ bus.mtime ≤ bus'.mtime)
    (hexternal : s.mip.getLsbD 9 = true → bus.externalInterruptPending = true →
      bus'.externalInterruptPending = true) : s.Shows bus' := by
  refine ⟨fun hbit => ?_, fun hbit => hexternal hbit (h.external hbit), h.machineTimer⟩
  obtain ⟨hcmp, hclock⟩ := htimer hbit
  exact Supervisor.timerFired_mono hcmp hclock (h.timer hbit)

namespace HartBus

theorem step_sameClock (hspares : ∀ access ∈ m.hart.accesses m.bus, SparesTimer access) :
    m.bus.SameClock (m.after .step).bus := by
  refine Supervisor.step_keeps_of_accesses ?_ ?_ hspares (.refl m.bus)
  · intro width bus addr _ hsame
    exact hsame.trans (bus.read_sameClock width addr)
  · intro width bus addr val hgood hsame
    exact hsame.trans (bus.write_sameClock hgood val)

theorem step_sameSources (hspares : ∀ access ∈ m.hart.accesses m.bus, m.bus.SparesDevices access) :
    m.bus.SameSources (m.after .step).bus := by
  refine Supervisor.step_keeps_of_accesses ?_ ?_ hspares (.refl m.bus)
  · intro width bus addr hgood hsame
    exact hsame.trans (DeviceBus.read_sameSources (hsame.sparesDevices hgood))
  · intro width bus addr val hgood hsame
    exact hsame.trans (DeviceBus.write_sameSources (hsame.sparesDevices hgood) val)

theorem InSync.step (h : m.InSync) (hmip : m.LeavesMip .step)
    (hholds : m.HoldsLines .step) : (m.after .step).InSync := by
  have hpolled := h.polled
  rcases Supervisor.step_pending hpolled.machineTimer hmip.1 hmip.2 with hlowers | hshows
  · have hmachine : (m.after .step).hart.mip.getLsbD 7 = false := by
      rw [Bool.eq_false_iff]
      intro hbit
      cases hpolled.machineTimer.symm.trans (hlowers.mip 7 hbit)
    refine ⟨hmachine, ?_⟩
    rcases hholds with hlast | ⟨htimer, hexternal⟩
    · left
      refine hlowers.countdown.trans ?_
      simp [Supervisor.pollDevices, hlast]
    right
    refine ⟨fun hbit => ?_, fun hbit => ?_, hmachine⟩
    · have hshown := hlowers.mip 5 hbit
      obtain ⟨hspares, hcsr⟩ := htimer hshown
      have hclock := step_sameClock hspares
      have hstimecmp : (m.after .step).hart.stimecmp = (m.hart.pollDevices m.bus).stimecmp :=
        (Supervisor.step_stimecmp hcsr).trans (m.hart.pollDevices_stimecmp m.bus).symm
      rw [Supervisor.timerFired, hstimecmp]
      refine Supervisor.timerFired_mono hclock.mtimecmp ?_ (hpolled.timer hshown)
      rw [hclock.mtime]
      exact BitVec.le_refl _
    · have hshown := hlowers.mip 9 hbit
      exact (step_sameSources (hexternal hshown)).external.trans (hpolled.external hshown)
  · exact ⟨hshows.machineTimer, Or.inr hshows⟩

omit [FloatOps] in
/-- Between two steps no line falls while its bit is set. -/
theorem InSync.between (h : m.InSync)
    (htimer : m.hart.mip.getLsbD 5 = true → bus.mtimecmp = m.bus.mtimecmp ∧ m.bus.mtime ≤ bus.mtime)
    (hexternal : m.bus.externalInterruptPending = true → bus.externalInterruptPending = true) :
    HartBus.InSync { m with bus := bus } :=
  ⟨h.machineTimer, h.shows.imp_right fun hshows =>
    hshows.of_bus htimer fun _ => hexternal⟩

omit [FloatOps] in
theorem InSync.of_rises (h : m.InSync) (hrises : m.bus.Rises bus) :
    HartBus.InSync { m with bus := bus } :=
  h.between (fun _ => ⟨hrises.mtimecmp, hrises.mtime⟩) hrises.external

theorem InSync.next {m' : HartBus δ} (h : m.InSync)
    (hmip : m.LeavesMip event) (hholds : m.HoldsLines event) (hnext : m.next event = .ok m') :
    m'.InSync := by
  rw [next_eq_ok hnext]
  cases event with
  | step => exact h.step hmip hholds
  | tick n =>
    refine h.between (fun hbit => ?_) (DeviceBus.tickN_external n)
    have hrises := DeviceBus.tickN_rises (hholds hbit)
    exact ⟨hrises.mtimecmp, hrises.mtime⟩
  | forward target => exact h.of_rises (m.bus.fastForwardMtime_rises target)
  | input bytes => exact h.of_rises (m.bus.uartPushInput_rises bytes)
  | flush => exact h.of_rises m.bus.flushVirtioCompletions_rises
  | supply id payload => exact h.of_rises (m.bus.p9Supply_rises id payload)

theorem InSync.deliversFresh (h : m.InSync) (event : BusEvent) : m.DeliversFresh event := by
  cases event with
  | step =>
    intro i hdelivered
    exact Supervisor.step_lineUp h.polled hdelivered
  | _ => trivial

end HartBus

/-- From a hart with no pending bit, in every run that leaves `mip` and `sip` alone and
holds the lines that are shown, every delivered device interrupt has its line up. -/
theorem delivered_interrupts_are_fresh (hart : Supervisor) (hreset : hart.mip = 0)
    (bus : DeviceBus δ) (events : List BusEvent)
    (hmip : Along (attempt HartBus.next) (Meets HartBus.LeavesMip) (.ok ⟨hart, bus⟩) events)
    (hholds : Along (attempt HartBus.next) (Meets HartBus.HoldsLines) (.ok ⟨hart, bus⟩) events) :
    Along (attempt HartBus.next) (Meets HartBus.DeliversFresh) (.ok ⟨hart, bus⟩) events := by
  have hinit : HartBus.InSync ⟨hart, bus⟩ := by
    have hclear : ∀ k, hart.mip.getLsbD k = false := fun k => by rw [hreset]; simp
    refine ⟨hclear 7, Or.inr ⟨fun hbit => ?_, fun hbit => ?_, hclear 7⟩⟩
    · cases (hclear 5).symm.trans hbit
    · cases (hclear 9).symm.trans hbit
  exact Along.attempt_of_invariant
    (fun _ _ _ hsync hcond hnext => HartBus.InSync.next hsync hcond.1 hcond.2 hnext)
    (fun _ event hsync _ => HartBus.InSync.deliversFresh hsync event)
    hinit (hmip.and hholds).meets_and

end

instance decidableSparesTimer (access : U64 × Width) : Decidable (SparesTimer access) :=
  inferInstanceAs (Decidable (_ ∧ _))

section

variable {δ : Type} [VirtioDevice δ] [FloatOps]

instance decidableOffDevices (bus : DeviceBus δ) (addr : U64) :
    Decidable (bus.OffDevices addr) :=
  inferInstanceAs (Decidable (_ ∨ _))

instance decidableSparesDevices (bus : DeviceBus δ) (access : U64 × Width) :
    Decidable (bus.SparesDevices access) :=
  inferInstanceAs (Decidable (∀ i < access.2.bytes, _))

instance HartBus.decidableLeavesMip (m : HartBus δ) : ∀ event, Decidable (m.LeavesMip event)
  | .step => inferInstanceAs (Decidable (_ ∧ _))
  | .tick _ | .forward _ | .input _ | .flush | .supply _ _ => isTrue trivial

instance HartBus.decidableHoldsLines (m : HartBus δ) : ∀ event, Decidable (m.HoldsLines event)
  | .step => inferInstanceAs (Decidable (_ ∨ _))
  | .tick _ => inferInstanceAs (Decidable (_ → _))
  | .forward _ | .input _ | .flush | .supply _ _ => isTrue trivial

/-- The next step delivers the interrupt. -/
def HartBus.delivers (m : HartBus δ) (i : Interrupt) : Bool :=
  (m.hart.step m.bus).1 = .trap (.interrupt i)

/-- The next step delivers the interrupt of a line that is down. -/
def HartBus.deliversStale (m : HartBus δ) (i : Interrupt) : Bool :=
  m.delivers i && !(m.after .step).hart.lineUp (m.after .step).bus i

end

/-- A hart at reset and a program at the start of 64 bytes of memory. -/
def bootHart (program : List U32) : HartBus Virtio9p where
  hart := Supervisor.new dramBase 0
  bus :=
    { DeviceBus.new 64 with
      dram := ⟨dramBase, 64, fun i => (program.flatMap fun word => toLe 4 word.toNat).getD i 0⟩ }

/-- `csrw stimecmp, x0; wfi; li t1, 0x20; csrw sie, t1; sret`. -/
def armedProgram : List U32 :=
  [0x14D01073, 0x10500073, 0x02000313, 0x10431073, 0x10200073]

/-- The same with `li t1, -1; csrw stimecmp, t1` after the `wfi`. -/
def disarmedProgram : List U32 :=
  [0x14D01073, 0x10500073, 0xFFF00313, 0x14D31073, 0x02000313, 0x10431073, 0x10200073]

def bootRun (program : List U32) (steps : Nat) : Except BusPanic (HartBus Virtio9p) :=
  letI := FloatOps.zero
  run (attempt HartBus.next) (.ok (bootHart program)) (List.replicate steps .step)

theorem delivered_interrupts_are_fresh_armed :
    letI := FloatOps.zero
    passes (fun m => m.delivers .supervisorTimer) (bootRun armedProgram 5) = true ∧
      Along (attempt HartBus.next) (Meets HartBus.DeliversFresh) (.ok (bootHart armedProgram))
        (List.replicate 6 .step) := by
  exact ⟨by decide +kernel, @delivered_interrupts_are_fresh Virtio9p _ FloatOps.zero
    (bootHart armedProgram).hart rfl (bootHart armedProgram).bus (List.replicate 6 .step)
    (by decide +kernel) (by decide +kernel)⟩

/-- The return to user mode delivers the timer's bit, although neither comparator has
been reached since it was disarmed. -/
theorem disarmed_timer_is_delivered :
    letI := FloatOps.zero
    Along (attempt HartBus.next) (Meets HartBus.LeavesMip) (.ok (bootHart disarmedProgram))
        (List.replicate 8 .step) ∧
      passes (fun m => m.deliversStale .supervisorTimer) (bootRun disarmedProgram 7) = true := by
  decide +kernel

end TabLinux

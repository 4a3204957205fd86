/-
The run loop as the page calls it: a budget of instructions, interpreted steps and chains
of compiled blocks, and the ways in which an idle guest hands control back.  What the loop
counts is compared with what it did.
-/
import TabLinux.DeviceBus
import TabLinux.Library.Runs
import TabLinux.RunLoop
import TabLinux.Virtio9p
import Mathlib.Logic.Function.Iterate

namespace TabLinux

open Bytes

universe u

variable {n budget : Nat}

variable {k fuel : Nat}

/-- `lui` or `auipc` with the `addi` that completes the constant. -/
def fusible (a b : Src) : Bool :=
  match a.instr, b.instr with
  | .lui rd _, .opImm .addi rd' rs1 _ => rd ≠ 0 && rd = rs1 && rd = rd'
  | .auipc rd _, .opImm .addi rd' rs1 _ => rd ≠ 0 && rd = rs1 && rd = rd'
  | _, _ => false

/-- A way out of a body: the instructions of the trace on the path to it, and the constant
that is added to the chain's counter there. -/
structure Exit where
  path : Nat
  count : Nat
deriving DecidableEq, Repr

/-- The exits of the body for a trace, the final one last.  `k` is the position in the trace
and `n` the emitter's own count; `emits` says for which instructions there is code. -/
def emitBody (emits : Instr → Bool) (k n : Nat) : List Src → List Exit
  | [] => [⟨k, n⟩]
  | [src] =>
      if src.instr.isCompilable || src.instr.isTerminator then
        if emits src.instr then [⟨k + 1, n + 1⟩] else [⟨k, n⟩]
      else [⟨k, n⟩]
  | src :: next :: rest =>
      if src.instr.isCompilable then
        if fusible src next then emitBody emits (k + 2) (n + 2) rest
        else if emits src.instr then emitBody emits (k + 1) (n + 1) (next :: rest)
        else [⟨k, n⟩]
      else
        match src.instr with
        | .jal _ _ => emitBody emits (k + 1) (n + 1) (next :: rest)
        | .branch _ _ _ _ => ⟨k + 1, n + 1⟩ :: emitBody emits (k + 1) (n + 1) (next :: rest)
        | _ => [⟨k, n⟩]

/-- The emitter's count is the position in the trace, at every exit. -/
theorem emitBody_count {emits : Instr → Bool} {trace : List Src} (hn : n = k)
    {exit : Exit} (hexit : exit ∈ emitBody emits k n trace) : exit.count = exit.path := by
  have hone : ∀ {j}, exit ∈ [(⟨j, j⟩ : Exit)] → exit.count = exit.path := by
    intro j hmem
    rw [List.mem_singleton.mp hmem]
  subst hn
  induction trace using List.twoStepInduction generalizing n with
  | nil => exact hone hexit
  | singleton src =>
    rw [emitBody] at hexit
    split at hexit
    · split at hexit
      · exact hone hexit
      · exact hone hexit
    · exact hone hexit
  | cons_cons src next rest ihRest ihNext =>
    rw [emitBody] at hexit
    split at hexit
    · split at hexit
      · exact ihRest hexit
      · split at hexit
        · exact ihNext next hexit
        · exact hone hexit
    · split at hexit
      · exact ihNext next hexit
      · rcases List.mem_cons.mp hexit with hside | hrest
        · rw [hside]
        · exact ihNext next hrest
      · exact hone hexit

/-- A block that ran to one of its exits.  There is no body without instructions. -/
structure BlockRun where
  trace : List Src
  exit : Exit
  emitted : ∃ emits, exit ∈ emitBody emits 0 0 trace
  covers : 0 < exit.count

/-- A call of compiled code: the blocks that ran, one tail-calling the next, and, where an
access faulted, how many instructions of the last block ran before it. -/
structure CompiledCall (β : Type u) where
  blocks : List BlockRun
  faulted : Option Nat
  machine : Machine β
  nextPc : U64
  runs : faulted = none → blocks ≠ []

variable {call : CompiledCall β}

section

variable {β : Type u}

namespace CompiledCall

/-- What the blocks have added to the chain's counter. -/
def jitInsns (call : CompiledCall β) : Nat :=
  (call.blocks.map fun block => block.exit.count).sum

/-- The instructions that ran. -/
def committed (call : CompiledCall β) : Nat :=
  (call.blocks.map fun block => block.exit.path).sum + call.faulted.getD 0

theorem jitInsns_eq (h : call.faulted = none) : call.jitInsns = call.committed := by
  have hsame : (call.blocks.map fun block => block.exit.count) =
      call.blocks.map fun block => block.exit.path := by
    refine List.map_congr_left fun block _ => ?_
    obtain ⟨emits, hexit⟩ := block.emitted
    exact emitBody_count rfl hexit
  rw [jitInsns, committed, h, hsame]
  rfl

theorem jitInsns_pos (h : call.faulted = none) : 0 < call.jitInsns := by
  cases hblocks : call.blocks with
  | nil => exact absurd hblocks (call.runs h)
  | cons block blocks =>
    rw [jitInsns, hblocks, List.map_cons, List.sum_cons]
    exact Nat.add_pos_left block.covers _

end CompiledCall

end

/-- What the installed functions do, by the machine that enters them and the block. -/
abbrev Compiled (β : Type u) := Machine β → Hit → CompiledCall β

/-- A bus with a clock that the run loop drives. -/
class MachineBus (β : Type u) extends Bus β where
  tick : β → β
  tickN : β → Nat → β
  flushVirtioCompletions : β → β
  getMtimecmp : β → U64
  mtime : β → U64
  /-- What is counted towards the next tick of the clock is short of one. -/
  Wound : β → Prop
  /-- A batch moves the clock as that many single ticks. -/
  tickN_mtime : ∀ {bus n}, Wound bus → n < 2 ^ 63 → mtime (tickN bus n) = mtime (tick^[n] bus)
  /-- A frame waits for the host. -/
  netToHost : β → Bool
  idleSkipMtimeTo : β → U64 → β
  idleSkipMtime : β → U64 → β
  /-- Has the clock reached the target? -/
  idleSkipMtimeRealtime : β → (target allowance : U64) → Bool × β

/-- The furthest a single idle skip goes. -/
def maxIdleSkip : U64 := 10000

namespace DeviceBus

variable {δ : Type} [VirtioDevice δ] (bus : DeviceBus δ)

/-- The queues of the network card that was attached last. -/
def net : Option (List Bytes × List Bytes) :=
  (List.finRange virtioMmioSlots).reverse.findSome? fun slot =>
    (bus.virtio slot).bind fun m => VirtioDevice.netQueues m.dev

/-- A frame queued for the guest holds an idle skip up, but not forever. -/
def stalls : Bool := (bus.net.any fun queues => !queues.2.isEmpty) && bus.idleStall < 4096

def idleSkip (target : U64) : DeviceBus δ :=
  if bus.stalls then { bus with idleStall := bus.idleStall + 1 }
  else { bus with idleStall := 0 }.fastForwardMtime target

/-- The devices that a tick serves leave the clock alone. -/
theorem virtioTick_clock (advance : U64) :
    (bus.virtioTick advance).mtime = bus.mtime ∧
      (bus.virtioTick advance).tickAccum = bus.tickAccum := by
  unfold virtioTick
  rw [foldl_tickSlot_effect]
  exact ⟨rfl, rfl⟩

theorem tick_iterate_clock (h : bus.tickAccum.toNat < 10) (n : Nat) :
    (tick^[n] bus).mtime = bus.mtime + BitVec.ofNat 64 ((bus.tickAccum.toNat + n) / 10) ∧
      (tick^[n] bus).tickAccum.toNat = (bus.tickAccum.toNat + n) % 10 := by
  induction n with
  | zero =>
    rw [Nat.add_zero, Nat.div_eq_of_lt h, Nat.mod_eq_of_lt h]
    exact ⟨(BitVec.add_zero _).symm, rfl⟩
  | succ n ih =>
    obtain ⟨hmtime, haccum⟩ := ih
    rw [Function.iterate_succ_apply']
    generalize tick^[n] bus = ticked at hmtime haccum
    unfold tick
    rw [(virtioTick_clock _ _).1, (virtioTick_clock _ _).2]
    unfold mtimeStepsPerTick
    split
    · refine ⟨?_, ?_⟩
      · change ticked.mtime + 1 = _
        bv_omega
      · bv_omega
    · refine ⟨?_, ?_⟩
      · change ticked.mtime = _
        bv_omega
      · bv_omega

theorem tickN_mtime (h : bus.tickAccum.toNat < 10) {n : Nat} (hn : n < 2 ^ 63) :
    (bus.tickN (BitVec.ofNat 64 n)).mtime = (tick^[n] bus).mtime := by
  rcases Nat.lt_trichotomy n 1 with hzero | rfl | hmany
  · obtain rfl : n = 0 := by omega
    rfl
  · rfl
  · have hbits : (BitVec.ofNat 64 n).toNat = n := Nat.mod_eq_of_lt (by omega)
    rw [(bus.tick_iterate_clock h n).1, tickN, if_neg (by bv_omega), if_neg (by bv_omega),
      (virtioTick_clock _ _).1]
    refine congrArg (bus.mtime + ·) (BitVec.eq_of_toNat_eq ?_)
    rw [mtimeStepsPerTick, BitVec.toNat_udiv, BitVec.toNat_add, hbits, BitVec.toNat_ofNat]
    change _ % 2 ^ 64 / 10 = _
    omega

end DeviceBus

instance {δ : Type} [VirtioDevice δ] : MachineBus (DeviceBus δ) where
  tick := DeviceBus.tick
  tickN bus n := bus.tickN (BitVec.ofNat 64 n)
  flushVirtioCompletions := DeviceBus.flushVirtioCompletions
  getMtimecmp := DeviceBus.mtimecmp
  mtime := DeviceBus.mtime
  Wound bus := bus.tickAccum.toNat < 10
  tickN_mtime h hn := DeviceBus.tickN_mtime _ h hn
  netToHost bus := bus.net.any fun queues => !queues.1.isEmpty
  idleSkipMtimeTo := DeviceBus.idleSkip
  idleSkipMtime bus target :=
    let capped := bus.mtime + maxIdleSkip
    bus.idleSkip (if target ≤ capped then target else capped)
  idleSkipMtimeRealtime bus target allowance :=
    let granted :=
      if bus.mtime.toNat + allowance.toNat < 2 ^ 64 then bus.mtime + allowance
      else BitVec.allOnes 64
    let skipped := bus.idleSkip (if target ≤ granted then target else granted)
    (!bus.stalls && target ≤ skipped.mtime, skipped)

/-- The machine with what `run` keeps beside it. -/
structure Runner (β : Type u) where
  machine : Machine β
  steps : Nat
  chainMax : Nat
  hostNs : U64
  lastIdleHostNs : U64
  idleUntil : U64
  idleHandback : Bool
  idleReported : Bool
  idlePacing : Bool

/-- What a run did, in order: the steps of the interpreter, the calls of compiled code, the
ticks of the clock, and the states in which the hart had just parked. -/
structure Tally (β : Type u) where
  stepCalls : Nat
  calls : List (CompiledCall β)
  ticks : Nat
  parks : List (Runner β)

section

variable {β : Type u}
variable (code : Compiled β) (r : Runner β)

def Tally.none : Tally β := ⟨0, [], 0, []⟩

def Tally.append (t t' : Tally β) : Tally β :=
  ⟨t.stepCalls + t'.stepCalls, t.calls ++ t'.calls, t.ticks + t'.ticks, t.parks ++ t'.parks⟩

/-- The instructions that compiled code committed. -/
def Tally.committed (t : Tally β) : Nat := (t.calls.map CompiledCall.committed).sum

/-- What a call leaves: after a fault the interpreter resumes at the faulting instruction. -/
def CompiledCall.after (call : CompiledCall β) : Nat × Machine β :=
  let m := call.machine
  match call.faulted with
  | some _ =>
      (1, { m with
        cpu := { m.cpu with
          blockStart := false
          cpu := { m.cpu.cpu with jitFault := 0, pc := m.jitFaultPc } } })
  | none => (call.jitInsns, m.landAt call.nextPc)

variable [MachineBus β]

/-- Enter a block. -/
def Machine.callBlock (code : Compiled β) (m : Machine β) (hit : Hit) : CompiledCall β :=
  code { m with cpu := { m.cpu with cpu := { m.cpu.cpu with jitFault := 0, jitInsns := 0 } } } hit

/-- What follows a call that was entered at `faultedAt`: the next block, unless there was a
fault, the budget or the cap is used up, or nothing is compiled there. -/
def Machine.chainNext (budget chainMax : Nat) (m : Machine β) (faultedAt : U64)
    (done : Nat) : Machine β × Option Hit :=
  if m.cpu.cpu.pc = faultedAt || !m.cpu.blockStart then (m, none)
  else if budget ≤ done || chainMax ≤ done then (m, none)
  else
    match m.jit.lookup m.cpu m.bus with
    | (some next, jit, cpu, bus) => ({ m with jit := jit, cpu := cpu, bus := bus }, some next)
    | (none, jit, cpu, bus) =>
        ({ m with jit := jit, cpu := cpu, bus := bus, jitRetry := true }, none)

/-- Run a chain of blocks.  The calls that were made come last. -/
def Machine.runChain (code : Compiled β) (budget chainMax : Nat) :
    (fuel : Nat) → Machine β → Hit → (done : Nat) → Nat × Machine β × List (CompiledCall β)
  | 0, m, _, done => (done, m, [])
  | fuel + 1, m, hit, done =>
      let call := m.callBlock code hit
      let (ran, m') := call.after
      match m'.chainNext budget chainMax m.cpu.cpu.pc (done + ran) with
      | (m', none) => (done + ran, m', [call])
      | (m', some next) =>
          let (done, m', calls) := runChain code budget chainMax fuel m' next (done + ran)
          (done, m', call :: calls)

/-- Shortest wait worth handing back, in ticks of the guest clock. -/
def shortWait : U64 := 50000

/-- Shortest wait that counts as deep idle. -/
def deepIdleWait : U64 := 500000

namespace Runner

variable (r : Runner β)

def withBus (bus : β) : Runner β :=
  { r with machine := { r.machine with bus := bus } }

/-- The time a parked guest waits for, if a timer is armed, and how long that is. -/
def deadline : U64 :=
  let mtimecmp := MachineBus.getMtimecmp r.machine.bus
  if r.machine.cpu.stimecmp ≤ mtimecmp then r.machine.cpu.stimecmp else mtimecmp

def wait : U64 :=
  let now := MachineBus.mtime r.machine.bus
  if now ≤ r.deadline then r.deadline - now else 0

/-- A park without a host clock: true where control goes back to the host. -/
def parkVirtual : Bool × Runner β :=
  if r.idleHandback && deepIdleWait ≤ r.wait &&
      !Bus.checkExternalInterrupt r.machine.bus && !r.idleReported then
    (true, { r with idleReported := true, idleUntil := r.deadline })
  else if r.idleReported then
    (false, { r with idleReported := false }.withBus
      (MachineBus.idleSkipMtimeTo r.machine.bus r.deadline))
  else (false, r.withBus (MachineBus.idleSkipMtime r.machine.bus r.deadline))

/-- The real time that has passed, in ticks of the guest clock. -/
def allowance : U64 :=
  let since := if r.idlePacing then r.lastIdleHostNs else r.hostNs
  if since ≤ r.hostNs then (r.hostNs - since) / 100 else 0

/-- A long park with a host clock: the guest gets the real time that has passed. -/
def parkReal : Bool × Runner β :=
  let next := r.deadline
  let (reached, bus) := MachineBus.idleSkipMtimeRealtime r.machine.bus next r.allowance
  let r := { r with idlePacing := !reached, lastIdleHostNs := r.hostNs }.withBus bus
  if reached then (false, r) else (true, { r with idleUntil := next })

/-- The hart has parked: deliver what is in flight, and skip to the next deadline or hand
control back. -/
def park : Bool × Runner β :=
  if MachineBus.netToHost r.machine.bus then (true, r)
  else
    let r := r.withBus (MachineBus.flushVirtioCompletions r.machine.bus)
    if r.deadline = BitVec.allOnes 64 then (false, r)
    else if r.hostNs = 0 then r.parkVirtual
    else if r.wait < shortWait then
      (false, r.withBus (MachineBus.idleSkipMtime r.machine.bus r.deadline))
    else r.parkReal

end Runner

/-- One round of the loop either goes on, with the instructions it ran, or hands back. -/
inductive Round (β : Type u) where
  | next (r : Runner β) (ran : Nat) (tally : Tally β)
  | handBack (r : Runner β) (tally : Tally β)

variable [FloatOps]

namespace Runner

/-- The interpreter's round. -/
def interpRound (r : Runner β) (m : Machine β) : Round β :=
  let (status, cpu, bus) := m.cpu.step m.bus
  let retry (r : Runner β) : Runner β :=
    if m.jitRetry then
      { r with machine := { r.machine with cpu := { r.machine.cpu with blockStart := true } } }
    else r
  let r := { r with
    machine := { m with cpu := cpu, bus := bus, jitRetry := false, phase := .top } }
  if status = .wfi then
    match r.park with
    | (true, r') => .handBack r' ⟨1, [], 1, [r]⟩
    | (false, r') => .next (retry r') 1 ⟨1, [], 1, [r]⟩
  else .next (retry r) 1 ⟨1, [], 1, []⟩

/-- One round, with `room` instructions left. -/
def round (code : Compiled β) (r : Runner β) (room : Nat) : Round β :=
  let m := (r.machine.service MachineBus.tick).choose
  if m.phase = .ready then
    match m.jit.lookup m.cpu m.bus with
    | (some hit, jit, cpu, bus) =>
        let (executed, m, calls) := Machine.runChain code room r.chainMax room
          { m with jit := jit, cpu := cpu, bus := bus } hit 0
        let m := { m with bus := MachineBus.tickN m.bus (executed - 1), phase := .top }
        .next { r with machine := m } executed ⟨0, calls, 1 + (executed - 1), []⟩
    | (none, jit, cpu, bus) => r.interpRound { m with jit := jit, cpu := cpu, bus := bus }
  else r.interpRound m

/-- The end of a run. -/
def finish (r : Runner β) (n : Nat) (tally : Tally β) : Nat × Runner β × Tally β :=
  (n, { r with steps := r.steps + n }, tally)

def runLoop (code : Compiled β) (budget : Nat) :
    (fuel : Nat) → Runner β → (n : Nat) → Tally β → Nat × Runner β × Tally β
  | 0, r, n, tally => r.finish n tally
  | fuel + 1, r, n, tally =>
      if n < budget then
        match r.round code (budget - n) with
        | .next r ran tally' => runLoop code budget fuel r (n + ran) (tally.append tally')
        | .handBack r tally' => r.finish n (tally.append tally')
      else r.finish n tally

/-- Run up to `budget` instructions; every round runs at least one. -/
def run (code : Compiled β) (r : Runner β) (budget : Nat) :
    Nat × Runner β × Tally β :=
  runLoop code budget budget { r with idleUntil := 0 } 0 .none

end Runner

/-- The call faulted nowhere, or after a single instruction, which is what a fault counts
as. -/
def CompiledCall.Exact (call : CompiledCall β) : Prop :=
  call.faulted = none ∨ call.committed = 1

/-- A parked hart stays with the loop: no frame waits for the host, and the guest has no
deadline, or one for which the loop does not hand back. -/
def Runner.StaysAwake (r : Runner β) : Prop :=
  MachineBus.netToHost r.machine.bus = false ∧
    let r := r.withBus (MachineBus.flushVirtioCompletions r.machine.bus)
    r.deadline = BitVec.allOnes 64 ∨
      (r.hostNs = 0 ∧ ¬ (r.idleHandback = true ∧ deepIdleWait ≤ r.wait ∧
        Bus.checkExternalInterrupt r.machine.bus = false ∧ r.idleReported = false)) ∨
      (r.hostNs ≠ 0 ∧ (r.wait < shortWait ∨
        (MachineBus.idleSkipMtimeRealtime r.machine.bus r.deadline r.allowance).1 = true))

instance CompiledCall.decidableExact (call : CompiledCall β) : Decidable call.Exact :=
  inferInstanceAs (Decidable (_ ∨ _))

instance Runner.decidableStaysAwake (r : Runner β) : Decidable r.StaysAwake :=
  inferInstanceAs (Decidable (_ ∧ (_ ∨ _ ∧ ¬ (_ ∧ _ ∧ _ ∧ _) ∨ _ ∧ (_ ∨ _))))

/-- The count of a run is what the run did. -/
structure Tally.Accounts (t : Tally β) (n : Nat) : Prop where
  count : n = t.stepCalls + t.committed
  clock : t.ticks = n

omit [FloatOps] [MachineBus β] in
theorem Tally.Accounts.append {t t' : Tally β} {n' : Nat} (h : t.Accounts n)
    (h' : t'.Accounts n') : (t.append t').Accounts (n + n') := by
  have hcount := h.count
  have hcount' := h'.count
  have hclock := h.clock
  have hclock' := h'.clock
  have hcommitted : (t.append t').committed = t.committed + t'.committed := by
    rw [Tally.committed, Tally.append, List.map_append, List.sum_append]
    rfl
  constructor
  · rw [hcommitted]
    change n + n' = t.stepCalls + t'.stepCalls + _
    omega
  · change t.ticks + t'.ticks = n + n'
    omega

omit [FloatOps] [MachineBus β] in
theorem CompiledCall.after_pos (call : CompiledCall β) : 0 < call.after.1 := by
  unfold after
  split
  · exact Nat.one_pos
  · rename_i hnone
    exact jitInsns_pos hnone

omit [FloatOps] [MachineBus β] in
theorem CompiledCall.Exact.after (h : call.Exact) : call.after.1 = call.committed := by
  unfold CompiledCall.after
  split
  · rename_i k hfault
    rcases h with hnone | hone
    · cases hfault.symm.trans hnone
    · exact hone.symm
  · rename_i hnone
    exact CompiledCall.jitInsns_eq hnone

namespace Machine

omit [FloatOps] in
theorem chainNext_lt {chainMax done : Nat} {m m' : Machine β} {faultedAt : U64}
    {next : Hit} (h : m.chainNext budget chainMax faultedAt done = (m', some next)) :
    done < budget := by
  unfold chainNext at h
  split at h
  · cases h
  split at h
  · cases h
  rename_i hroom
  simp only [Bool.or_eq_true, decide_eq_true_eq, not_or, Nat.not_le] at hroom
  exact hroom.1

variable (budget chainMax fuel : Nat) (m : Machine β) (hit : Hit) (done : Nat)
include hit

omit [FloatOps] in
/-- A chain makes a call, and ends or goes on below the budget. -/
theorem runChain_cases :
    ∃ call, (∃ m', runChain code budget chainMax (fuel + 1) m hit done =
        (done + call.after.1, m', [call])) ∨
      ∃ m' hit', done + call.after.1 < budget ∧
        runChain code budget chainMax (fuel + 1) m hit done =
          ((runChain code budget chainMax fuel m' hit' (done + call.after.1)).1,
            (runChain code budget chainMax fuel m' hit' (done + call.after.1)).2.1,
            call :: (runChain code budget chainMax fuel m' hit' (done + call.after.1)).2.2) := by
  refine ⟨m.callBlock code hit, ?_⟩
  rw [runChain]
  dsimp only
  rcases hnext : (m.callBlock code hit).after.2.chainNext budget chainMax m.cpu.cpu.pc
    (done + (m.callBlock code hit).after.1) with ⟨m', _ | next⟩
  · exact Or.inl ⟨m', rfl⟩
  · exact Or.inr ⟨m', next, chainNext_lt hnext, rfl⟩

omit [FloatOps] in
/-- A chain counts what its calls committed. -/
theorem runChain_done (hexact : ∀ call ∈
    (runChain code budget chainMax fuel m hit done).2.2, call.Exact) :
    (runChain code budget chainMax fuel m hit done).1 =
      done + ((runChain code budget chainMax fuel m hit done).2.2.map
        CompiledCall.committed).sum := by
  induction fuel generalizing m hit done with
  | zero => rfl
  | succ fuel ih =>
    obtain ⟨call, ⟨m', hend⟩ | ⟨m', hit', -, hnext⟩⟩ :=
      runChain_cases code budget chainMax fuel m hit done
    · rw [hend] at hexact ⊢
      rw [(hexact call List.mem_cons_self).after]
      rfl
    rw [hnext] at hexact ⊢
    obtain ⟨hcall, hcalls⟩ := List.forall_mem_cons.mp hexact
    rw [ih m' hit' _ hcalls, hcall.after, List.map_cons, List.sum_cons, Nat.add_assoc]

omit [FloatOps] in
theorem runChain_le : done ≤ (runChain code budget chainMax fuel m hit done).1 := by
  induction fuel generalizing m hit done with
  | zero => exact Nat.le_refl _
  | succ fuel ih =>
    obtain ⟨call, ⟨m', hend⟩ | ⟨m', hit', -, hnext⟩⟩ :=
      runChain_cases code budget chainMax fuel m hit done
    · rw [hend]
      exact Nat.le_add_right _ _
    · rw [hnext]
      exact Nat.le_trans (Nat.le_add_right _ _) (ih m' hit' _)

omit [FloatOps] in
/-- A chain that is entered runs something. -/
theorem runChain_lt : done < (runChain code budget chainMax (fuel + 1) m hit done).1 := by
  obtain ⟨call, ⟨m', hend⟩ | ⟨m', hit', -, hnext⟩⟩ :=
    runChain_cases code budget chainMax fuel m hit done
  · rw [hend]
    exact Nat.lt_add_of_pos_right call.after_pos
  rw [hnext]
  exact Nat.lt_of_lt_of_le (Nat.lt_add_of_pos_right call.after_pos)
    (runChain_le code budget chainMax fuel m' hit' _)

end Machine

omit [FloatOps] in
theorem Runner.StaysAwake.park {r : Runner β} (h : r.StaysAwake) : r.park.1 = false := by
  obtain ⟨hnet, hrest⟩ := h
  unfold Runner.park
  rw [hnet]
  dsimp only
  rw [if_neg Bool.false_ne_true]
  split
  · rfl
  rename_i hdeadline
  rcases hrest with hnone | ⟨hvirtual, hkeeps⟩ | ⟨hreal, hkeeps⟩
  · exact absurd hnone hdeadline
  · rw [if_pos hvirtual]
    unfold Runner.parkVirtual
    rw [if_neg]
    · split <;> rfl
    · simpa [and_assoc] using hkeeps
  · rw [if_neg hreal]
    rcases hkeeps with hshort | hreached
    · rw [if_pos hshort]
    split
    · rfl
    unfold Runner.parkReal
    dsimp only
    rw [if_pos hreached]

omit [FloatOps] in
/-- Parking changes the bus and what the loop keeps for idle time. -/
theorem Runner.park_steps : r.park.2.steps = r.steps := by
  unfold park parkVirtual parkReal
  dsimp only
  repeat' split
  all_goals rfl

/-- The round keeps the total of the earlier runs, counts at least one instruction, and, if
its calls are exact, counts what it did. -/
structure Round.Fair (r : Runner β) (r' : Runner β) (ran : Nat) (tally : Tally β) : Prop where
  steps : r'.steps = r.steps
  pos : 0 < ran
  accounts : (∀ call ∈ tally.calls, call.Exact) → tally.Accounts ran

/-- What a round can come to. -/
inductive Round.Outcome (r : Runner β) : Round β → Prop
  | next {r' : Runner β} {ran : Nat} {tally : Tally β} (fair : Round.Fair r r' ran tally) :
      Round.Outcome r (.next r' ran tally)
  | handBack {r' parked : Runner β} {tally : Tally β} (steps : r'.steps = r.steps)
      (mem : parked ∈ tally.parks) (asleep : ¬ parked.StaysAwake) :
      Round.Outcome r (.handBack r' tally)

namespace Runner

theorem interpRound_outcome (m : Machine β) : Round.Outcome r (r.interpRound m) := by
  have hfair : ∀ (r' : Runner β) parks, r'.steps = r.steps → Round.Fair r r' 1 ⟨1, [], 1, parks⟩ :=
    fun r' parks hsteps => ⟨hsteps, Nat.one_pos, fun _ => ⟨rfl, rfl⟩⟩
  have hretry : ∀ (r' : Runner β), r'.steps = r.steps →
      (if m.jitRetry then
        { r' with
          machine := { r'.machine with cpu := { r'.machine.cpu with blockStart := true } } }
        else r').steps = r.steps := by
    intro r' hsteps
    split <;> exact hsteps
  unfold interpRound
  dsimp only
  split
  · generalize hparked : ({ r with machine := _ } : Runner β) = parked
    have hsteps : parked.park.2.steps = r.steps := by
      rw [parked.park_steps, ← hparked]
    rcases hpark : parked.park with ⟨_ | _, r'⟩ <;> rw [hpark] at hsteps
    · exact .next (hfair _ _ (hretry _ hsteps))
    · refine .handBack hsteps (List.mem_singleton.mpr rfl) fun hawake => ?_
      cases hawake.park.symm.trans (congrArg Prod.fst hpark)
  · exact .next (hfair _ _ (hretry _ rfl))

theorem round_outcome {room : Nat} (hroom : 0 < room) : Round.Outcome r (r.round code room) := by
  unfold round
  dsimp only
  split
  · split
    · rename_i hit jit cpu bus _
      obtain ⟨fuel, rfl⟩ := Nat.exists_eq_succ_of_ne_zero (Nat.ne_of_gt hroom)
      generalize ({ (r.machine.service MachineBus.tick).choose with
        cpu := cpu, bus := bus, jit := jit } : Machine β) = m
      have hpos := Machine.runChain_lt code (fuel + 1) r.chainMax fuel m hit 0
      have hdone := Machine.runChain_done code (fuel + 1) r.chainMax (fuel + 1) m hit 0
      exact .next ⟨rfl, hpos, fun hexact => ⟨hdone hexact, Nat.add_sub_cancel' hpos⟩⟩
    · exact r.interpRound_outcome _
  · exact r.interpRound_outcome _

/-- Calls stay in the tally. -/
theorem mem_runLoop_calls (budget fuel : Nat) (r : Runner β) (n : Nat) {tally : Tally β}
    {call : CompiledCall β} (hcall : call ∈ tally.calls) :
    call ∈ (runLoop code budget fuel r n tally).2.2.calls := by
  induction fuel generalizing r n tally with
  | zero => exact hcall
  | succ fuel ih =>
    have happend : ∀ tally', call ∈ (tally.append tally').calls := fun tally' =>
      List.mem_append_left _ hcall
    rw [runLoop]
    split
    · cases r.round code (budget - n) with
      | next r' ran tally' => exact ih r' (n + ran) (happend tally')
      | handBack r' tally' => exact happend tally'
    · exact hcall

/-- The loop, from a count that is right so far. -/
theorem runLoop_accounts {code : Compiled β} {r : Runner β}
    {tally : Tally β} (htally : tally.Accounts n)
    (hcalls : ∀ call ∈ (runLoop code budget fuel r n tally).2.2.calls, call.Exact)
    (hparks : ∀ parked ∈ (runLoop code budget fuel r n tally).2.2.parks, parked.StaysAwake) :
    (runLoop code budget fuel r n tally).2.2.Accounts
        (runLoop code budget fuel r n tally).1 ∧
      (runLoop code budget fuel r n tally).2.1.steps =
        r.steps + (runLoop code budget fuel r n tally).1 := by
  induction fuel generalizing r n tally with
  | zero => exact ⟨htally, rfl⟩
  | succ fuel ih =>
    rw [runLoop] at hcalls hparks ⊢
    split at hcalls
    · rename_i hroom
      rw [if_pos hroom] at hparks ⊢
      have houtcome := r.round_outcome code (Nat.sub_pos_of_lt hroom)
      cases hround : r.round code (budget - n) with
      | next r' ran tally' =>
        rw [hround] at houtcome hcalls hparks
        obtain ⟨hfair⟩ := houtcome
        have hexact : ∀ call ∈ tally'.calls, call.Exact := fun call hcall =>
          hcalls call (mem_runLoop_calls code budget fuel r' (n + ran)
            (List.mem_append_right _ hcall))
        obtain ⟨haccounts, hsteps⟩ := ih (htally.append (hfair.accounts hexact)) hcalls hparks
        rw [hfair.steps] at hsteps
        exact ⟨haccounts, hsteps⟩
      | handBack r' tally' =>
        rw [hround] at houtcome hparks
        cases houtcome with
        | handBack hsteps hmem hasleep =>
          exact absurd (hparks _ (List.mem_append_right _ hmem)) hasleep
    · rename_i hdone
      rw [if_neg hdone]
      exact ⟨htally, rfl⟩

/-- Every round counts, so that as many rounds as instructions are enough. -/
theorem runLoop_fuel (henough : budget ≤ n + fuel) (r : Runner β) (tally : Tally β) :
    runLoop code budget (fuel + 1) r n tally = runLoop code budget fuel r n tally := by
  induction fuel generalizing r n tally with
  | zero => exact if_neg (Nat.not_lt.mpr henough)
  | succ fuel ih =>
    rw [runLoop, runLoop]
    split
    · rename_i hroom
      have houtcome := r.round_outcome code (Nat.sub_pos_of_lt hroom)
      cases hround : r.round code (budget - n) with
      | next r' ran tally' =>
        rw [hround] at houtcome
        obtain ⟨hfair⟩ := houtcome
        have hpos := hfair.pos
        exact ih (by omega) r' (tally.append tally')
      | handBack r' tally' => rfl
    · rfl

end Runner

/-- In every run whose calls of compiled code do not fault and that does not hand back an
idle guest, the count, the total and the clock agree with what was run. -/
theorem run_accounts (code : Compiled β) (r : Runner β) (budget : Nat)
    (hcalls : ∀ call ∈ (r.run code budget).2.2.calls, call.Exact)
    (hparks : ∀ parked ∈ (r.run code budget).2.2.parks, parked.StaysAwake) :
    (r.run code budget).1 =
        (r.run code budget).2.2.stepCalls + (r.run code budget).2.2.committed ∧
      (r.run code budget).2.1.steps = r.steps + (r.run code budget).1 ∧
      (r.run code budget).2.2.ticks = (r.run code budget).1 := by
  have hstart : (Tally.none : Tally β).Accounts 0 := ⟨rfl, rfl⟩
  obtain ⟨haccounts, hsteps⟩ := Runner.runLoop_accounts hstart hcalls hparks
  exact ⟨haccounts.count, hsteps, haccounts.clock⟩

/-- The bound on the rounds cuts no run short: with more of them it is the same. -/
theorem run_ends (code : Compiled β) (r : Runner β) (budget extra : Nat) :
    Runner.runLoop code budget (budget + extra) { r with idleUntil := 0 } 0 .none =
      r.run code budget := by
  induction extra with
  | zero => rfl
  | succ extra ih =>
    have henough : budget ≤ 0 + (budget + extra) := by omega
    exact (Runner.runLoop_fuel code henough _ _).trans ih

end

/-- A machine at reset with a page of memory, a program at its start, and `x1` set. -/
def bootMachine (program : List U32) (x1 : U64) : Machine (DeviceBus Virtio9p) :=
  Machine.new
    { Supervisor.new dramBase 0 with
      cpu := { Cpu.new dramBase with x := fun r => if r = 1 then x1 else 0 } }
    { DeviceBus.new 0x1000 with
      dram := ⟨dramBase, 0x1000,
        fun i => (program.flatMap fun word => Bytes.toLe 4 word.toNat).getD i 0⟩ }
    ⟨dramBase, 0x1000, 0x1000, by decide⟩

def Runner.ofMachine (m : Machine (DeviceBus Virtio9p)) (hostNs : U64) :
    Runner (DeviceBus Virtio9p) :=
  ⟨m, 0, 4096, hostNs, 0, 0, false, false, false⟩

/-- A call that finds nothing to run. -/
def CompiledCall.never (m : Machine β) : CompiledCall β := ⟨[], some 0, m, 0, fun h => nomatch h⟩

/-- No block is compiled, so that a call is never made. -/
def interpretOnly : Compiled (DeviceBus Virtio9p) := fun m _ => .never m

/-- The machine after a number of interpreted instructions and the install of the block that
has become hot. -/
def Machine.warmed (m : Machine (DeviceBus Virtio9p)) (steps : Nat) :
    Machine (DeviceBus Virtio9p) :=
  letI := FloatOps.zero
  Runs.run Machine.exec m
    (.enable true ::
      (List.replicate steps [.service DeviceBus.tick, .choose, .enter, .interpret]).flatten ++
        [.build true, .installed 5])

/-- The hart with another value in `x1`. -/
def Machine.withX1 (m : Machine (DeviceBus Virtio9p)) (x1 : U64) :
    Machine (DeviceBus Virtio9p) :=
  { m with cpu := { m.cpu with cpu := { m.cpu.cpu with
    x := fun r => if r = 1 then x1 else m.cpu.cpu.x r } } }

/-- `addi x1, x1, -1; bnez x1, .-4; wfi; addi x1, x1, 1` counts down, and waits. -/
def countProgram : List U32 := [0xFFF08093, 0xFE009EE3, 0x10500073, 0x00108093]

/-- The last pass of the countdown. -/
def countBlock : BlockRun where
  trace := (countProgram.take 2).map fun word => ⟨decode word, 4, 0⟩
  exit := ⟨2, 2⟩
  emitted := ⟨fun _ => true, by decide⟩
  covers := by decide

def countCode : Compiled (DeviceBus Virtio9p) := fun m _ =>
  ⟨[countBlock], none, m.withX1 0, dramBase + 8, by simp⟩

/-- The countdown is compiled with one pass to go. -/
def countRunner : Runner (DeviceBus Virtio9p) :=
  .ofMachine ((bootMachine countProgram 17).warmed 32) 7

/-- The compiled pass is followed by a wait with no timer armed. -/
theorem run_accounts_wfi :
    letI := FloatOps.zero
    let ran := countRunner.run countCode 4
    ran.2.2.calls.length = 1 ∧ ran.2.2.parks.length = 1 ∧
      ran.1 = ran.2.2.stepCalls + ran.2.2.committed ∧
      ran.2.1.steps = countRunner.steps + ran.1 ∧ ran.2.2.ticks = ran.1 := by
  have hran : letI := FloatOps.zero
      let tally := (countRunner.run countCode 4).2.2
      (tally.calls.length = 1 ∧ tally.parks.length = 1) ∧
        (∀ call ∈ tally.calls, call.Exact) ∧ ∀ parked ∈ tally.parks, parked.StaysAwake := by
    decide +kernel
  obtain ⟨⟨hcalls, hparks⟩, hexact, hawake⟩ := hran
  refine ⟨hcalls, hparks, ?_⟩
  exact @run_accounts (DeviceBus Virtio9p) _ FloatOps.zero countCode countRunner 4 hexact hawake

/-- `lw x2, 0(x1); addi x1, x1, 4; j .-8` reads upwards. -/
def scanProgram : List U32 := [0x0000A103, 0x00408093, 0xFF9FF06F]

/-- One pass through the loop's block. -/
def scanBlock : BlockRun where
  trace := scanProgram.map fun word => ⟨decode word, 4, 0⟩
  exit := ⟨3, 3⟩
  emitted := ⟨fun _ => true, by decide⟩
  covers := by decide

/-- The block runs once and calls itself; the load of the second pass is behind the mapping. -/
def scanCode : Compiled (DeviceBus Virtio9p) := fun m _ =>
  ⟨[scanBlock], some 0, { m.withX1 0xC0000000 with jitFaultPc := dramBase }, 0,
    fun h => nomatch h⟩

/-- The loop in supervisor mode.  The table in the second page maps the gigabyte from
`dramBase` on to itself and nothing else. -/
def scanBoot : Machine (DeviceBus Virtio9p) :=
  let m := bootMachine scanProgram (0xC0000000 - 4 * 17)
  { m with
    cpu := { m.cpu with privLevel := .supervisor, satp := ⟨8, 0, 0x80001⟩ }
    bus := { m.bus with dram := ⟨dramBase, 0x2000, fun i =>
      if 0x1010 ≤ i then [0xCF, 0, 0, 0x20].getD (i - 0x1010) 0 else m.bus.dram.dram i⟩ }
    dram := ⟨dramBase, 0x2000, 0x1000, by decide⟩ }

/-- `wfi` with a timer a tenth of a second away. -/
def wfiMachine : Machine (DeviceBus Virtio9p) :=
  let m := bootMachine [0x10500073] 0
  { m with bus := { m.bus with mtimecmp := 1000000 } }

/-- The result of a run, the total of the runs, the steps of the interpreter, the
instructions that compiled code committed and the ticks. -/
def Runner.counted (r : Runner (DeviceBus Virtio9p)) (code : Compiled (DeviceBus Virtio9p))
    (budget : Nat) : Nat × Nat × Nat × Nat × Nat :=
  letI := FloatOps.zero
  let (n, r, tally) := r.run code budget
  (n, r.steps, tally.stepCalls, tally.committed, tally.ticks)

/-- A run that hands back an idle guest has made a step that it does not count.  A chain that
faults in its second block counts for one instruction, and so does the clock, where three have
run: with the three steps that follow there are six. -/
theorem run_miscounts :
    (Runner.ofMachine wfiMachine 1).counted interpretOnly 10 = (0, 0, 1, 0, 1) ∧
      (Runner.ofMachine (scanBoot.warmed 48) 0).counted scanCode 4 = (4, 4, 3, 3, 4) := by
  decide +kernel

end TabLinux

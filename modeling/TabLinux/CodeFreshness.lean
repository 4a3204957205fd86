/-
Compiled code against changes of instruction memory.  A `fence.i` discards the blocks
only if a store to a code page was noted before; a log of the memory in which each block
was traced says when the blocks that are kept are still right.
-/
import TabLinux.InlineTlb
import TabLinux.Library.Runs

namespace TabLinux

open Runs Machine

variable (m : Machine Ram) (jit : Jit) (s : Supervisor) (mem : Ram)

/-- A traced run: where it starts in memory, and the memory as tracing left it. -/
structure RunOrigin where
  paddr : U64
  run : List Src
  mem : Ram

variable {o : RunOrigin}

namespace RunOrigin

/-- The bytes that the run was decoded from are the same in both memories. -/
def sameIn (o : RunOrigin) (mem mem' : Ram) : Bool :=
  o.run.all fun src => (List.range src.width.toNat).all fun k =>
    let addr := o.paddr + src.off.signExtend 64 + BitVec.ofNat 64 k
    mem addr = mem' addr

/-- The run is what memory still holds. -/
def fresh (o : RunOrigin) (mem : Ram) : Bool := o.sameIn o.mem mem

theorem sameIn_iff {mem mem' : Ram} :
    o.sameIn mem mem' = true ↔ ∀ src ∈ o.run, ∀ k < src.width.toNat,
      mem (o.paddr + src.off.signExtend 64 + BitVec.ofNat 64 k) =
        mem' (o.paddr + src.off.signExtend 64 + BitVec.ofNat 64 k) := by
  simp [RunOrigin.sameIn]

theorem fresh_self (paddr : U64) (run : List Src) (mem : Ram) :
    (⟨paddr, run, mem⟩ : RunOrigin).fresh mem = true :=
  RunOrigin.sameIn_iff.mpr fun _ _ _ _ => rfl

theorem fresh_of_same {mem mem' : Ram} (hfresh : o.fresh mem = true)
    (hsame : o.sameIn mem mem' = true) : o.fresh mem' = true := by
  have hold := RunOrigin.sameIn_iff.mp hfresh
  have hnew := RunOrigin.sameIn_iff.mp hsame
  exact RunOrigin.sameIn_iff.mpr fun src hsrc k hk =>
    (hold src hsrc k hk).trans (hnew src hsrc k hk)

end RunOrigin

/-- The origins of the queued runs, of the runs that the host is building, and of the
functions in the host's table, the latest first. -/
structure CodeLog where
  queued : List RunOrigin
  building : List RunOrigin
  code : List (U32 × RunOrigin)

def CodeLog.new : CodeLog := ⟨[], [], []⟩

/-- The origin of a function. -/
def CodeLog.originOf (log : CodeLog) (idx : U32) : Option RunOrigin :=
  log.code.lookup idx

/-- The table after a batch was installed at consecutive places. -/
def installCode : List RunOrigin → U32 → List (U32 × RunOrigin) →
    List (U32 × RunOrigin)
  | [], _, code => code
  | o :: batch, idx, code => installCode batch (idx + 1) ((idx, o) :: code)

/-- The runs that a lookup has queued. -/
def CodeLog.enqueue (log : CodeLog) (m m' : Machine Ram) : CodeLog :=
  { log with
    queued := log.queued ++
      (m'.jit.pending.drop m.jit.pending.length).map fun run => ⟨run.1, run.2, m'.bus⟩ }

/-- What an event that takes `m` to `m'` does to the log. -/
def CodeLog.record (log : CodeLog) (m m' : Machine Ram) : Event Ram → CodeLog
  | .service _ => if m.flushDue then { log with queued := [] } else log
  | .enter | .act (.hop _) => log.enqueue m m'
  | .build ok =>
      if m.jit.pending = [] then log
      else { log with queued := [], building := if ok then log.queued else log.building }
  | .installed tableBase =>
      { log with building := [], code := installCode log.building tableBase log.code }
  | .discard => { log with queued := [], building := [] }
  | _ => log

/-- A machine with its log. -/
structure CodeLogged where
  machine : Machine Ram
  log : CodeLog

def CodeLogged.step [FloatOps] (l : CodeLogged) (event : Event Ram) : CodeLogged :=
  if l.machine.allows event then
    ⟨l.machine.perform event, l.log.record l.machine (l.machine.perform event) event⟩
  else l

/-- A function can be reached: through the block table, through an entry of the lookup
cache or of the chain table that no flush has marked. -/
inductive Jit.Reaches (jit : Jit) : U32 → Prop
  | slot {i : BitVec 18} {hit : Hit} (hstate : (jit.slots i).state = .compiled hit) :
      jit.Reaches hit.idx
  | vcache {i : BitVec 12} (hgen : (jit.vcache i).gen ≠ BitVec.allOnes 32) :
      jit.Reaches (jit.vcache i).hit.idx
  | chain {i : U16} (hgen : (jit.chain i).gen ≠ 0) : jit.Reaches (jit.chain i).idx

/-- The block can be reached or is queued. -/
def CodeLogged.Holds (l : CodeLogged) (o : RunOrigin) : Prop :=
  o ∈ l.log.queued ∨ ∃ idx, l.machine.jit.Reaches idx ∧ l.log.originOf idx = some o

/-- Every function that can be reached has an origin, and the runs behind those functions
and in the queue are what memory holds. -/
def CodeLogged.CodeFresh (l : CodeLogged) : Prop :=
  (∀ idx, l.machine.jit.Reaches idx → ∃ o, l.log.originOf idx = some o) ∧
    ∀ o, l.Holds o → o.fresh l.machine.bus = true

/-- The event is a store of compiled code through the host to a page that is listed as
code. -/
def Machine.notesCodeWrite (m : Machine Ram) : Event Ram → Bool
  | .act (.store _ addr _ _) =>
      match (m.cpu.translate m.bus .store addr).1 with
      | .error _ => false
      | .ok pa => (m.dram.pageHostAddr pa).isSome && m.jit.isCodePage (pa >>> 12)
  | _ => false

/-- The condition on an event: it changes no byte that a run in the hands of the host was
decoded from, and none of a block that can be reached or is queued, unless a code write is
noted already or it is a store that gets noted; and the host takes the queue only while
memory holds its runs. -/
structure CodeLogged.Covers [FloatOps] (l : CodeLogged) (event : Event Ram) : Prop where
  building : ∀ o ∈ l.log.building, o.sameIn l.machine.bus (l.step event).machine.bus = true
  held : l.machine.jit.smcDirty = true ∨ l.machine.notesCodeWrite event = true ∨
    ∀ o, l.Holds o → o.sameIn l.machine.bus (l.step event).machine.bus = true
  taken : event = .build true → ∀ o ∈ l.log.queued, o.fresh l.machine.bus = true

variable {idx : U32}

namespace Jit

/-- The tables through which blocks are found, and the queue. -/
def blocks (jit : Jit) : (BitVec 18 → Slot) × (BitVec 12 → VSlot) ×
    (U16 → ChainEntry) × List (U64 × List Src) :=
  (jit.slots, jit.vcache, jit.chain, jit.pending)

theorem reaches_of_tables {jit' : Jit} (h : jit'.Reaches idx)
    (hslots : jit'.slots = jit.slots) (hvcache : jit'.vcache = jit.vcache)
    (hchain : jit'.chain = jit.chain) : jit.Reaches idx := by
  cases h with
  | slot hstate =>
    rw [hslots] at hstate
    exact .slot hstate
  | vcache hgen =>
    rw [hvcache] at hgen ⊢
    exact .vcache hgen
  | chain hgen =>
    rw [hchain] at hgen ⊢
    exact .chain hgen

theorem Reaches.of_blocks {jit jit' : Jit} (hblocks : jit'.blocks = jit.blocks)
    (h : jit'.Reaches idx) : jit.Reaches idx := by
  simp only [Jit.blocks, Prod.mk.injEq] at hblocks
  exact jit.reaches_of_tables h hblocks.1 hblocks.2.1 hblocks.2.2.1

theorem flush_reaches {jit : Jit} : ¬ jit.flush.Reaches idx := by
  intro h
  cases h with
  | slot hstate => cases hstate
  | vcache hgen => exact hgen rfl
  | chain hgen => exact hgen rfl

/-- Arriving at a block start claims no slot for a compiled block, only adds to the queue,
and returns a block of the table. -/
theorem onBlockStart_blocks :
    (∀ i hit, ((jit.onBlockStart s mem).2.1.slots i).state = .compiled hit →
        (jit.slots i).state = .compiled hit) ∧
      (∃ runs, (jit.onBlockStart s mem).2.1.pending = jit.pending ++ runs) ∧
      ∀ hit, (jit.onBlockStart s mem).1 = some hit →
        ∃ i, (jit.slots i).state = .compiled hit := by
  have hput : ∀ (j : BitVec 18) (slot : Slot), (∀ hit, slot.state ≠ .compiled hit) →
      ∀ i hit, (Function.update jit.slots j slot i).state = .compiled hit →
        (jit.slots i).state = .compiled hit := by
    intro j slot hslot i hit hstate
    by_cases hi : i = j
    · rw [hi, Function.update_self] at hstate
      exact absurd hstate (hslot hit)
    · rwa [Function.update_of_ne hi] at hstate
  have hnone : ∃ runs, jit.pending = jit.pending ++ runs := ⟨[], (List.append_nil _).symm⟩
  unfold Jit.onBlockStart
  rcases s.translate mem .instruction s.cpu.pc with ⟨_ | paddr, s', mem'⟩
  · exact ⟨fun _ _ h => h, hnone, fun _ h => nomatch h⟩
  dsimp only
  split
  · exact ⟨hput _ _ (fun _ h => nomatch h), hnone, fun _ h => nomatch h⟩
  split
  · rename_i hit hstate
    refine ⟨fun _ _ h => h, hnone, fun hit' hsome => ?_⟩
    cases hsome
    exact ⟨_, hstate⟩
  · exact ⟨fun _ _ h => h, hnone, fun _ h => nomatch h⟩
  · exact ⟨fun _ _ h => h, hnone, fun _ h => nomatch h⟩
  split
  · exact ⟨hput _ _ (fun _ h => nomatch h), hnone, fun _ h => nomatch h⟩
  split
  · exact ⟨hput _ _ (fun _ h => nomatch h), hnone, fun _ h => nomatch h⟩
  · exact ⟨hput _ _ (fun _ h => nomatch h), ⟨_, rfl⟩, fun _ h => nomatch h⟩

/-- A lookup makes no function reachable that was not. -/
theorem lookup_reaches {jit : Jit} {s : Supervisor} {mem : Ram}
    (h : (jit.lookup s mem).2.1.Reaches idx) : jit.Reaches idx := by
  obtain ⟨-, hjit, hsame⟩ := jit.onBlockStart_effect s mem
  obtain ⟨hslots, -, hfound⟩ := jit.onBlockStart_blocks s mem
  unfold Jit.lookup at h
  split at h
  · exact h
  rcases hres : jit.onBlockStart s mem with ⟨_ | hit, jit', s', mem'⟩ <;>
    rw [hres] at h hjit hslots hfound hsame <;> dsimp only at h hjit hslots hfound hsame
  · cases h with
    | slot hstate => exact .slot (hslots _ _ hstate)
    | vcache hgen =>
      rw [hjit] at hgen ⊢
      exact .vcache hgen
    | chain hgen =>
      rw [hjit] at hgen ⊢
      exact .chain hgen
  · obtain ⟨i, hstate⟩ := hfound hit rfl
    have hkeep : jit' = jit := hsame (by simp)
    subst hkeep
    rw [Jit.insertKeys_eq] at h
    cases h with
    | slot hslot => exact .slot hslot
    | @vcache j hgen =>
      dsimp only at hgen ⊢
      by_cases hj : j = vcacheIndex (vcacheKey s'.cpu.pc s'.privLevel)
      · rw [hj, Function.update_self]
        exact .slot hstate
      · rw [Function.update_of_ne hj] at hgen ⊢
        exact .vcache hgen
    | @chain j hgen =>
      dsimp only at hgen ⊢
      by_cases hj : j = chainIndex s'.cpu.pc
      · rw [hj, Function.update_self]
        exact .slot hstate
      · rw [Function.update_of_ne hj] at hgen ⊢
        exact .chain hgen

theorem lookup_pending : ∃ runs, (jit.lookup s mem).2.1.pending = jit.pending ++ runs := by
  obtain ⟨-, hpending, -⟩ := jit.onBlockStart_blocks s mem
  unfold Jit.lookup
  split
  · exact ⟨[], (List.append_nil _).symm⟩
  rcases hres : jit.onBlockStart s mem with ⟨_ | hit, jit', s', mem'⟩ <;> rw [hres] at hpending
  · exact hpending
  dsimp only at hpending ⊢
  rw [Jit.insertKeys_eq]
  exact hpending

theorem lookup_smcDirty : (jit.lookup s mem).2.1.smcDirty = jit.smcDirty := by
  have houtcome := jit.lookup_outcome s mem
  rcases hres : jit.lookup s mem with ⟨hit, jit', s', mem'⟩
  rw [hres] at houtcome
  dsimp only at houtcome ⊢
  cases houtcome with
  | cached _ => rfl
  | missing _ _ hjit => rw [hjit]
  | found _ _ => rw [Jit.insertKeys_eq]

end Jit

theorem place_succ (idx : U32) (k : Nat) :
    idx + 1 + BitVec.ofNat 32 k = idx + BitVec.ofNat 32 (k + 1) := by
  rw [BitVec.add_assoc, Nat.add_comm k 1, BitVec.ofNat_add]
  rfl

/-- The batch that the host confirms, and the functions that can be reached after it. -/
theorem Jit.installAll_slots (batch : List Built) (jit : Jit) (idx : U32)
    {i : BitVec 18} {hit : Hit} (h : ((jit.installAll batch idx).slots i).state = .compiled hit) :
    (jit.slots i).state = .compiled hit ∨
      ∃ k < batch.length, hit.idx = idx + BitVec.ofNat 32 k := by
  induction batch generalizing jit idx with
  | nil => exact Or.inl h
  | cons built batch ih =>
    rcases ih (jit.installOne built idx) (idx + 1) h with hold | ⟨k, hk, hidx⟩
    · change ((if (jit.slots (blockIndex built.paddr)).tag = built.paddr ∧
          (jit.slots (blockIndex built.paddr)).state = .queued then
        Function.update jit.slots (blockIndex built.paddr) ⟨built.paddr,
          .compiled ⟨idx, built.bytes, built.insns, built.branchy⟩⟩
        else jit.slots) i).state = _ at hold
      split at hold
      · by_cases hi : i = blockIndex built.paddr
        · rw [hi, Function.update_self] at hold
          cases hold
          exact Or.inr ⟨0, Nat.succ_pos _, by simp⟩
        · rw [Function.update_of_ne hi] at hold
          exact Or.inl hold
      · exact Or.inl hold
    · exact Or.inr ⟨k + 1, Nat.succ_lt_succ hk, hidx.trans (place_succ idx k)⟩

/-- Functions that can be reached after an installation were reachable before, or belong to
the batch. -/
theorem Jit.installed_reaches {jit : Jit} {batch : List Built} {tableBase : U32}
    (h : (jit.installed batch tableBase).Reaches idx) :
    jit.Reaches idx ∨ ∃ k < batch.length, idx = tableBase + BitVec.ofNat 32 k := by
  have hall : ∀ {jit' : Jit}, jit'.Reaches idx →
      jit'.slots = (jit.installAll batch tableBase).slots →
      jit'.vcache = jit.vcache → jit'.chain = jit.chain →
        jit.Reaches idx ∨ ∃ k < batch.length, idx = tableBase + BitVec.ofNat 32 k := by
    intro jit' h hslots hvcache hchain
    cases h with
    | slot hstate =>
      rw [hslots] at hstate
      rcases Jit.installAll_slots batch jit tableBase hstate with hold | hnew
      · exact Or.inl (.slot hold)
      · exact Or.inr hnew
    | vcache hgen =>
      rw [hvcache] at hgen ⊢
      exact Or.inl (.vcache hgen)
    | chain hgen =>
      rw [hchain] at hgen ⊢
      exact Or.inl (.chain hgen)
  have heq := Jit.installAll_eq batch jit tableBase
  unfold Jit.installed at h
  dsimp only at h
  split at h
  · exact hall h rfl (by rw [heq]) (by rw [heq])
  · exact hall h rfl (by rw [heq]) (by rw [heq])

theorem Jit.installed_same (batch : List Built) (tableBase : U32) :
    (jit.installed batch tableBase).pending = jit.pending ∧
      (jit.installed batch tableBase).smcDirty = jit.smcDirty := by
  have heq := Jit.installAll_eq batch jit tableBase
  unfold Jit.installed
  dsimp only
  split
  · exact ⟨by rw [heq], by rw [heq]⟩
  · exact ⟨by rw [heq], by rw [heq]⟩

/-- Each place of the table holds what it held, or a run of the batch. -/
theorem lookup_installCode (batch : List RunOrigin) (idx : U32)
    (code : List (U32 × RunOrigin)) (place : U32) :
    (installCode batch idx code).lookup place = code.lookup place ∨
      ∃ o ∈ batch, (installCode batch idx code).lookup place = some o := by
  induction batch generalizing idx code with
  | nil => exact Or.inl rfl
  | cons o batch ih =>
    rw [installCode]
    rcases ih (idx + 1) ((idx, o) :: code) with hkeep | ⟨o', ho', hnew⟩
    · rw [hkeep, List.lookup_cons]
      cases place == idx with
      | true => exact Or.inr ⟨o, List.mem_cons_self, rfl⟩
      | false => exact Or.inl rfl
    · exact Or.inr ⟨o', List.mem_cons_of_mem o ho', hnew⟩

/-- A place of the batch holds a run of the batch. -/
theorem lookup_installCode_of_lt {batch : List RunOrigin} (idx : U32)
    (code : List (U32 × RunOrigin)) {k : Nat} (hk : k < batch.length) :
    ∃ o ∈ batch, (installCode batch idx code).lookup (idx + BitVec.ofNat 32 k) = some o := by
  induction batch generalizing idx code k with
  | nil => exact absurd hk (Nat.not_lt_zero k)
  | cons o batch ih =>
    rw [installCode]
    cases k with
    | zero =>
      rcases lookup_installCode batch (idx + 1) ((idx, o) :: code)
        (idx + BitVec.ofNat 32 0) with hkeep | ⟨o', ho', hnew⟩
      · refine ⟨o, List.mem_cons_self, hkeep.trans ?_⟩
        simp
      · exact ⟨o', List.mem_cons_of_mem o ho', hnew⟩
    | succ k =>
      obtain ⟨o', ho', hnew⟩ := ih (idx + 1) ((idx, o) :: code) (Nat.lt_of_succ_lt_succ hk)
      refine ⟨o', List.mem_cons_of_mem o ho', ?_⟩
      rw [← hnew, place_succ]

/-- A store of compiled code notes a code write, if it is one. -/
theorem Machine.jitStore_smcDirty (width : Width) (addr val pc : U64) :
    (m.jitStore width addr val pc).jit.smcDirty =
        (m.jit.smcDirty || m.notesCodeWrite (.act (.store width addr val pc))) ∧
      (m.jitStore width addr val pc).pendingInstall = m.pendingInstall := by
  have hkeep : m.jit.smcDirty = (m.jit.smcDirty || false) := (Bool.or_false _).symm
  unfold jitStore notesCodeWrite
  dsimp only
  rcases m.cpu.translate m.bus .store addr with ⟨_ | pa, cpu, mem⟩
  · exact ⟨hkeep, rfl⟩
  refine ⟨?_, rfl⟩
  dsimp only
  unfold jitAfterStore
  cases m.dram.pageHostAddr pa with
  | none => exact hkeep
  | some page =>
    cases hcode : m.jit.isCodePage (pa >>> 12) with
    | true => exact (Bool.or_true _).symm
    | false => exact hkeep

/-- The event leaves the tables and the host's runs alone; a code write may be noted. -/
structure SameBlocks (m m' : Machine Ram) (event : Event Ram) : Prop where
  blocks : m'.jit.blocks = m.jit.blocks
  building : m'.pendingInstall = m.pendingInstall
  noted : m'.jit.smcDirty = (m.jit.smcDirty || m.notesCodeWrite event)

theorem SameBlocks.doAct [FloatOps] (act : Act Ram) (hhop : ∀ pc, act ≠ .hop pc) :
    SameBlocks m (m.doAct act) (.act act) := by
  have hkeep : m.jit.smcDirty = (m.jit.smcDirty || false) := (Bool.or_false _).symm
  cases act with
  | regs x f | device effect => exact ⟨rfl, rfl, hkeep⟩
  | load width addr pc =>
    obtain ⟨-, hjit, -⟩ := m.jitLoad_effect width addr pc
    refine ⟨by rw [Machine.doAct, hjit]; rfl, ?_, by rw [Machine.doAct, hjit]; exact hkeep⟩
    rw [Machine.doAct, Machine.jitLoad]
    rcases m.cpu.translate m.bus .load addr with ⟨_ | pa, cpu, mem⟩ <;> rfl
  | store width addr val pc =>
    obtain ⟨-, hjit, -⟩ := m.jitStore_effect width addr val pc
    obtain ⟨hnoted, hbuilding⟩ := m.jitStore_smcDirty width addr val pc
    exact ⟨by rw [Machine.doAct, hjit]; rfl, hbuilding, hnoted⟩
  | inlineStore width addr val =>
    rw [Machine.doAct, m.inlineStore_eq width addr val]
    exact ⟨rfl, rfl, hkeep⟩
  | csr csr rd src val op pc =>
    have hservice := m.jitCsr_service csr rd src val op pc
    rw [Machine.doAct]
    revert hservice
    generalize m.jitCsr csr rd src val op pc = m'
    intro hservice
    cases hservice <;> exact ⟨rfl, rfl, hkeep⟩
  | fp call pc =>
    have hbuilding : (m.jitFp call pc).pendingInstall = m.pendingInstall := by
      rw [jitFp]
      rcases m.cpu.fpJit m.bus call with ⟨_ | _, cpu, mem⟩ <;> rfl
    obtain ⟨-, -, ⟨hjit, -⟩ | hjit⟩ := m.jitFp_effect call pc
    · exact ⟨congrArg Jit.blocks hjit, hbuilding, (congrArg Jit.smcDirty hjit).trans hkeep⟩
    have hblocks : (m.jitFp call pc).jit.blocks = m.jit.blocks := by
      rw [hjit]
      rfl
    have hnoted : (m.jitFp call pc).jit.smcDirty = m.jit.smcDirty := by
      rw [hjit]
      rfl
    exact ⟨hblocks, hbuilding, hnoted.trans hkeep⟩
  | hop pc => exact absurd rfl (hhop pc)

theorem Machine.service_building (tick : Ram → Ram) :
    (m.service tick).pendingInstall = m.pendingInstall := by
  have hdrain : ∀ m : Machine Ram, m.drainFlush.pendingInstall = m.pendingInstall := by
    intro m
    rw [m.drainFlush_eq]
  have hsync : ∀ m : Machine Ram, m.syncIcache.pendingInstall = m.pendingInstall := fun m =>
    ite_keep (fun m' : Machine Ram => m'.pendingInstall) rfl rfl
  exact (hsync _).trans (hdrain _)

theorem SameBlocks.service {m : Machine Ram} (tick : Ram → Ram) (hflush : m.flushDue = false) :
    SameBlocks m (m.service tick) (.service tick) := by
  have hjit := m.service_jit tick
  rw [hflush, if_neg Bool.false_ne_true, Jit.invalidateTlbPages_eq] at hjit
  exact ⟨by rw [hjit]; rfl, m.service_building tick, by rw [hjit]; exact (Bool.or_false _).symm⟩

theorem SameBlocks.choose : SameBlocks m m.choose .choose := by
  unfold Machine.choose
  split
  · dsimp only
    split <;> exact ⟨rfl, rfl, (Bool.or_false _).symm⟩
  · exact ⟨rfl, rfl, (Bool.or_false _).symm⟩

theorem SameBlocks.leave (pc : U64) : SameBlocks m (m.leave pc) (.leave pc) := by
  unfold Machine.leave
  split <;> exact ⟨rfl, rfl, (Bool.or_false _).symm⟩

/-- A lookup reaches nothing new and may add to the queue. -/
structure QueueGrows (m m' : Machine Ram) : Prop where
  reaches : ∀ {idx}, m'.jit.Reaches idx → m.jit.Reaches idx
  pending : ∃ runs, m'.jit.pending = m.jit.pending ++ runs
  building : m'.pendingInstall = m.pendingInstall
  noted : m'.jit.smcDirty = m.jit.smcDirty

theorem QueueGrows.enter : QueueGrows m m.enter := by
  have hjit := m.enter_jit
  refine ⟨fun h => ?_, ?_, ?_, ?_⟩
  · rw [hjit] at h
    exact Jit.lookup_reaches h
  · rw [hjit]
    exact m.jit.lookup_pending m.cpu m.bus
  · unfold Machine.enter
    rcases m.jit.lookup m.cpu m.bus with ⟨_ | hit, jit, s, mem⟩ <;> rfl
  · rw [hjit]
    exact m.jit.lookup_smcDirty m.cpu m.bus

theorem QueueGrows.hop (pc : U64) : QueueGrows m (m.hop pc) := by
  have hjit := m.hop_jit pc
  refine ⟨fun h => ?_, ?_, ?_, ?_⟩
  · rw [hjit] at h
    have hland : (m.landAt pc).jit.Reaches _ := Jit.lookup_reaches h
    exact hland
  · rw [hjit]
    exact Jit.lookup_pending _ _ _
  · unfold Machine.hop
    dsimp only
    rcases (m.landAt pc).jit.lookup (m.landAt pc).cpu (m.landAt pc).bus with
      ⟨_ | hit, jit, s, mem⟩ <;> rfl
  · rw [hjit]
    exact Jit.lookup_smcDirty _ _ _

/-- The log follows the queue and the host's runs, every function that can be reached has
an origin, and a block whose bytes changed is due for a flush. -/
structure CodeLogged.Sound (l : CodeLogged) : Prop where
  queue : l.log.queued.map (fun o => (o.paddr, o.run)) = l.machine.jit.pending
  batch : l.log.building.map (fun o => builtOf (o.paddr, o.run)) = l.machine.pendingInstall
  building : ∀ o ∈ l.log.building, o.fresh l.machine.bus = true
  known : ∀ idx, l.machine.jit.Reaches idx → ∃ o, l.log.originOf idx = some o
  held : ∀ o, l.Holds o → l.machine.jit.smcDirty = true ∨ o.fresh l.machine.bus = true

variable {event : Event Ram}

namespace CodeLogged

variable {l : CodeLogged} {m' : Machine Ram}

theorem Sound.codeFresh (h : l.Sound) (hclean : l.machine.jit.smcDirty = false) : l.CodeFresh := by
  refine ⟨h.known, fun o ho => ?_⟩
  rcases h.held o ho with hdirty | hfresh
  · exact absurd (hclean.symm.trans hdirty) Bool.false_ne_true
  · exact hfresh

theorem Sound.building_next (h : l.Sound)
    (hbuilding : ∀ o ∈ l.log.building, o.sameIn l.machine.bus m'.bus = true) :
    ∀ o ∈ l.log.building, o.fresh m'.bus = true :=
  fun o ho => RunOrigin.fresh_of_same (h.building o ho) (hbuilding o ho)

/-- Blocks that were held stay fresh, or the change is noted. -/
theorem Sound.held_next (h : l.Sound)
    (hnoted : (l.machine.jit.smcDirty || l.machine.notesCodeWrite event) = true →
      m'.jit.smcDirty = true)
    (hcovers : l.machine.jit.smcDirty = true ∨ l.machine.notesCodeWrite event = true ∨
      ∀ o, l.Holds o → o.sameIn l.machine.bus m'.bus = true)
    (ho : l.Holds o) : m'.jit.smcDirty = true ∨ o.fresh m'.bus = true := by
  rcases hcovers with hdirty | hnotes | hsame
  · exact Or.inl (hnoted (by rw [hdirty, Bool.true_or]))
  · exact Or.inl (hnoted (by rw [hnotes, Bool.or_true]))
  rcases h.held o ho with hdirty | hfresh
  · exact Or.inl (hnoted (by rw [hdirty, Bool.true_or]))
  · exact Or.inr (RunOrigin.fresh_of_same hfresh (hsame o ho))

theorem Sound.same (h : l.Sound) (hsame : SameBlocks l.machine m' event)
    (hbuilding : ∀ o ∈ l.log.building, o.sameIn l.machine.bus m'.bus = true)
    (hcovers : l.machine.jit.smcDirty = true ∨ l.machine.notesCodeWrite event = true ∨
      ∀ o, l.Holds o → o.sameIn l.machine.bus m'.bus = true) :
    (⟨m', l.log⟩ : CodeLogged).Sound where
  queue := by
    have hpending : m'.jit.pending = l.machine.jit.pending :=
      congrArg (fun blocks => blocks.2.2.2) hsame.blocks
    exact h.queue.trans hpending.symm
  batch := h.batch.trans hsame.building.symm
  building := h.building_next hbuilding
  known idx hidx := h.known idx (.of_blocks hsame.blocks hidx)
  held o ho := by
    refine h.held_next (fun hdirty => hsame.noted.trans hdirty) hcovers ?_
    rcases ho with hqueued | ⟨idx, hidx, horigin⟩
    · exact Or.inl hqueued
    · exact Or.inr ⟨idx, .of_blocks hsame.blocks hidx, horigin⟩

theorem Sound.lookup (h : l.Sound) (hgrows : QueueGrows l.machine m')
    (hnotes : l.machine.notesCodeWrite event = false)
    (hbuilding : ∀ o ∈ l.log.building, o.sameIn l.machine.bus m'.bus = true)
    (hcovers : l.machine.jit.smcDirty = true ∨ l.machine.notesCodeWrite event = true ∨
      ∀ o, l.Holds o → o.sameIn l.machine.bus m'.bus = true) :
    (⟨m', l.log.enqueue l.machine m'⟩ : CodeLogged).Sound := by
  obtain ⟨runs, hpending⟩ := hgrows.pending
  have hdrop : m'.jit.pending.drop l.machine.jit.pending.length = runs := by
    rw [hpending, List.drop_left]
  have hlog : l.log.enqueue l.machine m' =
      { l.log with queued := l.log.queued ++ runs.map fun run => ⟨run.1, run.2, m'.bus⟩ } := by
    rw [CodeLog.enqueue, hdrop]
  rw [hlog]
  have hdirty : (l.machine.jit.smcDirty || l.machine.notesCodeWrite event) = true →
      m'.jit.smcDirty = true := by
    rw [hnotes, Bool.or_false, hgrows.noted]
    exact id
  refine ⟨?_, h.batch.trans hgrows.building.symm, h.building_next hbuilding,
    fun idx hidx => h.known idx (hgrows.reaches hidx), ?_⟩
  · rw [List.map_append, h.queue, hpending, List.map_map]
    exact congrArg _ (List.map_id runs)
  rintro o (hqueued | ⟨idx, hidx, horigin⟩)
  · rcases List.mem_append.mp hqueued with hold | hnew
    · exact h.held_next hdirty hcovers (Or.inl hold)
    · obtain ⟨run, -, rfl⟩ := List.mem_map.mp hnew
      exact Or.inr (RunOrigin.fresh_self _ _ _)
  · exact h.held_next hdirty hcovers (Or.inr ⟨idx, hgrows.reaches hidx, horigin⟩)

theorem not_holds_of_flushed {jit : Jit} {log : CodeLog} (hqueued : log.queued = [])
    (hm : m'.jit = jit.flush) : ¬ (⟨m', log⟩ : CodeLogged).Holds o := by
  rintro (hmem | ⟨idx, hidx, -⟩)
  · rw [hqueued] at hmem
    cases hmem
  · rw [hm] at hidx
    exact Jit.flush_reaches hidx

/-- After a flush only the runs of the host are left. -/
theorem Sound.flushed {jit : Jit} {log : CodeLog} (hqueued : log.queued = [])
    (hm : m'.jit = jit.flush)
    (hbatch : log.building.map (fun o => builtOf (o.paddr, o.run)) = m'.pendingInstall)
    (hbuilding : ∀ o ∈ log.building, o.fresh m'.bus = true) :
    (⟨m', log⟩ : CodeLogged).Sound where
  queue := by
    rw [hqueued, hm]
    rfl
  batch := hbatch
  building := hbuilding
  known idx hidx := by
    rw [hm] at hidx
    exact absurd hidx Jit.flush_reaches
  held o ho := absurd ho (not_holds_of_flushed hqueued hm)

theorem Sound.build (h : l.Sound) {ok : Bool}
    (htaken : ok = true → ∀ o ∈ l.log.queued, o.fresh l.machine.bus = true) :
    (⟨l.machine.jitBuild ok, l.log.record l.machine (l.machine.jitBuild ok) (.build ok)⟩ :
      CodeLogged).Sound := by
  unfold CodeLog.record jitBuild
  dsimp only
  split
  · exact h
  refine ⟨rfl, ?_, ?_, fun idx hidx =>
    h.known idx (l.machine.jit.reaches_of_tables hidx rfl rfl rfl), ?_⟩
  · cases ok with
    | true =>
      rw [if_pos rfl, if_pos rfl, ← h.queue, List.map_map]
      rfl
    | false => exact h.batch
  · intro o ho
    cases ok with
    | true => exact htaken rfl o ho
    | false => exact h.building o ho
  · rintro o (hmem | ⟨idx, hidx, horigin⟩)
    · cases hmem
    · exact h.held o (Or.inr ⟨idx, l.machine.jit.reaches_of_tables hidx rfl rfl rfl, horigin⟩)

theorem Sound.installed (h : l.Sound) (tableBase : U32) :
    (⟨l.machine.jitInstalled tableBase,
      l.log.record l.machine (l.machine.jitInstalled tableBase) (.installed tableBase)⟩ :
      CodeLogged).Sound := by
  have hlength : l.machine.pendingInstall.length = l.log.building.length := by
    rw [← h.batch, List.length_map]
  by_cases hnone : l.machine.pendingInstall = []
  · have hbuilding : l.log.building = [] := by
      rw [hnone] at hlength
      exact List.length_eq_zero_iff.mp hlength.symm
    have hlog : l.log.record l.machine (l.machine.jitInstalled tableBase)
        (.installed tableBase) = l.log := by
      rcases l with ⟨m, ⟨queued, building, code⟩⟩
      subst hbuilding
      rfl
    rw [hlog, jitInstalled, if_pos hnone]
    exact h
  · rw [jitInstalled, if_neg hnone]
    have horigin : ∀ idx, (l.machine.jit.installed l.machine.pendingInstall tableBase).Reaches
        idx → ∀ o, (installCode l.log.building tableBase l.log.code).lookup idx = some o →
          o ∈ l.log.building ∨ l.Holds o := by
      intro idx hidx o ho
      rcases lookup_installCode l.log.building tableBase l.log.code idx with
        hkeep | ⟨o', ho', hnew⟩
      · rcases Jit.installed_reaches hidx with hold | ⟨k, hk, rfl⟩
        · exact Or.inr (Or.inr ⟨idx, hold, hkeep.symm.trans ho⟩)
        · rw [hlength] at hk
          obtain ⟨o', ho', hnew⟩ := lookup_installCode_of_lt tableBase l.log.code hk
          rw [hnew] at ho
          cases ho
          exact Or.inl ho'
      · rw [hnew] at ho
        cases ho
        exact Or.inl ho'
    have hsame := Jit.installed_same l.machine.jit l.machine.pendingInstall tableBase
    refine ⟨h.queue.trans hsame.1.symm, rfl, (fun _ ho => nomatch ho), ?_, ?_⟩
    · intro idx hidx
      rcases Jit.installed_reaches hidx with hold | ⟨k, hk, rfl⟩
      · obtain ⟨o, ho⟩ := h.known idx hold
        rcases lookup_installCode l.log.building tableBase l.log.code idx with
          hkeep | ⟨o', -, hnew⟩
        · exact ⟨o, hkeep.trans ho⟩
        · exact ⟨o', hnew⟩
      · rw [hlength] at hk
        obtain ⟨o, -, ho⟩ := lookup_installCode_of_lt tableBase l.log.code hk
        exact ⟨o, ho⟩
    · intro o ho
      have hold : o ∈ l.log.building ∨ l.Holds o := by
        rcases ho with hqueued | ⟨idx, hidx, ho⟩
        · exact Or.inr (Or.inl hqueued)
        · exact horigin idx hidx o ho
      rcases hold with hmem | hholds
      · exact Or.inr (h.building o hmem)
      rcases h.held o hholds with hdirty | hfresh
      · exact Or.inl (hsame.2.trans hdirty)
      · exact Or.inr hfresh

theorem Sound.service (h : l.Sound) (tick : Ram → Ram)
    (hbuilding : ∀ o ∈ l.log.building, o.sameIn l.machine.bus (l.machine.service tick).bus = true)
    (hheld : l.machine.jit.smcDirty = true ∨
      l.machine.notesCodeWrite (.service tick) = true ∨
        ∀ o, l.Holds o → o.sameIn l.machine.bus (l.machine.service tick).bus = true) :
    (⟨l.machine.service tick,
      l.log.record l.machine (l.machine.service tick) (.service tick)⟩ : CodeLogged).Sound := by
  unfold CodeLog.record
  cases hflush : l.machine.flushDue with
  | true =>
    have hjit := l.machine.service_jit tick
    rw [hflush, if_pos rfl] at hjit
    have hfresh := h.building_next hbuilding
    exact Sound.flushed rfl hjit (h.batch.trans (l.machine.service_building tick).symm) hfresh
  | false => exact h.same (.service tick hflush) hbuilding hheld

theorem Sound.step [FloatOps] (h : l.Sound) (hcovers : l.Covers event) : (l.step event).Sound := by
  obtain ⟨hbuilding, hheld, htaken⟩ := hcovers
  unfold CodeLogged.step at hbuilding hheld ⊢
  by_cases hallows : l.machine.allows event
  · rw [if_pos hallows] at hbuilding hheld ⊢
    have hquiet : SameBlocks l.machine (l.machine.perform event) event →
        l.log.record l.machine (l.machine.perform event) event = l.log →
          (⟨l.machine.perform event,
            l.log.record l.machine (l.machine.perform event) event⟩ : CodeLogged).Sound := by
      intro hsame hlog
      rw [hlog]
      exact h.same hsame hbuilding hheld
    cases event with
    | service tick => exact h.service tick hbuilding hheld
    | choose => exact hquiet (.choose _) rfl
    | enter => exact h.lookup (.enter _) rfl hbuilding hheld
    | interpret => exact hquiet ⟨rfl, rfl, (Bool.or_false _).symm⟩ rfl
    | act act =>
      have hact := SameBlocks.doAct l.machine act
      cases act with
      | hop pc => exact h.lookup (.hop _ pc) rfl hbuilding hheld
      | _ =>
        refine hquiet (hact ?_) rfl
        intro pc h
        cases h
    | leave pc => exact hquiet (.leave _ pc) rfl
    | build ok => exact h.build fun hok => htaken (by rw [hok])
    | installed tableBase => exact h.installed tableBase
    | discard => exact Sound.flushed rfl rfl rfl fun _ ho => nomatch ho
    | enable on => exact hquiet ⟨rfl, rfl, (Bool.or_false _).symm⟩ rfl
  · rw [if_neg hallows]
    exact h

theorem Sound.start (cpu : Supervisor) (mem : Ram) (dram : DramWindow) :
    (⟨new cpu mem dram, .new⟩ : CodeLogged).Sound where
  queue := rfl
  batch := rfl
  building _ ho := nomatch ho
  known idx hidx := by
    cases hidx with
    | slot hstate => cases hstate
    | vcache hgen => exact absurd rfl hgen
    | chain hgen => exact absurd rfl hgen
  held o ho := Or.inr (by
    rcases ho with hmem | ⟨idx, -, horigin⟩
    · cases hmem
    · cases horigin)

/-- Once the run loop has processed a `fence.i`, no code write is noted. -/
theorem service_smcDirty [FloatOps] (l : CodeLogged) (tick : Ram → Ram)
    (hphase : l.machine.phase = .top) (hfence : l.machine.cpu.icacheGen ≠ l.machine.jitIcacheGen) :
    (l.step (.service tick)).machine.jit.smcDirty = false := by
  have hallows : l.machine.allows (.service tick) = true := decide_eq_true hphase
  unfold CodeLogged.step
  rw [if_pos hallows]
  change (l.machine.service tick).jit.smcDirty = false
  rw [l.machine.service_jit tick]
  cases hdirty : l.machine.jit.smcDirty with
  | true =>
    have hflush : l.machine.flushDue = true := by
      simp [flushDue, hfence, hdirty]
    rw [hflush, if_pos rfl]
    rfl
  | false =>
    have hflush : l.machine.flushDue = false := by simp [flushDue, hdirty]
    rw [hflush, if_neg Bool.false_ne_true, Jit.invalidateTlbPages_eq]
    exact hdirty

/-- In every run whose events meet the condition, whenever the run loop has processed a
`fence.i`, the blocks that can be found are what memory holds. -/
theorem run_codeFresh [FloatOps] (cpu : Supervisor) (mem : Ram) (dram : DramWindow)
    (events : List (Event Ram)) (tick : Ram → Ram)
    (hcovers : Along CodeLogged.step CodeLogged.Covers
      ⟨new cpu mem dram, .new⟩ (events ++ [.service tick]))
    (hphase : (run CodeLogged.step ⟨new cpu mem dram, .new⟩
      events).machine.phase = .top)
    (hfence : (run CodeLogged.step ⟨new cpu mem dram, .new⟩
        events).machine.cpu.icacheGen ≠
      (run CodeLogged.step ⟨new cpu mem dram, .new⟩ events).machine.jitIcacheGen) :
    (run CodeLogged.step ⟨new cpu mem dram, .new⟩
      (events ++ [.service tick])).CodeFresh := by
  have hsound : (run CodeLogged.step ⟨new cpu mem dram, .new⟩
      (events ++ [.service tick])).Sound := by
    refine hcovers.invariant ?_ (Sound.start cpu mem dram)
    intro l event h hevent
    exact h.step hevent
  refine hsound.codeFresh ?_
  rw [run_concat]
  exact service_smcDirty _ tick hphase hfence

end CodeLogged

/-- The loop is followed by `fence.i`. -/
def dmaStart : CodeLogged :=
  ⟨new loopCpu (loopRam [0x0000100F]) loopWindow, .new⟩

/-- A device writes a no-op over the first instruction of the loop. -/
def dmaWrite (mem : Ram) : Ram := fun addr =>
  if 0x100 ≤ addr ∧ addr < 0x104 then Ram.ofWords [0x00000013] (addr - 0x100) else mem addr

/-- The loop has been compiled and left, the device writes while the run loop services
it, and the `fence.i` is interpreted. -/
def dmaEvents : List (Event Ram) :=
  warmLoop ++ leaveLoop ++ [.service dmaWrite, .choose, .enter, .interpret]

def dmaFence : CodeLogged :=
  letI := FloatOps.zero
  run CodeLogged.step dmaStart dmaEvents

/-- The run loop has processed the fence. -/
def dmaFenced : CodeLogged :=
  letI := FloatOps.zero
  dmaFence.step (.service id)

/-- A slot of the block table holds a block that memory no longer holds. -/
def CodeLogged.staleAt (l : CodeLogged) (i : BitVec 18) : Bool :=
  match (l.machine.jit.slots i).state with
  | .compiled hit => (l.log.originOf hit.idx).any fun o => !o.fresh l.machine.bus
  | _ => false

theorem CodeLogged.not_codeFresh_of_staleAt {l : CodeLogged} {i : BitVec 18}
    (hstale : l.staleAt i = true) : ¬ l.CodeFresh := by
  intro hfresh
  unfold CodeLogged.staleAt at hstale
  split at hstale
  · rename_i hit hstate
    obtain ⟨o, ho⟩ := hfresh.1 hit.idx (.slot hstate)
    have hkept := hfresh.2 o (Or.inr ⟨hit.idx, .slot hstate, ho⟩)
    rw [ho, Option.any_some, hkept] at hstale
    cases hstale
  · cases hstale

/-- The block of the old bytes can still be reached after the `fence.i`. -/
theorem fence_i_misses_device_write :
    dmaFence.machine.phase = .top ∧
      dmaFence.machine.cpu.icacheGen ≠ dmaFence.machine.jitIcacheGen ∧
      ¬ dmaFenced.CodeFresh := by
  have hrun : dmaFence.machine.phase = .top ∧
      dmaFence.machine.cpu.icacheGen ≠ dmaFence.machine.jitIcacheGen ∧
      dmaFenced.staleAt (blockIndex 0x100) = true := by
    decide +kernel
  exact ⟨hrun.1, hrun.2.1, CodeLogged.not_codeFresh_of_staleAt hrun.2.2⟩

/-- The host takes the queue. -/
def Event.takesQueue : Event Ram → Bool
  | .build ok => ok
  | _ => false

/-- The event touches no run of the log, or a code write is noted; and the queue is fresh if
it is taken. -/
def CodeLogged.covered [FloatOps] (l : CodeLogged) (event : Event Ram) : Bool :=
  let same := fun o : RunOrigin => o.sameIn l.machine.bus (l.step event).machine.bus
  l.log.building.all same &&
    (l.machine.jit.smcDirty || l.machine.notesCodeWrite event ||
      (l.log.queued ++ l.log.code.map Prod.snd).all same) &&
    (!event.takesQueue || l.log.queued.all fun o => o.fresh l.machine.bus)

theorem mem_of_lookup {code : List (U32 × RunOrigin)}
    (h : code.lookup idx = some o) : o ∈ code.map Prod.snd := by
  induction code with
  | nil => cases h
  | cons entry code ih =>
    rw [List.lookup_cons] at h
    split at h
    · cases h
      exact List.mem_cons_self
    · exact List.mem_cons_of_mem _ (ih h)

theorem CodeLogged.Covers.of_covered [FloatOps] {l : CodeLogged}
    (h : l.covered event = true) : l.Covers event := by
  simp only [CodeLogged.covered, Bool.and_eq_true, List.all_append, List.all_eq_true,
    Bool.or_eq_true, Bool.not_eq_true'] at h
  obtain ⟨⟨hbuilding, hheld⟩, htaken⟩ := h
  refine ⟨hbuilding, ?_, ?_⟩
  · rcases hheld with (hdirty | hnoted) | ⟨hqueued, hcode⟩
    · exact Or.inl hdirty
    · exact Or.inr (Or.inl hnoted)
    refine Or.inr (Or.inr ?_)
    rintro o (hmem | ⟨idx, -, horigin⟩)
    · exact hqueued o hmem
    · exact hcode o (mem_of_lookup horigin)
  · rintro rfl
    exact htaken.resolve_left (by decide)

/-- Compiled code writes the no-op through the host before it leaves the loop. -/
def storeEvents : List (Event Ram) :=
  warmLoop ++ [.act (.store .u32 0x100 0x13 0x100)] ++ leaveLoop ++
    [.service id, .choose, .enter, .interpret]

def storeFence : CodeLogged :=
  letI := FloatOps.zero
  run CodeLogged.step dmaStart storeEvents

theorem storeFence_runs :
    storeFence.machine.phase = .top ∧
      storeFence.machine.cpu.icacheGen ≠ storeFence.machine.jitIcacheGen ∧
      storeFence.staleAt (blockIndex 0x100) = true ∧
      Along (@CodeLogged.step FloatOps.zero)
        (fun l event => @CodeLogged.covered FloatOps.zero l event = true) dmaStart
        (storeEvents ++ [.service id]) := by
  decide +kernel

/-- The block of the old bytes is there until the `fence.i` is processed. -/
theorem run_codeFresh_store :
    storeFence.staleAt (blockIndex 0x100) = true ∧
      (@CodeLogged.step FloatOps.zero storeFence (.service id)).CodeFresh := by
  obtain ⟨hphase, hfence, hstale, hcovered⟩ := storeFence_runs
  have hcovers : Along (@CodeLogged.step FloatOps.zero) (@CodeLogged.Covers FloatOps.zero)
      ⟨new loopCpu (loopRam [0x0000100F]) loopWindow, .new⟩
      (storeEvents ++ [.service id]) :=
    hcovered.mono fun _ _ h => @CodeLogged.Covers.of_covered _ FloatOps.zero _ h
  have hrun : run (@CodeLogged.step FloatOps.zero)
      ⟨new loopCpu (loopRam [0x0000100F]) loopWindow, .new⟩ storeEvents = storeFence := rfl
  have hfresh := @CodeLogged.run_codeFresh FloatOps.zero loopCpu (loopRam [0x0000100F])
    loopWindow storeEvents id hcovers
  rw [run_concat, hrun] at hfresh
  exact ⟨hstale, hfresh hphase hfence⟩

end TabLinux

/-
A single-page fence against superpages.  The inlined TLBs cache 4 KiB pages
whatever the size of the leaf they came from, and a drained fence retires the one
page that it names; a log of the leaf behind each entry says when that is enough.
-/
import TabLinux.InlineTlb
import TabLinux.Library.Runs

namespace TabLinux

open Machine

universe u

variable {β : Type u}

variable {m : Machine β} {s : Supervisor} {va : U64}

/-- Data accesses bypass the MMU. -/
def Supervisor.dataBypass (s : Supervisor) : Bool :=
  s.privLevel = .machine && (!s.mstatus.mprv || Privilege.ofMpp s.mstatus.mpp = .machine)

section

variable [Bus β]

/-- The address of the leaf entry that maps a virtual address. -/
def Supervisor.leafAddr (s : Supervisor) (bus : β) (vaddr : U64) :
    Option U64 :=
  if s.satp.mode = 8 then (walkSv39 bus s.satp vaddr).1.map Walked.pteAddr else none

/-- The leaf from which a data access is translated. -/
def Supervisor.dataLeaf (s : Supervisor) (bus : β) (vaddr : U64) :
    Option U64 :=
  if s.dataBypass then none else s.leafAddr bus vaddr

end

/-- The leaf from which each entry of the two tables was filled. -/
structure LeafLog where
  leaf : Bool → BitVec 12 → Option U64

def LeafLog.new : LeafLog := ⟨fun _ _ => none⟩

section

variable [Bus β]

/-- A host access that caches a page also records its leaf. -/
def LeafLog.fill (log : LeafLog) (m : Machine β) (store : Bool) (addr : U64) :
    LeafLog :=
  if (m.fill? store addr).isSome then
    ⟨Function.update log.leaf store (Function.update (log.leaf store)
      (inlineTlbIndex (addr >>> 12)) (m.cpu.dataLeaf m.bus addr))⟩
  else log

def LeafLog.record (log : LeafLog) (m : Machine β) : Event β → LeafLog
  | .act (.load _ addr _) => log.fill m false addr
  | .act (.store _ addr _ _) => log.fill m true addr
  | .service _ => if m.flushDue then .new else log
  | .discard => .new
  | _ => log

end

/-- A machine with its log. -/
structure LeafLogged (β : Type u) where
  machine : Machine β
  log : LeafLog

def LeafLogged.step [FloatOps] [Bus β] (l : LeafLogged β) (event : Event β) : LeafLogged β :=
  if l.machine.allows event then
    ⟨l.machine.perform event, l.log.record l.machine event⟩
  else l

/-- The word of the current data generation. -/
def Machine.dataWord (m : Machine β) : U32 :=
  genWord m.cpu.dataTransGen m.cpu.privLevel

/-- No entry that was filled from the leaf carries the current data generation. -/
def LeafLogged.LeafRetired (l : LeafLogged β) (leaf : U64) : Prop :=
  ∀ store i, l.log.leaf store i = some leaf → (l.machine.jit.tlb store i).gen ≠ l.machine.dataWord

/-- The condition on the state in which the fence is executed, with `sp` the
spaces it leaves behind: everything is about to be flushed, or the entries of
the leaf that carry the data generation are all for queued pages.  (The word of
a retired entry is 0, which no generation in use has.) -/
def LeafLogged.FenceCovers (l : LeafLogged β) (va leaf : U64) : Prop :=
  let sp := l.machine.cpu.spaces.fencePage va
  let word := genWord sp.dataTransGen l.machine.cpu.privLevel
  l.machine.flushDue = true ∨
    ∀ store i, l.log.leaf store i = some leaf →
      if namesPage sp.pendingFlush (l.machine.jit.tlb store i).vpn then word ≠ 0
      else (l.machine.jit.tlb store i).gen ≠ word

/-- Every entry with a recorded leaf sits in the slot of its page. -/
def LeafLogged.Placed (l : LeafLogged β) : Prop :=
  ∀ store i leaf, l.log.leaf store i = some leaf →
    inlineTlbIndex (l.machine.jit.tlb store i).vpn = i

theorem retired_vpn (pages : List U64) (tlb : BitVec 12 → InlineTlbEntry)
    (i : BitVec 12) : (retired pages tlb i).vpn = (tlb i).vpn := by
  unfold retired
  split <;> rfl

theorem LeafLogged.Placed.of_new (m : Machine β) : (⟨m, .new⟩ : LeafLogged β).Placed :=
  fun _ _ _ h => absurd h (by simp [LeafLog.new])

variable {l : LeafLogged β}

theorem LeafLogged.Placed.of_vpn (hplaced : l.Placed)
    (hvpn : ∀ store i, (m.jit.tlb store i).vpn = (l.machine.jit.tlb store i).vpn) :
    (⟨m, l.log⟩ : LeafLogged β).Placed := by
  intro store i leaf hleaf
  rw [hvpn]
  exact hplaced store i leaf hleaf

section

variable [Bus β]

theorem LeafLogged.Placed.fill (hplaced : l.Placed) (side : Bool) (addr : U64)
    (htlb : ∀ store, m.jit.tlb store =
      if store = side then l.machine.filled store addr else l.machine.jit.tlb store) :
    (⟨m, l.log.fill l.machine side addr⟩ : LeafLogged β).Placed := by
  intro store i leaf hleaf
  rw [htlb]
  unfold LeafLog.fill at hleaf
  unfold filled
  by_cases hside : store = side
  · subst hside
    rw [if_pos rfl]
    cases hfill : l.machine.fill? store addr with
    | none =>
      rw [hfill] at hleaf
      exact hplaced store i leaf hleaf
    | some page =>
      rw [hfill] at hleaf
      dsimp only [Option.isSome_some] at hleaf ⊢
      rw [if_pos rfl] at hleaf
      dsimp only at hleaf
      rw [Function.update_self] at hleaf
      by_cases hi : i = inlineTlbIndex (addr >>> 12)
      · rw [hi, Function.update_self]
      · rw [Function.update_of_ne hi] at hleaf ⊢
        exact hplaced store i leaf hleaf
  · rw [if_neg hside]
    refine hplaced store i leaf ?_
    split at hleaf
    · dsimp only at hleaf
      rwa [Function.update_of_ne hside] at hleaf
    · exact hleaf

theorem LeafLogged.Placed.step [FloatOps] (hplaced : l.Placed)
    (event : Event β) : (l.step event).Placed := by
  unfold LeafLogged.step
  split
  · have htlb := fun store => l.machine.perform_tlb event store
    cases event with
    | service tick =>
      change LeafLogged.Placed ⟨_, if l.machine.flushDue then .new else l.log⟩
      by_cases hflush : l.machine.flushDue
      · rw [if_pos hflush]
        exact .of_new _
      rw [if_neg hflush]
      refine hplaced.of_vpn fun store i => ?_
      rw [htlb store, tlbAfter, if_neg hflush, retired_vpn]
    | act act =>
      cases act with
      | load width addr pc =>
        refine hplaced.fill false addr fun store => (htlb store).trans ?_
        cases store <;> rfl
      | store width addr val pc =>
        refine hplaced.fill true addr fun store => (htlb store).trans ?_
        cases store <;> rfl
      | _ => exact hplaced.of_vpn fun store i => by rw [htlb store]; rfl
    | installed tableBase =>
      refine hplaced.of_vpn fun store i => ?_
      rw [htlb store, tlbAfter]
      split <;> rfl
    | discard => exact .of_new _
    | _ => exact hplaced.of_vpn fun store i => by rw [htlb store]; rfl
  · exact hplaced

theorem LeafLogged.run_placed [FloatOps] (m : Machine β) (events : List (Event β)) :
    (Runs.run step (⟨m, .new⟩ : LeafLogged β) events).Placed := by
  induction events using List.reverseRecOn with
  | nil => exact .of_new m
  | append_singleton events event ih =>
    rw [Runs.run_concat]
    exact ih.step event

omit [Bus β] in
/-- Only a fence that names an address queues a page. -/
theorem Supervisor.spaceOp_page {instr : Instr} (hpage : s.spaceOp instr = .page va) :
    ∃ rs1 rs2, instr = .sfenceVma rs1 rs2 ∧ s.trappedBy s.mstatus.tvm = false := by
  have hcsr : ∀ csr src val op, s.csrSpaceOp csr src val op ≠ .page va := by
    intro csr src val op
    unfold csrSpaceOp
    split <;> exact fun h => SpaceOp.noConfusion h
  unfold spaceOp at hpage
  split at hpage
  · cases hpage
  split at hpage
  · rename_i hpath
    cases instr with
    | csrReg op rd rs1 csr => exact absurd hpage (hcsr _ _ _ _)
    | csrImm op rd zimm csr => exact absurd hpage (hcsr _ _ _ _)
    | sfenceVma rs1 rs2 => exact ⟨rs1, rs2, rfl, by simpa [takesOwnPath] using hpath⟩
    | _ => cases hpage
  · cases hpage

theorem Supervisor.finishStep_fence_privLevel [FloatOps] {rs1 rs2 : Reg}
    (hallowed : s.trappedBy s.mstatus.tvm = false) (width : U64) (bus : β) :
    (s.finishStep (.sfenceVma rs1 rs2) width bus).2.1.privLevel = s.privLevel := by
  have hexec : (s.flushedFor (.sfenceVma rs1 rs2)).executeSupervisor
      (.sfenceVma rs1 rs2) width bus =
        (.running, { s.sfenceVma rs1 with cpu := (s.sfenceVma rs1).cpu.advance width }, bus) := by
    simp [flushedFor, executeSupervisor, hallowed]
  unfold finishStep
  rw [hexec]
  exact (s.sfenceVma_effect rs1).privLevel_eq

/-- A fence leaves the privilege level alone. -/
theorem Supervisor.step_fence_privLevel [FloatOps] {bus : β}
    (hpage : s.stepSpaceOp bus = .page va) : (s.step bus).2.1.privLevel = s.privLevel := by
  unfold stepSpaceOp at hpage
  rcases s.step_cases bus with ⟨hnone, -⟩ | ⟨instr, width, s', bus', hinstr, heffect, hstep⟩
  · rw [hnone] at hpage
    cases hpage
  rw [hinstr] at hpage
  dsimp only at hpage
  have hpoll : (s.pollDevices bus).privLevel = s.privLevel := ite_keep Supervisor.privLevel rfl rfl
  rw [← s.pollDevices_spaceOp bus, ← heffect.spaceOp_eq] at hpage
  obtain ⟨rs1, rs2, rfl, hallowed⟩ := spaceOp_page hpage
  rw [hstep, finishStep_fence_privLevel hallowed]
  exact heffect.cacheEffect.privLevel_eq.trans hpoll

theorem Machine.interpret_privLevel [FloatOps] (m : Machine β) :
    m.interpret.cpu.privLevel = (m.cpu.step m.bus).2.1.privLevel :=
  ite_keep Supervisor.privLevel rfl rfl

omit [Bus β] in
theorem Machine.service_privLevel (m : Machine β) (tick : β → β) :
    (m.service tick).cpu.privLevel = m.cpu.privLevel := by
  have hdrain : ∀ m : Machine β, m.drainFlush.cpu.privLevel = m.cpu.privLevel := by
    intro m
    refine ite_keep (fun m' : Machine β => m'.cpu.privLevel) rfl ?_
    exact ite_keep Supervisor.privLevel rfl rfl
  have hsync : ∀ m : Machine β, m.syncIcache.cpu.privLevel = m.cpu.privLevel := fun m =>
    ite_keep (fun m' : Machine β => m'.cpu.privLevel) rfl rfl
  exact (hsync _).trans (hdrain _)

omit [Bus β] in
/-- Draining does not move the data generation. -/
theorem Machine.service_dataWord (m : Machine β) (tick : β → β) :
    (m.service tick).dataWord = m.dataWord := by
  have hspaces : (m.service tick).cpu.spaces = m.cpu.spaces.drained m.flushHitsChain :=
    (syncIcache_spaces _).trans (drainFlush_spaces _)
  have hgen : (m.service tick).cpu.dataTransGen = m.cpu.dataTransGen := by
    change (m.service tick).cpu.spaces.dataTransGen = m.cpu.spaces.dataTransGen
    rw [hspaces]
    cases m.flushHitsChain <;> rfl
  rw [dataWord, hgen, m.service_privLevel, ← dataWord]

omit [Bus β] in
/-- An entry in its own slot is out of use after the drain exactly when its page
was queued, or its word was another one already. -/
theorem retired_gen_ne_iff {pages : List U64} {tlb : BitVec 12 → InlineTlbEntry}
    {i : BitVec 12} (hplaced : inlineTlbIndex (tlb i).vpn = i) (word : U32) :
    (retired pages tlb i).gen ≠ word ↔
      if namesPage pages (tlb i).vpn then word ≠ 0 else (tlb i).gen ≠ word := by
  unfold retired
  by_cases hpage : namesPage pages (tlb i).vpn
  · rw [if_pos ⟨hplaced, hpage⟩, if_pos hpage]
    exact ne_comm
  · rw [if_neg fun h => hpage h.2, if_neg hpage]

/-- Whatever was cached before, in any run: after a fence that names `va` has
been executed and the queue drained, the entries of the leaf of `va` are out of
use exactly when those in use were for queued pages. -/
theorem LeafLogged.fence_leafRetired_iff [FloatOps] (cpu : Supervisor) (bus : β)
    (dram : DramWindow) (events : List (Event β)) (tick : β → β) {va leaf : U64} :
    let l := Runs.run LeafLogged.step ⟨new cpu bus dram, .new⟩ events
    l.machine.phase = .interp → l.machine.cpu.stepSpaceOp l.machine.bus = .page va →
    l.machine.cpu.leafAddr l.machine.bus va = some leaf →
      (((l.step .interpret).step (.service tick)).LeafRetired leaf ↔ l.FenceCovers va leaf) := by
  intro l hphase hfence _
  have hplaced : l.Placed := LeafLogged.run_placed _ events
  have hstep : l.step .interpret = ⟨l.machine.interpret, l.log⟩ :=
    if_pos (by simp [allows, hphase])
  have hspaces : l.machine.interpret.cpu.spaces = l.machine.cpu.spaces.fencePage va := by
    rw [interpret_spaces, hfence]
    rfl
  have hicache : l.machine.interpret.flushDue = l.machine.flushDue := by
    have hgen : l.machine.interpret.cpu.icacheGen = l.machine.cpu.icacheGen := by
      change l.machine.interpret.cpu.spaces.icacheGen = _
      rw [hspaces]
      exact ite_keep Spaces.icacheGen rfl rfl
    unfold flushDue
    rw [hgen]
    rfl
  have hpriv : l.machine.interpret.cpu.privLevel = l.machine.cpu.privLevel :=
    l.machine.interpret_privLevel.trans (Supervisor.step_fence_privLevel hfence)
  have hword : l.machine.interpret.dataWord =
      genWord (l.machine.cpu.spaces.fencePage va).dataTransGen l.machine.cpu.privLevel := by
    rw [dataWord, hpriv, ← hspaces]
    rfl
  have hqueue : l.machine.interpret.cpu.pendingFlush =
      (l.machine.cpu.spaces.fencePage va).pendingFlush :=
    congrArg Spaces.pendingFlush hspaces
  have hservice : (⟨l.machine.interpret, l.log⟩ : LeafLogged β).step (.service tick) =
      ⟨l.machine.interpret.service tick,
        if l.machine.interpret.flushDue then .new else l.log⟩ :=
    if_pos (by simp [allows, interpret])
  rw [hstep, hservice, hicache]
  unfold LeafLogged.LeafRetired LeafLogged.FenceCovers
  rw [service_dataWord, hword]
  by_cases hflush : l.machine.flushDue
  · rw [if_pos hflush]
    exact iff_of_true (fun _ _ h => absurd h (by simp [LeafLog.new])) (Or.inl hflush)
  rw [if_neg hflush, or_iff_right hflush]
  refine forall_congr' fun store => forall_congr' fun i => forall_congr' fun hleaf => ?_
  rw [service_tlb, hicache, if_neg hflush, hqueue]
  exact retired_gen_ne_iff (hplaced store i leaf hleaf) _

end

/-- The loop's code is followed by `sfence.vma x4`. -/
def gigapageStart : LeafLogged Ram :=
  ⟨new loopCpu (loopRam [0x12020073]) loopWindow, .new⟩

def gigapageEvents : List (Event Ram) :=
  warmLoop ++ leaveLoop ++ [.service id, .choose, .enter]

/-- The compiled loop has loaded from the page after its own, and the fence that
names the loop's page is about to be interpreted. -/
def gigapageFence : LeafLogged Ram :=
  letI := FloatOps.zero
  Runs.run LeafLogged.step gigapageStart gigapageEvents

/-- The fence has been executed and the queue drained. -/
def gigapageDrained : LeafLogged Ram :=
  letI := FloatOps.zero
  (gigapageFence.step .interpret).step (.service id)

theorem gigapageDrained_live :
    gigapageFence.machine.phase = .interp ∧
      gigapageFence.machine.cpu.stepSpaceOp gigapageFence.machine.bus = .page 0x100 ∧
      gigapageFence.machine.cpu.leafAddr gigapageFence.machine.bus 0x100 = some 0x2000 ∧
      gigapageDrained.log.leaf false 1 = some 0x2000 ∧
      (gigapageDrained.machine.jit.tlb false 1).gen = gigapageDrained.machine.dataWord := by
  decide +kernel

/-- The gigapage leaf at 0x2000 maps the fenced address, and the entry that the
load filled from it is still in use. -/
theorem page_fence_misses_superpage :
    gigapageFence.machine.phase = .interp ∧
      gigapageFence.machine.cpu.stepSpaceOp gigapageFence.machine.bus = .page 0x100 ∧
      gigapageFence.machine.cpu.leafAddr gigapageFence.machine.bus 0x100 = some 0x2000 ∧
      ¬ gigapageDrained.LeafRetired 0x2000 := by
  obtain ⟨hphase, hfence, hleaf, horigin, hgen⟩ := gigapageDrained_live
  exact ⟨hphase, hfence, hleaf, fun hretired => hretired false 1 horigin hgen⟩

/-- Here the loop has loaded from its own page, which is the one that is fenced. -/
def ownPageEvents : List (Event Ram) :=
  warmLoop ++ [.act (.load .u64 0x180 0x100), .leave 0x108, .service id, .choose, .enter]

def ownPageFence : LeafLogged Ram :=
  letI := FloatOps.zero
  Runs.run LeafLogged.step gigapageStart ownPageEvents

instance (l : LeafLogged Ram) (va leaf : U64) : Decidable (l.FenceCovers va leaf) :=
  inferInstanceAs (Decidable (_ ∨ ∀ _ _, _ → _))

theorem ownPageFence_covers :
    ownPageFence.machine.phase = .interp ∧
      ownPageFence.machine.cpu.stepSpaceOp ownPageFence.machine.bus = .page 0x100 ∧
      ownPageFence.machine.cpu.leafAddr ownPageFence.machine.bus 0x100 = some 0x2000 ∧
      ownPageFence.log.leaf false 0 = some 0x2000 ∧ ownPageFence.FenceCovers 0x100 0x2000 := by
  decide +kernel

/-- The condition sees the entry of the other page, and the fence of the page that was loaded
retires its entry. -/
theorem gigapage_fences_retire :
    ¬ gigapageFence.FenceCovers 0x100 0x2000 ∧
      ownPageFence.log.leaf false 0 = some 0x2000 ∧
      (@LeafLogged.step Ram FloatOps.zero _
        (@LeafLogged.step Ram FloatOps.zero _ ownPageFence .interpret)
        (.service id)).LeafRetired 0x2000 := by
  obtain ⟨hphase, hfence, hleaf, horigin, hgen⟩ := gigapageDrained_live
  obtain ⟨hphase', hfence', hleaf', horigin', hcovers⟩ := ownPageFence_covers
  have hrun : Runs.run (@LeafLogged.step Ram FloatOps.zero _)
      ⟨new loopCpu (loopRam [0x12020073]) loopWindow, .new⟩ gigapageEvents =
        gigapageFence := rfl
  have hrun' : Runs.run (@LeafLogged.step Ram FloatOps.zero _)
      ⟨new loopCpu (loopRam [0x12020073]) loopWindow, .new⟩ ownPageEvents =
        ownPageFence := rfl
  have hdrained : @LeafLogged.step Ram FloatOps.zero _
      (@LeafLogged.step Ram FloatOps.zero _ gigapageFence .interpret) (.service id) =
        gigapageDrained := rfl
  have hiff := fun events => @LeafLogged.fence_leafRetired_iff Ram _ FloatOps.zero loopCpu
    (loopRam [0x12020073]) loopWindow events id 0x100 0x2000
  have hmissed := hiff gigapageEvents
  have hcovered := hiff ownPageEvents
  rw [hrun] at hmissed
  rw [hrun'] at hcovered
  refine ⟨fun h => ?_, horigin', (hcovered hphase' hfence' hleaf').mpr hcovers⟩
  have hretired := (hmissed hphase hfence hleaf).mpr h
  rw [hdrained] at hretired
  exact hretired false 1 horigin hgen

end TabLinux

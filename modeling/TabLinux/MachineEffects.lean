/-
What each operation of the machine can change: block lookup and tracing touch
the fetch caches of the hart and the block tables, and the services of compiled
code touch the hart, memory and the inlined TLBs.
-/
import TabLinux.Machine
import TabLinux.Spaces

namespace TabLinux

variable {β : Type*} [Bus β]

theorem Supervisor.debugFetch_effect (s : Supervisor) (bus : β) (vaddr : U64) :
    FetchEffect s (s.debugFetch bus vaddr).2.1 := by
  have htranslate := s.translate_fetchEffect bus .instruction vaddr
  unfold debugFetch
  rcases hres : s.translate bus .instruction vaddr with ⟨_ | paddr, s', bus'⟩ <;>
    rw [hres] at htranslate
  · exact htranslate
  dsimp only
  by_cases hwide : (readU16 bus' paddr).1 &&& 3 ≠ 3
  · rw [if_pos hwide]
    cases decompress (readU16 bus' paddr).1 <;> exact htranslate
  · rw [if_neg hwide]
    exact htranslate

theorem Supervisor.traceFrom_effect (start : U64) (fuel : Nat) (s : Supervisor)
    (bus : β) (pc : U64) (seen : List U32) :
    FetchEffect s (s.traceFrom bus start fuel pc seen).2.1 := by
  induction fuel generalizing s bus pc seen with
  | zero => exact .refl s
  | succ fuel ih =>
    have hfetch := s.debugFetch_effect bus pc
    rw [traceFrom]
    split
    · exact .refl s
    split
    · exact .refl s
    rcases hres : s.debugFetch bus pc with ⟨_ | ⟨half, width, raw⟩, s', bus'⟩ <;>
      rw [hres] at hfetch
    · exact hfetch
    dsimp only
    split
    · exact hfetch
    split
    · exact hfetch
    split
    · split
      · exact hfetch
      · exact hfetch.trans (ih s' bus' _ _)
    split
    · split
      · exact hfetch
      · exact hfetch.trans (ih s' bus' _ _)
    · exact hfetch

theorem Supervisor.decodeRun_effect (s : Supervisor) (bus : β) :
    FetchEffect s (s.decodeRun bus).2.1 :=
  s.traceFrom_effect s.cpu.pc maxRun bus s.cpu.pc []

/-- Arriving at a block start touches the fetch caches, the block's slot and the
queue; a block that is found leaves the tables alone. -/
theorem Jit.onBlockStart_effect (jit : Jit) (s : Supervisor) (bus : β) :
    FetchEffect s (jit.onBlockStart s bus).2.2.1 ∧
      (jit.onBlockStart s bus).2.1 =
        { jit with
          slots := (jit.onBlockStart s bus).2.1.slots
          pending := (jit.onBlockStart s bus).2.1.pending } ∧
      ((jit.onBlockStart s bus).1 ≠ none → (jit.onBlockStart s bus).2.1 = jit) := by
  have htranslate := s.translate_fetchEffect bus .instruction s.cpu.pc
  unfold onBlockStart
  rcases hres : s.translate bus .instruction s.cpu.pc with ⟨_ | paddr, s', bus'⟩ <;>
    rw [hres] at htranslate
  · exact ⟨htranslate, rfl, fun _ => rfl⟩
  have hrun := s'.decodeRun_effect bus'
  dsimp only
  split
  · exact ⟨htranslate, rfl, fun h => absurd rfl h⟩
  split
  · exact ⟨htranslate, rfl, fun _ => rfl⟩
  · exact ⟨htranslate, rfl, fun _ => rfl⟩
  · exact ⟨htranslate, rfl, fun _ => rfl⟩
  split
  · exact ⟨htranslate, rfl, fun h => absurd rfl h⟩
  split
  · exact ⟨htranslate.trans hrun, rfl, fun h => absurd rfl h⟩
  · exact ⟨htranslate.trans hrun, rfl, fun h => absurd rfl h⟩

/-- A lookup hits the cache, finds no block, or inserts the block it found. -/
inductive LookupOutcome (jit : Jit) (s : Supervisor) : Option Hit → Jit → Supervisor → Prop
  | cached {hit : Hit} (hhit : jit.vcacheHit s = some hit) : LookupOutcome jit s (some hit) jit s
  | missing {jit' : Jit} {s' : Supervisor} (hmiss : jit.vcacheHit s = none)
      (heffect : FetchEffect s s')
      (hjit : jit' = { jit with slots := jit'.slots, pending := jit'.pending }) :
      LookupOutcome jit s none jit' s'
  | found {hit : Hit} {s' : Supervisor} (hmiss : jit.vcacheHit s = none)
      (heffect : FetchEffect s s') :
      LookupOutcome jit s (some hit) (jit.insertKeys s' hit) s'

theorem Jit.lookup_outcome (jit : Jit) (s : Supervisor) (bus : β) :
    LookupOutcome jit s (jit.lookup s bus).1 (jit.lookup s bus).2.1 (jit.lookup s bus).2.2.1 := by
  unfold lookup
  cases hhit : jit.vcacheHit s with
  | some hit => exact .cached hhit
  | none =>
    obtain ⟨heffect, hjit, hfound⟩ := jit.onBlockStart_effect s bus
    rcases hres : jit.onBlockStart s bus with ⟨_ | hit, jit', s', bus'⟩ <;>
      rw [hres] at heffect hjit hfound
    · exact .missing hhit heffect hjit
    have hsame : jit' = jit := hfound (by simp)
    subst hsame
    exact .found hhit heffect

namespace Machine

variable (m : Machine β)

omit [Bus β] in
theorem faultAt_effect (pc : U64) : HartEffect m.cpu (m.faultAt pc).cpu := rfl

omit [Bus β] in
theorem faultAt_jitFault (pc : U64) : (m.faultAt pc).cpu.cpu.jitFault ≠ 0 := by
  change (1 : U64) ≠ 0
  decide

/-- A load serves from memory and fills the read table, or faults. -/
theorem jitLoad_effect (width : Width) (addr pc : U64) :
    HartEffect m.cpu (m.jitLoad width addr pc).2.cpu ∧
      (m.jitLoad width addr pc).2.jit =
        { m.jit with tlbR := (m.jitLoad width addr pc).2.jit.tlbR } ∧
      (m.jitLoad width addr pc).2.phase = m.phase := by
  have htranslate := m.cpu.translate_effect m.bus .load addr
  unfold jitLoad
  rcases hres : m.cpu.translate m.bus .load addr with ⟨_ | pa, cpu, bus⟩ <;> rw [hres] at htranslate
  · exact ⟨htranslate.trans (faultAt_effect _ pc), rfl, rfl⟩
  refine ⟨htranslate, ?_, rfl⟩
  dsimp only
  cases m.dram.pageHostAddr pa <;> rfl

omit [Bus β] in
theorem jitAfterStore_eq (addr pa : U64) :
    m.jitAfterStore addr pa =
      { m.jit with
        tlbW := (m.jitAfterStore addr pa).tlbW
        smcDirty := (m.jitAfterStore addr pa).smcDirty } := by
  unfold jitAfterStore
  cases m.dram.pageHostAddr pa with
  | none => rfl
  | some page =>
    dsimp only
    split <;> rfl

/-- A store writes memory and fills the write table or notes a code write, or
faults. -/
theorem jitStore_effect (width : Width) (addr val pc : U64) :
    HartEffect m.cpu (m.jitStore width addr val pc).cpu ∧
      (m.jitStore width addr val pc).jit =
        { m.jit with
          tlbW := (m.jitStore width addr val pc).jit.tlbW
          smcDirty := (m.jitStore width addr val pc).jit.smcDirty } ∧
      (m.jitStore width addr val pc).phase = m.phase := by
  have htranslate := m.cpu.translate_effect m.bus .store addr
  unfold jitStore
  rcases hres : m.cpu.translate m.bus .store addr with ⟨_ | pa, cpu, bus⟩ <;>
    rw [hres] at htranslate
  · exact ⟨htranslate.trans (faultAt_effect _ pc), rfl, rfl⟩
  · exact ⟨htranslate, m.jitAfterStore_eq addr pa, rfl⟩

theorem inlineStore_eq (width : Width) (addr val : U64) :
    m.inlineStore width addr val = { m with bus := (m.inlineStore width addr val).bus } :=
  ite_holds (fun m' : Machine β => m' = { m with bus := m'.bus }) rfl rfl

end Machine

theorem HartEffect.settled (s : Supervisor) (cpu : Cpu) :
    HartEffect s { s with cpu := cpu }.settleFs :=
  (HartEffect.cpu s cpu).trans (Supervisor.settleFs_effect _)

theorem Supervisor.fpJit_effect [FloatOps] (s : Supervisor) (bus : β) (call : FpCall) :
    HartEffect s (s.fpJit bus call).2.1 := by
  unfold fpJit
  split
  · exact .refl s
  cases call with
  | load fw rd rs1 imm =>
    have htranslate := s.translate_effect bus .load (s.cpu.address rs1 imm)
    dsimp only
    rcases hres : s.translate bus .load (s.cpu.address rs1 imm) with
      ⟨_ | paddr, s', bus'⟩ <;> rw [hres] at htranslate
    · exact htranslate
    · dsimp only
      exact HartEffect.trans htranslate (.settled s' _)
  | store fw rs2 rs1 imm =>
    have htranslate := s.translate_effect bus .store (s.cpu.address rs1 imm)
    dsimp only
    rcases hres : s.translate bus .store (s.cpu.address rs1 imm) with
      ⟨_ | paddr, s', bus'⟩ <;> rw [hres] at htranslate
    · exact htranslate
    · exact htranslate.trans (settleFs_effect _)
  | arith raw =>
    exact ite_holds (fun out : Bool × Supervisor × β => HartEffect s out.2.1) (.cpu s _)
      (.settled s _)

/-- What a floating-point service leaves: a fault, or refreshed words. -/
theorem Machine.jitFp_effect [FloatOps] (m : Machine β) (call : FpCall) (pc : U64) :
    HartEffect m.cpu (m.jitFp call pc).cpu ∧
      (m.jitFp call pc).phase = m.phase ∧
      (((m.jitFp call pc).jit = m.jit ∧ (m.jitFp call pc).cpu.cpu.jitFault ≠ 0) ∨
        (m.jitFp call pc).jit = m.jit.refreshGen (m.jitFp call pc).cpu) := by
  have heffect := m.cpu.fpJit_effect m.bus call
  unfold jitFp
  rcases hres : m.cpu.fpJit m.bus call with ⟨_ | _, cpu, bus⟩ <;> rw [hres] at heffect
  · exact ⟨heffect, rfl, Or.inr rfl⟩
  · exact ⟨heffect.trans (faultAt_effect _ pc), rfl, Or.inl ⟨rfl, faultAt_jitFault _ pc⟩⟩

/-- A CSR service either finds the access denied, or performs it; then it leaves
the block on an interrupt that became deliverable, or refreshes the words. -/
inductive CsrService (m : Machine β) (csr : Csr) (rd src : Reg) (val : U64)
    (op : CsrOp) : Machine β → Prop
  | denied (pc : U64) (hdenied : m.cpu.csrDenied csr op src = true) :
      CsrService m csr rd src val op (m.faultAt pc)
  | interrupted (pc mip : U64) (hallowed : m.cpu.csrDenied csr op src = false) :
      CsrService m csr rd src val op
        ({ m with
          cpu := { m.cpu.csrAccess m.bus csr rd src val op with mip := mip } }.faultAt pc)
  | done (mip : U64) (hallowed : m.cpu.csrDenied csr op src = false) :
      CsrService m csr rd src val op
        { m with
          cpu := { m.cpu.csrAccess m.bus csr rd src val op with mip := mip }
          jit := m.jit.refreshGen { m.cpu.csrAccess m.bus csr rd src val op with mip := mip } }

theorem Machine.jitCsr_service (m : Machine β) (csr : Csr) (rd src : Reg)
    (val : U64) (op : CsrOp) (pc : U64) :
    CsrService m csr rd src val op (m.jitCsr csr rd src val op pc) := by
  unfold jitCsr Supervisor.csrJit
  by_cases hdenied : m.cpu.csrDenied csr op src
  · rw [if_pos hdenied]
    exact .denied pc hdenied
  rw [if_neg hdenied]
  have hallowed := Bool.eq_false_iff.mpr hdenied
  dsimp only
  split
  · rw [Supervisor.interruptPending]
    split
    · exact .interrupted _ _ hallowed
    · exact .done _ hallowed
  · exact .done (m.cpu.csrAccess m.bus csr rd src val op).mip hallowed

end TabLinux

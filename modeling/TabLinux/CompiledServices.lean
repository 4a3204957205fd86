/-
The services a compiled block calls for CSR and floating-point instructions, against
the interpreter.  Both sides are hand-written copies of one instruction: `csr_jit` of
`csr_op`, and `fp_jit` of the FP paths of `execute_supervisor`.  A service either bails,
exactly where the interpreter traps and without an effect, or does what the interpreter
does and leaves the PC to the block.
-/
import TabLinux.FpEvents
import TabLinux.PageCrossing

namespace TabLinux

universe u

variable {β : Type u} [Bus β]

variable {access : AccessType} {vaddr : U64} {trap : Trap} {s s' : Supervisor}
variable {bus : β}

/-- The flag the interpreter's dispatch passes for an instruction that also sets or
clears bits. -/
def CsrOp.read : CsrOp → Bool
  | .rw => false
  | .rs | .rc => true

def CsrOp.clear : CsrOp → Bool
  | .rc => true
  | .rw | .rs => false

/-- The number a compiled block passes. -/
def CsrOp.kind : CsrOp → BitVec 8
  | .rw => 0
  | .rs => 1
  | .rc => 2

/-- `csr_op`, check by check. -/
def Supervisor.csrOpFlags (s : Supervisor) (bus : β) (csr : Csr) (rd rs1 : Reg)
    (val : U64) (read clear : Bool) (width : U64) : Status × Supervisor :=
  if s.privLevel.bits.ult (csr.extractLsb' 8 2) then
    s.takeTrap (.exception .illegalInstruction)
  else if csr = 0x180 && s.privLevel = .supervisor && s.mstatus.tvm then
    s.takeTrap (.exception .illegalInstruction)
  else
    let willWrite := !read || rs1 ≠ 0
    if willWrite && csr.extractLsb' 10 2 = 3 then
      s.takeTrap (.exception .illegalInstruction)
    else
      let old := s.csrRead bus csr
      let new := if clear then old &&& ~~~ val else if read then old ||| val else val
      let s := if willWrite then s.csrWrite csr new else s
      let s := { s with cpu := s.cpu.writeReg rd old }
      (.running, { s with cpu := s.cpu.advance width })

/-- `csr_jit`, check by check. -/
def Supervisor.csrJitKind (s : Supervisor) (bus : β) (csr : Csr) (rd src : Reg)
    (val : U64) (kind : BitVec 8) : Bool × Supervisor :=
  let read : Bool := kind ≠ 0
  let clear : Bool := kind = 2
  if s.privLevel.bits.ult (csr.extractLsb' 8 2) then (true, s)
  else if csr = 0x180 && s.privLevel = .supervisor && s.mstatus.tvm then (true, s)
  else
    let willWrite := !read || src ≠ 0
    if willWrite && csr.extractLsb' 10 2 = 3 then (true, s)
    else
      let old := s.csrRead bus csr
      let new := if clear then old &&& ~~~ val else if read then old ||| val else val
      let s := if willWrite then s.csrWrite csr new else s
      (false, { s with cpu := s.cpu.writeReg rd old })

/-- The three checks in a row are the one denial both copies share. -/
theorem Supervisor.csrChecks_eq {α : Type u} (s : Supervisor) (csr : Csr) (op : CsrOp)
    (src : Reg) (denied allowed : α) :
    (if s.privLevel.bits.ult (csr.extractLsb' 8 2) then denied
      else if csr = 0x180 && s.privLevel = .supervisor && s.mstatus.tvm then denied
      else if csrWillWrite op src && csr.extractLsb' 10 2 = 3 then denied else allowed) =
      if s.csrDenied csr op src then denied else allowed := by
  unfold csrDenied
  cases s.privLevel.bits.ult (csr.extractLsb' 8 2) with
  | true => simp
  | false =>
    cases csr = 0x180 && s.privLevel = .supervisor && s.mstatus.tvm <;> simp

theorem CsrOp.willWrite_eq (op : CsrOp) (src : Reg) :
    (!op.read || decide (src ≠ 0)) = csrWillWrite op src := by
  cases op <;> rfl

theorem CsrOp.new_eq (op : CsrOp) (old val : U64) :
    (if op.clear then old &&& ~~~ val else if op.read then old ||| val else val) =
      op.combine old val := by
  cases op <;> rfl

theorem CsrOp.kind_read (op : CsrOp) : decide (op.kind ≠ 0) = op.read := by
  cases op <;> rfl

theorem CsrOp.kind_clear (op : CsrOp) : decide (op.kind = 2) = op.clear := by
  cases op <;> rfl

theorem Supervisor.csrOpFlags_eq (s : Supervisor) (bus : β) (csr : Csr) (rd rs1 : Reg)
    (val : U64) (op : CsrOp) (width : U64) :
    s.csrOpFlags bus csr rd rs1 val op.read op.clear width =
      s.csrOp bus csr rd rs1 val op width := by
  unfold csrOpFlags csrOp csrAccess
  dsimp only
  rw [op.willWrite_eq, op.new_eq, s.csrChecks_eq csr op]

theorem Supervisor.csrJitKind_eq (s : Supervisor) (bus : β) (csr : Csr) (rd src : Reg)
    (val : U64) (op : CsrOp) :
    s.csrJitKind bus csr rd src val op.kind = s.csrJit bus csr rd src val op := by
  unfold csrJitKind csrJit csrAccess
  dsimp only
  rw [op.kind_read, op.kind_clear, op.willWrite_eq, op.new_eq, s.csrChecks_eq csr op]

/-- Where one copy traps the other bails and has changed nothing; elsewhere their states
differ in the PC only. -/
theorem csrJitKind_agrees (s : Supervisor) (bus : β) (csr : Csr) (rd src : Reg)
    (val : U64) (op : CsrOp) (width : U64) :
    ((s.csrJitKind bus csr rd src val op.kind).1 = true ↔
        ∃ trap, (s.csrOpFlags bus csr rd src val op.read op.clear width).1 = .trap trap) ∧
      ((s.csrJitKind bus csr rd src val op.kind).1 = true →
        (s.csrJitKind bus csr rd src val op.kind).2 = s) ∧
      ((s.csrJitKind bus csr rd src val op.kind).1 = false →
        s.csrOpFlags bus csr rd src val op.read op.clear width =
          (.running,
            { (s.csrJitKind bus csr rd src val op.kind).2 with
              cpu := (s.csrJitKind bus csr rd src val op.kind).2.cpu.advance width })) := by
  rw [s.csrJitKind_eq, s.csrOpFlags_eq]
  unfold Supervisor.csrJit Supervisor.csrOp
  cases s.csrDenied csr op src with
  | true =>
    refine ⟨⟨fun _ => ⟨_, s.takeTrapWithVaddr_status _ none⟩, fun _ => rfl⟩, fun _ => rfl, ?_⟩
    intro hfalse
    cases hfalse
  | false =>
    refine ⟨⟨fun htrue => ?_, fun htrap => ?_⟩, fun htrue => ?_, fun _ => rfl⟩
    · cases htrue
    · obtain ⟨trap, htrap⟩ := htrap
      cases htrap
    · cases htrue

/-- The instruction a call stands for.  A store names its data register first. -/
def FpCall.instr : FpCall → Instr
  | .load fw rd rs1 imm => .fload fw rd rs1 imm
  | .store fw rs2 rs1 imm => .fstore fw rs1 rs2 imm
  | .arith raw => .fp raw

/-- A service and the interpreter on one instruction: the first bails where the second
traps, both with the same bus, or they end in states that differ in the PC only. -/
inductive Supervisor.Agrees (s : Supervisor) (width : U64) :
    Bool × Supervisor × β → Status × Supervisor × β → Prop
  | trapped (bus : β) (trap : Trap) (s' : Supervisor) :
      Agrees s width (true, s, bus) (.trap trap, s', bus)
  | served (bus : β) (s' : Supervisor) : Agrees s width (false, s', bus)
        (.running, { s' with cpu := s'.cpu.advance width }, bus)

/-- A failing translation leaves the caches alone. -/
theorem Mmu.translate_error_mmu {mmu : Mmu} {satp : Satp} {privLevel : Privilege} {sum mxr : Bool}
    (herror : (mmu.translate bus satp privLevel sum mxr access vaddr).1 = .error trap) :
    (mmu.translate bus satp privLevel sum mxr access vaddr).2.1 = mmu := by
  have hwalk : (mmu.translateWalk bus satp privLevel sum mxr access vaddr).1 = .error trap →
      (mmu.translateWalk bus satp privLevel sum mxr access vaddr).2.1 = mmu := by
    unfold translateWalk
    split
    · split
      · intro h
        cases h
      · exact fun _ => rfl
    · split
      · exact fun _ => rfl
      · intro h
        cases h
  revert herror
  unfold translate
  split
  · exact fun _ => rfl
  split
  · exact fun _ => rfl
  split
  · exact fun _ => rfl
  split
  · split
    · exact fun _ => rfl
    · exact hwalk
  · exact hwalk

namespace Supervisor

theorem translate_error_state (herror : (s.translate bus access vaddr).1 = .error trap) :
    (s.translate bus access vaddr).2.1 = s := by
  have hmmu : ∀ privLevel, (s.mmuTranslate bus privLevel access vaddr).1 = .error trap →
      (s.mmuTranslate bus privLevel access vaddr).2.1 = s := by
    intro privLevel h
    exact congrArg (fun mmu => { s with mmu := mmu }) (Mmu.translate_error_mmu h)
  revert herror
  unfold translate
  split
  · split
    · exact fun h => by cases h
    split
    · exact fun h => by cases h
    split
    · exact fun h => by cases h
    · exact hmmu _
  · exact hmmu _

theorem translate_fault_ram {mem mem' : Ram}
    (htranslate : s.translate mem access vaddr = (.error trap, s', mem')) : mem' = mem := by
  have hkept := translate_error_ram (congrArg Prod.fst htranslate)
  rwa [htranslate] at hkept

/-- Settling the FP status does not look at the PC. -/
theorem settleFs_advance (s : Supervisor) (width : U64) :
    { s with cpu := s.cpu.advance width }.settleFs =
      { s.settleFs with cpu := s.settleFs.cpu.advance width } := by
  unfold settleFs
  change (if s.cpu.fsDirty then _ else _) = _
  cases s.cpu.fsDirty <;> rfl

/-- A load or store whose translation fails. -/
theorem Agrees.fault {bus' : β}
    (htranslate : s.translate bus access vaddr = (.error trap, s', bus')) (width : U64) :
    s.Agrees width (true, s', bus')
      ((s'.takeTrapWithVaddr trap (some vaddr)).1,
        (s'.takeTrapWithVaddr trap (some vaddr)).2.settleFs, bus') := by
  have hstate : s' = s := by
    have hkept := translate_error_state (congrArg Prod.fst htranslate)
    rwa [htranslate] at hkept
  rw [hstate, s.takeTrapWithVaddr_status]
  exact .trapped bus' trap _

omit [Bus β] in
/-- An instruction that is executed: both sides settle the FP status after it. -/
theorem Agrees.settled (bus : β) (width : U64) : s.Agrees width (false, s'.settleFs, bus)
      (.running, { s' with cpu := s'.cpu.advance width }.settleFs, bus) := by
  rw [s'.settleFs_advance]
  exact .served bus s'.settleFs

end Supervisor

section

variable [FloatOps]

namespace Supervisor

section

variable (s : Supervisor) (bus : β)

/-- The interpreter on an FP instruction while the extension is off. -/
theorem executeSupervisor_fsOff (call : FpCall) (width : U64) (hoff : s.mstatus.fs = 0) :
    s.executeSupervisor call.instr width bus =
      ((s.takeTrap (.exception .illegalInstruction)).1,
        (s.takeTrap (.exception .illegalInstruction)).2, bus) := by
  cases call <;> simp [FpCall.instr, executeSupervisor, executeBase, Instr.isFp, hoff]

theorem fpJit_load_agrees (fw : FWidth) (rd rs1 : Reg)
    (imm width : U64) (hon : s.mstatus.fs ≠ 0) :
    s.Agrees width (s.fpJit bus (.load fw rd rs1 imm))
      (s.executeSupervisor (.fload fw rd rs1 imm) width bus) := by
  simp only [fpJit, executeSupervisor, executeBase, executeTranslated, FWidth.translated_eq,
    withPaddr, hon, Instr.isTranslated, decide_false, Bool.false_and, Bool.false_eq_true,
    ↓reduceIte]
  rcases htranslate : s.translate bus .load (s.cpu.address rs1 imm) with ⟨trap | paddr, s', bus'⟩
  · exact Agrees.fault htranslate width
  · exact Agrees.settled _ width

theorem fpJit_store_agrees (fw : FWidth) (rs2 rs1 : Reg)
    (imm width : U64) (hon : s.mstatus.fs ≠ 0) :
    s.Agrees width (s.fpJit bus (.store fw rs2 rs1 imm))
      (s.executeSupervisor (.fstore fw rs1 rs2 imm) width bus) := by
  simp only [fpJit, executeSupervisor, executeBase, executeTranslated, FWidth.translatedStore_eq,
    withPaddr, hon, Instr.isTranslated, decide_false, Bool.false_and, Bool.false_eq_true,
    ↓reduceIte]
  rcases htranslate : s.translate bus .store (s.cpu.address rs1 imm) with ⟨trap | paddr, s', bus'⟩
  · exact Agrees.fault htranslate width
  · exact Agrees.settled _ width

/-- A word the FPU refuses changes no register, and the interpreter reports the trap
instead of delivering it. -/
theorem fpJit_arith_agrees (raw : U32) (width : U64) (hon : s.mstatus.fs ≠ 0) :
    s.Agrees width (s.fpJit bus (.arith raw)) (s.executeSupervisor (.fp raw) width bus) := by
  simp only [fpJit, executeSupervisor, executeBase, executeWidth, hon, Instr.isTranslated,
    decide_false, Bool.false_and, Bool.false_eq_true, ↓reduceIte]
  have houtcome := fpuExecute_outcome s.cpu raw
  generalize fpuExecute s.cpu raw = out at houtcome
  cases houtcome with
  | bad => exact .trapped bus _ _
  | float flags rd val => exact Agrees.settled bus width
  | int flags rd val => exact Agrees.settled bus width

theorem fpJit_agrees (call : FpCall) (width : U64) :
    s.Agrees width (s.fpJit bus call) (s.executeSupervisor call.instr width bus) := by
  by_cases hoff : s.mstatus.fs = 0
  · rw [s.executeSupervisor_fsOff bus call width hoff]
    have hbail : s.fpJit bus call = (true, s, bus) := by simp only [fpJit, hoff, ↓reduceIte]
    rw [hbail, takeTrap, s.takeTrapWithVaddr_status]
    exact .trapped bus _ _
  · cases call with
    | load fw rd rs1 imm => exact s.fpJit_load_agrees bus fw rd rs1 imm width hoff
    | store fw rs2 rs1 imm => exact s.fpJit_store_agrees bus fw rs2 rs1 imm width hoff
    | arith raw => exact s.fpJit_arith_agrees bus raw width hoff

end

/-- Over RAM a bail has no effect at all. -/
theorem fpJit_bail_ram (s : Supervisor) (mem : Ram) (call : FpCall)
    (hbail : (s.fpJit mem call).1 = true) : (s.fpJit mem call).2.2 = mem := by
  revert hbail
  unfold fpJit
  split
  · exact fun _ => rfl
  cases call with
  | load fw rd rs1 imm =>
    dsimp only
    split
    case h_1 trap s' mem' htranslate =>
      exact fun _ => translate_fault_ram htranslate
    case h_2 => exact fun h => by cases h
  | store fw rs2 rs1 imm =>
    dsimp only
    split
    case h_1 trap s' mem' htranslate =>
      exact fun _ => translate_fault_ram htranslate
    case h_2 => exact fun h => by cases h
  | arith raw =>
    dsimp only
    split
    · exact fun _ => rfl
    · exact fun h => by cases h

end Supervisor

/-- The FP service against the interpreter, over guest memory. -/
theorem fpJit_matches_interpreter (s : Supervisor) (mem : Ram) (call : FpCall) (width : U64) :
    ((s.fpJit mem call).1 = true ↔
        ∃ trap, (s.executeSupervisor call.instr width mem).1 = .trap trap) ∧
      ((s.fpJit mem call).1 = true → (s.fpJit mem call).2 = (s, mem)) ∧
      ((s.fpJit mem call).1 = false →
        s.executeSupervisor call.instr width mem =
          (.running,
            { (s.fpJit mem call).2.1 with
              cpu := (s.fpJit mem call).2.1.cpu.advance width },
            (s.fpJit mem call).2.2)) := by
  have hram := s.fpJit_bail_ram mem call
  have hagrees := s.fpJit_agrees mem call width
  generalize s.fpJit mem call = jit at hram hagrees
  generalize s.executeSupervisor call.instr width mem = exec at hagrees
  cases hagrees with
  | trapped mem' trap s' =>
    refine ⟨⟨fun _ => ⟨trap, rfl⟩, fun _ => rfl⟩, fun _ => ?_, fun hfalse => ?_⟩
    · exact congrArg (Prod.mk s) (hram rfl)
    · cases hfalse
  | served mem' s' =>
    refine ⟨⟨fun htrue => ?_, fun htrap => ?_⟩, fun htrue => ?_, fun _ => rfl⟩
    · cases htrue
    · obtain ⟨trap, htrap⟩ := htrap
      cases htrap
    · cases htrue

end

end TabLinux

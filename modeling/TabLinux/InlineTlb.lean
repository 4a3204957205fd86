/-
The inlined data TLBs over the events of the machine: which page a host access
caches, what a drained flush queue retires, and the content of both tables after
any event.
-/
import TabLinux.RunLoop

namespace TabLinux

variable {β : Type*}

/-- The table of stores or of loads. -/
def Jit.tlb (jit : Jit) : Bool → BitVec 12 → InlineTlbEntry
  | true => jit.tlbW
  | false => jit.tlbR

/-- The access that a table serves. -/
def tlbAccess : Bool → AccessType
  | true => .store
  | false => .load

/-- One of the addresses lies in the virtual page. -/
def namesPage (addrs : List U64) (vpn : U64) : Bool :=
  addrs.any fun va => va >>> 12 = vpn

/-- A table after the pages of some addresses have been retired: every entry
that sits in its own slot and names one of the pages loses its generation. -/
def retired (pages : List U64) (tlb : BitVec 12 → InlineTlbEntry) (i : BitVec 12) :
    InlineTlbEntry :=
  if inlineTlbIndex (tlb i).vpn = i ∧ namesPage pages (tlb i).vpn then
    { tlb i with gen := 0 }
  else tlb i

section

variable (tlb : BitVec 12 → InlineTlbEntry)

theorem retirePage_apply (vpn : U64) (i : BitVec 12) :
    retirePage tlb vpn i =
      if inlineTlbIndex (tlb i).vpn = i ∧ (tlb i).vpn = vpn then { tlb i with gen := 0 }
      else tlb i := by
  unfold retirePage
  by_cases hi : i = inlineTlbIndex vpn
  · subst hi
    by_cases hvpn : (tlb (inlineTlbIndex vpn)).vpn = vpn
    · rw [if_pos hvpn, Function.update_self, if_pos ⟨by rw [hvpn], hvpn⟩]
    · rw [if_neg hvpn, if_neg fun h => hvpn h.2]
  · have hkeep : ¬ (inlineTlbIndex (tlb i).vpn = i ∧ (tlb i).vpn = vpn) := by
      rintro ⟨hindex, hvpn⟩
      rw [hvpn] at hindex
      exact hi hindex.symm
    rw [if_neg hkeep]
    split
    · rw [Function.update_of_ne hi]
    · rfl

/-- Retiring changes generations only. -/
theorem retirePage_vpn (vpn : U64) (i : BitVec 12) :
    (retirePage tlb vpn i).vpn = (tlb i).vpn := by
  rw [retirePage_apply]
  split <;> rfl

theorem namesPage_cons {vpn page : U64} {pages : List U64} :
    namesPage (page :: pages) vpn = true ↔ vpn = page >>> 12 ∨ namesPage pages vpn = true := by
  rw [namesPage, List.any_cons, Bool.or_eq_true, decide_eq_true_eq, eq_comm]
  rfl

theorem retired_nil : retired [] tlb = tlb := by
  funext i
  exact if_neg fun h => Bool.false_ne_true h.2

end

theorem retired_cons (page : U64) (pages : List U64)
    (tlb : BitVec 12 → InlineTlbEntry) :
    retired (page :: pages) tlb = retired pages (retirePage tlb (page >>> 12)) := by
  funext i
  unfold retired
  rw [retirePage_vpn, retirePage_apply]
  by_cases hindex : inlineTlbIndex (tlb i).vpn = i
  · by_cases hpage : (tlb i).vpn = page >>> 12
    · have hmatch : inlineTlbIndex (tlb i).vpn = i ∧ (tlb i).vpn = page >>> 12 := ⟨hindex, hpage⟩
      rw [if_pos hmatch, if_pos ⟨hindex, namesPage_cons.mpr (Or.inl hpage)⟩]
      split <;> rfl
    · rw [if_neg fun h : _ ∧ _ = page >>> 12 => hpage h.2]
      by_cases hrest : namesPage pages (tlb i).vpn
      · rw [if_pos ⟨hindex, namesPage_cons.mpr (Or.inr hrest)⟩, if_pos ⟨hindex, hrest⟩]
      · rw [if_neg fun h => (namesPage_cons.mp h.2).elim hpage hrest, if_neg fun h => hrest h.2]
  · rw [if_neg fun h => hindex h.1, if_neg fun h => hindex h.1, if_neg fun h => hindex h.1]

theorem Jit.invalidateTlbPages_tlb (pages : List U64) (jit : Jit) (store : Bool) :
    (pages.foldl invalidateTlbPage jit).tlb store = retired pages (jit.tlb store) := by
  induction pages generalizing jit with
  | nil => exact (retired_nil _).symm
  | cons page pages ih =>
    rw [List.foldl_cons, ih, retired_cons]
    cases store <;> rfl

section

variable [Bus β]

variable (m : Machine β)

/-- The host page that an access through the host caches, if any: the access is
translated to plain memory, and a store is not to a page with code. -/
def Machine.fill? (store : Bool) (addr : U64) : Option U32 :=
  match (m.cpu.translate m.bus (tlbAccess store) addr).1 with
  | .error _ => none
  | .ok pa => if store && m.jit.isCodePage (pa >>> 12) then none else m.dram.pageHostAddr pa

/-- The table after that access. -/
def Machine.filled (store : Bool) (addr : U64) :
    BitVec 12 → InlineTlbEntry :=
  match m.fill? store addr with
  | none => m.jit.tlb store
  | some page =>
      Function.update (m.jit.tlb store) (inlineTlbIndex (addr >>> 12))
        ⟨addr >>> 12, m.jit.dataGen, page.setWidth 64⟩

theorem Machine.jitLoad_tlb (width : Width) (addr pc : U64) (store : Bool) :
    (m.jitLoad width addr pc).2.jit.tlb store =
      if store then m.jit.tlb store else m.filled store addr := by
  unfold jitLoad filled fill?
  cases store with
  | true =>
    rcases m.cpu.translate m.bus .load addr with ⟨_ | pa, cpu, bus⟩
    · rfl
    · dsimp only
      cases m.dram.pageHostAddr pa <;> rfl
  | false =>
    dsimp only [tlbAccess]
    rcases m.cpu.translate m.bus .load addr with ⟨_ | pa, cpu, bus⟩
    · rfl
    · simp only [Bool.false_and, Bool.false_eq_true, if_false]
      cases m.dram.pageHostAddr pa <;> rfl

theorem Machine.jitStore_tlb (width : Width) (addr val pc : U64) (store : Bool) :
    (m.jitStore width addr val pc).jit.tlb store =
      if store then m.filled store addr else m.jit.tlb store := by
  unfold jitStore filled fill?
  cases store with
  | false =>
    rcases m.cpu.translate m.bus .store addr with ⟨_ | pa, cpu, bus⟩
    · rfl
    dsimp only
    rw [m.jitAfterStore_eq addr pa]
    rfl
  | true =>
    dsimp only [tlbAccess]
    rcases m.cpu.translate m.bus .store addr with ⟨_ | pa, cpu, bus⟩
    · rfl
    simp only [Bool.true_and, if_true]
    unfold jitAfterStore
    cases m.jit.isCodePage (pa >>> 12) <;> cases m.dram.pageHostAddr pa <;> rfl

end

section

variable (m : Machine β)

/-- A `fence.i` waits to be processed and a store to a code page was noted. -/
def Machine.flushDue : Bool :=
  m.cpu.icacheGen ≠ m.jitIcacheGen && m.jit.smcDirty

/-- A page becomes code with the next installation. -/
def Machine.newCodePage : Bool :=
  m.pendingInstall.any fun built => built.paddr >>> 12 ∉ m.jit.codePages

theorem Machine.drainFlush_eq :
    m.drainFlush =
      { m with
        jit := m.cpu.pendingFlush.foldl Jit.invalidateTlbPage m.jit
        cpu := m.drainFlush.cpu } := by
  unfold drainFlush
  split
  · rename_i hempty
    rw [hempty]
    rfl
  · rfl

theorem Jit.invalidateTlbPages_eq (pages : List U64) (jit : Jit) :
    pages.foldl invalidateTlbPage jit =
      { jit with
        tlbR := (pages.foldl invalidateTlbPage jit).tlbR
        tlbW := (pages.foldl invalidateTlbPage jit).tlbW } := by
  induction pages generalizing jit with
  | nil => rfl
  | cons page pages ih =>
    rw [List.foldl_cons, ih]
    rfl

/-- The tables after the loop's bookkeeping: the queued pages are retired, and the blocks
discarded if that is due. -/
theorem Machine.service_jit (tick : β → β) :
    (m.service tick).jit =
      if m.flushDue then (m.cpu.pendingFlush.foldl Jit.invalidateTlbPage m.jit).flush
      else m.cpu.pendingFlush.foldl Jit.invalidateTlbPage m.jit := by
  have hspaces := ({ m with bus := tick m.bus } : Machine β).drainFlush_spaces
  have hicache : ({ m with bus := tick m.bus } : Machine β).drainFlush.cpu.icacheGen =
      m.cpu.icacheGen := by
    change ({ m with bus := tick m.bus } : Machine β).drainFlush.cpu.spaces.icacheGen = _
    rw [hspaces]
    cases flushHitsChain _ <;> rfl
  change (syncIcache _).jit = _
  unfold syncIcache
  have hnoted : (m.cpu.pendingFlush.foldl Jit.invalidateTlbPage m.jit).smcDirty =
      m.jit.smcDirty := by
    rw [Jit.invalidateTlbPages_eq]
  rw [hicache, drainFlush_eq]
  rw [hnoted]
  unfold flushDue
  by_cases hgen : m.cpu.icacheGen ≠ m.jitIcacheGen
  · rw [if_pos hgen]
    cases hdirty : m.jit.smcDirty with
    | true => rw [if_pos rfl, if_pos (by simp [hgen])]
    | false => rw [if_neg Bool.false_ne_true, if_neg (by simp)]
  · rw [if_neg hgen, if_neg (by simp [not_not.mp hgen])]

theorem Machine.service_tlb (tick : β → β) (store : Bool) :
    (m.service tick).jit.tlb store =
      if m.flushDue then fun _ => InlineTlbEntry.empty
      else retired m.cpu.pendingFlush (m.jit.tlb store) := by
  rw [m.service_jit tick]
  split
  · cases store <;> rfl
  · exact Jit.invalidateTlbPages_tlb m.cpu.pendingFlush m.jit store

end

theorem Jit.installAll_eq (batch : List Built) (jit : Jit) (idx : U32) :
    jit.installAll batch idx =
      { jit with
        slots := (jit.installAll batch idx).slots
        codePages := (jit.installAll batch idx).codePages
        installedCount := (jit.installAll batch idx).installedCount } := by
  induction batch generalizing jit idx with
  | nil => rfl
  | cons built batch ih =>
    rw [installAll, ih]
    rfl

section

variable [Bus β]

/-- The tables after an event that is allowed. -/
def Machine.tlbAfter (m : Machine β) (store : Bool) : Event β → BitVec 12 → InlineTlbEntry
  | .service _ =>
      if m.flushDue then fun _ => InlineTlbEntry.empty
      else retired m.cpu.pendingFlush (m.jit.tlb store)
  | .act (.load _ addr _) => if store then m.jit.tlb store else m.filled store addr
  | .act (.store _ addr _ _) => if store then m.filled store addr else m.jit.tlb store
  | .installed _ =>
      if store && m.newCodePage then fun i => { m.jit.tlb store i with gen := 0 }
      else m.jit.tlb store
  | .discard => fun _ => InlineTlbEntry.empty
  | _ => m.jit.tlb store

theorem Jit.lookup_tlb (jit : Jit) (s : Supervisor) (bus : β) (store : Bool) :
    (jit.lookup s bus).2.1.tlb store = jit.tlb store := by
  have houtcome := jit.lookup_outcome s bus
  rcases hres : jit.lookup s bus with ⟨hit, jit', s', bus'⟩
  rw [hres] at houtcome
  dsimp only at houtcome ⊢
  cases houtcome with
  | cached _ => rfl
  | missing _ _ hjit =>
    rw [hjit]
    cases store <;> rfl
  | found _ _ =>
    rw [insertKeys_eq]
    cases store <;> rfl

omit [Bus β] in
theorem Machine.jitInstalled_tlb (m : Machine β) (tableBase : U32) (store : Bool) :
    (m.jitInstalled tableBase).jit.tlb store =
      if store && m.newCodePage then fun i => { m.jit.tlb store i with gen := 0 }
      else m.jit.tlb store := by
  unfold jitInstalled newCodePage
  by_cases hnone : m.pendingInstall = []
  · rw [if_pos hnone, hnone]
    cases store <;> rfl
  rw [if_neg hnone]
  unfold Jit.installed
  rw [Jit.installAll_eq]
  cases m.pendingInstall.any fun built => built.paddr >>> 12 ∉ m.jit.codePages <;>
    cases store <;> rfl

theorem CsrService.tlb_eq {m m' : Machine β} {csr : Csr} {rd src : Reg}
    {val : U64} {op : CsrOp} (hservice : CsrService m csr rd src val op m')
    (store : Bool) : m'.jit.tlb store = m.jit.tlb store := by
  cases hservice <;> cases store <;> rfl

theorem Machine.doAct_tlb [FloatOps] (m : Machine β) (act : Act β) (store : Bool) :
    (m.doAct act).jit.tlb store = m.tlbAfter store (.act act) := by
  cases act with
  | regs x f | device effect => rfl
  | load width addr pc => exact m.jitLoad_tlb width addr pc store
  | store width addr val pc => exact m.jitStore_tlb width addr val pc store
  | inlineStore width addr val =>
    rw [doAct, m.inlineStore_eq width addr val]
    rfl
  | csr csr rd src val op pc =>
    exact (m.jitCsr_service csr rd src val op pc).tlb_eq store
  | fp call pc =>
    rw [doAct]
    obtain ⟨-, -, ⟨hjit, -⟩ | hjit⟩ := m.jitFp_effect call pc <;> rw [hjit] <;> cases store <;> rfl
  | hop pc =>
    rw [doAct, m.hop_jit pc, Jit.lookup_tlb]
    rfl

theorem Machine.perform_tlb [FloatOps] (m : Machine β) (event : Event β) (store : Bool) :
    (m.perform event).jit.tlb store = m.tlbAfter store event := by
  cases event with
  | service tick => exact m.service_tlb tick store
  | choose =>
    refine ite_keep (fun m' : Machine β => m'.jit.tlb store) ?_ rfl
    exact ite_keep (fun m' : Machine β => m'.jit.tlb store) rfl (by cases store <;> rfl)
  | enter =>
    rw [perform, m.enter_jit, Jit.lookup_tlb]
    rfl
  | interpret => rfl
  | act act => exact m.doAct_tlb act store
  | leave pc =>
    exact ite_keep (fun m' : Machine β => m'.jit.tlb store) rfl rfl
  | build ok =>
    exact ite_keep (fun m' : Machine β => m'.jit.tlb store) rfl (by cases store <;> rfl)
  | installed tableBase => exact m.jitInstalled_tlb tableBase store
  | discard => cases store <;> rfl
  | enable on => rfl

end

end TabLinux

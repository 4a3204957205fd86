/-
The software TLB and the fetch-page cache are transparent.  As long as the page tables
change by the MMU's own accessed and dirty updates only, whatever else happens to memory,
every call is answered as it would be after a flush.
-/
import TabLinux.PageOffset
import TabLinux.Step
import TabLinux.Library.Runs

namespace TabLinux

variable {mem before after : Ram} {satp : Satp} {s : Supervisor}

variable {level : Nat} {table : U64} {mmu : Mmu} {state : Supervisor × Ram}

/-- Does a walk follow this entry to another table? -/
def isPointer (pte : U64) : Bool :=
  pte.getLsbD 0 && !pte.getLsbD 1 && !pte.getLsbD 2 && !pte.getLsbD 3

/-- Entry `i` of a table. -/
def tableEntry (table : U64) (i : Nat) : U64 := table + BitVec.ofNat 64 i * 8

/-- The tables of an address space: the root, and the target of every pointer in a table
above the last level. -/
inductive TableAt (mem : Ram) (satp : Satp) : Nat → U64 → Prop
  | root : TableAt mem satp 2 (rootTable satp)
  | next {level i : Nat} {table : U64} (hi : i < 512)
      (habove : TableAt mem satp (level + 1) table)
      (hpointer : isPointer (mem.word (tableEntry table i)) = true) :
      TableAt mem satp level (ptePpn (mem.word (tableEntry table i)) <<< 12)

/-- The pages of the tables hold what they held. -/
def TablesKept (satp : Satp) (before after : Ram) : Prop :=
  ∀ level table, TableAt before satp level table → ∀ i < 512,
    after.word (tableEntry table i) = before.word (tableEntry table i)

/-- A root that holds no pointers is the only table. -/
theorem TableAt.eq_root
    (hleaves : ∀ i < 512, isPointer (mem.word (tableEntry (rootTable satp) i)) = false)
    (htable : TableAt mem satp level table) : table = rootTable satp := by
  induction htable with
  | root => rfl
  | next hi _ hpointer habove =>
    subst habove
    rw [hleaves _ hi] at hpointer
    cases hpointer

theorem TablesKept.of_root
    (hleaves : ∀ i < 512, isPointer (before.word (tableEntry (rootTable satp) i)) = false)
    (hkept : ∀ i < 512, after.word (tableEntry (rootTable satp) i) =
      before.word (tableEntry (rootTable satp) i)) : TablesKept satp before after := by
  intro level table htable
  have hroot := htable.eq_root hleaves
  subst hroot
  exact hkept

theorem sv39EntryAddr_eq (vaddr : U64) (level : Nat) (table : U64) :
    ∃ i < 512, sv39EntryAddr vaddr level table = tableEntry table i := by
  refine ⟨(vpnIndex vaddr level).toNat, ?_, ?_⟩
  · rw [vpnIndex, BitVec.toNat_and, show (0x1FF : U64).toNat = 2 ^ 9 - 1 from rfl,
      Nat.and_two_pow_sub_one_eq_mod]
    exact Nat.mod_lt _ (by decide)
  · rw [sv39EntryAddr, tableEntry, BitVec.ofNat_toNat, BitVec.setWidth_eq]

section

variable (hkept : TablesKept satp before after)
include hkept

/-- A walk reads entries of the tables only. -/
theorem TablesKept.sv39Leaf? (vaddr : U64) (htable : TableAt before satp level table) :
    sv39Leaf? after.word vaddr level table = sv39Leaf? before.word vaddr level table := by
  induction level generalizing table with
  | zero =>
    obtain ⟨i, hi, haddr⟩ := sv39EntryAddr_eq vaddr 0 table
    rw [TabLinux.sv39Leaf?, TabLinux.sv39Leaf?, haddr, hkept _ _ htable i hi]
  | succ level ih =>
    obtain ⟨i, hi, haddr⟩ := sv39EntryAddr_eq vaddr (level + 1) table
    rw [TabLinux.sv39Leaf?, TabLinux.sv39Leaf?, haddr, hkept _ _ htable i hi]
    split
    · rfl
    rename_i hends
    split
    · rfl
    rename_i hstops
    refine ih (.next hi htable ?_)
    cases h0 : (before.word (tableEntry table i)).getLsbD 0 <;>
    cases h1 : (before.word (tableEntry table i)).getLsbD 1 <;>
    cases h2 : (before.word (tableEntry table i)).getLsbD 2 <;>
    cases h3 : (before.word (tableEntry table i)).getLsbD 3 <;> simp_all [isPointer]

theorem TablesKept.mappedLeaf? (vaddr : U64) :
    mappedLeaf? after satp vaddr = mappedLeaf? before satp vaddr := by
  rw [TabLinux.mappedLeaf?, TabLinux.mappedLeaf?, hkept.sv39Leaf? vaddr .root]

theorem TablesKept.tlbOk {tlb : Tlb} (hok : TlbOk before satp tlb) : TlbOk after satp tlb := by
  intro i hvalid vaddr hkey
  cases hok i hvalid vaddr hkey with
  | mapped leaf old hleaf hsize hppn hold hflags =>
    exact .mapped leaf old ((hkept.mappedLeaf? vaddr).trans hleaf) hsize hppn hold hflags
  | identity hnone hrange hsize hppn hflags =>
    exact .identity ((hkept.mappedLeaf? vaddr).trans hnone) hrange hsize hppn hflags

end

/-- What can be known of the TLB: in Sv39 mode it describes the tables; in the other
modes it is not used. -/
def TlbSound (mem : Ram) (satp : Satp) (tlb : Tlb) : Prop :=
  satp.mode = 8 → TlbOk mem satp tlb

/-- What a call returns and the memory it leaves, as a function of memory. -/
def translateAnswer (mem : Ram) (satp : Satp) (privLevel : Privilege) (sum mxr : Bool)
    (access : AccessType) (vaddr : U64) : Except Trap U64 × Ram :=
  if satp.mode = 0 then (.ok vaddr, mem)
  else if satp.mode ≠ 8 then (.error (pageFault access), mem)
  else if !canonical vaddr then (.error (pageFault access), mem)
  else (translateResult mem satp privLevel sum mxr access vaddr,
    translateMemory mem satp privLevel sum mxr access vaddr)

theorem Mmu.translate_answer (hok : TlbSound mem satp mmu.tlb)
    (privLevel : Privilege) (sum mxr : Bool) (access : AccessType) (vaddr : U64) :
    ((mmu.translate mem satp privLevel sum mxr access vaddr).1,
        (mmu.translate mem satp privLevel sum mxr access vaddr).2.2) =
      translateAnswer mem satp privLevel sum mxr access vaddr := by
  unfold translateAnswer
  by_cases hbare : satp.mode = 0
  · rw [translate, if_pos hbare, if_pos hbare]
  by_cases hmode : satp.mode = 8
  · cases hcanonical : canonical vaddr with
    | true =>
      obtain ⟨_, hcall, -⟩ := translate_spec (hok hmode) hmode privLevel sum mxr access hcanonical
      rw [hcall, if_neg hbare, if_neg (not_not.mpr hmode)]
      rfl
    | false =>
      rw [translate, hcanonical, if_neg hbare, if_neg hbare, if_neg (not_not.mpr hmode),
        if_neg (not_not.mpr hmode)]
      rfl
  · rw [translate, if_neg hbare, if_neg hbare, if_pos hmode, if_pos hmode]

/-- After a flush the TLB is sound for any memory. -/
theorem TlbSound.flush (mem : Ram) (satp : Satp) (mmu : Mmu) : TlbSound mem satp mmu.flushTlb.tlb :=
  fun _ => TlbOk.of_no_valid fun _ => rfl

theorem MmuCall.apply_sound {state : Mmu × Ram} (hok : TlbSound state.2 satp state.1.tlb)
    (call : MmuCall) : TlbSound (call.apply satp state).2 satp (call.apply satp state).1.tlb :=
  fun hmode => apply_tlbOk hmode (hok hmode) call

/-- The answer to an instruction fetch at a privilege level. -/
def fetchAnswer (mem : Ram) (satp : Satp) (privLevel : Privilege) (vaddr : U64) :
    Except Trap U64 :=
  if privLevel = .machine then .ok vaddr
  else (translateAnswer mem satp privLevel false false .instruction vaddr).1

/-- Fetches do not look at SUM and MXR. -/
theorem translateAnswer_fetch (mem : Ram) (satp : Satp) (privLevel : Privilege)
    (sum mxr : Bool) (vaddr : U64) :
    (translateAnswer mem satp privLevel sum mxr .instruction vaddr).1 =
      (translateAnswer mem satp privLevel false false .instruction vaddr).1 := by
  unfold translateAnswer
  split
  · rfl
  split
  · rfl
  split
  · rfl
  · rfl

theorem Supervisor.translate_fetchAnswer (hok : TlbSound mem s.satp s.mmu.tlb) (vaddr : U64) :
    (s.translate mem .instruction vaddr).1 = fetchAnswer mem s.satp s.privLevel vaddr := by
  unfold translate fetchAnswer
  split
  · rfl
  have hanswer := Mmu.translate_answer hok s.privLevel s.mstatus.sum s.mstatus.mxr
    .instruction vaddr
  rw [← translateAnswer_fetch mem s.satp s.privLevel s.mstatus.sum s.mstatus.mxr, ← hanswer]
  rfl

theorem translateResult_grow (hgrow : before.AdGrow after) (satp : Satp)
    (privLevel : Privilege) (sum mxr : Bool) (access : AccessType) (vaddr : U64) :
    translateResult after satp privLevel sum mxr access vaddr =
      translateResult before satp privLevel sum mxr access vaddr := by
  unfold translateResult
  cases hleaf : mappedLeaf? before satp vaddr with
  | none => rw [mappedLeaf?_adGrow hgrow, hleaf, Option.map_none]
  | some leaf =>
    obtain ⟨new, hnew, hpte⟩ := mappedLeaf?_grow_some hgrow hleaf
    rw [hnew]
    simp only [Sv39Leaf.image, hpte.ptePpn_eq, applyPteFlags_adGrow hpte]

theorem translateResult_kept (hkept : TablesKept satp before after) (privLevel : Privilege)
    (sum mxr : Bool) (access : AccessType) (vaddr : U64) :
    translateResult after satp privLevel sum mxr access vaddr =
      translateResult before satp privLevel sum mxr access vaddr := by
  unfold translateResult
  rw [hkept.mappedLeaf? vaddr]

/-- Fetches see memory through the results of the walks only. -/
theorem fetchAnswer_congr (hresult : ∀ privLevel vaddr,
      translateResult after satp privLevel false false .instruction vaddr =
        translateResult before satp privLevel false false .instruction vaddr)
    (privLevel : Privilege) (vaddr : U64) :
    fetchAnswer after satp privLevel vaddr = fetchAnswer before satp privLevel vaddr := by
  unfold fetchAnswer translateAnswer
  rw [hresult privLevel vaddr]
  split
  · rfl
  split
  · rfl
  split
  · rfl
  split
  · rfl
  · rfl

theorem Mmu.translate_adGrow (hok : TlbSound mem satp mmu.tlb)
    (privLevel : Privilege) (sum mxr : Bool) (access : AccessType) (vaddr : U64) :
    mem.AdGrow (mmu.translate mem satp privLevel sum mxr access vaddr).2.2 := by
  have hanswer := congrArg Prod.snd (translate_answer hok privLevel sum mxr access vaddr)
  dsimp only at hanswer
  rw [hanswer]
  unfold translateAnswer
  split
  · exact Ram.AdGrow.refl mem
  split
  · exact Ram.AdGrow.refl mem
  split
  · exact Ram.AdGrow.refl mem
  · exact translateMemory_adGrow mem satp privLevel sum mxr access vaddr

theorem adSatisfied_adUpdate (pte : U64) (access : AccessType) :
    adSatisfied (pteFlags (adUpdate pte access)) access = true := by
  simp only [adSatisfied, getLsbD_pteFlags _ (by decide : 5 < 7),
    getLsbD_pteFlags _ (by decide : 6 < 7)]
  cases access <;> simp [adUpdate]

theorem or_bit_eq_self {value : U64} {pos : Nat} (hset : value.getLsbD pos = true) :
    value ||| 1#64 <<< pos = value := by
  apply BitVec.eq_of_getLsbD_eq
  intro i _
  by_cases hi : i = pos
  · rw [BitVec.getLsbD_or, hi, hset, Bool.true_or]
  · rw [BitVec.getLsbD_or, getLsbD_shifted_one_of_ne hi, Bool.or_false]

theorem adUpdate_of_satisfied {pte : U64} {access : AccessType}
    (hsat : adSatisfied (pteFlags pte) access = true) : adUpdate pte access = pte := by
  simp only [adSatisfied, getLsbD_pteFlags _ (by decide : 5 < 7),
    getLsbD_pteFlags _ (by decide : 6 < 7), Bool.and_eq_true, Bool.or_eq_true] at hsat
  unfold adUpdate
  rw [or_bit_eq_self hsat.1]
  split
  · rename_i hstore
    rw [hstore] at hsat
    exact or_bit_eq_self (hsat.2.resolve_left (by decide))
  · rfl

/-- The memories differ in one entry only: the bits that the access needs are set in it. -/
structure SetsAd (access : AccessType) (leaf : Sv39Leaf) (before after : Ram) : Prop where
  entry : after.word leaf.pteAddr = adUpdate leaf.pte access
  others : ∀ addr, 8 ≤ (addr - leaf.pteAddr).toNat → after addr = before addr
  needed : adSatisfied (pteFlags (after.word leaf.pteAddr)) access = true

theorem SetsAd.of_setAd {leaf : Sv39Leaf} {vaddr : U64}
    (hleaf : mappedLeaf? mem satp vaddr = some leaf) (access : AccessType) :
    SetsAd access leaf mem (setAd mem leaf.pteAddr (pteFlags leaf.pte) access).2 := by
  have hwalk := (mappedLeaf?_eq_some.mp hleaf).1
  have haddr := sv39Leaf?_pteAddr_dvd (rootTable_dvd satp) hwalk
  have hpte := (sv39Leaf?_pte hwalk).1
  rw [setAd_ram]
  by_cases hsat : adSatisfied (pteFlags leaf.pte) access = true
  · rw [if_pos hsat]
    exact ⟨hpte.symm.trans (adUpdate_of_satisfied hsat).symm, fun _ _ => rfl, hpte ▸ hsat⟩
  have hentry : Ram.word (writeU64 mem leaf.pteAddr (adUpdate (mem.word leaf.pteAddr) access))
      leaf.pteAddr = adUpdate leaf.pte access := by
    rw [word_writeU64 mem _ haddr haddr, if_pos rfl, hpte]
  rw [if_neg hsat]
  refine ⟨hentry, fun addr hout => if_neg (Nat.not_lt.mpr hout), ?_⟩
  exact hentry.symm ▸ adSatisfied_adUpdate leaf.pte access

/-- Outside the identity range, a call that fails leaves memory alone, and a call that succeeds
sets the bits that the access needs in the entry that maps the address. -/
theorem Mmu.translate_setsAd {mmu : Mmu} (hok : TlbOk mem satp mmu.tlb) (hmode : satp.mode = 8)
    (privLevel : Privilege) (sum mxr : Bool) (access : AccessType) {vaddr : U64}
    (houtside : ¬ (0x80200000#64 ≤ vaddr ∧ vaddr < 0x81800000#64)) :
    (∀ trap, (mmu.translate mem satp privLevel sum mxr access vaddr).1 = .error trap →
      (mmu.translate mem satp privLevel sum mxr access vaddr).2.2 = mem) ∧
    ∀ paddr, (mmu.translate mem satp privLevel sum mxr access vaddr).1 = .ok paddr →
      ∃ leaf, mappedLeaf? mem satp vaddr = some leaf ∧
        SetsAd access leaf mem (mmu.translate mem satp privLevel sum mxr access vaddr).2.2 := by
  have hanswer := translate_answer (fun _ => hok) privLevel sum mxr access vaddr
  have hresult := congrArg Prod.fst hanswer
  have hmemory := congrArg Prod.snd hanswer
  dsimp only at hresult hmemory
  have hrange : identityFallback vaddr = false := by
    simp only [identityFallback, Bool.or_eq_false_iff, Bool.and_eq_false_iff,
      decide_eq_false_iff_not]
    constructor <;> bv_omega
  rw [hresult, hmemory]
  unfold translateAnswer
  rw [if_neg (by rw [hmode]; decide), if_neg (not_not.mpr hmode)]
  split
  · exact ⟨fun _ _ => rfl, fun _ h => by cases h⟩
  unfold translateResult translateMemory
  cases hleaf : mappedLeaf? mem satp vaddr with
  | none =>
    refine ⟨fun _ _ => rfl, fun _ h => ?_⟩
    simp [hrange] at h
  | some leaf =>
    dsimp only
    cases applyPteFlags (pteFlags leaf.pte) access privLevel sum mxr with
    | error trap => exact ⟨fun _ _ => rfl, fun _ h => by cases h⟩
    | ok _ => exact ⟨fun _ h => (by cases h), fun _ _ => ⟨leaf, rfl, .of_setAd hleaf access⟩⟩

/-- The state in which `sfence.vma`, a change of `satp` and a restore leave the two
caches. -/
def Supervisor.flushed (s : Supervisor) : Supervisor :=
  { s with mmu := s.mmu.flushTlb, fetchVpn := BitVec.allOnes 64 }

/-- What happens in one address space: calls of the MMU with any arguments, instruction
fetches, changes of privilege and status, and changes of memory by others.  A flush
allows any change of memory. -/
inductive TlbEvent where
  | call (privLevel : Privilege) (sum mxr : Bool) (access : AccessType) (vaddr : U64)
  | fetch (vaddr : U64)
  | context (privLevel : Privilege) (mstatus : MStatus)
  | memory (mem : Ram)
  | flush (mem : Ram)

def TlbEvent.step (state : Supervisor × Ram) : TlbEvent → Supervisor × Ram
  | .call privLevel sum mxr access vaddr =>
      let (_, mmu, mem) := state.1.mmu.translate state.2 state.1.satp privLevel sum mxr access vaddr
      ({ state.1 with mmu := mmu }, mem)
  | .fetch vaddr => (state.1.fetchTranslate state.2 vaddr).2
  | .context privLevel mstatus =>
      ({ state.1 with privLevel := privLevel, mstatus := mstatus }, state.2)
  | .memory mem => (state.1, mem)
  | .flush mem => (state.1.flushed, mem)

/-- Between flushes the pages of the tables are left to the MMU. -/
def TlbEvent.KeepsTables (state : Supervisor × Ram) : TlbEvent → Prop
  | .memory mem => TablesKept state.1.satp state.2 mem
  | _ => True

/-- The fetch-page cache answers for the addresses of its page. -/
def FetchSound (s : Supervisor) (mem : Ram) : Prop :=
  ∀ vaddr : U64, vaddr >>> 12 = s.fetchVpn →
    fetchAnswer mem s.satp s.fetchPriv vaddr = .ok (s.fetchPpn <<< 12 ||| (vaddr &&& 0xFFF))

structure CachesSound (state : Supervisor × Ram) : Prop where
  tlb : TlbSound state.2 state.1.satp state.1.mmu.tlb
  fetch : FetchSound state.1 state.2

namespace CachesSound

theorem flushed (s : Supervisor) (mem : Ram) : CachesSound (s.flushed, mem) := by
  refine ⟨TlbSound.flush mem s.satp s.mmu, ?_⟩
  intro vaddr hvpn
  -- no page number is all ones
  have hlow : (vaddr >>> 12).getLsbD 63 = false := by
    rw [BitVec.getLsbD_ushiftRight]
    exact BitVec.getLsbD_of_ge _ _ (by decide)
  rw [hvpn] at hlow
  change (BitVec.allOnes 64).getLsbD 63 = false at hlow
  exact absurd hlow (by decide)

/-- Sound caches serve what a walk would. -/
theorem fetchTranslate (h : CachesSound (s, mem)) (vaddr : U64) :
    (s.fetchTranslate mem vaddr).1 = (s.translate mem .instruction vaddr).1 := by
  unfold Supervisor.fetchTranslate
  split
  · rename_i hhit
    simp only [Bool.and_eq_true, decide_eq_true_eq] at hhit
    have hanswer := h.fetch vaddr hhit.1
    rw [Supervisor.translate_fetchAnswer h.tlb, hhit.2]
    exact hanswer.symm
  · rcases s.translate mem .instruction vaddr with ⟨_ | paddr, s', mem'⟩ <;> rfl

theorem call (h : CachesSound (s, mem)) (privLevel : Privilege) (sum mxr : Bool)
    (access : AccessType) (vaddr : U64) :
    CachesSound
      ({ s with mmu := (s.mmu.translate mem s.satp privLevel sum mxr access vaddr).2.1 },
        (s.mmu.translate mem s.satp privLevel sum mxr access vaddr).2.2) := by
  have hgrow := Mmu.translate_adGrow h.tlb privLevel sum mxr access vaddr
  refine ⟨?_, ?_⟩
  · have hok : TlbSound (s.mmu, mem).2 s.satp (s.mmu, mem).1.tlb := h.tlb
    exact MmuCall.apply_sound hok (.translate privLevel sum mxr access vaddr)
  intro other hvpn
  rw [fetchAnswer_congr fun privLevel vaddr =>
    translateResult_grow hgrow s.satp privLevel false false .instruction vaddr]
  exact h.fetch other hvpn

theorem memory (h : CachesSound (s, before)) (hkept : TablesKept s.satp before after) :
    CachesSound (s, after) := by
  refine ⟨fun hmode => hkept.tlbOk (h.tlb hmode), ?_⟩
  intro vaddr hvpn
  rw [fetchAnswer_congr fun privLevel vaddr =>
    translateResult_kept hkept privLevel false false .instruction vaddr]
  exact h.fetch vaddr hvpn

/-- A translation for a fetch is a call of the MMU, or none. -/
theorem translate (h : CachesSound (s, mem)) (vaddr : U64) :
    CachesSound (s.translate mem .instruction vaddr).2 ∧
      ∀ privLevel other,
        fetchAnswer (s.translate mem .instruction vaddr).2.2 s.satp privLevel other =
          fetchAnswer mem s.satp privLevel other := by
  unfold Supervisor.translate
  split
  · exact ⟨h, fun _ _ => rfl⟩
  refine ⟨h.call s.privLevel s.mstatus.sum s.mstatus.mxr .instruction vaddr, ?_⟩
  exact fetchAnswer_congr fun privLevel other => translateResult_grow
    (Mmu.translate_adGrow h.tlb s.privLevel s.mstatus.sum s.mstatus.mxr .instruction vaddr)
    s.satp privLevel false false .instruction other

theorem fetchStep (h : CachesSound (s, mem)) (vaddr : U64) :
    CachesSound (s.fetchTranslate mem vaddr).2 := by
  obtain ⟨hnext, hanswer⟩ := h.translate vaddr
  have hstate := s.translate_state mem .instruction vaddr
  unfold Supervisor.fetchTranslate
  split
  · exact h
  rcases hcall : s.translate mem .instruction vaddr with ⟨trap | paddr, s', mem'⟩ <;>
    rw [hcall] at hnext hanswer hstate
  · exact hnext
  refine ⟨hnext.tlb, ?_⟩
  intro other hother
  have hsatp : s'.satp = s.satp := by rw [show s' = _ from hstate]
  have hpriv : s'.privLevel = s.privLevel := by rw [show s' = _ from hstate]
  have hpage := s.translate_page mem .instruction hother
  rw [hcall] at hpage
  -- the walk done for one address of the page answers for all of them
  calc fetchAnswer mem' s'.satp s'.privLevel other
      = fetchAnswer mem' s.satp s.privLevel other := by rw [hsatp, hpriv]
    _ = fetchAnswer mem s.satp s.privLevel other := hanswer s.privLevel other
    _ = (s.translate mem .instruction other).1 :=
        (Supervisor.translate_fetchAnswer h.tlb other).symm
    _ = .ok (rebase paddr other) := hpage

end CachesSound

theorem TlbEvent.step_sound {event : TlbEvent}
    (h : CachesSound state) (hkeeps : event.KeepsTables state) :
    CachesSound (event.step state) := by
  cases event with
  | call privLevel sum mxr access vaddr => exact h.call privLevel sum mxr access vaddr
  | fetch vaddr => exact h.fetchStep vaddr
  | context privLevel mstatus => exact ⟨h.tlb, h.fetch⟩
  | memory mem => exact h.memory hkeeps
  | flush mem => exact CachesSound.flushed state.1 mem

/-- No call tells a used TLB from an empty one, and no fetch tells the fetch-page cache
from a walk. -/
def Transparent (state : Supervisor × Ram) : Prop :=
  (∀ privLevel sum mxr access vaddr,
    let call := fun mmu : Mmu =>
      mmu.translate state.2 state.1.satp privLevel sum mxr access vaddr
    (call state.1.mmu).1 = (call state.1.mmu.flushTlb).1 ∧
      (call state.1.mmu).2.2 = (call state.1.mmu.flushTlb).2.2) ∧
  ∀ vaddr, (state.1.fetchTranslate state.2 vaddr).1 =
    (state.1.translate state.2 .instruction vaddr).1

theorem CachesSound.transparent (h : CachesSound state) : Transparent state := by
  refine ⟨?_, h.fetchTranslate⟩
  intro privLevel sum mxr access vaddr
  have hused := Mmu.translate_answer h.tlb privLevel sum mxr access vaddr
  have hempty := Mmu.translate_answer (TlbSound.flush state.2 state.1.satp state.1.mmu)
    privLevel sum mxr access vaddr
  exact Prod.mk.inj (hused.trans hempty.symm)

/-- Since a flush, whatever calls were made and whatever else changed in memory, the
caches cannot be observed. -/
theorem run_transparent (s : Supervisor) (mem : Ram) (events : List TlbEvent)
    (hkeeps : Runs.Along TlbEvent.step TlbEvent.KeepsTables (s.flushed, mem) events) :
    Transparent (Runs.run TlbEvent.step (s.flushed, mem) events) := by
  refine CachesSound.transparent (hkeeps.invariant ?_ (CachesSound.flushed s mem))
  intro state event h hevent
  exact event.step_sound h hevent

/-- A gigapage at address 0 that can be read and executed. -/
def codeGigapage : Ram := fun addr => if addr = 0x1000 then 0x0B else 0

theorem translate_setsAd_codeGigapage :
    ∃ leaf, mappedLeaf? codeGigapage ⟨8, 0, 1⟩ 0x9008 = some leaf ∧ SetsAd .load leaf codeGigapage
        (Mmu.new.translate codeGigapage ⟨8, 0, 1⟩ .supervisor false false .load 0x9008).2.2 :=
  (Mmu.translate_setsAd (TlbOk.of_no_valid fun _ => rfl) rfl .supervisor false false .load
    (by decide)).2 0x9008 (by decide +kernel)

/-- A store to a data page, a fetch from the gigapage and a load in user mode. -/
def codeGigapageEvents : List TlbEvent :=
  [.memory fun addr => if addr = 0x9000 then 1 else codeGigapage addr,
    .fetch 0x9000, .call .user false false .load 0x9008]

def codeGigapageState : Supervisor :=
  { Supervisor.new 0 0 with privLevel := .supervisor, satp := ⟨8, 0, 1⟩ }

theorem run_transparent_codeGigapage : Runs.Along TlbEvent.step TlbEvent.KeepsTables
        (codeGigapageState.flushed, codeGigapage) codeGigapageEvents ∧
      Transparent (Runs.run TlbEvent.step
        (codeGigapageState.flushed, codeGigapage) codeGigapageEvents) := by
  have hkeeps : Runs.Along TlbEvent.step TlbEvent.KeepsTables
      (codeGigapageState.flushed, codeGigapage) codeGigapageEvents := by
    refine ⟨TablesKept.of_root ?_ ?_, trivial, trivial, trivial⟩
    · decide +kernel
    · decide +kernel
  exact ⟨hkeeps, run_transparent codeGigapageState codeGigapage codeGigapageEvents hkeeps⟩

end TabLinux

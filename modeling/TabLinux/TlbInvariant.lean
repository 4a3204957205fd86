/-
The TLB against the page tables.  Every valid entry describes what the walk of
each address it matches would find, up to accessed and dirty bits set since, so
`translate` returns and writes what it would with an empty TLB.
-/
import TabLinux.Sv39

namespace TabLinux

open ByteMemory

variable {mem before after : Ram} {satp : Satp} {vaddr other : U64} {leaf : Sv39Leaf}
  {tlb : Tlb} {entry : TlbEntry}

variable {level i : Nat} {pteAddr old new : U64} {access : AccessType} {mmu : Mmu}

/-- The aligned leaf that maps `vaddr` in an address space, if there is one. -/
def mappedLeaf? (mem : Ram) (satp : Satp) (vaddr : U64) : Option Sv39Leaf :=
  (sv39Leaf? mem.word vaddr 2 (rootTable satp)).filter (·.aligned)

/-- What `translate` learns from a leaf. -/
def Sv39Leaf.walked (leaf : Sv39Leaf) (vaddr : U64) : Walked where
  paddr := leaf.image vaddr
  ppn := ptePpn leaf.pte
  size := levelSize leaf.level
  flags := pteFlags leaf.pte
  pteAddr := leaf.pteAddr

theorem rootTable_dvd (satp : Satp) : 8 ∣ (rootTable satp).toNat := shiftLeft_twelve_dvd _

theorem mappedLeaf?_eq_some :
    mappedLeaf? mem satp vaddr = some leaf ↔
      sv39Leaf? mem.word vaddr 2 (rootTable satp) = some leaf ∧ leaf.aligned := by
  simp [mappedLeaf?, Option.filter_eq_some_iff]

theorem walkFrom_ram (mem : Ram) (vaddr : U64) (level : Nat) (table : U64) :
    walkFrom vaddr level table mem =
      ((sv39Leaf? mem.word vaddr level table).bind fun leaf =>
        walkLeaf vaddr leaf.level leaf.pteAddr leaf.pte, mem) := by
  induction level generalizing table with
  | zero =>
    rw [walkFrom, sv39Leaf?, readU64_ram]
    simp only [sv39EntryAddr]
    obtain ⟨pte, hpte⟩ : ∃ pte, mem.word (table + vpnIndex vaddr 0 * 8) = pte := ⟨_, rfl⟩
    simp only [hpte]
    cases pte.getLsbD 0 <;> cases pte.getLsbD 1 <;> cases pte.getLsbD 2 <;>
      cases pte.getLsbD 3 <;> simp
  | succ level ih =>
    rw [walkFrom, sv39Leaf?, readU64_ram]
    simp only [sv39EntryAddr, ih]
    obtain ⟨pte, hpte⟩ : ∃ pte, mem.word (table + vpnIndex vaddr (level + 1) * 8) = pte := ⟨_, rfl⟩
    simp only [hpte]
    cases pte.getLsbD 0 <;> cases pte.getLsbD 1 <;> cases pte.getLsbD 2 <;>
      cases pte.getLsbD 3 <;> simp

/-- Clearing bits that are clear changes nothing. -/
theorem and_not_eq_self {value mask : U64} (hclear : value &&& mask = 0) :
    value &&& ~~~ mask = value := by
  apply BitVec.eq_of_getLsbD_eq
  intro i hi
  have hbit := congrArg (fun v : U64 => v.getLsbD i) hclear
  simp only [BitVec.getLsbD_and] at hbit
  cases hv : value.getLsbD i <;> simp_all

theorem offsetMask_eq (hlevel : level ≤ 2) :
    offsetMask (levelSize level) = superpageMask level <<< 12 ||| 0xFFF := by
  interval_cases level <;> decide

/-- An aligned frame has no bit in common with an offset inside its page. -/
theorem frame_offset_disjoint {ppn : U64} (hlevel : level ≤ 2)
    (haligned : ppn &&& superpageMask level = 0) (vaddr : U64) :
    ppn <<< 12 &&& (vaddr &&& offsetMask (levelSize level)) = 0 := by
  apply BitVec.eq_of_getLsbD_eq
  intro i hi
  have hbit := congrArg (fun v : U64 => v.getLsbD (i - 12)) haligned
  have hlow : 12 ≤ i → (0xFFF : U64).getLsbD i = false := by
    intro hge
    rw [show (0xFFF : U64) = BitVec.ofNat 64 (2 ^ 12 - 1) from rfl,
      BitVec.getLsbD_ofNat, Nat.testBit_two_pow_sub_one]
    simp [Nat.not_lt.mpr hge]
  rw [offsetMask_eq hlevel]
  simp only [BitVec.getLsbD_and, BitVec.getLsbD_or, BitVec.getLsbD_shiftLeft,
    hi, decide_true, Bool.true_and] at hbit ⊢
  by_cases hge : 12 ≤ i
  · rw [hlow hge]
    cases hp : ppn.getLsbD (i - 12) <;> simp_all
  · simp [Nat.lt_of_not_le hge]

theorem walkLeaf_eq (vaddr : U64) (hlevel : leaf.level ≤ 2) :
    walkLeaf vaddr leaf.level leaf.pteAddr leaf.pte =
      if leaf.aligned then some (leaf.walked vaddr) else none := by
  rw [Sv39Leaf.aligned]
  by_cases hclear : ptePpn leaf.pte &&& superpageMask leaf.level = 0
  · have hsum := BitVec.add_eq_or_of_and_eq_zero _ _ (frame_offset_disjoint hlevel hclear vaddr)
    rw [walkLeaf, if_neg (not_not.mpr hclear), if_pos (beq_iff_eq.mpr hclear)]
    simp only [Sv39Leaf.walked, Sv39Leaf.image, and_not_eq_self hclear, hsum]
  · rw [walkLeaf, if_pos hclear, if_neg (mt beq_iff_eq.mp hclear)]

/-- The source's walk finds the mapped leaf and leaves memory alone. -/
theorem walkSv39_ram (mem : Ram) (satp : Satp) (vaddr : U64) :
    walkSv39 mem satp vaddr = ((mappedLeaf? mem satp vaddr).map (·.walked vaddr), mem) := by
  rw [walkSv39, mappedLeaf?]
  simp only [readU64_ram, walkFrom_ram]
  cases hleaf : sv39Leaf? mem.word vaddr 2 (rootTable satp) with
  | none => rfl
  | some leaf =>
    simp only [Option.bind_some, walkLeaf_eq vaddr (sv39Leaf?_pte hleaf).2]
    by_cases haligned : leaf.aligned <;> simp [Option.filter, haligned]

/-- The entry agrees with the page tables about `vaddr`: it carries the frame
and size of the mapped leaf with flags that leaf had at some earlier time, or it
is the identity entry that the boot fallback left for an unmapped address. -/
inductive TlbEntry.Agrees (mem : Ram) (satp : Satp) (vaddr : U64)
    (entry : TlbEntry) : Prop where
  | mapped (leaf : Sv39Leaf) (old : U64) (hleaf : mappedLeaf? mem satp vaddr = some leaf)
      (hsize : entry.size = levelSize leaf.level)
      (hppn : entry.ppn = ptePpn leaf.pte)
      (hold : AdGrow old leaf.pte)
      (hflags : entry.flags = pteFlags old)
  | identity (hnone : mappedLeaf? mem satp vaddr = none) (hrange : identityFallback vaddr = true)
      (hsize : entry.size = 0)
      (hppn : entry.ppn = vaddr >>> 12)
      (hflags : entry.flags = 0x67)

/-- Every valid entry agrees with the page tables about every address that
would hit it. -/
def TlbOk (mem : Ram) (satp : Satp) (tlb : Tlb) : Prop :=
  ∀ i, (tlb.sets i).valid = true → ∀ vaddr,
    vpnAt vaddr (tlb.sets i).size = (tlb.sets i).vaKey → (tlb.sets i).Agrees mem satp vaddr

theorem TlbOk.of_no_valid (hinvalid : ∀ i, (tlb.sets i).valid = false) : TlbOk mem satp tlb := by
  intro i hvalid
  rw [hinvalid i] at hvalid
  cases hvalid

theorem Tlb.lookup_eq_some (hhit : tlb.lookup vaddr = some entry) :
    ∃ i, tlb.sets i = entry ∧ entry.valid = true ∧ vpnAt vaddr entry.size = entry.vaKey := by
  obtain ⟨size, _, hsize⟩ := List.exists_of_findSome?_eq_some hhit
  obtain ⟨way, _, hway⟩ := List.exists_of_findSome?_eq_some hsize
  simp only [probe, Bool.and_eq_true, decide_eq_true_eq,
    Option.ite_none_right_eq_some, Option.some.injEq] at hway
  obtain ⟨⟨⟨hvalid, hsz⟩, hkey⟩, rfl⟩ := hway
  exact ⟨_, rfl, hvalid, by rw [hsz, hkey]⟩

/-- A hit agrees with the page tables. -/
theorem TlbOk.lookup_agrees (hok : TlbOk mem satp tlb) (hhit : tlb.lookup vaddr = some entry) :
    entry.Agrees mem satp vaddr := by
  obtain ⟨i, rfl, hvalid, hkey⟩ := Tlb.lookup_eq_some hhit
  exact hok i hvalid vaddr hkey

/-- Inserting an entry that agrees about its whole page keeps the TLB sound. -/
theorem TlbOk.insert (hok : TlbOk mem satp tlb) (vaddr ppn : U64) (size : Fin 3) (flags : BitVec 8)
    (hnew : ∀ other, vpnAt other size = vpnAt vaddr size →
      TlbEntry.Agrees mem satp other ⟨true, vpnAt vaddr size, ppn, flags, size⟩) :
    TlbOk mem satp (tlb.insert vaddr ppn size flags) := by
  intro i
  by_cases hi : i = entryIndex (setOf (vpnAt vaddr size)) (tlb.lru (setOf (vpnAt vaddr size)))
  · subst hi
    simp only [Tlb.insert, Function.update_self]
    exact fun _ => hnew
  · simp only [Tlb.insert, Function.update_of_ne hi]
    exact hok i

/-- `after` is `before` with some accessed and dirty bits set. -/
def Ram.AdGrow (before after : Ram) : Prop :=
  ∀ addr : U64, 8 ∣ addr.toNat → TabLinux.AdGrow (before.word addr) (after.word addr)

section

variable (hgrow : before.AdGrow after)
include hgrow

theorem mappedLeaf?_adGrow (satp : Satp) (vaddr : U64) :
    mappedLeaf? after satp vaddr = (mappedLeaf? before satp vaddr).map
        fun leaf => { leaf with pte := after.word leaf.pteAddr } := by
  rw [mappedLeaf?, mappedLeaf?, sv39Leaf?_adGrow hgrow vaddr 2 (rootTable_dvd satp)]
  cases hleaf : sv39Leaf? before.word vaddr 2 (rootTable satp) with
  | none => rfl
  | some leaf =>
    have hpte := hgrow leaf.pteAddr (sv39Leaf?_pteAddr_dvd (rootTable_dvd satp) hleaf)
    rw [← (sv39Leaf?_pte hleaf).1] at hpte
    have haligned : Sv39Leaf.aligned { leaf with pte := after.word leaf.pteAddr } =
        leaf.aligned := by
      simp only [Sv39Leaf.aligned, hpte.ptePpn_eq]
    by_cases h : leaf.aligned <;> simp [Option.filter, haligned, h]

theorem mappedLeaf?_grow_some (hleaf : mappedLeaf? before satp vaddr = some leaf) :
    ∃ new, mappedLeaf? after satp vaddr = some { leaf with pte := new } ∧
      TabLinux.AdGrow leaf.pte new := by
  refine ⟨after.word leaf.pteAddr, ?_, ?_⟩
  · rw [mappedLeaf?_adGrow hgrow, hleaf, Option.map_some]
  have hwalk := (mappedLeaf?_eq_some.mp hleaf).1
  rw [(sv39Leaf?_pte hwalk).1]
  exact hgrow _ (sv39Leaf?_pteAddr_dvd (rootTable_dvd satp) hwalk)

theorem TlbEntry.Agrees.grow (hagrees : entry.Agrees before satp vaddr) :
    entry.Agrees after satp vaddr := by
  cases hagrees with
  | mapped leaf old hleaf hsize hppn hold hflags =>
    obtain ⟨new, hnew, hpte⟩ := mappedLeaf?_grow_some hgrow hleaf
    exact .mapped _ old hnew hsize (hppn.trans hpte.ptePpn_eq.symm) (hold.trans hpte) hflags
  | identity hnone hrange hsize hppn hflags =>
    refine .identity ?_ hrange hsize hppn hflags
    rw [mappedLeaf?_adGrow hgrow, hnone, Option.map_none]

theorem TlbOk.grow (hok : TlbOk before satp tlb) : TlbOk after satp tlb :=
  fun i hvalid vaddr hkey => (hok i hvalid vaddr hkey).grow hgrow

end

theorem Ram.AdGrow.refl (mem : Ram) : mem.AdGrow mem := fun _ _ => TabLinux.AdGrow.refl _

/-- The entry that an accessed/dirty update writes back. -/
def adUpdate (pte : U64) (access : AccessType) : U64 :=
  if access = .store then pte ||| 1#64 <<< 6 ||| 1#64 <<< 7
  else pte ||| 1#64 <<< 6

theorem getLsbD_shifted_one_of_ne {pos : Nat} (hne : i ≠ pos) :
    (1#64 <<< pos).getLsbD i = false := by
  rw [BitVec.getLsbD_shiftLeft, BitVec.getLsbD_one]
  by_cases hlt : i < pos
  · simp only [hlt, decide_true, Bool.not_true, Bool.and_false, Bool.false_and]
  · have hsub : i - pos ≠ 0 := by omega
    simp [hsub]

theorem adUpdate_adGrow (pte : U64) (access : AccessType) :
    TabLinux.AdGrow pte (adUpdate pte access) := by
  constructor
  · intro i h6 h7
    unfold adUpdate
    split <;> simp only [BitVec.getLsbD_or, getLsbD_shifted_one_of_ne h6,
      getLsbD_shifted_one_of_ne h7, Bool.or_false]
  · intro i hi
    unfold adUpdate
    split <;> simp only [BitVec.getLsbD_or, hi, Bool.true_or]

theorem setAd_ram (mem : Ram) (pteAddr : U64) (flags : BitVec 8) (access : AccessType) :
    setAd mem pteAddr flags access =
      if adSatisfied flags access then (flags, mem)
      else (pteFlags (adUpdate (mem.word pteAddr) access),
        writeU64 mem pteAddr (adUpdate (mem.word pteAddr) access)) := by
  rw [setAd, readU64_ram, adUpdate]

theorem setAd_adGrow (mem : Ram) (flags : BitVec 8)
    (access : AccessType) (haddr : 8 ∣ pteAddr.toNat) :
    mem.AdGrow (setAd mem pteAddr flags access).2 := by
  rw [setAd_ram]
  split
  · exact Ram.AdGrow.refl mem
  intro addr hdvd
  rw [word_writeU64 mem _ haddr hdvd]
  split
  · rename_i heq
    rw [heq]
    exact adUpdate_adGrow _ access
  · exact TabLinux.AdGrow.refl _

section

variable (mem : Ram) (satp : Satp) (privLevel : Privilege) (sum mxr : Bool)

variable (access : AccessType) (vaddr : U64)

/-- What `translate` returns when the TLB holds nothing for the address. -/
def translateResult :
    Except Trap U64 :=
  match mappedLeaf? mem satp vaddr with
  | none =>
      if identityFallback vaddr then .ok vaddr else .error (pageFault access)
  | some leaf =>
      (applyPteFlags (pteFlags leaf.pte) access privLevel sum mxr).map fun _ => leaf.image vaddr

/-- The memory that such a call leaves behind. -/
def translateMemory : Ram :=
  match mappedLeaf? mem satp vaddr with
  | none => mem
  | some leaf =>
      match applyPteFlags (pteFlags leaf.pte) access privLevel sum mxr with
      | .error _ => mem
      | .ok () => (setAd mem leaf.pteAddr (pteFlags leaf.pte) access).2

theorem translateMemory_adGrow :
    mem.AdGrow (translateMemory mem satp privLevel sum mxr access vaddr) := by
  rw [translateMemory]
  split
  · exact Ram.AdGrow.refl mem
  rename_i leaf hleaf
  split
  · exact Ram.AdGrow.refl mem
  · exact setAd_adGrow mem _ access
      (sv39Leaf?_pteAddr_dvd (rootTable_dvd satp) (mappedLeaf?_eq_some.mp hleaf).1)

end

theorem getLsbD_pteFlags (pte : U64) (hi : i < 7) :
    (pteFlags pte).getLsbD i = pte.getLsbD (i + 1) := by
  have hmask : (0x7F : U64).getLsbD i = true := by
    interval_cases i <;> rfl
  simp only [pteFlags, BitVec.getLsbD_setWidth, BitVec.getLsbD_and,
    BitVec.getLsbD_ushiftRight, hmask, Bool.and_true, Nat.add_comm 1 i]
  simp [show i < 8 by omega]

/-- The permission check does not look at the accessed and dirty bits. -/
theorem applyPteFlags_adGrow (hgrow : TabLinux.AdGrow old new)
    (access : AccessType) (privLevel : Privilege) (sum mxr : Bool) :
    applyPteFlags (pteFlags old) access privLevel sum mxr =
      applyPteFlags (pteFlags new) access privLevel sum mxr := by
  simp only [applyPteFlags, getLsbD_pteFlags old (by decide : 0 < 7),
    getLsbD_pteFlags old (by decide : 1 < 7),
    getLsbD_pteFlags old (by decide : 2 < 7),
    getLsbD_pteFlags old (by decide : 3 < 7),
    getLsbD_pteFlags new (by decide : 0 < 7),
    getLsbD_pteFlags new (by decide : 1 < 7),
    getLsbD_pteFlags new (by decide : 2 < 7),
    getLsbD_pteFlags new (by decide : 3 < 7),
    hgrow.same 1 (by decide) (by decide), hgrow.same 2 (by decide) (by decide),
    hgrow.same 3 (by decide) (by decide), hgrow.same 4 (by decide) (by decide)]

theorem adSatisfied_adGrow (hgrow : TabLinux.AdGrow old new)
    (hsat : adSatisfied (pteFlags old) access = true) :
    adSatisfied (pteFlags new) access = true := by
  simp only [adSatisfied, getLsbD_pteFlags _ (by decide : 5 < 7),
    getLsbD_pteFlags _ (by decide : 6 < 7), Bool.and_eq_true,
    Bool.or_eq_true] at hsat ⊢
  exact ⟨hgrow.keeps 6 hsat.1, hsat.2.imp id (hgrow.keeps 7)⟩

theorem mappedLeaf?_same_page (hleaf : mappedLeaf? mem satp vaddr = some leaf)
    (hpage : vpnAt other (levelSize leaf.level) =
      vpnAt vaddr (levelSize leaf.level)) : mappedLeaf? mem satp other = some leaf := by
  obtain ⟨hwalk, haligned⟩ := mappedLeaf?_eq_some.mp hleaf
  have hlevel := (sv39Leaf?_pte hwalk).2
  refine mappedLeaf?_eq_some.mpr ⟨?_, haligned⟩
  exact sv39Leaf?_same_page (fun k hk _ => vpnIndex_eq_of_vpnAt_eq hlevel hk hpage) hwalk

/-- Addresses of one 4 KiB page lie in one page of every larger size. -/
theorem vpnAt_eq_of_page_eq (hpage : vpnAt other 0 = vpnAt vaddr 0) (size : Fin 3) :
    vpnAt other size = vpnAt vaddr size := by
  change other >>> 12 = vaddr >>> 12 at hpage
  match size with
  | 0 => exact hpage
  | 1 =>
    change other >>> (12 + 9) = vaddr >>> (12 + 9)
    rw [BitVec.shiftRight_add, BitVec.shiftRight_add, hpage]
  | 2 =>
    change other >>> (12 + 18) = vaddr >>> (12 + 18)
    rw [BitVec.shiftRight_add, BitVec.shiftRight_add, hpage]

theorem mappedLeaf?_none_same_page (hnone : mappedLeaf? mem satp vaddr = none)
    (hpage : vpnAt other 0 = vpnAt vaddr 0) : mappedLeaf? mem satp other = none := by
  cases hother : mappedLeaf? mem satp other with
  | none => rfl
  | some leaf =>
    have hsame := mappedLeaf?_same_page hother
      (vpnAt_eq_of_page_eq hpage (levelSize leaf.level)).symm
    rw [hnone] at hsame
    cases hsame

/-- The fallback range is a union of pages. -/
theorem identityFallback_same_page (hpage : vpnAt other 0 = vpnAt vaddr 0) :
    identityFallback other = identityFallback vaddr := by
  have hdiv := congrArg BitVec.toNat hpage
  simp only [vpnAt, BitVec.toNat_ushiftRight, Nat.shiftRight_eq_div_pow] at hdiv
  rw [Bool.eq_iff_iff]
  simp only [identityFallback, Bool.or_eq_true, Bool.and_eq_true, decide_eq_true_eq,
    BitVec.le_def, BitVec.lt_def, BitVec.toNat_ofNat]
  omega

/-- The flags a walk caches are those of the entry it leaves in memory, or of
an earlier version of it. -/
theorem setAd_flags (mem : Ram) (access : AccessType) (haddr : 8 ∣ pteAddr.toNat) :
    ∃ old, TabLinux.AdGrow old
        (Ram.word (setAd mem pteAddr (pteFlags (mem.word pteAddr)) access).2 pteAddr) ∧
      (setAd mem pteAddr (pteFlags (mem.word pteAddr)) access).1 = pteFlags old := by
  rw [setAd_ram]
  split
  · exact ⟨_, TabLinux.AdGrow.refl _, rfl⟩
  refine ⟨_, ?_, rfl⟩
  rw [word_writeU64 mem _ haddr haddr, if_pos rfl]
  exact TabLinux.AdGrow.refl _

/-- A walk returns the specified result and memory, and what it caches agrees
with the page tables it leaves. -/
theorem translateWalk_spec (hok : TlbOk mem satp mmu.tlb) (privLevel : Privilege)
    (sum mxr : Bool) (access : AccessType) (vaddr : U64) :
    ∃ next : Mmu,
      mmu.translateWalk mem satp privLevel sum mxr access vaddr =
        (translateResult mem satp privLevel sum mxr access vaddr, next,
          translateMemory mem satp privLevel sum mxr access vaddr) ∧
      TlbOk (translateMemory mem satp privLevel sum mxr access vaddr) satp next.tlb := by
  rw [Mmu.translateWalk, translateResult, translateMemory, walkSv39_ram]
  cases hleaf : mappedLeaf? mem satp vaddr with
  | none =>
    by_cases hrange : identityFallback vaddr = true
    · refine ⟨⟨mmu.tlb.insert vaddr (vaddr >>> 12) 0 0x67⟩,
        by simp only [Option.map_none, hrange, if_true], ?_⟩
      refine hok.insert vaddr _ 0 0x67 fun other hpage => ?_
      exact .identity (mappedLeaf?_none_same_page hleaf hpage)
        ((identityFallback_same_page hpage).trans hrange) rfl hpage.symm rfl
    · exact ⟨mmu, by simp only [Option.map_none, hrange]; rfl, hok⟩
  | some leaf =>
    have hwalk := (mappedLeaf?_eq_some.mp hleaf).1
    have haddr := sv39Leaf?_pteAddr_dvd (rootTable_dvd satp) hwalk
    have hpte := (sv39Leaf?_pte hwalk).1
    simp only [Option.map_some, Sv39Leaf.walked]
    cases hperm : applyPteFlags (pteFlags leaf.pte) access privLevel sum mxr with
    | error trap => exact ⟨mmu, rfl, hok⟩
    | ok _ =>
      refine ⟨_, rfl, ?_⟩
      have hgrow := setAd_adGrow mem (pteFlags leaf.pte) access haddr
      refine (hok.grow hgrow).insert vaddr _ _ _ fun other hpage => ?_
      obtain ⟨old, hold, hflags⟩ := setAd_flags mem access haddr
      rw [← hpte] at hold hflags
      have hother := mappedLeaf?_adGrow hgrow satp other
      rw [mappedLeaf?_same_page hleaf hpage, Option.map_some] at hother
      have hnew := hgrow leaf.pteAddr haddr
      rw [← hpte] at hnew
      exact .mapped _ old hother rfl hnew.ptePpn_eq.symm hold hflags

/-- An entry that may be served for an access gives the specified result, and
no accessed or dirty bit is left to set. -/
theorem TlbEntry.Agrees.serves (hagrees : entry.Agrees mem satp vaddr)
    (hsat : adSatisfied entry.flags access = true) (privLevel : Privilege) (sum mxr : Bool) :
    applyTlb entry vaddr access privLevel sum mxr =
        translateResult mem satp privLevel sum mxr access vaddr ∧
      translateMemory mem satp privLevel sum mxr access vaddr = mem := by
  cases hagrees with
  | mapped leaf old hleaf hsize hppn hold hflags =>
    obtain ⟨hwalk, haligned⟩ := mappedLeaf?_eq_some.mp hleaf
    have himage := BitVec.add_eq_or_of_and_eq_zero _ _
      (frame_offset_disjoint (sv39Leaf?_pte hwalk).2 (beq_iff_eq.mp haligned) vaddr)
    rw [hflags] at hsat
    simp only [applyTlb, translateResult, translateMemory, hleaf, hflags, hsize, hppn,
      Sv39Leaf.image, himage, applyPteFlags_adGrow hold]
    cases applyPteFlags (pteFlags leaf.pte) access privLevel sum mxr with
    | error trap => exact ⟨rfl, rfl⟩
    | ok _ =>
      refine ⟨rfl, ?_⟩
      rw [setAd_ram, if_pos (adSatisfied_adGrow hold hsat)]
  | identity hnone hrange hsize hppn hflags =>
    have himage : vaddr >>> 12 <<< 12 ||| (vaddr &&& 0xFFF) = vaddr := by
      apply BitVec.eq_of_getLsbD_eq
      intro i hi
      rw [show (0xFFF : U64) = BitVec.ofNat 64 (2 ^ 12 - 1) from rfl]
      simp only [BitVec.getLsbD_or, BitVec.getLsbD_and, BitVec.getLsbD_shiftLeft,
        BitVec.getLsbD_ushiftRight, BitVec.getLsbD_ofNat, Nat.testBit_two_pow_sub_one,
        hi, decide_true, Bool.true_and]
      by_cases hlow : i < 12
      · simp [hlow]
      · simp [hlow, Nat.add_sub_cancel' (Nat.le_of_not_lt hlow)]
    have hperm : applyPteFlags 0x67 access privLevel sum mxr = .ok () := by
      cases access <;> cases privLevel <;> cases sum <;> cases mxr <;> rfl
    simp only [applyTlb, translateResult, translateMemory, hnone, hrange, hflags, hsize,
      hppn, hperm, if_true]
    exact ⟨congrArg Except.ok himage, trivial⟩

/-- A call of `translate` over a sound TLB returns and writes what it would
without one, and leaves the TLB sound. -/
theorem translate_spec (hok : TlbOk mem satp mmu.tlb) (hmode : satp.mode = 8)
    (privLevel : Privilege) (sum mxr : Bool) (access : AccessType)
    (hcanonical : canonical vaddr = true) :
    ∃ next : Mmu,
      mmu.translate mem satp privLevel sum mxr access vaddr =
        (translateResult mem satp privLevel sum mxr access vaddr, next,
          translateMemory mem satp privLevel sum mxr access vaddr) ∧
      TlbOk (translateMemory mem satp privLevel sum mxr access vaddr) satp next.tlb := by
  have hwalk := translateWalk_spec hok privLevel sum mxr access vaddr
  have hbare : ¬ satp.mode = 0 := by rw [hmode]; decide
  rw [Mmu.translate, if_neg hbare, if_neg (not_not.mpr hmode), hcanonical]
  simp only [Bool.not_true, Bool.false_eq_true, if_false]
  cases hhit : mmu.tlb.lookup vaddr with
  | none => exact hwalk
  | some entry =>
    by_cases hsat : adSatisfied entry.flags access = true
    · obtain ⟨hresult, hmemory⟩ := (hok.lookup_agrees hhit).serves hsat privLevel sum mxr
      refine ⟨mmu, ?_, by rw [hmemory]; exact hok⟩
      simp only [hsat, if_true, hresult, hmemory]
    · simp only [hsat]
      exact hwalk

/-- One use of the MMU in an address space. -/
inductive MmuCall where
  | translate (privLevel : Privilege) (sum mxr : Bool) (access : AccessType) (vaddr : U64)
  | flushTlb
deriving DecidableEq, Repr

def MmuCall.apply (satp : Satp) (state : Mmu × Ram) : MmuCall → Mmu × Ram
  | .translate privLevel sum mxr access vaddr =>
      (state.1.translate state.2 satp privLevel sum mxr access vaddr).2
  | .flushTlb => (state.1.flushTlb, state.2)

/-- A fresh MMU put through a sequence of calls over one memory and `satp`. -/
def runMmu (satp : Satp) (mem : Ram) (calls : List MmuCall) : Mmu × Ram :=
  calls.foldl (MmuCall.apply satp) (Mmu.new, mem)

theorem MmuCall.apply_tlbOk (hmode : satp.mode = 8) {state : Mmu × Ram}
    (hok : TlbOk state.2 satp state.1.tlb) (call : MmuCall) :
    TlbOk (call.apply satp state).2 satp (call.apply satp state).1.tlb := by
  cases call with
  | flushTlb => exact TlbOk.of_no_valid fun _ => rfl
  | translate privLevel sum mxr access vaddr =>
    by_cases hcanonical : canonical vaddr = true
    · obtain ⟨next, hcall, hnext⟩ := translate_spec hok hmode privLevel sum mxr access hcanonical
      simp only [apply, hcall]
      exact hnext
    · simp only [apply, Mmu.translate, hmode, hcanonical, ne_eq,
        not_true_eq_false, if_false, Bool.not_false, if_true]
      exact hok

/-- However the MMU was used, its TLB describes the page tables. -/
theorem runMmu_tlbOk (hmode : satp.mode = 8) (mem : Ram) (calls : List MmuCall) :
    TlbOk (runMmu satp mem calls).2 satp (runMmu satp mem calls).1.tlb := by
  induction calls using List.reverseRecOn with
  | nil => exact TlbOk.of_no_valid fun _ => rfl
  | append_singleton calls call ih =>
    simp only [runMmu, List.foldl_append, List.foldl_cons, List.foldl_nil]
    exact MmuCall.apply_tlbOk hmode ih call

end TabLinux

/-
Translation maps pages to pages: whatever the TLB holds and however large the
leaf, a translated address keeps its low twelve bits.
-/
import TabLinux.Supervisor
import TabLinux.TlbInvariant

namespace TabLinux

variable {β : Type*} [Bus β]
variable {bus : β}

variable {vaddr paddr other : U64} {privLevel : Privilege} {sum mxr : Bool}
  {access : AccessType}

variable {i level : Nat} {walked : Walked} {mmu : Mmu} {satp : Satp} {s : Supervisor}

theorem getLsbD_pageMask (i : Nat) : (0xFFF#64).getLsbD i = decide (i < 12) := by
  by_cases hi : i < 12
  · have : ∀ j : Fin 12, (0xFFF#64).getLsbD j.val = true := by decide
    simpa [hi] using this ⟨i, hi⟩
  have hlarge : (0xFFF#64).getLsbD i = false := by
    simp only [BitVec.getLsbD_ofNat, Bool.and_eq_false_iff]
    exact Or.inr (Nat.testBit_lt_two_pow (Nat.lt_of_lt_of_le (by decide : 0xFFF < 2 ^ 12)
      (Nat.pow_le_pow_right (by decide) (by omega))))
  simpa [hi] using hlarge

theorem getLsbD_offsetMask (size : Fin 3) (hi : i < 12) : (offsetMask size).getLsbD i = true := by
  have : ∀ (size : Fin 3) (j : Fin 12), (offsetMask size).getLsbD j.val = true := by decide
  exact this size ⟨i, hi⟩

/-- A frame and an offset of any page size keep the low twelve bits. -/
theorem frame_or_offset (frame vaddr : U64) (size : Fin 3) :
    (frame <<< 12 ||| (vaddr &&& offsetMask size)) &&& 0xFFF = vaddr &&& 0xFFF := by
  apply BitVec.eq_of_getLsbD_eq
  intro i _
  simp only [BitVec.getLsbD_and, BitVec.getLsbD_or, BitVec.getLsbD_shiftLeft]
  rw [show (0xFFF : U64) = 0xFFF#64 from rfl, getLsbD_pageMask]
  by_cases hlow : i < 12
  · simp [hlow, getLsbD_offsetMask size hlow]
  · simp [hlow]

theorem walkLeaf_offset {pteAddr pte : U64}
    (hleaf : walkLeaf vaddr level pteAddr pte = some walked) :
    walked.paddr &&& 0xFFF = vaddr &&& 0xFFF := by
  unfold walkLeaf at hleaf
  dsimp only at hleaf
  split at hleaf
  · cases hleaf
  · cases hleaf
    exact frame_or_offset _ vaddr (levelSize level)

theorem walkFrom_offset {table : U64}
    (hwalk : (walkFrom vaddr level table bus).1 = some walked) :
    walked.paddr &&& 0xFFF = vaddr &&& 0xFFF := by
  induction level generalizing table bus with
  | zero =>
    unfold walkFrom at hwalk
    dsimp only at hwalk
    split at hwalk
    · cases hwalk
    split at hwalk
    · cases hwalk
    split at hwalk
    · cases hwalk
    · exact walkLeaf_offset hwalk
  | succ level ih =>
    unfold walkFrom at hwalk
    dsimp only at hwalk
    split at hwalk
    · cases hwalk
    split at hwalk
    · cases hwalk
    split at hwalk
    · exact ih hwalk
    · exact walkLeaf_offset hwalk

theorem Mmu.translateWalk_offset
    (hok : (mmu.translateWalk bus satp privLevel sum mxr access vaddr).1 = .ok paddr) :
    paddr &&& 0xFFF = vaddr &&& 0xFFF := by
  unfold translateWalk at hok
  rcases hwalk : walkSv39 bus satp vaddr with ⟨_ | walked, bus'⟩ <;> simp only [hwalk] at hok
  · split at hok
    · cases hok
      rfl
    · cases hok
  · split at hok
    · cases hok
    · cases hok
      exact walkFrom_offset (congrArg Prod.fst hwalk)

theorem applyTlb_offset {entry : TlbEntry}
    (hok : applyTlb entry vaddr access privLevel sum mxr = .ok paddr) :
    paddr &&& 0xFFF = vaddr &&& 0xFFF := by
  unfold applyTlb at hok
  cases hflags : applyPteFlags entry.flags access privLevel sum mxr with
  | error trap =>
    rw [hflags] at hok
    cases hok
  | ok =>
    rw [hflags] at hok
    cases hok
    exact frame_or_offset entry.ppn vaddr entry.size

/-- The MMU maps pages to pages: a translated address keeps its page offset. -/
theorem Mmu.translate_offset
    (hok : (mmu.translate bus satp privLevel sum mxr access vaddr).1 = .ok paddr) :
    paddr &&& 0xFFF = vaddr &&& 0xFFF := by
  unfold translate at hok
  split at hok
  · cases hok
    rfl
  split at hok
  · cases hok
  split at hok
  · cases hok
  split at hok
  · split at hok
    · exact applyTlb_offset hok
    · exact translateWalk_offset hok
  · exact translateWalk_offset hok

theorem Supervisor.translate_offset
    (hok : (s.translate bus access vaddr).1 = .ok paddr) : paddr &&& 0xFFF = vaddr &&& 0xFFF := by
  unfold translate at hok
  split at hok
  · split at hok
    · cases hok
      rfl
    split at hok
    · cases hok
      rfl
    split at hok
    · cases hok
      rfl
    · exact Mmu.translate_offset hok
  · exact Mmu.translate_offset hok

theorem Supervisor.fetchTranslate_offset
    (hok : (s.fetchTranslate bus vaddr).1 = .ok paddr) : paddr &&& 0xFFF = vaddr &&& 0xFFF := by
  unfold fetchTranslate at hok
  split at hok
  · cases hok
    have hself : vaddr &&& 0xFFF = (vaddr &&& offsetMask 0) := rfl
    rw [hself, frame_or_offset s.fetchPpn vaddr 0]
    rfl
  · rcases hres : s.translate bus .instruction vaddr with ⟨_ | out, s', bus'⟩ <;> rw [hres] at hok
    · cases hok
    · cases hok
      exact translate_offset (congrArg Prod.fst hres)

/-- The byte of the frame of `paddr` at the page offset of `vaddr`. -/
def rebase (paddr vaddr : U64) : U64 :=
  paddr >>> 12 <<< 12 ||| (vaddr &&& 0xFFF)

theorem getLsbD_rebase (paddr vaddr : U64) (i : Nat) :
    (rebase paddr vaddr).getLsbD i = if i < 12 then vaddr.getLsbD i else paddr.getLsbD i := by
  rw [rebase, show (0xFFF : U64) = 0xFFF#64 from rfl]
  simp only [BitVec.getLsbD_or, BitVec.getLsbD_and, BitVec.getLsbD_shiftLeft,
    BitVec.getLsbD_ushiftRight, getLsbD_pageMask]
  by_cases hlow : i < 12
  · simp [hlow]
  have hcancel : 12 + (i - 12) = i := by omega
  by_cases hi : i < 64
  · simp [hlow, hi, hcancel]
  · simp [hlow, hi, BitVec.getLsbD_of_ge paddr i (by omega)]

theorem getLsbD_of_page_eq (hpage : other >>> 12 = vaddr >>> 12) (hi : 12 ≤ i) :
    other.getLsbD i = vaddr.getLsbD i := by
  have hbit := congrArg (fun v : U64 => v.getLsbD (i - 12)) hpage
  simpa [show 12 + (i - 12) = i by omega] using hbit

/-- Frame and offset of another address of the page. -/
theorem rebase_frame (frame : U64) (size : Fin 3) (hpage : other >>> 12 = vaddr >>> 12) :
    frame <<< 12 ||| (other &&& offsetMask size) =
      rebase (frame <<< 12 ||| (vaddr &&& offsetMask size)) other := by
  apply BitVec.eq_of_getLsbD_eq
  intro i _
  rw [getLsbD_rebase]
  simp only [BitVec.getLsbD_or, BitVec.getLsbD_and, BitVec.getLsbD_shiftLeft]
  by_cases hlow : i < 12
  · simp [hlow, getLsbD_offsetMask size hlow]
  · rw [if_neg hlow, getLsbD_of_page_eq hpage (by omega)]

theorem rebase_self (vaddr : U64) : rebase vaddr vaddr = vaddr := by
  apply BitVec.eq_of_getLsbD_eq
  intro i _
  rw [getLsbD_rebase]
  split <;> rfl

theorem rebase_page (hpage : other >>> 12 = vaddr >>> 12) : rebase vaddr other = other := by
  rw [rebase, ← hpage]
  exact rebase_self other

theorem vpnIndex_page (hpage : other >>> 12 = vaddr >>> 12) (level : Nat) :
    vpnIndex other level = vpnIndex vaddr level := by
  have hfinest : vpnAt other (levelSize 0) = vpnAt vaddr (levelSize 0) := hpage
  exact vpnIndex_eq_of_vpnAt_eq (Nat.zero_le 2) (Nat.zero_le level) hfinest

theorem canonical_page (hpage : other >>> 12 = vaddr >>> 12) :
    canonical other = canonical vaddr := by
  unfold canonical
  rw [show other >>> 38 = other >>> (12 + 26) from rfl,
    show vaddr >>> 38 = vaddr >>> (12 + 26) from rfl, BitVec.shiftRight_add,
    BitVec.shiftRight_add, hpage]

/-- The walk of another address of the page, in terms of this one's. -/
def Walked.rebase (walked : Walked) (vaddr : U64) : Walked :=
  { walked with paddr := TabLinux.rebase walked.paddr vaddr }

theorem walkLeaf_page (hpage : other >>> 12 = vaddr >>> 12) (level : Nat)
    (pteAddr pte : U64) :
    walkLeaf other level pteAddr pte = (walkLeaf vaddr level pteAddr pte).map (·.rebase other) := by
  unfold walkLeaf
  dsimp only
  split
  · rfl
  · simp only [Option.map_some, Walked.rebase, rebase_frame _ _ hpage]

theorem walkFrom_page (hpage : other >>> 12 = vaddr >>> 12) (level : Nat) (table : U64)
    (bus : β) :
    walkFrom other level table bus =
      ((walkFrom vaddr level table bus).1.map (·.rebase other),
        (walkFrom vaddr level table bus).2) := by
  induction level generalizing table bus with
  | zero =>
    unfold walkFrom
    dsimp only
    rw [vpnIndex_page hpage]
    split
    · rfl
    split
    · rfl
    split
    · rfl
    · simp only [walkLeaf_page hpage]
  | succ level ih =>
    unfold walkFrom
    dsimp only
    rw [vpnIndex_page hpage]
    split
    · rfl
    split
    · rfl
    split
    · exact ih _ _
    · simp only [walkLeaf_page hpage]

theorem Tlb.lookup_page (tlb : Tlb) (hpage : other >>> 12 = vaddr >>> 12) :
    tlb.lookup other = tlb.lookup vaddr := by
  unfold lookup probe
  simp only [vpnAt_eq_of_page_eq hpage]

theorem Tlb.insert_page (tlb : Tlb) (hpage : other >>> 12 = vaddr >>> 12) (ppn : U64)
    (size : Fin 3) (flags : BitVec 8) :
    tlb.insert other ppn size flags = tlb.insert vaddr ppn size flags := by
  unfold insert
  simp only [vpnAt_eq_of_page_eq hpage]

theorem applyTlb_page (entry : TlbEntry) (hpage : other >>> 12 = vaddr >>> 12)
    (access : AccessType) (privLevel : Privilege) (sum mxr : Bool) :
    applyTlb entry other access privLevel sum mxr =
      (applyTlb entry vaddr access privLevel sum mxr).map (rebase · other) := by
  unfold applyTlb
  cases applyPteFlags entry.flags access privLevel sum mxr with
  | error trap => rfl
  | ok => exact congrArg Except.ok (rebase_frame _ _ hpage)

theorem Mmu.translateWalk_page (mmu : Mmu) (bus : β) (satp : Satp) (privLevel : Privilege)
    (sum mxr : Bool) (access : AccessType) (hpage : other >>> 12 = vaddr >>> 12) :
    mmu.translateWalk bus satp privLevel sum mxr access other =
      ((mmu.translateWalk bus satp privLevel sum mxr access vaddr).1.map (rebase · other),
        (mmu.translateWalk bus satp privLevel sum mxr access vaddr).2) := by
  have hwalk : walkSv39 bus satp other =
      ((walkSv39 bus satp vaddr).1.map (·.rebase other), (walkSv39 bus satp vaddr).2) :=
    walkFrom_page hpage 2 _ _
  unfold translateWalk
  rw [hwalk]
  rcases walkSv39 bus satp vaddr with ⟨_ | walked, bus'⟩
  · simp only [Option.map_none]
    rw [identityFallback_same_page hpage, mmu.tlb.insert_page hpage, hpage]
    split
    · exact congrArg (·, _, _) (congrArg Except.ok (rebase_page hpage).symm)
    · rfl
  · simp only [Option.map_some, Walked.rebase]
    cases applyPteFlags walked.flags access privLevel sum mxr with
    | error trap => rfl
    | ok =>
      simp only [mmu.tlb.insert_page hpage]
      rfl

/-- The MMU answers every address of a page alike, up to the offset, and is left in
the same state. -/
theorem Mmu.translate_page (mmu : Mmu) (bus : β) (satp : Satp) (privLevel : Privilege)
    (sum mxr : Bool) (access : AccessType) (hpage : other >>> 12 = vaddr >>> 12) :
    mmu.translate bus satp privLevel sum mxr access other =
      ((mmu.translate bus satp privLevel sum mxr access vaddr).1.map (rebase · other),
        (mmu.translate bus satp privLevel sum mxr access vaddr).2) := by
  unfold translate
  rw [canonical_page hpage, mmu.tlb.lookup_page hpage]
  split
  · exact congrArg (·, _, _) (congrArg Except.ok (rebase_page hpage).symm)
  split
  · rfl
  split
  · rfl
  split
  · split
    · exact congrArg (·, _, _) (applyTlb_page _ hpage access privLevel sum mxr)
    · exact mmu.translateWalk_page bus satp privLevel sum mxr access hpage
  · exact mmu.translateWalk_page bus satp privLevel sum mxr access hpage

theorem Supervisor.translate_page (s : Supervisor) (bus : β) (access : AccessType)
    (hpage : other >>> 12 = vaddr >>> 12) :
    (s.translate bus access other).1 = (s.translate bus access vaddr).1.map (rebase · other) := by
  have hsame : (Except.ok other : Except Trap U64) =
      (Except.ok vaddr : Except Trap U64).map (rebase · other) :=
    congrArg Except.ok (rebase_page hpage).symm
  have hmmu : ∀ privLevel, (s.mmuTranslate bus privLevel access other).1 =
      (s.mmuTranslate bus privLevel access vaddr).1.map (rebase · other) := by
    intro privLevel
    unfold mmuTranslate
    rw [s.mmu.translate_page bus s.satp privLevel _ _ access hpage]
  unfold translate
  split
  · split
    · exact hsame
    split
    · exact hsame
    split
    · exact hsame
    · exact hmmu _
  · exact hmmu _

end TabLinux

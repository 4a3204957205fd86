/-
What user mode can reach through the MMU.  The permission check never asks for
the U bit, and the boot fallback maps unmapped kernel addresses for everyone;
this module says exactly when a user access is nevertheless confined to the
user pages of its address space.
-/
import TabLinux.TlbInvariant

namespace TabLinux

variable {mem : Ram} {satp : Satp} {mxr : Bool} {access : AccessType} {vaddr : U64}

variable {pa : U64}

/-- `pa` is where a user page that grants the access puts `vaddr`. -/
def UserMapped (mem : Ram) (satp : Satp) (mxr : Bool) (access : AccessType)
    (vaddr pa : U64) : Prop :=
  ∃ leaf, sv39Leaf? mem.word vaddr 2 (rootTable satp) = some leaf ∧
    leaf.pte.getLsbD 0 = true ∧ leaf.aligned = true ∧ leaf.user = true ∧
      leaf.grants mxr access = true ∧ pa = leaf.image vaddr

/-- The accesses for which the missing check makes no difference: the address
is not canonical, or it is mapped by a user page or by one that refuses the
access anyway, or it is unmapped and outside the fallback range. -/
def userSafe (mem : Ram) (satp : Satp) (mxr : Bool) (access : AccessType)
    (vaddr : U64) : Bool :=
  !canonical vaddr ||
    match mappedLeaf? mem satp vaddr with
    | none => !identityFallback vaddr
    | some leaf => leaf.user || !leaf.grants mxr access

/-- In user mode the permission check is the leaf's grant and nothing else. -/
theorem applyPteFlags_user (leaf : Sv39Leaf) (access : AccessType) (sum mxr : Bool) :
    applyPteFlags (pteFlags leaf.pte) access .user sum mxr =
      if leaf.grants mxr access then .ok () else .error (pageFault access) := by
  rw [applyPteFlags, getLsbD_pteFlags _ (by decide), getLsbD_pteFlags _ (by decide),
    getLsbD_pteFlags _ (by decide), getLsbD_pteFlags _ (by decide)]
  cases access with
  | instruction =>
    rw [Sv39Leaf.grants]
    cases leaf.pte.getLsbD 3 <;> rfl
  | load =>
    rw [Sv39Leaf.grants]
    cases leaf.pte.getLsbD 1 <;> cases leaf.pte.getLsbD 3 <;> cases mxr <;> rfl
  | store =>
    rw [Sv39Leaf.grants]
    cases leaf.pte.getLsbD 2 <;> rfl

/-- A user access that walks the tables succeeds exactly where the walk's leaf
grants it, whatever its U bit, or where the fallback applies. -/
theorem translateResult_user_ok {sum : Bool} :
    translateResult mem satp .user sum mxr access vaddr = .ok pa ↔
      (mappedLeaf? mem satp vaddr = none ∧ identityFallback vaddr = true ∧
        pa = vaddr) ∨
      ∃ leaf, mappedLeaf? mem satp vaddr = some leaf ∧
        leaf.grants mxr access = true ∧ pa = leaf.image vaddr := by
  rw [translateResult]
  cases hleaf : mappedLeaf? mem satp vaddr with
  | none =>
    cases identityFallback vaddr with
    | false => simp
    | true => simpa using eq_comm
  | some leaf =>
    simp only [applyPteFlags_user]
    cases hgrants : leaf.grants mxr access with
    | false => simp [Except.map, hgrants]
    | true => simpa [Except.map, hgrants] using eq_comm

theorem userMapped_iff :
    UserMapped mem satp mxr access vaddr pa ↔
      ∃ leaf, mappedLeaf? mem satp vaddr = some leaf ∧ leaf.user = true ∧
        leaf.grants mxr access = true ∧ pa = leaf.image vaddr := by
  constructor
  · rintro ⟨leaf, hwalk, _, haligned, huser, hgrants, hpa⟩
    exact ⟨leaf, mappedLeaf?_eq_some.mpr ⟨hwalk, haligned⟩, huser, hgrants, hpa⟩
  rintro ⟨leaf, hleaf, huser, hgrants, hpa⟩
  obtain ⟨hwalk, haligned⟩ := mappedLeaf?_eq_some.mp hleaf
  exact ⟨leaf, hwalk, (sv39Leaf?_legal hwalk).1, haligned, huser, hgrants, hpa⟩

/-- The walk itself isolates user mode exactly on the safe accesses. -/
theorem translateResult_user_isolated (sum : Bool) (hcanonical : canonical vaddr = true) :
    (∀ pa, translateResult mem satp .user sum mxr access vaddr = .ok pa →
        UserMapped mem satp mxr access vaddr pa) ↔
      userSafe mem satp mxr access vaddr = true := by
  simp only [translateResult_user_ok, userMapped_iff, userSafe, hcanonical,
    Bool.not_true, Bool.false_or]
  cases hleaf : mappedLeaf? mem satp vaddr with
  | none =>
    cases identityFallback vaddr <;> simp
  | some leaf =>
    cases huser : leaf.user <;> cases hgrants : leaf.grants mxr access <;> simp [huser, hgrants]

/-- After any use of the MMU in an address space, a user access is answered
only with the image of a user page that grants it exactly when the access is
one of the safe ones. -/
theorem translate_user_isolated_iff (satp : Satp) (hmode : satp.mode = 8) (mem : Ram)
    (calls : List MmuCall) (sum mxr : Bool) (access : AccessType)
    (vaddr : U64) :
    (∀ pa,
        ((runMmu satp mem calls).1.translate (runMmu satp mem calls).2 satp .user
          sum mxr access vaddr).1 = .ok pa →
        UserMapped (runMmu satp mem calls).2 satp mxr access vaddr pa) ↔
      userSafe (runMmu satp mem calls).2 satp mxr access vaddr = true := by
  by_cases hcanonical : canonical vaddr = true
  · obtain ⟨next, hcall, _⟩ := translate_spec (runMmu_tlbOk hmode mem calls) hmode
      .user sum mxr access hcanonical
    simp only [hcall]
    exact translateResult_user_isolated sum hcanonical
  · have hfault : (runMmu satp mem calls).1.translate (runMmu satp mem calls).2 satp
        .user sum mxr access vaddr =
        (.error (pageFault access), (runMmu satp mem calls)) := by
      simp only [Mmu.translate, hmode, hcanonical, ne_eq, not_true_eq_false, if_false,
        Bool.not_false, if_true]
      rfl
    simp [hfault, userSafe, hcanonical]

/-- One supervisor-only gigapage at address 0, readable and nothing else. -/
def kernelGigapage : Ram := fun addr => if addr = 0x1000 then 0x03 else 0

theorem translate_user_isolated_iff_after_load :
    (⟨8, 0, 1⟩ : Satp).mode = 8 ∧
      ((∀ pa,
          ((runMmu ⟨8, 0, 1⟩ kernelGigapage
              [.translate .supervisor false false .load 8]).1.translate
            (runMmu ⟨8, 0, 1⟩ kernelGigapage [.translate .supervisor false false .load 8]).2
            ⟨8, 0, 1⟩ .user false false .store 16).1 = .ok pa →
          UserMapped (runMmu ⟨8, 0, 1⟩ kernelGigapage
              [.translate .supervisor false false .load 8]).2
            ⟨8, 0, 1⟩ false .store 16 pa) ↔
        userSafe (runMmu ⟨8, 0, 1⟩ kernelGigapage [.translate .supervisor false false .load 8]).2
          ⟨8, 0, 1⟩ false .store 16 = true) :=
  ⟨rfl, translate_user_isolated_iff ⟨8, 0, 1⟩ rfl kernelGigapage
    [.translate .supervisor false false .load 8] false false .store 16⟩

/-- Both holes on a fresh MMU: user mode loads from the supervisor page, and
from an address that nothing maps. -/
theorem translate_user_reaches_kernel :
    ((Mmu.new.translate kernelGigapage ⟨8, 0, 1⟩ .user false false .load 0).1 =
        .ok 0 ∧
      ¬ UserMapped kernelGigapage ⟨8, 0, 1⟩ false .load 0 0) ∧
    ((Mmu.new.translate kernelGigapage ⟨8, 0, 1⟩ .user false false .load
        0x80200000).1 = .ok 0x80200000 ∧
      ¬ UserMapped kernelGigapage ⟨8, 0, 1⟩ false .load 0x80200000 0x80200000) := by
  simp only [userMapped_iff]
  decide

end TabLinux

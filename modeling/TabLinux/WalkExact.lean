/-
The Sv39 walk against the text of the privileged ISA, for supervisor mode: a walk as a
relation on tables, the alignment of a superpage as divisibility and its image as a sum.
-/
import TabLinux.TlbInvariant

namespace TabLinux

variable {vaddr : U64} {level : Nat} {leaf : Sv39Leaf}

variable {word : U64 → U64} {table : U64}

/-- The walk of the ISA from the table of a level.  An entry that is valid and not
writable without being readable is a leaf if it is readable or executable, and points to
the next table if it has none of R, W and X. -/
inductive Sv39Walk (word : U64 → U64) (vaddr : U64) :
    Nat → U64 → Sv39Leaf → Prop
  | leaf {level : Nat} {table addr pte : U64}
      (haddr : addr = sv39EntryAddr vaddr level table) (hpte : pte = word addr)
      (hvalid : pte.getLsbD 0 = true)
      (hlegal : ¬ (pte.getLsbD 2 = true ∧ pte.getLsbD 1 = false))
      (hstop : pte.getLsbD 1 = true ∨ pte.getLsbD 3 = true) :
      Sv39Walk word vaddr level table ⟨level, addr, pte⟩
  | pointer {level : Nat} {table pte : U64} {leaf : Sv39Leaf}
      (hpte : pte = word (sv39EntryAddr vaddr (level + 1) table))
      (hvalid : pte.getLsbD 0 = true)
      (hbits : pte.getLsbD 1 = false ∧ pte.getLsbD 2 = false ∧ pte.getLsbD 3 = false)
      (hbelow : Sv39Walk word vaddr level (ptePpn pte <<< 12) leaf) :
      Sv39Walk word vaddr (level + 1) table leaf

theorem Sv39Walk.sv39Leaf? (hwalk : Sv39Walk word vaddr level table leaf) :
    sv39Leaf? word vaddr level table = some leaf := by
  induction hwalk with
  | leaf haddr hpte hvalid hlegal hstop =>
    unfold TabLinux.sv39Leaf?
    simp_all
  | pointer hpte hvalid hbits hbelow ih =>
    subst hpte
    unfold TabLinux.sv39Leaf?
    simp only [hvalid, hbits.1, hbits.2.1, hbits.2.2, Bool.not_true, Bool.false_and,
      Bool.or_self, Bool.false_eq_true, ↓reduceIte]
    exact ih

/-- What is left of an entry that neither ends the walk nor is a leaf. -/
theorem pointer_bits {pte : U64}
    (hends : ¬ (!pte.getLsbD 0 || (pte.getLsbD 2 && !pte.getLsbD 1)) = true)
    (hstops : ¬ (pte.getLsbD 1 || pte.getLsbD 3) = true) :
    pte.getLsbD 0 = true ∧
      pte.getLsbD 1 = false ∧ pte.getLsbD 2 = false ∧ pte.getLsbD 3 = false := by
  cases h0 : pte.getLsbD 0 <;> cases h1 : pte.getLsbD 1 <;> cases h2 : pte.getLsbD 2 <;>
    cases h3 : pte.getLsbD 3 <;> simp_all

theorem sv39Walk_iff :
    sv39Leaf? word vaddr level table = some leaf ↔ Sv39Walk word vaddr level table leaf := by
  refine ⟨fun hleaf => ?_, Sv39Walk.sv39Leaf?⟩
  induction level generalizing table with
  | zero =>
    rw [sv39Leaf?] at hleaf
    split at hleaf
    · cases hleaf
    rename_i hends
    split at hleaf
    · cases hleaf
      exact .leaf rfl rfl (by simp_all) (by simp_all) (by simp_all)
    · cases hleaf
  | succ level ih =>
    rw [sv39Leaf?] at hleaf
    split at hleaf
    · cases hleaf
    rename_i hends
    split at hleaf
    · cases hleaf
      exact .leaf rfl rfl (by simp_all) (by simp_all) (by simp_all)
    rename_i hstops
    obtain ⟨hvalid, hbits⟩ := pointer_bits hends hstops
    exact .pointer rfl hvalid hbits (ih hleaf)

theorem toNat_superpageMask (hlevel : level ≤ 2) :
    (superpageMask level).toNat = 2 ^ (9 * level) - 1 := by
  interval_cases level <;> rfl

theorem toNat_offsetMask (hlevel : level ≤ 2) :
    (offsetMask (levelSize level)).toNat = 2 ^ (12 + 9 * level) - 1 := by
  interval_cases level <;> rfl

theorem Sv39Leaf.aligned_iff (hlevel : leaf.level ≤ 2) :
    leaf.aligned = true ↔ 2 ^ (9 * leaf.level) ∣ (ptePpn leaf.pte).toNat := by
  have hmod : (ptePpn leaf.pte &&& superpageMask leaf.level).toNat =
      (ptePpn leaf.pte).toNat % 2 ^ (9 * leaf.level) := by
    rw [BitVec.toNat_and, toNat_superpageMask hlevel, Nat.and_two_pow_sub_one_eq_mod]
  rw [Nat.dvd_iff_mod_eq_zero, ← hmod, aligned, beq_iff_eq, ← BitVec.toNat_inj]
  rfl

theorem toNat_ptePpn_lt (pte : U64) : (ptePpn pte).toNat < 2 ^ 44 := by
  rw [ptePpn, BitVec.toNat_and,
    show (0xFFFFFFFFFFF : U64).toNat = 2 ^ 44 - 1 from rfl, Nat.and_two_pow_sub_one_eq_mod]
  exact Nat.mod_lt _ (by decide)

theorem Sv39Leaf.toNat_image (hlevel : leaf.level ≤ 2) (vaddr : U64) :
    (leaf.image vaddr).toNat =
      (ptePpn leaf.pte).toNat * 2 ^ 12 + vaddr.toNat % 2 ^ (12 + 9 * leaf.level) := by
  have hppn := toNat_ptePpn_lt leaf.pte
  have hoffset : vaddr.toNat % 2 ^ (12 + 9 * leaf.level) < 2 ^ 30 :=
    Nat.lt_of_lt_of_le (Nat.mod_lt _ (Nat.two_pow_pos _))
      (Nat.pow_le_pow_right (by decide) (by omega))
  rw [image, BitVec.toNat_add, BitVec.toNat_shiftLeft, Nat.shiftLeft_eq,
    BitVec.toNat_and, toNat_offsetMask hlevel, Nat.and_two_pow_sub_one_eq_mod]
  omega

/-- The two accepted values of the top bits are those of a sign extension. -/
theorem canonical_iff (vaddr : U64) :
    canonical vaddr = true ↔
      ∀ i, 38 ≤ i → i < 64 → vaddr.getLsbD i = vaddr.getLsbD 63 := by
  have hbit : ∀ i, 38 ≤ i → (vaddr >>> 38).getLsbD (i - 38) = vaddr.getLsbD i := by
    intro i hi
    rw [BitVec.getLsbD_ushiftRight, show 38 + (i - 38) = i by omega]
  have hones : ∀ i, i < 26 → (0x3FFFFFF : U64).getLsbD i = true := by decide
  unfold canonical
  constructor
  · intro h i hi hlt
    rw [Bool.or_eq_true, beq_iff_eq, beq_iff_eq] at h
    rw [← hbit i hi, ← hbit 63 (by omega)]
    rcases h with h | h <;> rw [h]
    · simp
    · rw [hones _ (by omega), hones _ (by omega)]
  · intro h
    rw [Bool.or_eq_true, beq_iff_eq, beq_iff_eq]
    cases hsign : vaddr.getLsbD 63 with
    | false =>
      left
      apply BitVec.eq_of_getLsbD_eq
      intro i hi
      rw [BitVec.getLsbD_ushiftRight]
      by_cases hin : 38 + i < 64
      · rw [h _ (by omega) hin, hsign]
        simp
      · rw [BitVec.getLsbD_of_ge _ _ (by omega)]
        simp
    | true =>
      right
      apply BitVec.eq_of_getLsbD_eq
      intro i hi
      rw [BitVec.getLsbD_ushiftRight]
      by_cases hin : i < 26
      · rw [h _ (by omega) (by omega), hsign, hones i hin]
      rw [BitVec.getLsbD_of_ge _ _ (by omega)]
      symm
      exact Nat.testBit_lt_two_pow (Nat.lt_of_lt_of_le (by decide : 0x3FFFFFF < 2 ^ 26)
        (Nat.pow_le_pow_right (by decide) (by omega)))

/-- The ISA lets supervisor mode reach `pa` through `vaddr`: bits 63 to 38 are equal, and
the walk finds an aligned leaf that supervisor mode may use and that grants the access,
in whose page `pa` is the byte at the offset of `vaddr`. -/
structure SupervisorMapped (mem : Ram) (satp : Satp) (sum mxr : Bool) (access : AccessType)
    (vaddr pa : U64) (leaf : Sv39Leaf) : Prop where
  sign : ∀ i, 38 ≤ i → i < 64 → vaddr.getLsbD i = vaddr.getLsbD 63
  walk : Sv39Walk mem.word vaddr 2 (rootTable satp) leaf
  aligned : 2 ^ (9 * leaf.level) ∣ (ptePpn leaf.pte).toNat
  permitted : leaf.user = false ∨ sum = true ∧ access ≠ .instruction
  granted : leaf.grants mxr access = true
  image : pa.toNat = (ptePpn leaf.pte).toNat * 2 ^ 12 + vaddr.toNat % 2 ^ (12 + 9 * leaf.level)

/-- The permission check in supervisor mode. -/
theorem applyPteFlags_supervisor (leaf : Sv39Leaf) (access : AccessType) (sum mxr : Bool) :
    applyPteFlags (pteFlags leaf.pte) access .supervisor sum mxr =
      if (!leaf.user || (sum && access ≠ .instruction)) && leaf.grants mxr access then .ok ()
      else .error (pageFault access) := by
  rw [applyPteFlags, getLsbD_pteFlags _ (by decide), getLsbD_pteFlags _ (by decide),
    getLsbD_pteFlags _ (by decide), getLsbD_pteFlags _ (by decide)]
  unfold Sv39Leaf.user
  cases access with
  | instruction =>
    rw [Sv39Leaf.grants]
    cases leaf.pte.getLsbD 3 <;> cases leaf.pte.getLsbD 4 <;> cases sum <;> rfl
  | load =>
    rw [Sv39Leaf.grants]
    cases leaf.pte.getLsbD 1 <;> cases leaf.pte.getLsbD 3 <;> cases leaf.pte.getLsbD 4 <;>
      cases mxr <;> cases sum <;> rfl
  | store =>
    rw [Sv39Leaf.grants]
    cases leaf.pte.getLsbD 2 <;> cases leaf.pte.getLsbD 4 <;> cases sum <;> rfl

/-- The leaf that maps an address, in the words of the ISA. -/
theorem supervisorMapped_iff {mem : Ram} {satp : Satp} {sum mxr : Bool} {access : AccessType}
    {pa : U64} :
    SupervisorMapped mem satp sum mxr access vaddr pa leaf ↔
      canonical vaddr = true ∧ mappedLeaf? mem satp vaddr = some leaf ∧
        ((!leaf.user || (sum && access ≠ .instruction)) && leaf.grants mxr access) = true ∧
        pa = leaf.image vaddr := by
  constructor
  · rintro ⟨hsign, hwalk, haligned, hpermitted, hgranted, himage⟩
    have hleaf := sv39Walk_iff.mpr hwalk
    have hlevel := (sv39Leaf?_pte hleaf).2
    refine ⟨(canonical_iff vaddr).mpr hsign,
      mappedLeaf?_eq_some.mpr ⟨hleaf, (Sv39Leaf.aligned_iff hlevel).mpr haligned⟩, ?_, ?_⟩
    · simpa [hgranted] using hpermitted
    · apply BitVec.eq_of_toNat_eq
      rw [himage, Sv39Leaf.toNat_image hlevel]
  · rintro ⟨hcanonical, hmapped, hallowed, rfl⟩
    obtain ⟨hleaf, haligned⟩ := mappedLeaf?_eq_some.mp hmapped
    have hlevel := (sv39Leaf?_pte hleaf).2
    simp only [Bool.and_eq_true, Bool.or_eq_true, Bool.not_eq_true', decide_eq_true_eq]
      at hallowed
    exact ⟨(canonical_iff vaddr).mp hcanonical, sv39Walk_iff.mp hleaf,
      (Sv39Leaf.aligned_iff hlevel).mp haligned, hallowed.1, hallowed.2,
      Sv39Leaf.toNat_image hlevel vaddr⟩

theorem identityFallback_outside (hrange : vaddr < 0x80200000#64 ∨ 0x81800000#64 ≤ vaddr) :
    identityFallback vaddr = false := by
  simp only [BitVec.lt_def, BitVec.le_def, BitVec.toNat_ofNat] at hrange
  simp only [identityFallback, Bool.or_eq_false_iff, Bool.and_eq_false_iff,
    decide_eq_false_iff_not, BitVec.lt_def, BitVec.le_def, BitVec.toNat_ofNat]
  omega

/-- With an empty TLB and outside the boot fallback, supervisor mode is answered with
exactly the address that the ISA gives, and with the page fault of the access where it
gives none. -/
theorem translate_supervisor_exact (mmu : Mmu) (mem : Ram) (satp : Satp)
    (hmode : satp.mode = 8) (sum mxr : Bool) (access : AccessType) (vaddr : U64)
    (hrange : vaddr < 0x80200000#64 ∨ 0x81800000#64 ≤ vaddr) :
    (∀ pa, (mmu.flushTlb.translate mem satp .supervisor sum mxr access vaddr).1 = .ok pa ↔
      ∃ leaf, SupervisorMapped mem satp sum mxr access vaddr pa leaf) ∧
    ((∀ pa leaf, ¬ SupervisorMapped mem satp sum mxr access vaddr pa leaf) →
      (mmu.flushTlb.translate mem satp .supervisor sum mxr access vaddr).1 =
        .error (pageFault access)) := by
  simp only [supervisorMapped_iff]
  by_cases hcanonical : canonical vaddr = true
  · have hempty : TlbOk mem satp mmu.flushTlb.tlb := TlbOk.of_no_valid fun _ => rfl
    obtain ⟨next, hcall, -⟩ := translate_spec hempty hmode .supervisor sum mxr access hcanonical
    rw [hcall, translateResult]
    simp only [hcanonical, true_and]
    cases hleaf : mappedLeaf? mem satp vaddr with
    | none => simp [identityFallback_outside hrange]
    | some leaf =>
      simp only [applyPteFlags_supervisor, Option.some.injEq]
      by_cases hallowed :
          ((!leaf.user || (sum && access ≠ .instruction)) && leaf.grants mxr access) = true
      · rw [if_pos hallowed]
        constructor
        · intro pa
          constructor
          · intro hpa
            cases hpa
            exact ⟨leaf, rfl, hallowed, rfl⟩
          · rintro ⟨_, rfl, -, rfl⟩
            rfl
        · intro hnone
          exact absurd ⟨rfl, hallowed, rfl⟩ (hnone (leaf.image vaddr) leaf)
      · rw [if_neg hallowed]
        refine ⟨fun pa => ⟨fun h => (by cases h), ?_⟩, fun _ => rfl⟩
        rintro ⟨_, rfl, h, -⟩
        exact absurd h hallowed
  · have hfault : (mmu.flushTlb.translate mem satp .supervisor sum mxr access vaddr).1 =
        .error (pageFault access) := by
      simp [Mmu.translate, hmode, hcanonical]
    rw [hfault]
    refine ⟨fun pa => ⟨fun h => (by cases h), ?_⟩, fun _ => rfl⟩
    rintro ⟨leaf, h, -⟩
    exact absurd h hcanonical

/-- A user gigapage at address 0 that supervisor mode may load from under SUM only. -/
def userGigapage : Ram := fun addr => if addr = 0x1000 then 0x13 else 0

theorem translate_supervisor_exact_sum :
    ((⟨8, 0, 1⟩ : Satp).mode = 8 ∧ 8#64 < 0x80200000#64) ∧
      (Mmu.new.flushTlb.translate userGigapage ⟨8, 0, 1⟩ .supervisor true false .load 8).1 =
        .ok 8 ∧
      (Mmu.new.flushTlb.translate userGigapage ⟨8, 0, 1⟩ .supervisor false false .load 8).1 =
        .error (pageFault .load) := by
  refine ⟨by decide, ?_, ?_⟩
  · refine ((translate_supervisor_exact Mmu.new userGigapage ⟨8, 0, 1⟩ rfl true false .load 8
      (Or.inl (by decide))).1 8).mpr ⟨⟨2, 0x1000, 0x13⟩, ?_⟩
    rw [supervisorMapped_iff]
    decide
  · refine (translate_supervisor_exact Mmu.new userGigapage ⟨8, 0, 1⟩ rfl false false .load 8
      (Or.inl (by decide))).2 ?_
    intro pa leaf
    rw [supervisorMapped_iff, show mappedLeaf? userGigapage ⟨8, 0, 1⟩ 8 =
      some ⟨2, 0x1000, 0x13⟩ from by decide]
    rintro ⟨-, hleaf, hallowed, -⟩
    cases hleaf
    revert hallowed
    decide

end TabLinux

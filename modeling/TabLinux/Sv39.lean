/-
The abstract Sv39 walk: which leaf entry a virtual address reaches in a memory
of double words, what the leaf grants, and which frame it names.  The MMU's
walk over plain memory is this walk followed by the superpage alignment check.
-/
import TabLinux.Mmu
import Mathlib.Tactic.IntervalCases

namespace TabLinux

open ByteMemory

variable {word : U64 → U64} {vaddr table : U64} {level : Nat} {leaf : Sv39Leaf}

variable {other : U64}

/-- The leaf entry at which a walk stops. -/
structure Sv39Leaf where
  level : Nat
  pteAddr : U64
  pte : U64
deriving DecidableEq, Repr

/-- The address of the entry a walk reads in the table of a level. -/
def sv39EntryAddr (vaddr : U64) (level : Nat) (table : U64) :
    U64 :=
  table + vpnIndex vaddr level * 8

/-- Follow pointer entries down from `level`.  Entries that are not valid, or
writable without being readable, end the walk, and so does a pointer in the
last table. -/
def sv39Leaf? (word : U64 → U64) (vaddr : U64) (level : Nat)
    (table : U64) : Option Sv39Leaf :=
  let addr := sv39EntryAddr vaddr level table
  let pte := word addr
  if !pte.getLsbD 0 || (pte.getLsbD 2 && !pte.getLsbD 1) then none
  else if pte.getLsbD 1 || pte.getLsbD 3 then some ⟨level, addr, pte⟩
  else
    match level with
    | 0 => none
    | level + 1 => sv39Leaf? word vaddr level (ptePpn pte <<< 12)

namespace Sv39Leaf

variable (leaf : Sv39Leaf)

/-- A leaf's frame is a multiple of its page size. -/
def aligned : Bool :=
  ptePpn leaf.pte &&& superpageMask leaf.level == 0

/-- The leaf belongs to user mode. -/
def user : Bool := leaf.pte.getLsbD 4

/-- The leaf's R, W and X bits allow the access; with `mxr` executable pages
are readable. -/
def grants (mxr : Bool) : AccessType → Bool
  | .instruction => leaf.pte.getLsbD 3
  | .load => leaf.pte.getLsbD 1 || (mxr && leaf.pte.getLsbD 3)
  | .store => leaf.pte.getLsbD 2

/-- The physical address of `vaddr` in the page of the leaf: the frame plus the
offset of the address inside a page of the leaf's level. -/
def image (vaddr : U64) : U64 :=
  ptePpn leaf.pte <<< 12 + (vaddr &&& offsetMask (levelSize leaf.level))

end Sv39Leaf

theorem sv39Leaf?_pte (hleaf : sv39Leaf? word vaddr level table = some leaf) :
    leaf.pte = word leaf.pteAddr ∧ leaf.level ≤ level := by
  induction level generalizing table with
  | zero =>
    rw [sv39Leaf?] at hleaf
    split at hleaf
    · cases hleaf
    · split at hleaf <;> cases hleaf
      exact ⟨rfl, Nat.le_refl 0⟩
  | succ level ih =>
    rw [sv39Leaf?] at hleaf
    split at hleaf
    · cases hleaf
    split at hleaf
    · cases hleaf
      exact ⟨rfl, Nat.le_refl _⟩
    · have hlower := ih hleaf
      exact ⟨hlower.1, Nat.le_succ_of_le hlower.2⟩

/-- Every entry a walk stops at is readable or executable. -/
theorem sv39Leaf?_legal (hleaf : sv39Leaf? word vaddr level table = some leaf) :
    leaf.pte.getLsbD 0 = true ∧ (leaf.pte.getLsbD 2 = true → leaf.pte.getLsbD 1 = true) := by
  induction level generalizing table with
  | zero =>
    rw [sv39Leaf?] at hleaf
    split at hleaf
    · cases hleaf
    rename_i hlegal
    split at hleaf <;> cases hleaf
    simpa using hlegal
  | succ level ih =>
    rw [sv39Leaf?] at hleaf
    split at hleaf
    · cases hleaf
    rename_i hlegal
    split at hleaf
    · cases hleaf
      simpa using hlegal
    · exact ih hleaf

theorem shiftLeft_twelve_dvd (ppn : U64) : 8 ∣ (ppn <<< 12).toNat := by
  rw [BitVec.toNat_shiftLeft, Nat.shiftLeft_eq]
  omega

theorem sv39EntryAddr_dvd (vaddr : U64) (level : Nat) (htable : 8 ∣ table.toNat) :
    8 ∣ (sv39EntryAddr vaddr level table).toNat := by
  have height : (8 : U64).toNat = 8 := rfl
  rw [sv39EntryAddr, BitVec.toNat_add, BitVec.toNat_mul, height]
  omega

theorem sv39Leaf?_pteAddr_dvd (htable : 8 ∣ table.toNat)
    (hleaf : sv39Leaf? word vaddr level table = some leaf) : 8 ∣ leaf.pteAddr.toNat := by
  induction level generalizing table with
  | zero =>
    rw [sv39Leaf?] at hleaf
    split at hleaf
    · cases hleaf
    · split at hleaf <;> cases hleaf
      exact sv39EntryAddr_dvd vaddr 0 htable
  | succ level ih =>
    rw [sv39Leaf?] at hleaf
    split at hleaf
    · cases hleaf
    split at hleaf
    · cases hleaf
      exact sv39EntryAddr_dvd vaddr (level + 1) htable
    · exact ih (shiftLeft_twelve_dvd _) hleaf

/-- `after` is `before` with some accessed and dirty bits (6 and 7) set. -/
structure AdGrow (before after : U64) : Prop where
  same : ∀ i, i ≠ 6 → i ≠ 7 → after.getLsbD i = before.getLsbD i
  keeps : ∀ i, before.getLsbD i = true → after.getLsbD i = true

theorem AdGrow.refl (pte : U64) : AdGrow pte pte := ⟨fun _ _ _ => rfl, fun _ h => h⟩

theorem AdGrow.trans {first second third : U64}
    (hfirst : AdGrow first second) (hsecond : AdGrow second third) :
    AdGrow first third where
  same i h6 h7 := (hsecond.same i h6 h7).trans (hfirst.same i h6 h7)
  keeps i h := hsecond.keeps i (hfirst.keeps i h)

theorem AdGrow.ptePpn_eq {before after : U64} (hgrow : AdGrow before after) :
    ptePpn after = ptePpn before := by
  apply BitVec.eq_of_getLsbD_eq
  intro i _
  simp only [ptePpn, BitVec.getLsbD_and, BitVec.getLsbD_ushiftRight]
  rw [hgrow.same (10 + i) (by omega) (by omega)]

/-- Setting accessed and dirty bits anywhere moves no walk: it stops at the
same entry, whose new content it then reports. -/
theorem sv39Leaf?_adGrow {before after : U64 → U64}
    (hgrow : ∀ addr : U64, 8 ∣ addr.toNat → AdGrow (before addr) (after addr))
    (vaddr : U64) (level : Nat) (htable : 8 ∣ table.toNat) :
    sv39Leaf? after vaddr level table = (sv39Leaf? before vaddr level table).map
        fun leaf => { leaf with pte := after leaf.pteAddr } := by
  induction level generalizing table with
  | zero =>
    have hentry := hgrow _ (sv39EntryAddr_dvd vaddr 0 htable)
    rw [sv39Leaf?, sv39Leaf?]
    simp only [hentry.same 0 (by decide) (by decide), hentry.same 1 (by decide) (by decide),
      hentry.same 2 (by decide) (by decide),
      hentry.same 3 (by decide) (by decide)]
    split
    · rfl
    · split <;> rfl
  | succ level ih =>
    have hentry := hgrow _ (sv39EntryAddr_dvd vaddr (level + 1) htable)
    rw [sv39Leaf?, sv39Leaf?]
    simp only [hentry.same 0 (by decide) (by decide), hentry.same 1 (by decide) (by decide),
      hentry.same 2 (by decide) (by decide),
      hentry.same 3 (by decide) (by decide), hentry.ptePpn_eq]
    split
    · rfl
    split
    · rfl
    · exact ih (shiftLeft_twelve_dvd _)

/-- A walk reads the address only through the indices of the levels it visits. -/
theorem sv39Leaf?_same_page (hindex : ∀ k, leaf.level ≤ k → k ≤ level →
      vpnIndex other k = vpnIndex vaddr k)
    (hleaf : sv39Leaf? word vaddr level table = some leaf) :
    sv39Leaf? word other level table = some leaf := by
  have hlevel := (sv39Leaf?_pte hleaf).2
  induction level generalizing table with
  | zero =>
    rw [sv39Leaf?, sv39EntryAddr] at hleaf ⊢
    rw [hindex 0 hlevel (Nat.le_refl 0)]
    exact hleaf
  | succ level ih =>
    rw [sv39Leaf?, sv39EntryAddr] at hleaf ⊢
    rw [hindex (level + 1) hlevel (Nat.le_refl _)]
    split at hleaf
    · cases hleaf
    rename_i hlegal
    rw [if_neg hlegal]
    split at hleaf
    · rename_i hstop
      rw [if_pos hstop]
      exact hleaf
    rename_i hstop
    rw [if_neg hstop]
    exact ih (fun k hk hle => hindex k hk (Nat.le_succ_of_le hle)) hleaf (sv39Leaf?_pte hleaf).2

theorem vpnAt_levelSize (vaddr : U64) (hlevel : level ≤ 2) :
    vpnAt vaddr (levelSize level) = vaddr >>> (12 + 9 * level) := by
  interval_cases level <;> rfl

/-- Equal page numbers at one size agree on the indices of all higher levels. -/
theorem vpnIndex_eq_of_vpnAt_eq {k : Nat} (hlevel : level ≤ 2)
    (hk : level ≤ k) (hpage : vpnAt other (levelSize level) = vpnAt vaddr (levelSize level)) :
    vpnIndex other k = vpnIndex vaddr k := by
  rw [vpnAt_levelSize other hlevel, vpnAt_levelSize vaddr hlevel] at hpage
  have hsplit : 12 + 9 * k = 12 + 9 * level + 9 * (k - level) := by omega
  rw [vpnIndex, vpnIndex, hsplit, BitVec.shiftRight_add other (12 + 9 * level),
    BitVec.shiftRight_add vaddr (12 + 9 * level), hpage]

end TabLinux

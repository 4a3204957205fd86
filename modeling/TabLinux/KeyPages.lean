/-
The filter of virtual pages that hold keys.  It is open-addressed, and a call
claims slots of other generations as dead; but a switch of the address space may
return to such a generation, whose pages are then forgotten.
-/
import TabLinux.Jit
import TabLinux.Library.Runs

namespace TabLinux

variable {jit : Jit} {va va' : U64} {gen gen' : U32}

def Jit.noteKey (jit : Jit) (call : U64 × U32) : Jit :=
  jit.noteKeyPage call.1 call.2

/-- The call finds candidate slots that are free or of its own generation, and
no overflow of another one.  The last page is left out where its record is the
mark of a free slot, and so is the generation whose overflow cannot be told. -/
structure Jit.Fits (jit : Jit) (call : U64 × U32) : Prop where
  distinct : packKey (call.1 >>> 12) call.2 ≠ BitVec.allOnes 64
  slots : ∀ probe < keyVpnProbes,
    jit.keyVpns (keyVpnSlot (call.1 >>> 12) probe) = BitVec.allOnes 64 ∨
      jit.keyVpns (keyVpnSlot (call.1 >>> 12) probe) &&& 0xFFF = keyGen call.2
  marked : call.2 + 1 ≠ 0
  overflow : jit.keyVpnsFull = 0 ∨ jit.keyVpnsFull = call.2 + 1

/-- The page is in one of its slots, or its generation has overflowed. -/
def Jit.Recorded (jit : Jit) (va : U64) (gen : U32) : Prop :=
  (packKey (va >>> 12) gen ≠ BitVec.allOnes 64 ∧ ∃ probe < keyVpnProbes,
    jit.keyVpns (keyVpnSlot (va >>> 12) probe) = packKey (va >>> 12) gen) ∨
  (gen + 1 ≠ 0 ∧ jit.keyVpnsFull = gen + 1)

theorem Jit.Recorded.pageMayHaveKeys (h : jit.Recorded va gen) :
    jit.pageMayHaveKeys va gen = true := by
  rw [Jit.pageMayHaveKeys, Bool.or_eq_true, List.any_eq_true]
  rcases h with ⟨-, probe, hlt, hslot⟩ | ⟨-, hfull⟩
  · exact Or.inr ⟨probe, List.mem_range.mpr hlt, decide_eq_true hslot⟩
  · exact Or.inl (decide_eq_true hfull)

/-- Claiming a free slot forgets no page. -/
theorem Jit.Recorded.claim (h : jit.Recorded va' gen') {slot : BitVec 14}
    (hfree : jit.keyVpns slot = BitVec.allOnes 64) (key : U64) :
    { jit with keyVpns := Function.update jit.keyVpns slot key }.Recorded va' gen' := by
  refine h.imp_left fun ⟨hne, probe, hlt, hslot⟩ => ⟨hne, probe, hlt, ?_⟩
  rw [← hslot]
  refine Function.update_of_ne ?_ _ _
  rintro rfl
  exact hne (hslot.symm.trans hfree)

/-- Probing from any point on records the page, and forgets none. -/
theorem Jit.noteKeyPageFrom_recorded (h : jit.Fits (va, gen)) (probes : List Nat)
    (hprobes : ∀ probe ∈ probes, probe < keyVpnProbes) :
    (jit.noteKeyPageFrom (va >>> 12) gen probes).Recorded va gen ∧
      ∀ va' gen', jit.Recorded va' gen' →
        (jit.noteKeyPageFrom (va >>> 12) gen probes).Recorded va' gen' := by
  induction probes with
  | nil =>
    refine ⟨Or.inr ⟨h.marked, rfl⟩, fun va' gen' hold => ?_⟩
    refine hold.imp_right fun ⟨hmarked, hfull⟩ => ⟨hmarked, ?_⟩
    rcases h.overflow with hnone | hown
    · exact absurd (hfull.symm.trans hnone) hmarked
    · exact hown.symm.trans hfull
  | cons probe probes ih =>
    have hlt := hprobes probe List.mem_cons_self
    unfold noteKeyPageFrom
    dsimp only
    split
    · rename_i hhere
      exact ⟨Or.inl ⟨h.distinct, probe, hlt, hhere⟩, fun _ _ hold => hold⟩
    split
    · rename_i hclaims
      have hfree : jit.keyVpns (keyVpnSlot (va >>> 12) probe) = BitVec.allOnes 64 :=
        hclaims.elim id fun hdead => (h.slots probe hlt).resolve_right hdead
      refine ⟨Or.inl ⟨h.distinct, probe, hlt, Function.update_self _ _ _⟩, ?_⟩
      exact fun _ _ hold => hold.claim hfree _
    · exact ih fun probe hmem => hprobes probe (List.mem_cons_of_mem _ hmem)

/-- Where every call finds its slots free or of its own generation, no page that
was noted is forgotten. -/
theorem run_pageMayHaveKeys (calls : List (U64 × U32))
    (hfits : Runs.Along Jit.noteKey Jit.Fits Jit.new calls) :
    ∀ call ∈ calls, (Runs.run Jit.noteKey Jit.new calls).pageMayHaveKeys call.1 call.2 = true := by
  -- What is recorded before a call stays so, whatever the run starts from.
  have hrun : ∀ (calls : List (U64 × U32)) (jit : Jit),
      Runs.Along Jit.noteKey Jit.Fits jit calls → ∀ va gen,
        (jit.Recorded va gen ∨ (va, gen) ∈ calls) →
          (Runs.run Jit.noteKey jit calls).Recorded va gen := by
    intro calls
    induction calls with
    | nil => exact fun jit _ va gen h => h.resolve_right List.not_mem_nil
    | cons call calls ih =>
      rintro jit ⟨hfit, hrest⟩ va gen h
      obtain ⟨hnoted, hkept⟩ := Jit.noteKeyPageFrom_recorded hfit (List.range keyVpnProbes)
        fun _ => List.mem_range.mp
      refine ih (jit.noteKey call) hrest va gen ?_
      rcases h with hold | hmem
      · exact Or.inl (hkept va gen hold)
      rcases List.mem_cons.mp hmem with rfl | hlater
      · exact Or.inl hnoted
      · exact Or.inr hlater
  exact fun call hmem => (hrun calls Jit.new hfits call.1 call.2 (Or.inr hmem)).pageMayHaveKeys

theorem run_pageMayHaveKeys_twoPages :
    let jit := Runs.run Jit.noteKey Jit.new [(0x1000, 1), (0x2000, 1)]
    jit.pageMayHaveKeys 0x1000 1 = true ∧ jit.pageMayHaveKeys 0x2000 1 = true := by
  have h := run_pageMayHaveKeys [(0x1000, 1), (0x2000, 1)]
    ⟨⟨by decide, by decide, by decide, by decide⟩, ⟨by decide, by decide, by decide, by decide⟩,
      trivial⟩
  exact ⟨h _ List.mem_cons_self, h _ (List.mem_cons_of_mem _ List.mem_cons_self)⟩

/-- A page that is noted in two generations is forgotten for the first. -/
theorem second_generation_forgets_page :
    (Runs.run Jit.noteKey Jit.new [(0x1000, 1), (0x1000, 2)]).pageMayHaveKeys 0x1000 1 = false := by
  decide

end TabLinux

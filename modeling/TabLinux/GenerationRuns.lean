/-
Runs of the operations that hand out generations: writes of `satp`, fences, and the run
loop's drain of the flush queue.  Which register values may use a generation, which
generations are given up, and what the words made of them say.
-/
import TabLinux.RunLoop
import TabLinux.Library.Runs

namespace TabLinux

open Generations Supervisor

variable {kind : GenKind} {val : U64} {gen : U32} {s : Supervisor}

variable {events : List SpaceEvent}

/-- The register value is current, or remembered in the table, with this generation. -/
def Spaces.Recalls (sp : Spaces) (kind : GenKind) (val : U64) (gen : U32) : Prop :=
  (val = sp.satp.toBits ∧ gen = sp.gen kind) ∨
    (val ≠ BitVec.allOnes 64 ∧ ∃ i, (sp.asidTbl i).satp = val ∧ gen = (sp.asidTbl i).gen kind)

/-- No two register values share a generation. -/
def Spaces.Distinct (sp : Spaces) : Prop :=
  ∀ kind val other gen, sp.Recalls kind val gen → sp.Recalls kind other gen → val = other

/-- As a ledger, without regard to whether the table's entry is out of date. -/
def Spaces.recalled (sp : Spaces) (kind : GenKind) : Ledger U64 where
  live val n := ∃ gen, sp.Recalls kind val gen ∧ n = gen.toNat
  next := sp.asidGenNext.toNat

variable {sp : Spaces}

namespace Spaces

theorem distinct_of_recalled (h : ∀ kind, (sp.recalled kind).Wf) : sp.Distinct :=
  fun kind _ _ gen hval hother => (h kind).unique ⟨gen, hval, rfl⟩ ⟨gen, hother, rfl⟩

theorem Room.fresh (hroom : sp.Room) : sp.asidGenNext.toNat < (sp.asidGenNext + 1).toNat := by
  rw [hroom.toNat_succ]
  exact Nat.lt_succ_self _

theorem invalidateAll_recalls (h : sp.invalidateAll.Recalls kind val gen) :
    val = sp.satp.toBits ∧ gen = sp.asidGenNext + 1 := by
  rcases h with ⟨hval, hgen⟩ | ⟨hval, i, hslot, -⟩
  · refine ⟨hval, hgen.trans ?_⟩
    cases kind <;> rfl
  · exact absurd hslot.symm hval

theorem invalidateAll_recalled (hroom : sp.Room) (kind : GenKind) :
    (sp.recalled kind).Advance (sp.invalidateAll.recalled kind) := by
  refine ⟨Nat.le_of_lt hroom.fresh, sp.satp.toBits, ?_⟩
  rintro val n ⟨gen, hgen, rfl⟩
  obtain ⟨hval, rfl⟩ := invalidateAll_recalls hgen
  exact Or.inr ⟨hval, hroom.fresh, Nat.le_refl _⟩

theorem advanceChain_recalled (hroom : sp.Room) (kind : GenKind) :
    (sp.recalled kind).Advance (sp.advanceChain.recalled kind) := by
  refine ⟨Nat.le_of_lt hroom.fresh, sp.satp.toBits, ?_⟩
  rintro val n ⟨gen, ⟨hval, hgen⟩ | hsaved, rfl⟩
  · cases kind with
    | chain =>
      have hnew : gen = sp.asidGenNext + 1 := hgen
      subst hnew
      exact Or.inr ⟨hval, hroom.fresh, Nat.le_refl _⟩
    | data => exact Or.inl ⟨gen, Or.inl ⟨hval, hgen⟩, rfl⟩
  · exact Or.inl ⟨gen, Or.inr hsaved, rfl⟩

/-- The table with the current space put away recalls nothing new. -/
theorem stash_recalls {i : BitVec 7} (hval : val ≠ BitVec.allOnes 64)
    (hslot : (sp.stash i).satp = val) : sp.Recalls kind val ((sp.stash i).gen kind) := by
  unfold stash at hslot ⊢
  by_cases hi : i = asidIndex sp.satp.toBits
  · subst hi
    rw [Function.update_self] at hslot ⊢
    refine Or.inl ⟨hslot.symm, ?_⟩
    cases kind <;> rfl
  · rw [Function.update_of_ne hi] at hslot ⊢
    exact Or.inr ⟨hval, i, hslot, rfl⟩

theorem writeSatp_recalled (hwf : sp.Wf) (hroom : sp.Room)
    (hval : val ≠ BitVec.allOnes 64) (kind : GenKind) :
    (sp.recalled kind).Advance ((sp.writeSatp val).recalled kind) := by
  by_cases hsame : sp.satp.toBits = val
  · rw [writeSatp_same hwf hsame]
    exact Ledger.Advance.refl _
  unfold writeSatp
  rw [if_pos hsame]
  by_cases hfound : (sp.stash (asidIndex val)).satp = val
  · rw [if_pos hfound]
    refine ⟨Nat.le_refl _, val, ?_⟩
    rintro other n ⟨gen, ⟨hother, hgen⟩ | ⟨hother, i, hslot, hgen⟩, rfl⟩
    · -- A remembered value is a legal one, so the register holds it as written.
      have hbits : (Satp.fromBits val).toBits = val := by
        rcases hwf.stash_slots (asidIndex val) with hempty | ⟨satp, hlegal, hbits, -⟩
        · exact absurd (hfound.symm.trans hempty) hval
        · rw [← hfound, hbits, Satp.fromBits_toBits hlegal]
      have hrecalls : sp.Recalls kind val ((sp.stash (asidIndex val)).gen kind) :=
        stash_recalls hval hfound
      refine Or.inl ⟨gen, ?_, rfl⟩
      rw [hother, hgen]
      rw [hbits]
      cases kind <;> exact hrecalls
    · refine Or.inl ⟨gen, ?_, rfl⟩
      rw [hgen]
      exact stash_recalls hother hslot
  · rw [if_neg hfound]
    refine ⟨Nat.le_of_lt hroom.fresh, (Satp.fromBits val).toBits, ?_⟩
    rintro other n ⟨gen, ⟨hother, hgen⟩ | ⟨hother, i, hslot, hgen⟩, rfl⟩
    · have hnew : gen = sp.asidGenNext + 1 := by
        rw [hgen]
        cases kind <;> rfl
      subst hnew
      exact Or.inr ⟨hother, hroom.fresh, Nat.le_refl _⟩
    · refine Or.inl ⟨gen, ?_, rfl⟩
      rw [hgen]
      exact stash_recalls hother hslot

end Spaces

/-- What selects, hands out or forgets generations: writes of `satp`, fences, and the run
loop, which empties the queue of single-page fences and moves the chains on. -/
inductive SpaceEvent where
  | writeSatp (val : U64)
  | sfenceVma (rs1 : Reg)
  | fenceI
  | drain
  | advanceChainGen
deriving DecidableEq, Repr

def Supervisor.spaceEvent (s : Supervisor) : SpaceEvent → Supervisor
  | .writeSatp val => s.csrWrite 0x180 val
  | .sfenceVma rs1 => s.sfenceVma rs1
  | .fenceI => s.dcacheFlush
  | .drain => { s with pendingFlush := [] }
  | .advanceChainGen => s.advanceChainGen

/-- The all-ones value marks empty slots of the table. -/
def SpaceEvent.Sane (event : SpaceEvent) : Prop := event ≠ .writeSatp (BitVec.allOnes 64)

instance (event : SpaceEvent) : Decidable event.Sane := inferInstanceAs (Decidable (event ≠ _))

/-- What an operation does to the spaces, apart from the queue: nothing, move the chains
on, forget everything, or select a space. -/
inductive SpaceChange (sp sp' : Spaces) (event : SpaceEvent) : Prop
  | keep (same : sp' = { sp with pendingFlush := sp'.pendingFlush })
  | advance (hevent : event = .advanceChainGen) (moved : sp' = sp.advanceChain)
  | forget (forgot : sp' = { sp.invalidateAll with
      pendingFlush := sp'.pendingFlush, icacheGen := sp'.icacheGen })
  | select (val : U64) (hevent : event = .writeSatp val) (selected : sp' = sp.writeSatp val)

theorem Supervisor.spaceEvent_change (s : Supervisor) (event : SpaceEvent) :
    SpaceChange s.spaces (s.spaceEvent event).spaces event := by
  cases event with
  | writeSatp val =>
    refine .select val rfl ?_
    rw [spaceEvent, s.csrWrite_satp, s.writeSatp_spaces]
  | sfenceVma rs1 =>
    rw [spaceEvent, s.sfenceVma_spaces]
    split
    · rw [Spaces.apply, Spaces.fencePage]
      split
      · exact .keep rfl
      · exact .forget rfl
    · exact .forget rfl
  | fenceI => exact .forget rfl
  | drain => exact .keep rfl
  | advanceChainGen => exact .advance rfl rfl

section

variable {sp' : Spaces} {event : SpaceEvent}

namespace SpaceChange

theorem asidGenNext (h : SpaceChange sp sp' event) :
    sp'.asidGenNext = sp.asidGenNext ∨ sp'.asidGenNext = sp.asidGenNext + 1 := by
  cases h with
  | keep same =>
    rw [same]
    exact .inl rfl
  | advance _ moved =>
    rw [moved]
    exact .inr rfl
  | forget forgot =>
    rw [forgot]
    exact .inr rfl
  | select val _ selected =>
    rw [selected]
    unfold Spaces.writeSatp
    split
    · dsimp only
      split
      · exact .inl rfl
      · exact .inr rfl
    · exact .inl rfl

variable (h : SpaceChange sp sp' event) (hwf : sp.Wf) (hroom : sp.Room) (hsane : event.Sane)
include h hwf hroom hsane

theorem advance_ledger (kind : GenKind) : (sp.ledger kind).Advance (sp'.ledger kind) := by
  cases h with
  | keep same =>
    rw [same]
    cases kind <;> exact Ledger.Advance.refl _
  | advance _ moved =>
    rw [moved]
    exact Spaces.advanceChain_advance hroom kind
  | forget forgot =>
    rw [forgot]
    cases kind <;> exact Spaces.invalidateAll_advance hroom _
  | select val hevent selected =>
    rw [selected]
    exact Spaces.writeSatp_advance hwf hroom (fun h => hsane (by rw [hevent, h])) kind

theorem advance_recalled (kind : GenKind) : (sp.recalled kind).Advance (sp'.recalled kind) := by
  cases h with
  | keep same =>
    rw [same]
    cases kind <;> exact Ledger.Advance.refl _
  | advance _ moved =>
    rw [moved]
    exact Spaces.advanceChain_recalled hroom kind
  | forget forgot =>
    rw [forgot]
    cases kind <;> exact Spaces.invalidateAll_recalled hroom _
  | select val hevent selected =>
    rw [selected]
    exact Spaces.writeSatp_recalled hwf hroom (fun h => hsane (by rw [hevent, h])) kind

theorem wf : sp'.Wf := by
  refine ⟨?_, ?_, fun kind => (hwf.ledger kind).advance (h.advance_ledger hwf hroom hsane kind)⟩
  · cases h with
    | keep same =>
      rw [same]
      exact hwf.legal
    | advance _ moved =>
      rw [moved]
      exact hwf.legal
    | forget forgot =>
      rw [forgot]
      exact hwf.legal
    | select val hevent selected =>
      rw [selected]
      exact (hwf.writeSatp hroom fun h => hsane (by rw [hevent, h])).legal
  · cases h with
    | keep same =>
      rw [same]
      exact hwf.slots
    | advance _ moved =>
      rw [moved]
      exact hwf.slots
    | forget forgot =>
      rw [forgot]
      exact fun _ => Or.inl rfl
    | select val hevent selected =>
      rw [selected]
      exact (hwf.writeSatp hroom fun h => hsane (by rw [hevent, h])).slots

end SpaceChange

end

/-- Does the operation forget every space?  A full queue of fences does. -/
def Supervisor.forgets (s : Supervisor) : SpaceEvent → Bool
  | .sfenceVma rs1 => rs1 == 0 || pendingFlushLen ≤ s.pendingFlush.length
  | .fenceI => true
  | _ => false

/-- The slot that the current space will be put into holds another space. -/
def Spaces.Evicts (sp : Spaces) (kind : GenKind) (gen : U32) : Prop :=
  let slot := sp.asidTbl (asidIndex sp.satp.toBits)
  slot.satp ≠ BitVec.allOnes 64 ∧ slot.satp ≠ sp.satp.toBits ∧ gen = slot.gen kind

/-- The operation gives the generation up: all spaces are forgotten, the chains move on,
or the space that had it is evicted from the table. -/
def Supervisor.GivesUp (s : Supervisor) (event : SpaceEvent) (kind : GenKind)
    (gen : U32) : Prop :=
  (s.forgets event = true ∧ ∃ val, s.spaces.Recalls kind val gen) ∨
    (event = .advanceChainGen ∧ kind = .chain ∧ gen = s.transGen) ∨
    (∃ val, event = .writeSatp val ∧ val ≠ s.satp.toBits ∧ s.spaces.Evicts kind gen)

namespace Spaces

/-- Handed out, and in nobody's use. -/
def Retired (sp : Spaces) (kind : GenKind) (gen : U32) : Prop :=
  (sp.ledger kind).Sound (fun _ => False) gen.toNat

theorem Retired.not_current (h : sp.Retired kind gen) (hwf : sp.Wf) : sp.gen kind ≠ gen := by
  rintro rfl
  exact h.2 _ (hwf.current kind)

theorem invalidateAll_retires (hroom : sp.Room) (hrecalled : (sp.recalled kind).Wf)
    (hgen : sp.Recalls kind val gen) : sp.invalidateAll.Retired kind gen := by
  have hle : gen.toNat ≤ sp.asidGenNext.toNat := hrecalled.bounded ⟨gen, hgen, rfl⟩
  have hsucc := hroom.toNat_succ
  refine ⟨?_, fun satp hlive => ?_⟩
  · change gen.toNat ≤ (sp.asidGenNext + 1).toNat
    omega
  · have hnew := (invalidateAll_live hroom hlive).2
    omega

theorem Wf.advanceChain_retires (hwf : sp.Wf) (hroom : sp.Room) :
    sp.advanceChain.Retired .chain sp.transGen := by
  have hcurrent := hwf.current .chain
  have hle : sp.transGen.toNat ≤ sp.asidGenNext.toNat := (hwf.ledger .chain).bounded hcurrent
  have hsucc := hroom.toNat_succ
  refine ⟨?_, ?_⟩
  · change sp.transGen.toNat ≤ (sp.asidGenNext + 1).toNat
    omega
  rintro satp ⟨hlegal, ⟨hsatp, hn⟩ | ⟨hne, hsaved⟩⟩
  · change sp.transGen.toNat = (sp.asidGenNext + 1).toNat at hn
    omega
  · -- A remembered space with the same generation would be the current one.
    exact hne ((hwf.ledger .chain).unique ⟨hlegal, Or.inr ⟨hne, hsaved⟩⟩ hcurrent)

/-- A space has one slot: the table forgets one that shares it with the space put away. -/
theorem Wf.stash_forgets (hwf : sp.Wf) {other : Satp}
    (hindex : asidIndex other.toBits = asidIndex sp.satp.toBits)
    (hother : other.toBits ≠ sp.satp.toBits) (hlegal : other.Legal) (i : BitVec 7) :
    (sp.stash i).satp ≠ other.toBits := by
  unfold Spaces.stash
  by_cases hi : i = asidIndex sp.satp.toBits
  · rw [hi, Function.update_self]
    exact hother.symm
  rw [Function.update_of_ne hi]
  intro hslot
  rcases hwf.slots i with hempty | ⟨satp, -, hbits, hplace⟩
  · exact hlegal.toBits_ne_allOnes (hslot.symm.trans hempty)
  · rw [← hbits, hslot, hindex] at hplace
    exact hi hplace.symm

theorem Wf.writeSatp_retires (hwf : sp.Wf) (hroom : sp.Room)
    (hval : val ≠ BitVec.allOnes 64) (hchange : val ≠ sp.satp.toBits)
    (hevicts : sp.Evicts kind gen) : (sp.writeSatp val).Retired kind gen := by
  obtain ⟨hnonempty, hne, hgen⟩ := hevicts
  rcases hwf.slots (asidIndex sp.satp.toBits) with hempty | ⟨other, hlegal, hbits, hindex⟩
  · exact absurd hempty hnonempty
  rw [hbits] at hne
  have hforgets := hwf.stash_forgets hindex hne hlegal
  have hlive : (sp.ledger kind).live other gen.toNat := by
    refine ⟨hlegal, Or.inr ⟨fun h => hne (by rw [h]), _, hbits, by rw [hgen]⟩⟩
  have hle : gen.toNat ≤ sp.asidGenNext.toNat := (hwf.ledger kind).bounded hlive
  obtain ⟨hnext, owner, hkeeps⟩ := Spaces.writeSatp_advance hwf hroom hval kind
  refine ⟨Nat.le_trans hle hnext, fun satp hsatp => ?_⟩
  rcases hkeeps _ _ hsatp with hold | ⟨-, hnew, -⟩
  · -- Only the evicted space could use it, and it is not current and not remembered.
    obtain rfl := (hwf.ledger kind).unique hold hlive
    unfold Spaces.writeSatp at hsatp
    rw [if_pos hchange.symm] at hsatp
    dsimp only at hsatp
    split at hsatp
    · rename_i hfound
      obtain ⟨-, ⟨hcurrent, -⟩ | ⟨-, i, hslot, -⟩⟩ := hsatp
      · rcases hwf.stash_slots (asidIndex val) with hempty | ⟨found, hfoundLegal, hfoundBits, -⟩
        · exact hval (hfound.symm.trans hempty)
        · have hbits' : val = found.toBits := hfound.symm.trans hfoundBits
          have hsame : satp = found := by
            rw [hcurrent]
            rw [hbits', Satp.fromBits_toBits hfoundLegal]
          exact hforgets (asidIndex val) (by rw [hfoundBits, hsame])
      · exact hforgets i hslot
    · obtain ⟨-, ⟨-, hn⟩ | ⟨-, i, hslot, -⟩⟩ := hsatp
      · have hfresh := hroom.fresh
        have hn' : gen.toNat = (sp.asidGenNext + 1).toNat := by
          rw [hn]
          cases kind <;> rfl
        omega
      · exact hforgets i hslot
  · exact absurd hle (Nat.not_le.mpr hnew)

end Spaces

namespace Supervisor

/-- How many generations a run hands out. -/
def allocations : Supervisor → List SpaceEvent → Nat
  | _, [] => 0
  | s, event :: events =>
      (if (s.spaceEvent event).asidGenNext = s.asidGenNext then 0 else 1) +
        (s.spaceEvent event).allocations events

/-- Generations that are given out below this bound make distinct words. -/
def Numbered (s : Supervisor) : Prop := s.asidGenNext.toNat + 1 < 2 ^ 30

theorem Numbered.room (h : s.Numbered) : s.spaces.Room := by
  unfold Supervisor.Numbered at h
  change s.asidGenNext.toNat + 1 < 2 ^ 32
  omega

/-- An operation within the bound that does not select the mark of empty slots. -/
def Admits (s : Supervisor) (event : SpaceEvent) : Prop :=
  s.Numbered ∧ (s.spaceEvent event).Numbered ∧ event.Sane

theorem along_admits (hfew : s.asidGenNext.toNat + s.allocations events < 2 ^ 30 - 1)
    (hsane : ∀ event ∈ events, event.Sane) : Runs.Along spaceEvent Supervisor.Admits s events := by
  induction events generalizing s with
  | nil => trivial
  | cons event events ih =>
    obtain ⟨hevent, hrest⟩ := List.forall_mem_cons.mp hsane
    rw [allocations] at hfew
    have hnow : s.Numbered := by
      unfold Supervisor.Numbered
      omega
    have hnext : (s.spaceEvent event).asidGenNext.toNat +
        (s.spaceEvent event).allocations events < 2 ^ 30 - 1 := by
      split at hfew
      · rename_i hsame
        rw [hsame]
        omega
      rename_i hmoved
      have hsucc : (s.spaceEvent event).asidGenNext = s.asidGenNext + 1 :=
        (s.spaceEvent_change event).asidGenNext.resolve_left hmoved
      have hstep : (s.asidGenNext + 1).toNat = s.asidGenNext.toNat + 1 := hnow.room.toNat_succ
      rw [hsucc, hstep]
      omega
    refine ⟨⟨hnow, ?_, hevent⟩, ih hnext hrest⟩
    unfold Supervisor.Numbered
    omega

/-- The spaces are in order, also as far as out-of-date entries go, and the generations
handed out are within the bound. -/
structure Orderly (s : Supervisor) : Prop where
  wf : s.spaces.Wf
  recalled : ∀ kind, (s.spaces.recalled kind).Wf
  numbered : s.Numbered

theorem Orderly.step {event : SpaceEvent} (h : s.Orderly) (hadmits : s.Admits event) :
    (s.spaceEvent event).Orderly := by
  obtain ⟨hnow, hnext, hsane⟩ := hadmits
  have hchange := s.spaceEvent_change event
  exact ⟨hchange.wf h.wf hnow.room hsane,
    fun kind => (h.recalled kind).advance (hchange.advance_recalled h.wf hnow.room hsane kind),
    hnext⟩

theorem Orderly.retires {event : SpaceEvent} (h : s.Orderly)
    (hadmits : s.Admits event) (hgives : s.GivesUp event kind gen) :
    (s.spaceEvent event).spaces.Retired kind gen := by
  obtain ⟨hnow, -, hsane⟩ := hadmits
  have hroom := hnow.room
  rcases hgives with ⟨hforgets, val, hgen⟩ | ⟨rfl, rfl, rfl⟩ | ⟨val, rfl, hne, hevicts⟩
  · have hretired := Spaces.invalidateAll_retires hroom (h.recalled kind) hgen
    cases event with
    | sfenceVma rs1 =>
      rw [spaceEvent, s.sfenceVma_spaces]
      by_cases hall : rs1 = 0
      · rw [if_neg (not_not.mpr hall)]
        exact hretired
      have hor : rs1 = 0 ∨ pendingFlushLen ≤ s.pendingFlush.length := by
        simpa [forgets] using hforgets
      have hfull := hor.resolve_left hall
      have hpage : s.spaces.fencePage (s.cpu.readReg rs1) =
          { s.spaces with pendingFlush := [] }.invalidateAll :=
        if_neg (Nat.not_lt.mpr hfull)
      rw [if_pos hall, Spaces.apply, hpage]
      cases kind <;> exact hretired
    | fenceI => cases kind <;> exact hretired
    | writeSatp val => cases hforgets
    | drain => cases hforgets
    | advanceChainGen => cases hforgets
  · exact h.wf.advanceChain_retires hroom
  · rw [spaceEvent, s.csrWrite_satp, s.writeSatp_spaces]
    exact h.wf.writeSatp_retires hroom (fun h => hsane (by rw [h])) hne hevicts

/-- A retired generation is never in use again. -/
theorem Orderly.stays_retired (h : s.Orderly) (hretired : s.spaces.Retired kind gen)
    (halong : Runs.Along spaceEvent Supervisor.Admits s events) :
    (Runs.run spaceEvent s events).spaces.gen kind ≠ gen := by
  have hstep : ∀ (s : Supervisor) (event : SpaceEvent),
      s.Orderly ∧ s.spaces.Retired kind gen → s.Admits event →
      (s.spaceEvent event).Orderly ∧ (s.spaceEvent event).spaces.Retired kind gen := by
    rintro s event ⟨h, hretired⟩ hadmits
    have hchange := s.spaceEvent_change event
    exact ⟨h.step hadmits,
      hretired.advance (hchange.advance_ledger h.wf hadmits.1.room hadmits.2.2 kind)⟩
  have hend := halong.invariant hstep ⟨h, hretired⟩
  exact hend.2.not_current hend.1.wf

theorem new_orderly (pc hartid : U64) : (new pc hartid).Orderly := by
  have hreset := new_reset pc hartid
  have hrecalls : ∀ kind val gen, (new pc hartid).spaces.Recalls kind val gen →
      val = (new pc hartid).satp.toBits ∧ gen = (new pc hartid).asidGenNext := by
    rintro kind val gen (⟨hval, hgen⟩ | ⟨hval, i, hslot, -⟩)
    · exact ⟨hval, hgen.trans (hreset.gen kind)⟩
    · rw [hreset.empty i] at hslot
      exact absurd hslot.symm hval
  refine ⟨hreset.wf, fun kind => ⟨?_, ?_⟩, show (0#32).toNat + 1 < 2 ^ 30 by decide⟩
  · rintro val n ⟨gen, hgen, rfl⟩
    rw [(hrecalls kind val gen hgen).2]
    exact Nat.le_refl _
  · rintro val other n ⟨gen, hgen, -⟩ ⟨gen', hgen', -⟩
    exact (hrecalls kind val gen hgen).1.trans (hrecalls kind other gen' hgen').1.symm

end Supervisor

/-- The word that entries of one kind are compared with. -/
def Jit.word (jit : Jit) : GenKind → U32
  | .chain => jit.chainGen
  | .data => jit.dataGen

theorem Jit.refreshGen_word (jit : Jit) (s : Supervisor) (kind : GenKind) :
    (jit.refreshGen s).word kind = genWord (s.spaces.gen kind) s.privLevel := by
  cases kind <;> rfl

theorem Supervisor.Orderly.gen_lt (h : s.Orderly) (kind : GenKind) :
    (s.spaces.gen kind).toNat + 1 < 2 ^ 30 := by
  have hle : (s.spaces.gen kind).toNat ≤ s.asidGenNext.toNat :=
    (h.wf.ledger kind).bounded (h.wf.current kind)
  have hnumbered := h.numbered
  unfold Supervisor.Numbered at hnumbered
  omega

/-- What holds of generations after a run: no two register values share one, none that was
given up on the way is current, and the words made of them are not empty and tell
generations and privileges of the run apart. -/
structure Supervisor.KeepsGenerations (s : Supervisor) (events : List SpaceEvent) : Prop where
  distinct : (Runs.run spaceEvent s events).spaces.Distinct
  givenUp : ∀ before event after, events = before ++ event :: after → ∀ kind gen,
    (Runs.run spaceEvent s before).GivesUp event kind gen →
      (Runs.run spaceEvent s events).spaces.gen kind ≠ gen
  nonzero : ∀ (jit : Jit) kind privLevel, (jit.refreshGen
    { Runs.run spaceEvent s events with privLevel := privLevel }).word kind ≠ 0
  injective : ∀ before after, events = before ++ after →
    ∀ (jit jit' : Jit) kind kind' privLevel privLevel',
      (jit.refreshGen
          { Runs.run spaceEvent s before with privLevel := privLevel }).word kind =
        (jit'.refreshGen
          { Runs.run spaceEvent s events with privLevel := privLevel' }).word kind' →
      (Runs.run spaceEvent s before).spaces.gen kind =
        (Runs.run spaceEvent s events).spaces.gen kind' ∧ privLevel = privLevel'

/-- Every run of fewer than 2^30 - 1 allocations that does not write all ones to `satp`. -/
theorem spaceEvents_keep_generations (pc hartid : U64) (events : List SpaceEvent)
    (hfew : (new pc hartid).allocations events < 2 ^ 30 - 1)
    (hsane : ∀ event ∈ events, event.Sane) :
    (new pc hartid).KeepsGenerations events := by
  have hstart := new_orderly pc hartid
  have halong : Runs.Along spaceEvent Supervisor.Admits
      (new pc hartid) events := by
    refine along_admits ?_ hsane
    change (0#32).toNat + _ < _
    simpa using hfew
  have horderly : ∀ before after, events = before ++ after →
      (Runs.run spaceEvent (new pc hartid) before).Orderly := by
    rintro before after rfl
    exact (Runs.along_append.mp halong).1.invariant (fun _ _ h => h.step) hstart
  have hend := horderly events [] (List.append_nil events).symm
  refine ⟨Spaces.distinct_of_recalled hend.recalled, ?_, ?_, ?_⟩
  · rintro before event after rfl kind gen hgives
    have hbefore := horderly before (event :: after) rfl
    obtain ⟨hadmits, hafter⟩ := (Runs.along_append.mp halong).2
    rw [Runs.run_append]
    exact (hbefore.step hadmits).stays_retired (hbefore.retires hadmits hgives) hafter
  · intro jit kind privLevel
    rw [Jit.refreshGen_word]
    exact genWord_ne_zero (hend.gen_lt kind) privLevel
  · intro before after hsplit jit jit' kind kind' privLevel privLevel' hword
    rw [Jit.refreshGen_word, Jit.refreshGen_word] at hword
    exact genWord_inj ((horderly before after hsplit).gen_lt kind) (hend.gen_lt kind') hword

/-- Two spaces in turn, fences between them and a full forget. -/
def switchingRun : List SpaceEvent :=
  [.writeSatp 0x8000000000080001, .sfenceVma 5, .drain, .advanceChainGen,
    .writeSatp 0x8000000000080002, .writeSatp 0x8000000000080001, .fenceI]

theorem spaceEvents_keep_generations_switching :
    (new 0x80000000 0).KeepsGenerations switchingRun :=
  spaceEvents_keep_generations _ _ _ (by decide +kernel) (by decide)

/-- Writing all ones to `satp` matches an empty slot and selects generation 0: the one of
the space that was left, and one that a `fence.i` had given up. -/
theorem allOnes_satp_shares_generation :
    ((new 0x80000000 0).spaceEvent (.writeSatp (BitVec.allOnes 64))).spaces.Recalls
        .chain 0 0 ∧
      ((new 0x80000000 0).spaceEvent (.writeSatp (BitVec.allOnes 64))).spaces.Recalls
        .chain 0x0FFFFFFFFFFFFFFF 0 ∧
      (new 0x80000000 0).GivesUp .fenceI .chain 0 ∧
      (Runs.run spaceEvent (new 0x80000000 0)
        [.fenceI, .writeSatp (BitVec.allOnes 64)]).spaces.gen .chain = 0 := by
  refine ⟨Or.inr ⟨by decide, 0, by decide +kernel, by decide +kernel⟩,
    Or.inl ⟨by decide +kernel, by decide +kernel⟩, Or.inl ⟨rfl, 0, Or.inl ⟨by decide, rfl⟩⟩,
    by decide +kernel⟩

end TabLinux

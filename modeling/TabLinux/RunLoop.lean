/-
The run loop and the address spaces: what an event does to the spaces, the words
that compiled code compares with, and the invariant that ties the words to the
spaces wherever the tables are consulted.
-/
import TabLinux.MachineEffects

namespace TabLinux

open Generations Machine

variable {β : Type*} {sp : Spaces}
variable {m m' : Machine β} {event : Event β}

variable {gen : U32}

variable {privLevel : Privilege} {csr : Csr} {rd src : Reg} {val : U64} {op : CsrOp}
  {s s' : Supervisor}

theorem genWord_toNat (hgen : gen.toNat + 1 < 2 ^ 30) (privLevel : Privilege) :
    (genWord gen privLevel).toNat = 1 + 4 * gen.toNat + privLevel.bits.toNat := by
  have hor : gen <<< 2 ||| privLevel.bits.setWidth 32 = gen <<< 2 + privLevel.bits.setWidth 32 := by
    refine (BitVec.add_eq_or_of_and_eq_zero _ _ ?_).symm
    apply BitVec.eq_of_getLsbD_eq
    intro i hi
    rw [BitVec.getLsbD_and, BitVec.getLsbD_shiftLeft, BitVec.getLsbD_setWidth]
    by_cases hlow : i < 2
    · simp [hlow]
    · simp [BitVec.getLsbD_of_ge privLevel.bits i (by omega)]
  have hone : (1#32).toNat = 1 := rfl
  rw [genWord, hor, BitVec.toNat_add, BitVec.toNat_add, BitVec.toNat_shiftLeft,
    BitVec.toNat_setWidth, Nat.shiftLeft_eq, hone]
  omega

theorem Privilege.bits_inj {other : Privilege}
    (hbits : privLevel.bits = other.bits) : privLevel = other := by
  revert hbits
  cases privLevel <;> cases other <;> decide

/-- Within the range of generations in use, a word determines both its parts. -/
theorem genWord_inj {other : U32} {otherPriv : Privilege}
    (hgen : gen.toNat + 1 < 2 ^ 30) (hother : other.toNat + 1 < 2 ^ 30)
    (heq : genWord gen privLevel = genWord other otherPriv) :
    gen = other ∧ privLevel = otherPriv := by
  have hnat := congrArg BitVec.toNat heq
  rw [genWord_toNat hgen, genWord_toNat hother] at hnat
  refine ⟨BitVec.eq_of_toNat_eq (by omega), Privilege.bits_inj (BitVec.eq_of_toNat_eq ?_)⟩
  omega

theorem genWord_ne_zero (hgen : gen.toNat + 1 < 2 ^ 30) (privLevel : Privilege) :
    genWord gen privLevel ≠ 0 := by
  intro hzero
  have hnat := congrArg BitVec.toNat hzero
  rw [genWord_toNat hgen] at hnat
  simp at hnat

namespace Spaces

/-- The spaces after the run loop has drained the flush queue. -/
def drained (sp : Spaces) (hit : Bool) : Spaces :=
  if hit then { sp with pendingFlush := [] }.advanceChain else { sp with pendingFlush := [] }

theorem drained_advance (hroom : sp.Room) (hit : Bool) (kind : GenKind) :
    (sp.ledger kind).Advance ((sp.drained hit).ledger kind) := by
  cases hit with
  | false => cases kind <;> exact Ledger.Advance.refl _
  | true =>
    cases kind <;> exact @advanceChain_advance { sp with pendingFlush := [] } hroom _

theorem Wf.drained (hwf : sp.Wf) (hroom : sp.Room) (hit : Bool) :
    (sp.drained hit).Wf where
  legal := by cases hit <;> exact hwf.legal
  slots := by cases hit <;> exact hwf.slots
  ledger kind := (hwf.ledger kind).advance (drained_advance hroom hit kind)

theorem writeSatp_pendingFlush (sp : Spaces) (val : U64) :
    (sp.writeSatp val).pendingFlush = sp.pendingFlush :=
  ite_keep Spaces.pendingFlush (ite_keep Spaces.pendingFlush rfl rfl) rfl

theorem apply_next_le (hroom : sp.Room) (op : SpaceOp) :
    (sp.apply op).asidGenNext.toNat ≤ sp.asidGenNext.toNat + 1 := by
  have hsucc := hroom.toNat_succ
  have hnew : (sp.asidGenNext + 1).toNat ≤ sp.asidGenNext.toNat + 1 := by omega
  have hold : sp.asidGenNext.toNat ≤ sp.asidGenNext.toNat + 1 := Nat.le_succ _
  cases op with
  | keep => exact hold
  | satp val =>
    exact ite_holds (fun sp' : Spaces => sp'.asidGenNext.toNat ≤ sp.asidGenNext.toNat + 1)
      (ite_holds (fun sp' : Spaces => sp'.asidGenNext.toNat ≤ sp.asidGenNext.toNat + 1) hold hnew)
      hold
  | page va =>
    exact ite_holds (fun sp' : Spaces => sp'.asidGenNext.toNat ≤ sp.asidGenNext.toNat + 1) hold hnew
  | all | code => exact hnew

end Spaces

/-- The filter reports one of the pages about to be flushed. -/
def Machine.flushHitsChain (m : Machine β) : Bool :=
  m.cpu.pendingFlush.any fun va => m.jit.pageMayHaveKeys va m.cpu.transGen

theorem Machine.drainFlush_spaces (m : Machine β) :
    m.drainFlush.cpu.spaces = m.cpu.spaces.drained m.flushHitsChain := by
  unfold drainFlush
  by_cases hempty : m.cpu.pendingFlush = []
  · have hmiss : m.flushHitsChain = false := by simp [flushHitsChain, hempty]
    have hqueue : m.cpu.spaces.pendingFlush = [] := hempty
    rw [if_pos hempty, hmiss]
    change m.cpu.spaces = { m.cpu.spaces with pendingFlush := [] }
    rw [← hqueue]
  · rw [if_neg hempty]
    change Supervisor.spaces (if m.flushHitsChain = true then _ else _) = _
    cases m.flushHitsChain <;> rfl

theorem Machine.syncIcache_spaces (m : Machine β) : m.syncIcache.cpu.spaces = m.cpu.spaces :=
  ite_keep (fun m' : Machine β => m'.cpu.spaces) rfl rfl

section

variable [Bus β]

theorem Machine.interpret_spaces [FloatOps] (m : Machine β) :
    m.interpret.cpu.spaces = m.cpu.spaces.apply (m.cpu.stepSpaceOp m.bus) := by
  rw [← Supervisor.step_spaces]
  exact ite_keep Supervisor.spaces rfl rfl

/-- The spaces after an event that is allowed. -/
def Machine.spacesAfter (m : Machine β) : Event β → Spaces
  | .service _ => m.cpu.spaces.drained m.flushHitsChain
  | .interpret => m.cpu.spaces.apply (m.cpu.stepSpaceOp m.bus)
  | .act (.csr csr _ src val op _) =>
      if m.cpu.csrDenied csr op src then m.cpu.spaces
      else m.cpu.spaces.apply (m.cpu.csrSpaceOp csr src val op)
  | _ => m.cpu.spaces

/-- Looking up a block touches the fetch caches of the hart only. -/
theorem Jit.lookup_effect (jit : Jit) (s : Supervisor) (bus : β) :
    FetchEffect s (jit.lookup s bus).2.2.1 := by
  have houtcome := jit.lookup_outcome s bus
  rcases hres : jit.lookup s bus with ⟨hit, jit', s', bus'⟩
  rw [hres] at houtcome
  dsimp only at houtcome ⊢
  cases houtcome with
  | cached _ => exact .refl s
  | missing _ heffect _ => exact heffect
  | found _ heffect => exact heffect

theorem CsrService.spaces_eq (hservice : CsrService m csr rd src val op m') :
    m'.cpu.spaces =
      if m.cpu.csrDenied csr op src then m.cpu.spaces
      else m.cpu.spaces.apply (m.cpu.csrSpaceOp csr src val op) := by
  have haccess := m.cpu.csrAccess_spaces m.bus csr rd src val op
  cases hservice with
  | denied pc hdenied =>
    rw [if_pos hdenied]
    rfl
  | interrupted pc mip hallowed | done mip hallowed =>
    rw [if_neg (by rw [hallowed]; decide), ← haccess]
    rfl

namespace Machine

theorem enter_jit (m : Machine β) : m.enter.jit = (m.jit.lookup m.cpu m.bus).2.1 := by
  unfold enter
  rcases m.jit.lookup m.cpu m.bus with ⟨_ | hit, jit, s, bus⟩ <;> rfl

theorem hop_jit (m : Machine β) (pc : U64) :
    (m.hop pc).jit = ((m.landAt pc).jit.lookup (m.landAt pc).cpu (m.landAt pc).bus).2.1 := by
  unfold hop
  dsimp only
  rcases (m.landAt pc).jit.lookup (m.landAt pc).cpu (m.landAt pc).bus with
    ⟨_ | hit, jit, s, bus⟩ <;> rfl

theorem enter_spaces (m : Machine β) : m.enter.cpu.spaces = m.cpu.spaces := by
  have heffect := m.jit.lookup_effect m.cpu m.bus
  unfold enter
  rcases hres : m.jit.lookup m.cpu m.bus with ⟨_ | hit, jit, s, bus⟩ <;>
    rw [hres] at heffect <;> exact heffect.spaces_eq

theorem hop_spaces (m : Machine β) (pc : U64) : (m.hop pc).cpu.spaces = m.cpu.spaces := by
  have heffect := (m.landAt pc).jit.lookup_effect (m.landAt pc).cpu (m.landAt pc).bus
  unfold hop
  dsimp only
  rcases hres : (m.landAt pc).jit.lookup (m.landAt pc).cpu (m.landAt pc).bus with
    ⟨_ | hit, jit, s, bus⟩ <;> rw [hres] at heffect <;> exact heffect.spaces_eq

theorem perform_spaces [FloatOps] (m : Machine β) (event : Event β) :
    (m.perform event).cpu.spaces = m.spacesAfter event := by
  cases event with
  | service tick =>
    exact (syncIcache_spaces _).trans (drainFlush_spaces _)
  | choose =>
    refine ite_keep (fun m' : Machine β => m'.cpu.spaces) ?_ rfl
    exact ite_keep (fun m' : Machine β => m'.cpu.spaces) rfl rfl
  | enter => exact m.enter_spaces
  | interpret => exact m.interpret_spaces
  | act act =>
    cases act with
    | regs x f | device effect => rfl
    | load width addr pc => exact (m.jitLoad_effect width addr pc).1.spaces_eq
    | store width addr val pc => exact (m.jitStore_effect width addr val pc).1.spaces_eq
    | inlineStore width addr val =>
      change (m.inlineStore width addr val).cpu.spaces = _
      rw [m.inlineStore_eq width addr val]
      rfl
    | csr csr rd src val op pc =>
      exact (m.jitCsr_service csr rd src val op pc).spaces_eq
    | fp call pc => exact (m.jitFp_effect call pc).1.spaces_eq
    | hop pc => exact m.hop_spaces pc
  | leave pc =>
    exact ite_keep (fun m' : Machine β => m'.cpu.spaces) rfl rfl
  | build ok =>
    exact ite_keep (fun m' : Machine β => m'.cpu.spaces) rfl rfl
  | installed tableBase =>
    exact ite_keep (fun m' : Machine β => m'.cpu.spaces) rfl rfl
  | discard | enable on => rfl

end Machine

end

/-- The tables are consulted here: by the run loop, or by compiled code that has
not faulted. -/
def Machine.probing (m : Machine β) : Bool :=
  m.phase = .ready || (m.phase = .compiled && m.cpu.cpu.jitFault = 0)

theorem Machine.probing_iff :
    m.probing = true ↔ m.phase = .ready ∨ (m.phase = .compiled ∧ m.cpu.cpu.jitFault = 0) := by
  simp [probing]

/-- The phases in which the tables may be consulted. -/
def Phase.consults : Phase → Bool
  | .ready | .compiled => true
  | _ => false

theorem Machine.not_probing (hphase : m.phase.consults = false) : ¬ m.probing = true := by
  rw [probing_iff]
  rintro (hready | ⟨hcompiled, -⟩)
  · rw [hready] at hphase
    cases hphase
  · rw [hcompiled] at hphase
    cases hphase

theorem Machine.not_probing_of_fault (hphase : m.phase = .compiled)
    (hfault : m.cpu.cpu.jitFault ≠ 0) : ¬ m.probing = true := by
  rw [probing_iff, hphase]
  exact fun h => h.elim (by decide) fun h => hfault h.2

/-- The words that the hart's state calls for. -/
def Supervisor.genWords (s : Supervisor) : U32 × U32 :=
  (genWord s.transGen s.privLevel, genWord s.dataTransGen s.privLevel)

/-- The words that entries are compared with. -/
def Jit.genWords (jit : Jit) : U32 × U32 := (jit.chainGen, jit.dataGen)

theorem HartEffect.genWords_eq (h : HartEffect s s') : s'.genWords = s.genWords := by
  rw [h]
  rfl

theorem FetchEffect.genWords_eq (h : FetchEffect s s') : s'.genWords = s.genWords := by
  rw [h]
  rfl

theorem Jit.noteKeyPageFrom_eq (jit : Jit) (vpn : U64) (transGen : U32)
    (probes : List Nat) :
    jit.noteKeyPageFrom vpn transGen probes =
      { jit with
        keyVpns := (jit.noteKeyPageFrom vpn transGen probes).keyVpns
        keyVpnsFull := (jit.noteKeyPageFrom vpn transGen probes).keyVpnsFull } := by
  induction probes with
  | nil => rfl
  | cons probe probes ih =>
    rw [noteKeyPageFrom]
    split
    · rfl
    split
    · rfl
    · exact ih

/-- Inserting keys changes the two key tables and the filter. -/
theorem Jit.insertKeys_eq (jit : Jit) (s : Supervisor) (hit : Hit) :
    jit.insertKeys s hit =
      { jit with
        vcache := Function.update jit.vcache (vcacheIndex (vcacheKey s.cpu.pc s.privLevel))
          ⟨vcacheKey s.cpu.pc s.privLevel, s.transGen, hit⟩
        chain := Function.update jit.chain (chainIndex s.cpu.pc) ⟨s.cpu.pc, jit.chainGen, hit.idx⟩
        keyVpns := (jit.insertKeys s hit).keyVpns
        keyVpnsFull := (jit.insertKeys s hit).keyVpnsFull } :=
  noteKeyPageFrom_eq _ _ _ _

section

variable [Bus β]

theorem Jit.lookup_genWords (jit : Jit) (s : Supervisor) (bus : β) :
    (jit.lookup s bus).2.1.genWords = jit.genWords := by
  have houtcome := jit.lookup_outcome s bus
  rcases hres : jit.lookup s bus with ⟨hit, jit', s', bus'⟩
  rw [hres] at houtcome
  dsimp only at houtcome ⊢
  cases houtcome with
  | cached _ => rfl
  | missing _ _ hjit =>
    rw [hjit]
    rfl
  | found _ _ =>
    rw [insertKeys_eq]
    rfl

end

/-- The words are right wherever the tables are consulted. -/
def Machine.Synced (m : Machine β) : Prop :=
  m.probing = true → m.jit.genWords = m.cpu.genWords

theorem Machine.Synced.of_eq (hwords : m.jit.genWords = m.cpu.genWords)
    (hjit : m'.jit.genWords = m.jit.genWords) (hcpu : m'.cpu.genWords = m.cpu.genWords) :
    m'.Synced := by
  intro _
  rw [hjit, hcpu, hwords]

theorem Machine.Synced.of_phase (hphase : m.phase.consults = false) : m.Synced :=
  fun hprobing => absurd hprobing (not_probing hphase)

section

variable [Bus β]

theorem Machine.Synced.choose (m : Machine β) : m.choose.Synced := by
  unfold Machine.choose
  split
  · dsimp only
    split
    · exact .of_phase rfl
    · exact fun _ => rfl
  · exact .of_phase rfl

theorem Machine.Synced.enter (hwords : m.jit.genWords = m.cpu.genWords) : m.enter.Synced := by
  have heffect := m.jit.lookup_effect m.cpu m.bus
  have hjit := m.jit.lookup_genWords m.cpu m.bus
  unfold Machine.enter
  rcases hres : m.jit.lookup m.cpu m.bus with ⟨_ | hit, jit, s, bus⟩ <;>
    rw [hres] at heffect hjit <;> exact .of_eq hwords hjit heffect.genWords_eq

theorem Machine.Synced.hop (hwords : m.jit.genWords = m.cpu.genWords) (pc : U64) :
    (m.hop pc).Synced := by
  have heffect := (m.landAt pc).jit.lookup_effect (m.landAt pc).cpu (m.landAt pc).bus
  have hjit := (m.landAt pc).jit.lookup_genWords (m.landAt pc).cpu (m.landAt pc).bus
  unfold Machine.hop
  dsimp only
  rcases hres : (m.landAt pc).jit.lookup (m.landAt pc).cpu (m.landAt pc).bus with
    ⟨_ | hit, jit, s, bus⟩ <;> rw [hres] at heffect hjit <;>
    exact .of_eq hwords hjit heffect.genWords_eq

theorem CsrService.synced
    (hservice : CsrService m csr rd src val op m') (hphase : m.phase = .compiled) : m'.Synced := by
  cases hservice with
  | denied pc _ =>
    exact fun hprobing => absurd hprobing
      (not_probing_of_fault hphase (m.faultAt_jitFault pc))
  | interrupted pc mip _ =>
    exact fun hprobing => absurd hprobing
      (not_probing_of_fault hphase (faultAt_jitFault _ pc))
  | done mip _ => exact fun _ => rfl

/-- What compiled code does keeps the words right. -/
theorem Machine.Synced.doAct [FloatOps] (hwords : m.jit.genWords = m.cpu.genWords)
    (hphase : m.phase = .compiled) (act : Act β) : (m.doAct act).Synced := by
  cases act with
  | regs x f | device effect => exact .of_eq hwords rfl rfl
  | load width addr pc =>
    obtain ⟨heffect, hjit, -⟩ := m.jitLoad_effect width addr pc
    exact .of_eq hwords (by rw [Machine.doAct, hjit]; rfl) heffect.genWords_eq
  | store width addr val pc =>
    obtain ⟨heffect, hjit, -⟩ := m.jitStore_effect width addr val pc
    exact .of_eq hwords (by rw [Machine.doAct, hjit]; rfl) heffect.genWords_eq
  | inlineStore width addr val =>
    rw [Machine.doAct, m.inlineStore_eq width addr val]
    exact .of_eq hwords rfl rfl
  | csr csr rd src val op pc => exact (m.jitCsr_service csr rd src val op pc).synced hphase
  | fp call pc =>
    obtain ⟨heffect, -, ⟨hjit, -⟩ | hjit⟩ := m.jitFp_effect call pc
    · exact .of_eq hwords (by rw [Machine.doAct, hjit]) heffect.genWords_eq
    intro _
    rw [Machine.doAct, hjit]
    rfl
  | hop pc => exact hop hwords pc

theorem Machine.Synced.perform [FloatOps] (hsynced : m.Synced)
    (hallows : m.allows event = true) : (m.perform event).Synced := by
  have htop : m.phase = .top → ∀ m' : Machine β, m'.phase = m.phase → m'.Synced := by
    intro hphase m' hsame
    exact .of_phase (by rw [hsame, hphase]; rfl)
  cases event with
  | service tick => exact .of_phase rfl
  | choose => exact choose m
  | enter =>
    exact enter (hsynced (probing_iff.mpr (Or.inl (of_decide_eq_true hallows))))
  | interpret => exact .of_phase rfl
  | act act =>
    simp only [allows, Bool.and_eq_true, decide_eq_true_eq] at hallows
    exact doAct (hsynced (probing_iff.mpr (Or.inr hallows))) hallows.1 act
  | leave pc =>
    exact ite_holds Machine.Synced (.of_phase rfl) (.of_phase rfl)
  | build ok =>
    refine htop (of_decide_eq_true hallows) _ ?_
    exact ite_keep (fun m' : Machine β => m'.phase) rfl rfl
  | installed tableBase =>
    refine htop (of_decide_eq_true hallows) _ ?_
    exact ite_keep (fun m' : Machine β => m'.phase) rfl rfl
  | discard | enable on => exact htop (of_decide_eq_true hallows) _ rfl

theorem Supervisor.csrSpaceOp_pendingFlush (s : Supervisor) (csr : Csr) (src : Reg)
    (val : U64) (op : CsrOp) :
    (s.spaces.apply (s.csrSpaceOp csr src val op)).pendingFlush = s.spaces.pendingFlush := by
  unfold csrSpaceOp
  split
  · exact Spaces.writeSatp_pendingFlush _ _
  · rfl

/-- Past the loop's bookkeeping the flush queue is empty. -/
def Machine.Drained (m : Machine β) : Prop :=
  m.phase ≠ .top → m.cpu.spaces.pendingFlush = []

theorem Machine.Drained.perform [FloatOps] (hdrained : m.Drained)
    (hallows : m.allows event = true) : (m.perform event).Drained := by
  have hqueue : ∀ phase, m.phase = phase → phase ≠ .top → m.cpu.spaces.pendingFlush = [] :=
    fun phase hphase hne => hdrained (by rw [hphase]; exact hne)
  have hspaces := m.perform_spaces event
  intro hne
  rw [hspaces]
  cases event with
  | service tick => cases hhit : m.flushHitsChain <;> rw [spacesAfter, hhit] <;> rfl
  | choose => exact hqueue _ (of_decide_eq_true hallows) (by decide)
  | enter => exact hqueue _ (of_decide_eq_true hallows) (by decide)
  | interpret => exact absurd rfl hne
  | act act =>
    simp only [allows, Bool.and_eq_true, decide_eq_true_eq] at hallows
    have hempty := hqueue _ hallows.1 (by decide)
    cases act with
    | csr csr rd src val op pc =>
      rw [spacesAfter]
      split
      · exact hempty
      · exact (m.cpu.csrSpaceOp_pendingFlush csr src val op).trans hempty
    | _ => exact hempty
  | leave pc => exact hqueue _ (of_decide_eq_true hallows) (by decide)
  | build ok =>
    refine absurd (Eq.trans ?_ (of_decide_eq_true hallows)) hne
    exact ite_keep (fun m' : Machine β => m'.phase) rfl rfl
  | installed tableBase =>
    refine absurd (Eq.trans ?_ (of_decide_eq_true hallows)) hne
    exact ite_keep (fun m' : Machine β => m'.phase) rfl rfl
  | discard | enable on => exact absurd (of_decide_eq_true hallows) hne

/-- The condition under which the spaces stay in order: the generation counter
stays clear of its end, and `satp` is not set to all ones. -/
def Machine.SpacesCovered (m : Machine β) (event : Event β) : Prop :=
  m.cpu.asidGenNext.toNat + 2 < 2 ^ 30 ∧
    match event with
    | .interpret => (m.cpu.stepSpaceOp m.bus).Sane
    | .act (.csr csr _ src val op _) =>
        m.cpu.csrDenied csr op src = false → (m.cpu.csrSpaceOp csr src val op).Sane
    | _ => True

/-- What holds of the machine between events. -/
structure LoopInv (m : Machine β) : Prop where
  wf : m.cpu.spaces.Wf
  bound : m.cpu.spaces.asidGenNext.toNat + 1 < 2 ^ 30
  drained : m.Drained
  synced : m.Synced

omit [Bus β] in
theorem LoopInv.room (hinv : LoopInv m) : m.cpu.spaces.Room := by
  have hbound := hinv.bound
  unfold Spaces.Room
  omega

omit [Bus β] in
theorem LoopInv.queue_of_probing (hinv : LoopInv m) (hprobing : m.probing = true) :
    m.cpu.spaces.pendingFlush = [] := by
  refine hinv.drained fun htop => ?_
  rw [probing_iff, htop] at hprobing
  exact hprobing.elim (by decide) fun h => absurd h.1 (by decide)

/-- An operation on the spaces advances both ledgers and takes at most one
generation. -/
structure Spaces.Moves (sp sp' : Spaces) : Prop where
  wf : sp'.Wf
  next : sp'.asidGenNext.toNat ≤ sp.asidGenNext.toNat + 1
  advance : ∀ kind, (sp.ledger kind).Advance (sp'.ledger kind)

omit [Bus β] in
theorem Spaces.Wf.moves_apply (hwf : sp.Wf) (hroom : sp.Room) {op : SpaceOp}
    (hsane : op.Sane) : sp.Moves (sp.apply op) :=
  ⟨hwf.apply hroom hsane, Spaces.apply_next_le hroom op, Spaces.apply_advance hwf hroom hsane⟩

omit [Bus β] in
theorem Spaces.Wf.moves_self (hwf : sp.Wf) : sp.Moves sp :=
  ⟨hwf, Nat.le_succ _, fun _ => Ledger.Advance.refl _⟩

omit [Bus β] in
theorem Spaces.Wf.moves_drained (hwf : sp.Wf) (hroom : sp.Room) (hit : Bool) :
    sp.Moves (sp.drained hit) := by
  refine ⟨hwf.drained hroom hit, ?_, Spaces.drained_advance hroom hit⟩
  have hsucc := hroom.toNat_succ
  cases hit with
  | true =>
    change (sp.asidGenNext + 1).toNat ≤ _
    omega
  | false => exact Nat.le_succ _

theorem LoopInv.moves (hinv : LoopInv m) (hcond : m.SpacesCovered event) :
    m.cpu.spaces.Moves (m.spacesAfter event) := by
  cases event with
  | service tick => exact hinv.wf.moves_drained hinv.room _
  | interpret => exact hinv.wf.moves_apply hinv.room hcond.2
  | act act =>
    cases act with
    | csr csr rd src val op pc =>
      rw [spacesAfter]
      split
      · exact hinv.wf.moves_self
      · rename_i hallowed
        exact hinv.wf.moves_apply hinv.room (hcond.2 (Bool.eq_false_iff.mpr hallowed))
    | _ => exact hinv.wf.moves_self
  | _ => exact hinv.wf.moves_self

theorem LoopInv.perform [FloatOps] (hinv : LoopInv m) (hallows : m.allows event = true)
    (hcond : m.SpacesCovered event) : LoopInv (m.perform event) := by
  have hmoves := hinv.moves hcond
  rw [← m.perform_spaces event] at hmoves
  have hroom : m.cpu.spaces.asidGenNext.toNat + 2 < 2 ^ 30 := hcond.1
  have hnext := hmoves.next
  exact ⟨hmoves.wf, by omega, hinv.drained.perform hallows, hinv.synced.perform hallows⟩

omit [Bus β] in
theorem LoopInv.start {cpu : Supervisor} (hreset : cpu.spaces.Reset)
    (hroom : cpu.asidGenNext.toNat + 1 < 2 ^ 30) (bus : β) (dram : DramWindow) :
    LoopInv (new cpu bus dram) where
  wf := hreset.wf
  bound := hroom
  drained _ := hreset.drained
  synced := .of_phase rfl

end

theorem loopCpu_reset : loopCpu.spaces.Reset where
  legal := Or.inr rfl
  empty _ := rfl
  gen kind := by cases kind <;> rfl
  drained := rfl

end TabLinux

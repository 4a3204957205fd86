/-
The lookup cache against translation.  A hit skips the walk and its permission check, so
the key has to determine the PC and the privilege.  It does for PCs whose top three bits
agree; the privilege is folded into the top two, and a PC outside that range shares its key
with another PC at another privilege.
-/
import TabLinux.TlbTransparency
import TabLinux.BlockLookup

namespace TabLinux

open Runs

variable {pc pa : U64} {s : Supervisor} {mem : Ram} {hit : Hit} {event : LookupEvent}
  {jit : Jit} {events : List LookupEvent}

variable {p q : Privilege}

/-- The hart, memory and the block tables. -/
structure LookupState where
  jit : Jit
  cpu : Supervisor
  mem : Ram

/-- The hart at a PC and a privilege level. -/
def Supervisor.arriveAt (s : Supervisor) (privLevel : Privilege) (pc : U64) :
    Supervisor :=
  { s with privLevel := privLevel, cpu := { s.cpu with pc := pc } }

/-- What happens in one address space: a lookup at any PC, traps and returns, other changes
of privilege and status, translations for data and for fetches, changes of memory, and the
host at work on the queue of blocks. -/
inductive LookupEvent where
  | lookup (pc : U64)
  | trap (trap : Trap) (faultVaddr : Option U64)
  | mret
  | sret
  | context (privLevel : Privilege) (mstatus : MStatus)
  | access (privLevel : Privilege) (sum mxr : Bool) (access : AccessType) (vaddr : U64)
  | fetch (vaddr : U64)
  | memory (mem : Ram)
  | refresh
  | build
  | installed (batch : List Built) (tableBase : U32)

def LookupState.step (st : LookupState) : LookupEvent → LookupState
  | .lookup pc =>
      let (_, jit, cpu, mem) := st.jit.lookup (st.cpu.arriveAt st.cpu.privLevel pc) st.mem
      ⟨jit, cpu, mem⟩
  | .trap trap faultVaddr => { st with cpu := (st.cpu.takeTrapWithVaddr trap faultVaddr).2 }
  | .mret => { st with cpu := st.cpu.doMret.2 }
  | .sret => { st with cpu := st.cpu.doSret.2 }
  | .context privLevel mstatus =>
      { st with cpu := { st.cpu with privLevel := privLevel, mstatus := mstatus } }
  | .access privLevel sum mxr access vaddr =>
      let (_, mmu, mem) := st.cpu.mmu.translate st.mem st.cpu.satp privLevel sum mxr access vaddr
      { st with cpu := { st.cpu with mmu := mmu }, mem := mem }
  | .fetch vaddr =>
      let (_, cpu, mem) := st.cpu.fetchTranslate st.mem vaddr
      { st with cpu := cpu, mem := mem }
  | .memory mem => { st with mem := mem }
  | .refresh => { st with jit := st.jit.refreshGen st.cpu }
  | .build => { st with jit := { st.jit with pending := [] } }
  | .installed batch tableBase => { st with jit := st.jit.installed batch tableBase }

/-- The page tables are left to the MMU. -/
def LookupState.KeepsTables (st : LookupState) : LookupEvent → Prop
  | .memory mem => TablesKept st.cpu.satp st.mem mem
  | _ => True

/-- The slot of a physical address holds this compiled block. -/
def Jit.Holds (jit : Jit) (pa : U64) (hit : Hit) : Prop :=
  jit.slots (blockIndex pa) = ⟨pa, .compiled hit⟩

/-- The slot of a physical address has held this compiled block at some time of a run. -/
def HeldDuring (start : LookupState) (events : List LookupEvent) (pa : U64)
    (hit : Hit) : Prop :=
  ∃ earlier, earlier <+: events ∧ (run LookupState.step start earlier).jit.Holds pa hit

/-- If a lookup at a PC and a privilege returns a block, the PC can be fetched from there
and the block is the one of its physical address. -/
def LookupState.Agrees (st : LookupState) (blockOf : U64 → Hit → Prop)
    (privLevel : Privilege) (pc : U64) : Prop :=
  let s := st.cpu.arriveAt privLevel pc
  ∀ hit, (st.jit.lookup s st.mem).1 = some hit →
    ∃ pa, (s.translate st.mem .instruction pc).1 = .ok pa ∧ blockOf pa hit

/-- The top three bits of an address agree. -/
def TopBitsAgree (pc : U64) : Prop :=
  pc.getLsbD 63 = pc.getLsbD 61 ∧ pc.getLsbD 62 = pc.getLsbD 61

instance (pc : U64) : Decidable (TopBitsAgree pc) :=
  inferInstanceAs (Decidable (_ ∧ _))

theorem canonical_topBitsAgree (hcanonical : canonical pc = true) : TopBitsAgree pc := by
  have hbit : ∀ i, pc.getLsbD (38 + i) = (pc >>> 38).getLsbD i := by
    intro i
    rw [BitVec.getLsbD_ushiftRight]
  rw [TopBitsAgree, hbit 25, hbit 23, hbit 24]
  rw [canonical, Bool.or_eq_true, beq_iff_eq, beq_iff_eq] at hcanonical
  rcases hcanonical with hlow | hhigh
  · rw [hlow]
    decide
  · rw [hhigh]
    decide

/-- The key keeps bit 61 and adds the privilege to the two bits above it. -/
theorem getLsbD_vcacheKey (pc : U64) (privLevel : Privilege) :
    (vcacheKey pc privLevel).getLsbD 61 = pc.getLsbD 61 ∧
      (vcacheKey pc privLevel).getLsbD 62 = (pc.getLsbD 62 ^^ privLevel.bits.getLsbD 0) ∧
      (vcacheKey pc privLevel).getLsbD 63 = (pc.getLsbD 63 ^^ privLevel.bits.getLsbD 1) := by
  simp [vcacheKey]

theorem Privilege.eq_of_getLsbD_bits (h0 : p.bits.getLsbD 0 = q.bits.getLsbD 0)
    (h1 : p.bits.getLsbD 1 = q.bits.getLsbD 1) : p = q := by
  revert h0 h1
  cases p <;> cases q <;> decide

theorem vcacheKey_inj {other : U64} (hpc : TopBitsAgree pc)
    (hother : TopBitsAgree other) (hkey : vcacheKey pc p = vcacheKey other q) :
    pc = other ∧ p = q := by
  obtain ⟨h61, h62, h63⟩ := getLsbD_vcacheKey pc p
  obtain ⟨g61, g62, g63⟩ := getLsbD_vcacheKey other q
  rw [hkey] at h61 h62 h63
  -- bit 61 is not touched, and it gives away the two bits above it
  have hbit : pc.getLsbD 61 = other.getLsbD 61 := h61.symm.trans g61
  rw [g62, hpc.2, hother.2, hbit, Bool.xor_right_inj] at h62
  rw [g63, hpc.1, hother.1, hbit, Bool.xor_right_inj] at h63
  have hpriv : p = q := Privilege.eq_of_getLsbD_bits h62.symm h63.symm
  subst hpriv
  exact ⟨(BitVec.xor_left_inj _).mp hkey, rfl⟩

/-- Nothing has changed that a fetch can see. -/
structure SameAnswers (before after : Supervisor × Ram) : Prop where
  caches : CachesSound after
  satp : after.1.satp = before.1.satp
  answers : ∀ privLevel vaddr, fetchAnswer after.2 before.1.satp privLevel vaddr =
    fetchAnswer before.2 before.1.satp privLevel vaddr

theorem SameAnswers.refl {state : Supervisor × Ram} (h : CachesSound state) :
    SameAnswers state state :=
  ⟨h, rfl, fun _ _ => rfl⟩

theorem SameAnswers.trans {first second third : Supervisor × Ram}
    (h : SameAnswers first second) (h' : SameAnswers second third) :
    SameAnswers first third where
  caches := h'.caches
  satp := h'.satp.trans h.satp
  answers privLevel vaddr := by
    have hanswer := h'.answers privLevel vaddr
    rw [h.satp] at hanswer
    exact hanswer.trans (h.answers privLevel vaddr)

theorem CachesSound.translate_same (h : CachesSound (s, mem)) (vaddr : U64) :
    SameAnswers (s, mem) (s.translate mem .instruction vaddr).2 where
  caches := (h.translate vaddr).1
  satp := by rw [s.translate_state mem .instruction vaddr]
  answers := (h.translate vaddr).2

/-- Reading an instruction for a trace does what its translation does. -/
theorem Supervisor.debugFetch_state (s : Supervisor) (mem : Ram) (vaddr : U64) :
    (s.debugFetch mem vaddr).2 = (s.translate mem .instruction vaddr).2 := by
  unfold debugFetch
  rcases s.translate mem .instruction vaddr with ⟨_ | paddr, s', mem'⟩
  · rfl
  dsimp only
  split
  · split <;> rfl
  · rfl

theorem CachesSound.traceFrom_same (start : U64) (fuel : Nat) (h : CachesSound (s, mem))
    (pc : U64) (seen : List U32) :
    SameAnswers (s, mem) (s.traceFrom mem start fuel pc seen).2 := by
  induction fuel generalizing s mem pc seen with
  | zero => exact .refl h
  | succ fuel ih =>
    have hfetch : SameAnswers (s, mem) (s.debugFetch mem pc).2 := by
      rw [s.debugFetch_state mem pc]
      exact h.translate_same pc
    rw [Supervisor.traceFrom]
    split
    · exact .refl h
    split
    · exact .refl h
    rcases hres : s.debugFetch mem pc with ⟨_ | ⟨half, width, raw⟩, s', mem'⟩ <;>
      rw [hres] at hfetch
    · exact hfetch
    dsimp only
    split
    · exact hfetch
    split
    · exact hfetch
    split
    · split
      · exact hfetch
      · exact hfetch.trans (ih hfetch.caches _ _)
    split
    · split
      · exact hfetch
      · exact hfetch.trans (ih hfetch.caches _ _)
    · exact hfetch

/-- What arriving at a block start does: nothing, or it finds the block of the
physical address, or changes the slot of that address, which held no compiled block of it. -/
inductive BlockStart (jit : Jit) (s : Supervisor) (mem : Ram) : Option Hit → Jit → Prop
  | nothing : BlockStart jit s mem none jit
  | finds {pa : U64} {hit : Hit}
      (htranslate : (s.translate mem .instruction s.cpu.pc).1 = .ok pa)
      (hholds : jit.Holds pa hit) : BlockStart jit s mem (some hit) jit
  | marks {pa : U64} {jit' : Jit} {slot : Slot}
      (htranslate : (s.translate mem .instruction s.cpu.pc).1 = .ok pa)
      (hholds : ∀ hit, ¬ jit.Holds pa hit)
      (hslots : jit'.slots = Function.update jit.slots (blockIndex pa) slot) :
      BlockStart jit s mem none jit'

theorem CachesSound.onBlockStart (h : CachesSound (s, mem)) (jit : Jit) :
    BlockStart jit s mem (jit.onBlockStart s mem).1 (jit.onBlockStart s mem).2.1 ∧
      SameAnswers (s, mem) (jit.onBlockStart s mem).2.2 := by
  have hsame := h.translate_same s.cpu.pc
  unfold Jit.onBlockStart
  rcases hres : s.translate mem .instruction s.cpu.pc with ⟨trap | pa, s', mem'⟩ <;>
    rw [hres] at hsame
  · exact ⟨.nothing, hsame⟩
  have htranslate : (s.translate mem .instruction s.cpu.pc).1 = .ok pa := by rw [hres]
  have hrun := hsame.trans (hsame.caches.traceFrom_same s'.cpu.pc maxRun s'.cpu.pc [])
  dsimp only
  split
  · rename_i htag
    refine ⟨.marks htranslate ?_ rfl, hsame⟩
    intro hit hholds
    rw [Jit.Holds] at hholds
    rw [hholds] at htag
    exact htag rfl
  · rename_i htag
    rw [not_not] at htag
    have hother : ∀ state, (jit.slots (blockIndex pa)).state = state →
        (∀ hit, state ≠ .compiled hit) → ∀ hit, ¬ jit.Holds pa hit := by
      rintro state rfl hne hit hholds
      rw [Jit.Holds] at hholds
      exact hne hit (by rw [hholds])
    split
    · rename_i hit hstate
      have hslot : jit.slots (blockIndex pa) = ⟨(jit.slots (blockIndex pa)).tag,
          (jit.slots (blockIndex pa)).state⟩ := rfl
      rw [htag, hstate] at hslot
      exact ⟨.finds htranslate hslot, hsame⟩
    · exact ⟨.nothing, hsame⟩
    · exact ⟨.nothing, hsame⟩
    rename_i seen hstate
    have hcold := hother _ hstate (fun _ h => nomatch h)
    split
    · exact ⟨.marks htranslate hcold rfl, hsame⟩
    split
    · exact ⟨.marks htranslate hcold rfl, hrun⟩
    · exact ⟨.marks htranslate hcold rfl, hrun⟩

/-- Every entry of the lookup cache that is live in this address space stands under the key
of a PC and a privilege whose physical address the block belongs to. -/
def KeysAgree (blockOf : U64 → Hit → Prop) (st : LookupState) : Prop :=
  ∀ i, (st.jit.vcache i).gen = st.cpu.transGen → ∃ pc privLevel pa,
    TopBitsAgree pc ∧ (st.jit.vcache i).key = vcacheKey pc privLevel ∧
      fetchAnswer st.mem st.cpu.satp privLevel pc = .ok pa ∧
      blockOf pa (st.jit.vcache i).hit

structure LookupInv (blockOf : U64 → Hit → Prop) (st : LookupState) : Prop where
  caches : CachesSound (st.cpu, st.mem)
  keys : KeysAgree blockOf st

variable {blockOf : U64 → Hit → Prop} {st : LookupState}

theorem LookupInv.mono {blockOf' : U64 → Hit → Prop}
    (h : LookupInv blockOf st) (hmono : ∀ pa hit, blockOf pa hit → blockOf' pa hit) :
    LookupInv blockOf' st := by
  refine ⟨h.caches, ?_⟩
  intro i hgen
  obtain ⟨pc, privLevel, pa, hpc, hkey, hanswer, hblock⟩ := h.keys i hgen
  exact ⟨pc, privLevel, pa, hpc, hkey, hanswer, hmono _ _ hblock⟩

/-- Steps that leave the lookup cache, the generation and the answers alone. -/
theorem LookupInv.of_same {st' : LookupState} (h : LookupInv blockOf st)
    (hvcache : st'.jit.vcache = st.jit.vcache) (hgen : st'.cpu.transGen = st.cpu.transGen)
    (hsame : SameAnswers (st.cpu, st.mem) (st'.cpu, st'.mem)) : LookupInv blockOf st' := by
  refine ⟨hsame.caches, ?_⟩
  intro i hlive
  rw [hvcache, hgen] at hlive
  obtain ⟨pc, privLevel, pa, hpc, hkey, hanswer, hblock⟩ := h.keys i hlive
  have hsatp : st'.cpu.satp = st.cpu.satp := hsame.satp
  have hnow : fetchAnswer st'.mem st.cpu.satp privLevel pc = .ok pa :=
    (hsame.answers privLevel pc).trans hanswer
  rw [hvcache]
  exact ⟨pc, privLevel, pa, hpc, hkey, by rw [hsatp]; exact hnow, hblock⟩

/-- The caches of the hart do not depend on where it is. -/
theorem CachesSound.arriveAt (h : CachesSound (s, mem)) (privLevel : Privilege)
    (pc : U64) : CachesSound (s.arriveAt privLevel pc, mem) :=
  ⟨h.tlb, h.fetch⟩

/-- A live entry under the key of a PC is an answer for that PC. -/
theorem LookupInv.cached (h : LookupInv blockOf st) {privLevel : Privilege}
    (hpc : TopBitsAgree pc) (hhit : st.jit.vcacheHit (st.cpu.arriveAt privLevel pc) = some hit) :
    ∃ pa, fetchAnswer st.mem st.cpu.satp privLevel pc = .ok pa ∧ blockOf pa hit := by
  unfold Jit.vcacheHit at hhit
  dsimp only at hhit
  split at hhit
  · rename_i hlive
    cases hhit
    obtain ⟨other, q, pa, hother, hkey, hanswer, hblock⟩ := h.keys _ hlive.2
    obtain ⟨rfl, rfl⟩ := vcacheKey_inj hpc hother (hlive.1.symm.trans hkey)
    exact ⟨pa, hanswer, hblock⟩
  · cases hhit

theorem LookupInv.agrees (h : LookupInv blockOf st)
    (hheld : ∀ pa hit, st.jit.Holds pa hit → blockOf pa hit) (privLevel : Privilege)
    (hpc : TopBitsAgree pc) : st.Agrees blockOf privLevel pc := by
  intro hit hlookup
  have hsound := h.caches.arriveAt privLevel pc
  unfold Jit.lookup at hlookup
  cases hcached : st.jit.vcacheHit (st.cpu.arriveAt privLevel pc) with
  | some cached =>
    rw [hcached] at hlookup
    cases hlookup
    obtain ⟨pa, hanswer, hblock⟩ := h.cached hpc hcached
    exact ⟨pa, (Supervisor.translate_fetchAnswer hsound.tlb pc).trans hanswer, hblock⟩
  | none =>
    rw [hcached] at hlookup
    have hstart := (hsound.onBlockStart st.jit).1
    rcases hres : st.jit.onBlockStart (st.cpu.arriveAt privLevel pc) st.mem with
      ⟨found, jit', s', mem'⟩
    rw [hres] at hlookup hstart
    cases hstart with
    | nothing => cases hlookup
    | marks => cases hlookup
    | finds htranslate hholds =>
      cases hlookup
      exact ⟨_, htranslate, hheld _ _ hholds⟩

theorem SameAnswers.arriveAt (h : CachesSound (s, mem)) (privLevel : Privilege) (pc : U64) :
    SameAnswers (s, mem) (s.arriveAt privLevel pc, mem) :=
  ⟨h.arriveAt privLevel pc, rfl, fun _ _ => rfl⟩

/-- A block inserted under the keys of the current PC. -/
theorem LookupInv.insertKeys (h : LookupInv blockOf st) (hpc : TopBitsAgree st.cpu.cpu.pc)
    (hanswer : fetchAnswer st.mem st.cpu.satp st.cpu.privLevel st.cpu.cpu.pc = .ok pa)
    (hblock : blockOf pa hit) :
    LookupInv blockOf { st with jit := st.jit.insertKeys st.cpu hit } := by
  refine ⟨h.caches, ?_⟩
  intro i hlive
  rw [Jit.insertKeys_eq] at hlive ⊢
  dsimp only at hlive ⊢
  by_cases hi : i = vcacheIndex (vcacheKey st.cpu.cpu.pc st.cpu.privLevel)
  · rw [hi, Function.update_self]
    exact ⟨_, _, pa, hpc, rfl, hanswer, hblock⟩
  · rw [Function.update_of_ne hi] at hlive ⊢
    exact h.keys i hlive

theorem LookupState.step_lookup (st : LookupState) (pc : U64) :
    st.step (.lookup pc) =
      let out := st.jit.lookup (st.cpu.arriveAt st.cpu.privLevel pc) st.mem
      ⟨out.2.1, out.2.2.1, out.2.2.2⟩ := rfl

theorem LookupInv.lookup (h : LookupInv blockOf st)
    (hheld : ∀ pa hit, st.jit.Holds pa hit → blockOf pa hit) (hpc : TopBitsAgree pc) :
    LookupInv blockOf (st.step (.lookup pc)) := by
  have harrive := SameAnswers.arriveAt h.caches st.cpu.privLevel pc
  rw [st.step_lookup pc, Jit.lookup]
  cases hcached : st.jit.vcacheHit (st.cpu.arriveAt st.cpu.privLevel pc) with
  | some cached =>
    exact @of_same blockOf st ⟨st.jit, st.cpu.arriveAt st.cpu.privLevel pc, st.mem⟩
      h rfl rfl harrive
  | none =>
    obtain ⟨hstart, hsame⟩ := harrive.caches.onBlockStart st.jit
    obtain ⟨heffect, hjit, -⟩ :=
      st.jit.onBlockStart_effect (st.cpu.arriveAt st.cpu.privLevel pc) st.mem
    rcases hres : st.jit.onBlockStart (st.cpu.arriveAt st.cpu.privLevel pc) st.mem with
      ⟨found, jit', s', mem'⟩
    rw [hres] at hstart hsame heffect hjit
    have hvcache : jit'.vcache = st.jit.vcache := by rw [show jit' = _ from hjit]
    have hgen : s'.transGen = st.cpu.transGen := by rw [show s' = _ from heffect]; rfl
    have hnext : LookupInv blockOf ⟨jit', s', mem'⟩ := h.of_same hvcache hgen (harrive.trans hsame)
    cases hstart with
    | nothing => exact hnext
    | marks => exact hnext
    | @finds pa hit htranslate hholds =>
      have hs'pc : s'.cpu.pc = pc := by rw [show s' = _ from heffect]; rfl
      have hs'priv : s'.privLevel = st.cpu.privLevel := by
        rw [show s' = _ from heffect]
        rfl
      refine hnext.insertKeys (by rw [hs'pc]; exact hpc) ?_ (hheld _ _ hholds)
      calc fetchAnswer mem' s'.satp s'.privLevel s'.cpu.pc
          = fetchAnswer mem' st.cpu.satp st.cpu.privLevel pc := by
            rw [hs'pc, hs'priv, show s'.satp = st.cpu.satp from hsame.satp]
        _ = fetchAnswer st.mem st.cpu.satp st.cpu.privLevel pc := hsame.answers _ _
        _ = .ok pa := (Supervisor.translate_fetchAnswer harrive.caches.tlb pc).symm.trans htranslate

/-- The fields of the hart that decide the answers to fetches and the live keys. -/
def Supervisor.fetchView (s : Supervisor) :
    Satp × U32 × Mmu × U64 × Privilege × U64 :=
  (s.satp, s.transGen, s.mmu, s.fetchVpn, s.fetchPriv, s.fetchPpn)

theorem LookupInv.hart (h : LookupInv blockOf st) {cpu : Supervisor}
    (hview : cpu.fetchView = st.cpu.fetchView) : LookupInv blockOf { st with cpu := cpu } := by
  simp only [Supervisor.fetchView, Prod.mk.injEq] at hview
  obtain ⟨hsatp, hgen, hmmu, hvpn, hpriv, hppn⟩ := hview
  refine h.of_same rfl hgen ⟨⟨?_, ?_⟩, hsatp, fun _ _ => rfl⟩
  · rw [hsatp, hmmu]
    exact h.caches.tlb
  intro vaddr hpage
  dsimp only at hpage ⊢
  rw [hvpn] at hpage
  rw [hsatp, hpriv, hppn]
  exact h.caches.fetch vaddr hpage

theorem Supervisor.takeTrapWithVaddr_fetchView (s : Supervisor) (trap : Trap)
    (faultVaddr : Option U64) :
    (s.takeTrapWithVaddr trap faultVaddr).2.fetchView = s.fetchView := by
  unfold takeTrapWithVaddr
  split <;> rfl

theorem CachesSound.call_same (h : CachesSound (s, mem)) (privLevel : Privilege)
    (sum mxr : Bool) (access : AccessType) (vaddr : U64) :
    SameAnswers (s, mem)
      ({ s with mmu := (s.mmu.translate mem s.satp privLevel sum mxr access vaddr).2.1 },
        (s.mmu.translate mem s.satp privLevel sum mxr access vaddr).2.2) where
  caches := h.call privLevel sum mxr access vaddr
  satp := rfl
  answers := fetchAnswer_congr fun q other => translateResult_grow
    (Mmu.translate_adGrow h.tlb privLevel sum mxr access vaddr) s.satp q false false
    .instruction other

theorem CachesSound.fetch_same (h : CachesSound (s, mem)) (vaddr : U64) :
    SameAnswers (s, mem) (s.fetchTranslate mem vaddr).2 where
  caches := h.fetchStep vaddr
  satp := by rw [show (s.fetchTranslate mem vaddr).2.1 = _ from s.fetchTranslate_effect mem vaddr]
  answers := by
    have hanswers := (h.translate vaddr).2
    unfold Supervisor.fetchTranslate
    split
    · exact fun _ _ => rfl
    · rcases hres : s.translate mem .instruction vaddr with ⟨_ | paddr, s', mem'⟩ <;>
        rw [hres] at hanswers <;> exact hanswers

theorem CachesSound.memory_same {before after : Ram} (h : CachesSound (s, before))
    (hkept : TablesKept s.satp before after) :
    SameAnswers (s, before) (s, after) where
  caches := h.memory hkept
  satp := rfl
  answers := fetchAnswer_congr fun privLevel vaddr =>
    translateResult_kept hkept privLevel false false .instruction vaddr

/-- Lookups stay where the key determines the PC. -/
def LookupEvent.InRange : LookupEvent → Prop
  | .lookup pc => TopBitsAgree pc
  | _ => True

theorem LookupInv.step (h : LookupInv blockOf st)
    (hheld : ∀ pa hit, st.jit.Holds pa hit → blockOf pa hit) (htables : st.KeepsTables event)
    (hrange : event.InRange) : LookupInv blockOf (st.step event) := by
  cases event with
  | lookup pc => exact h.lookup hheld hrange
  | trap trap faultVaddr => exact h.hart (st.cpu.takeTrapWithVaddr_fetchView trap faultVaddr)
  | mret => exact h.hart (show st.cpu.doMret.2.fetchView = _ from rfl)
  | sret => exact h.hart (show st.cpu.doSret.2.fetchView = _ from rfl)
  | context privLevel mstatus => exact ⟨⟨h.caches.tlb, h.caches.fetch⟩, h.keys⟩
  | access privLevel sum mxr access vaddr =>
    exact h.of_same rfl rfl (h.caches.call_same privLevel sum mxr access vaddr)
  | fetch vaddr =>
    refine h.of_same rfl ?_ (h.caches.fetch_same vaddr)
    change (st.cpu.fetchTranslate st.mem vaddr).2.1.transGen = _
    rw [show (st.cpu.fetchTranslate st.mem vaddr).2.1 = _ from
      st.cpu.fetchTranslate_effect st.mem vaddr]
  | memory mem => exact h.of_same rfl rfl (h.caches.memory_same htables)
  | refresh => exact h.of_same rfl rfl (.refl h.caches)
  | build => exact h.of_same rfl rfl (.refl h.caches)
  | installed batch tableBase =>
    exact h.of_same (st.jit.installed_keys batch tableBase).1 rfl (.refl h.caches)

/-- A lookup does not take the slot of a compiled block for another physical address. -/
def LookupState.KeepsBlocks (st : LookupState) : LookupEvent → Prop
  | .lookup pc =>
      let s := st.cpu.arriveAt st.cpu.privLevel pc
      ∀ pa hit, (s.translate st.mem .instruction pc).1 = .ok pa →
        (st.jit.slots (blockIndex pa)).state = .compiled hit →
          (st.jit.slots (blockIndex pa)).tag = pa
  | _ => True

theorem Jit.installOne_holds (h : jit.Holds pa hit) (built : Built) (idx : U32) :
    (jit.installOne built idx).Holds pa hit := by
  rw [Jit.Holds] at h
  unfold Jit.Holds installOne
  dsimp only
  split
  · rename_i hqueued
    by_cases hi : blockIndex pa = blockIndex built.paddr
    · rw [← hi, h] at hqueued
      cases hqueued.2
    · rw [Function.update_of_ne hi]
      exact h
  · exact h

theorem Jit.installed_holds (h : jit.Holds pa hit) (batch : List Built) (tableBase : U32) :
    (jit.installed batch tableBase).Holds pa hit := by
  have hall : (jit.installAll batch tableBase).Holds pa hit := by
    induction batch generalizing jit tableBase with
    | nil => exact h
    | cons built batch ih => exact ih (jit.installOne_holds h built tableBase) (tableBase + 1)
  exact ite_holds (fun jit' : Jit => jit'.Holds pa hit) hall hall

theorem LookupState.step_holds (h : CachesSound (st.cpu, st.mem))
    (hkeeps : st.KeepsBlocks event) (hholds : st.jit.Holds pa hit) :
    (st.step event).jit.Holds pa hit := by
  cases event with
  | lookup pc =>
    rw [st.step_lookup pc, Jit.lookup]
    cases hcached : st.jit.vcacheHit (st.cpu.arriveAt st.cpu.privLevel pc) with
    | some cached => exact hholds
    | none =>
      have hstart := ((h.arriveAt st.cpu.privLevel pc).onBlockStart st.jit).1
      rcases hres : st.jit.onBlockStart (st.cpu.arriveAt st.cpu.privLevel pc) st.mem with
        ⟨found, jit', s', mem'⟩
      rw [hres] at hstart
      cases hstart with
      | nothing => exact hholds
      | @finds _ block =>
        change (st.jit.insertKeys s' block).slots (blockIndex pa) = _
        rw [Jit.insertKeys_eq]
        exact hholds
      | @marks other _ slot htranslate hfree hslots =>
        change jit'.slots (blockIndex pa) = _
        rw [hslots]
        by_cases hi : blockIndex pa = blockIndex other
        · have hslot : st.jit.slots (blockIndex other) = ⟨pa, .compiled hit⟩ := by
            rw [← hi]
            exact hholds
          have htag := hkeeps other hit htranslate (by rw [hslot])
          rw [hslot] at htag
          cases htag
          exact absurd hholds (hfree hit)
        · rw [Function.update_of_ne hi]
          exact hholds
  | installed batch tableBase => exact st.jit.installed_holds hholds batch tableBase
  | trap | mret | sret | context | access | fetch | memory | refresh | build => exact hholds

/-- An address space that has just come into force: the caches of the hart are empty, and
no entry of the lookup cache is of its generation. -/
theorem LookupInv.start (hfresh : ∀ i, (jit.vcache i).gen ≠ s.transGen) (mem : Ram)
    (blockOf : U64 → Hit → Prop) : LookupInv blockOf ⟨jit, s.flushed, mem⟩ :=
  ⟨CachesSound.flushed s mem, fun i hlive => absurd hlive (hfresh i)⟩

variable {start : LookupState}

theorem HeldDuring.mono (h : HeldDuring start events pa hit)
    (event : LookupEvent) : HeldDuring start (events ++ [event]) pa hit := by
  obtain ⟨earlier, hprefix, hholds⟩ := h
  exact ⟨earlier, hprefix.trans (List.prefix_append events [event]), hholds⟩

theorem run_lookupInv (hstart : ∀ blockOf, LookupInv blockOf start)
    (htables : Along LookupState.step LookupState.KeepsTables start events)
    (hrange : ∀ event ∈ events, event.InRange) :
    LookupInv (HeldDuring start events) (run LookupState.step start events) := by
  induction events using List.reverseRecOn with
  | nil => exact hstart _
  | append_singleton events event ih =>
    rw [along_append] at htables
    obtain ⟨hbefore, hlast, -⟩ := htables
    have hinv := ih hbefore fun other hmem => hrange other (List.mem_append_left _ hmem)
    rw [run_concat]
    refine (hinv.mono fun pa hit hheld => hheld.mono event).step ?_ hlast
      (hrange event List.mem_concat_self)
    intro pa hit hholds
    exact ⟨events, List.prefix_append events [event], hholds⟩

theorem run_lookupInv_holds (hstart : ∀ blockOf, LookupInv blockOf start)
    (htables : Along LookupState.step LookupState.KeepsTables start events)
    (hrange : ∀ event ∈ events, event.InRange)
    (hblocks : Along LookupState.step LookupState.KeepsBlocks start events) :
    LookupInv (run LookupState.step start events).jit.Holds
      (run LookupState.step start events) := by
  have hranges : Along LookupState.step (fun _ event => event.InRange) start events :=
    along_of_forall (fun event hmem _ => hrange event hmem) start
  refine @Along.invariant _ _ LookupState.step _ (fun st => LookupInv st.jit.Holds st)
    events start ?_ (hstart _) ((htables.and hranges).and hblocks)
  rintro st event hinv ⟨⟨htable, hpc⟩, hblock⟩
  refine (hinv.step (fun _ _ hholds => hholds) htable hpc).mono ?_
  intro pa hit hholds
  exact st.step_holds hinv.caches hblock hholds

/-- In an address space whose tables are left to the MMU, and while lookups stay where the
key determines the PC: a lookup that returns a block is for a PC that can be fetched from,
and the block is one that the slot of its physical address has held.  If no lookup takes
the slot of a compiled block for another address, the slot still holds it. -/
theorem run_lookupAgrees (jit : Jit) (s : Supervisor) (mem : Ram) (events : List LookupEvent)
    (hfresh : ∀ i, (jit.vcache i).gen ≠ s.transGen)
    (htables : Along LookupState.step LookupState.KeepsTables ⟨jit, s.flushed, mem⟩ events)
    (hrange : ∀ event ∈ events, event.InRange) (privLevel : Privilege) (pc : U64)
    (hpc : TopBitsAgree pc) :
    let st := run LookupState.step ⟨jit, s.flushed, mem⟩ events
    st.Agrees (HeldDuring ⟨jit, s.flushed, mem⟩ events) privLevel pc ∧
      (Along LookupState.step LookupState.KeepsBlocks ⟨jit, s.flushed, mem⟩ events →
        st.Agrees st.jit.Holds privLevel pc) := by
  have hstart := LookupInv.start hfresh mem
  refine ⟨?_, ?_⟩
  · refine (run_lookupInv hstart htables hrange).agrees ?_ privLevel hpc
    exact fun pa hit hholds => ⟨events, List.prefix_rfl, hholds⟩
  intro hblocks
  exact (run_lookupInv_holds hstart htables hrange hblocks).agrees (fun _ _ h => h) privLevel hpc

/-- The loop at 0x100 gets hot in supervisor mode, is compiled and found, and the hart
returns to user mode. -/
def hotLookups : List LookupEvent :=
  List.replicate 16 (.lookup 0x100) ++
    [.build, .installed [⟨0x100, 8, 2, true⟩] 5, .lookup 0x100, .sret]

theorem mem_hotLookups (hmem : event ∈ hotLookups) :
    event = .lookup 0x100 ∨ event = .build ∨ event = .installed [⟨0x100, 8, 2, true⟩] 5 ∨
      event = .sret := by
  simp only [hotLookups, List.mem_append, List.mem_replicate, List.mem_cons,
    List.not_mem_nil, or_false] at hmem
  tauto

theorem hotLookups_keepsTables (start : LookupState) :
    Along LookupState.step LookupState.KeepsTables start hotLookups := by
  refine along_of_forall ?_ start
  intro event hmem st
  rcases mem_hotLookups hmem with rfl | rfl | rfl | rfl <;> trivial

theorem loopCpu_fresh (i : BitVec 12) : (Jit.new.vcache i).gen ≠ loopCpu.transGen := by
  change BitVec.allOnes 32 ≠ loopCpu.transGen
  decide

/-- A user program that jumps to a non-canonical address runs the block of the supervisor
whose key it shares. -/
theorem user_lookup_finds_supervisor_block :
    let start : LookupState := ⟨Jit.new, loopCpu.flushed, loopRam []⟩
    let st := run LookupState.step start hotLookups
    let s := st.cpu.arriveAt st.cpu.privLevel 0x4000000000000100
    (∀ i, (Jit.new.vcache i).gen ≠ loopCpu.transGen) ∧
      Along LookupState.step LookupState.KeepsTables start hotLookups ∧
      st.cpu.privLevel = .user ∧
      (st.jit.lookup s st.mem).1 = some ⟨5, 8, 2, true⟩ ∧
      (s.translate st.mem .instruction 0x4000000000000100).1 = .error (pageFault .instruction) := by
  refine ⟨loopCpu_fresh, hotLookups_keepsTables _, ?_⟩
  decide +kernel

theorem run_lookupAgrees_loop :
    let start : LookupState := ⟨Jit.new, loopCpu.flushed, loopRam []⟩
    let st := run LookupState.step start hotLookups
    (st.jit.lookup (st.cpu.arriveAt .supervisor 0x100) st.mem).1 = some ⟨5, 8, 2, true⟩ ∧
      st.Agrees (HeldDuring start hotLookups) .supervisor 0x100 := by
  refine ⟨by decide +kernel, ?_⟩
  have hpc : TopBitsAgree 0x100 := canonical_topBitsAgree (by decide)
  refine (run_lookupAgrees Jit.new loopCpu (loopRam []) hotLookups loopCpu_fresh
    (hotLookups_keepsTables _) ?_ .supervisor 0x100 hpc).1
  intro event hmem
  rcases mem_hotLookups hmem with rfl | rfl | rfl | rfl
  · exact hpc
  · trivial
  · trivial
  · trivial

end TabLinux

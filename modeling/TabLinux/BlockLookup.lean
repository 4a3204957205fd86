/-
Block lookup against address-space fences.  A key in the lookup cache or the
chain table is usable while its generation is the current one; a log of fences
and insertions says when that is legitimate.
-/
import TabLinux.RunLoop
import TabLinux.Library.Runs

namespace TabLinux

open Generations

universe u

variable {β : Type u}

/-- When, and in which address space, a key was inserted. -/
structure KeyStamp where
  satp : Satp
  time : Nat
deriving DecidableEq, Repr

/-- The time of the latest fence, for all pages and for each page, and the stamp
of every key in the two tables. -/
structure KeyLog where
  now : Nat
  fencedAll : Nat
  fencedPage : U64 → Nat
  vcache : BitVec 12 → KeyStamp
  chain : U16 → KeyStamp

def KeyLog.new : KeyLog :=
  ⟨1, 0, fun _ => 0, fun _ => ⟨Satp.default, 0⟩, fun _ => ⟨Satp.default, 0⟩⟩

/-- The time of the latest fence that covers a virtual page. -/
def KeyLog.fenced (log : KeyLog) (vpn : U64) : Nat :=
  max log.fencedAll (log.fencedPage vpn)

/-- Fences are logged as they are executed. -/
def KeyLog.fence (log : KeyLog) : SpaceOp → KeyLog
  | .page va =>
      { log with
        now := log.now + 1
        fencedPage := Function.update log.fencedPage (va >>> 12) log.now }
  | .all => { log with now := log.now + 1, fencedAll := log.now }
  | _ => log

section

variable [Bus β]

/-- A lookup that misses the cache and finds a block inserts its two keys. -/
def KeyLog.lookup (log : KeyLog) (m : Machine β) : KeyLog :=
  if m.jit.vcacheHit m.cpu = none ∧ (m.jit.lookup m.cpu m.bus).1 ≠ none then
    let key := vcacheKey m.cpu.cpu.pc m.cpu.privLevel
    let stamp : KeyStamp := ⟨m.cpu.satp, log.now⟩
    { log with
      vcache := Function.update log.vcache (vcacheIndex key) stamp
      chain := Function.update log.chain (chainIndex m.cpu.cpu.pc) stamp }
  else log

def KeyLog.record (log : KeyLog) (m : Machine β) : Event β → KeyLog
  | .interpret => log.fence (m.cpu.stepSpaceOp m.bus)
  | .enter => log.lookup m
  | .act (.hop pc) => log.lookup (m.landAt pc)
  | _ => log

end

/-- A machine with its log. -/
structure KeyLogged (β : Type u) where
  machine : Machine β
  log : KeyLog

def KeyLogged.step [FloatOps] [Bus β] (l : KeyLogged β) (event : Event β) : KeyLogged β :=
  if l.machine.allows event then
    ⟨l.machine.perform event, l.log.record l.machine event⟩
  else l

/-- The key was inserted in the current space, after the latest fence that
covers the page of `pc`. -/
def KeyStamp.Fresh (stamp : KeyStamp) (log : KeyLog) (satp : Satp) (pc : U64) :
    Prop :=
  stamp.satp = satp ∧ log.fenced (pc >>> 12) < stamp.time

/-- Every PC that would hit the lookup cache, and every PC whose chain entry
carries the current word, has a fresh key. -/
def KeyLogged.KeysFresh (l : KeyLogged β) : Prop :=
  ∀ pc : U64,
    let cpu := l.machine.cpu
    let key := vcacheKey pc cpu.privLevel
    let slot := l.machine.jit.vcache (vcacheIndex key)
    let entry := l.machine.jit.chain (chainIndex pc)
    (slot.key = key → slot.gen = cpu.transGen →
      (l.log.vcache (vcacheIndex key)).Fresh l.log cpu.satp pc) ∧
    (entry.key = pc → entry.gen = l.machine.jit.chainGen →
      (l.log.chain (chainIndex pc)).Fresh l.log cpu.satp pc)

/-- The slot's key is that of a PC on the page, at some privilege. -/
def VSlot.onPage (slot : VSlot) (vpn : U64) : Prop :=
  ∃ pc privLevel, slot.key = vcacheKey pc privLevel ∧ pc >>> 12 = vpn

def ChainEntry.onPage (entry : ChainEntry) (vpn : U64) : Prop :=
  entry.key >>> 12 = vpn

/-- A key of a generation is cached for a page. -/
def Jit.holdsKey (jit : Jit) (vpn : U64) (gen : U32) : Prop :=
  (∃ i, (jit.vcache i).onPage vpn ∧ (jit.vcache i).gen = gen) ∨
    ∃ i privLevel, (jit.chain i).onPage vpn ∧ (jit.chain i).gen = genWord gen privLevel

/-- A generation is remembered for a space other than the current one. -/
def Spaces.savedElsewhere (sp : Spaces) (gen : U32) : Prop :=
  ∃ i, (sp.asidTbl i).satp ≠ BitVec.allOnes 64 ∧ (sp.asidTbl i).satp ≠ sp.satp.toBits ∧
    (sp.asidTbl i).transGen = gen

/-- For every fenced page, the keys of the current generation are known to the
filter and no key belongs to a space that is only remembered. -/
def Machine.FlushCovers (m : Machine β) : Prop :=
  ∀ va ∈ m.cpu.pendingFlush, ∀ gen, m.jit.holdsKey (va >>> 12) gen →
    (gen = m.cpu.transGen → m.flushHitsChain = true) ∧ ¬ m.cpu.spaces.savedElsewhere gen

/-- The condition on a step: the generation counter stays clear of its end, a
flush covers its keys, and `satp` is not set to all ones. -/
def Machine.KeysCovered [Bus β] (m : Machine β) (event : Event β) : Prop :=
  m.cpu.asidGenNext.toNat + 2 < 2 ^ 30 ∧
    match event with
    | .service _ => m.FlushCovers
    | .interpret => (m.cpu.stepSpaceOp m.bus).Sane
    | .act (.csr csr _ src val op _) =>
        m.cpu.csrDenied csr op src = false → (m.cpu.csrSpaceOp csr src val op).Sane
    | _ => True

/-- Whoever may use the generation is the space in which the key was inserted,
and no page of the key has been fenced since, or its flush is still queued. -/
def KeyOk (sp : Spaces) (log : KeyLog) (stamp : KeyStamp) (onPage : U64 → Prop)
    (gen : U32) : Prop :=
  (sp.ledger .chain).Sound
    (fun satp => stamp.satp = satp ∧ ∀ vpn, onPage vpn →
      log.fenced vpn < stamp.time ∨ ∃ va ∈ sp.pendingFlush, va >>> 12 = vpn) gen.toNat

variable {sp : Spaces} {log : KeyLog} {stamp : KeyStamp} {onPage : U64 → Prop}
  {gen : U32}

/-- Forgetting every space makes any statement about an old key vacuous. -/
theorem Spaces.invalidateAll_sound {kind : GenKind} {P Q : Satp → Prop} {n : Nat}
    (hroom : sp.Room) (hsound : (sp.ledger kind).Sound P n) :
    (sp.invalidateAll.ledger kind).Sound Q n := by
  have hle : n ≤ sp.asidGenNext.toNat := hsound.1
  refine ⟨?_, fun satp hlive => ?_⟩
  · exact (hsound.advance (invalidateAll_advance hroom kind)).1
  · have hn := (invalidateAll_live hroom hlive).2
    omega

theorem KeyLog.fenced_page (log : KeyLog) {va vpn : U64} (hvpn : vpn ≠ va >>> 12) :
    (log.fence (.page va)).fenced vpn = log.fenced vpn := by
  change max log.fencedAll (Function.update log.fencedPage (va >>> 12) log.now vpn) = _
  rw [Function.update_of_ne hvpn]
  rfl

theorem KeyOk.apply (hwf : sp.Wf) (hroom : sp.Room) {op : SpaceOp} (hsane : op.Sane)
    (hok : KeyOk sp log stamp onPage gen) :
    KeyOk (sp.apply op) (log.fence op) stamp onPage gen := by
  cases op with
  | keep => exact hok
  | satp val =>
    have hadvance := Spaces.apply_advance hwf hroom hsane .chain
    refine (hok.advance hadvance).mono fun satp _ hsatp => ?_
    rw [Spaces.apply, sp.writeSatp_pendingFlush val]
    exact hsatp
  | all => exact Spaces.invalidateAll_sound hroom hok
  | code => exact Spaces.invalidateAll_sound hroom hok
  | page va =>
    change KeyOk (sp.fencePage va) _ stamp onPage gen
    unfold Spaces.fencePage
    by_cases hqueue : sp.pendingFlush.length < pendingFlushLen
    · rw [if_pos hqueue]
      refine Ledger.Sound.mono (L := sp.ledger .chain) hok fun satp _ hsatp => ?_
      refine ⟨hsatp.1, fun vpn hvpn => ?_⟩
      by_cases hva : vpn = va >>> 12
      · exact Or.inr ⟨va, by simp, hva.symm⟩
      rw [log.fenced_page hva]
      refine (hsatp.2 vpn hvpn).imp id ?_
      rintro ⟨queued, hmem, hpage⟩
      exact ⟨queued, List.mem_append_left _ hmem, hpage⟩
    · rw [if_neg hqueue]
      exact @Spaces.invalidateAll_sound { sp with pendingFlush := [] } _ _ _ _ hroom hok

theorem Spaces.savedElsewhere_of_slot (hwf : sp.Wf) {satp : Satp} (hlegal : satp.Legal)
    (hother : satp ≠ sp.satp) {i : BitVec 7} (hslot : (sp.asidTbl i).satp = satp.toBits)
    (hgen : gen.toNat = ((sp.asidTbl i).gen .chain).toNat) : sp.savedElsewhere gen := by
  refine ⟨i, ?_, ?_, (BitVec.eq_of_toNat_eq hgen).symm⟩
  · rw [hslot]
    exact hlegal.toBits_ne_allOnes
  · rw [hslot]
    exact fun hbits => hother (hlegal.eq_of_toBits_eq hwf.legal hbits)

theorem KeyOk.drained (hwf : sp.Wf) (hroom : sp.Room) {hit : Bool}
    (hcovers : ∀ va ∈ sp.pendingFlush, onPage (va >>> 12) →
      (gen = sp.transGen → hit = true) ∧ ¬ sp.savedElsewhere gen)
    (hok : KeyOk sp log stamp onPage gen) : KeyOk (sp.drained hit) log stamp onPage gen := by
  refine (hok.advance (Spaces.drained_advance hroom hit .chain)).mono ?_
  rintro satp ⟨hlegal, hlive⟩ ⟨hsatp, hfenced⟩
  refine ⟨hsatp, fun vpn hvpn => ?_⟩
  rcases hfenced vpn hvpn with hfresh | ⟨va, hmem, rfl⟩
  · exact Or.inl hfresh
  -- The page was in the queue, so nobody may use the generation any more.
  · obtain ⟨hcurrent, hsaved⟩ := hcovers va hmem hvpn
    exfalso
    have hle : gen.toNat ≤ sp.asidGenNext.toNat := hok.1
    have hsucc := hroom.toNat_succ
    cases hit with
    | true =>
      rcases hlive with ⟨-, hgen⟩ | ⟨hother, i, hslot, hgen⟩
      · have hfresh : gen.toNat = (sp.asidGenNext + 1).toNat := hgen
        omega
      · exact hsaved (Spaces.savedElsewhere_of_slot hwf hlegal hother hslot hgen)
    | false =>
      rcases hlive with ⟨-, hgen⟩ | ⟨hother, i, hslot, hgen⟩
      · exact absurd (hcurrent (BitVec.eq_of_toNat_eq hgen)) (by decide)
      · exact hsaved (Spaces.savedElsewhere_of_slot hwf hlegal hother hslot hgen)

/-- Every key that is not void is sound. -/
structure KeysOk (sp : Spaces) (log : KeyLog) (jit : Jit) : Prop where
  vcache : ∀ i, (jit.vcache i).gen = BitVec.allOnes 32 ∨
    KeyOk sp log (log.vcache i) (jit.vcache i).onPage (jit.vcache i).gen
  chain : ∀ i, (jit.chain i).gen = 0 ∨ ∃ gen privLevel,
    (jit.chain i).gen = genWord gen privLevel ∧ KeyOk sp log (log.chain i) (jit.chain i).onPage gen

theorem KeyLog.fence_vcache (log : KeyLog) (op : SpaceOp) : (log.fence op).vcache = log.vcache := by
  cases op <;> rfl

theorem KeyLog.fence_chain (log : KeyLog) (op : SpaceOp) : (log.fence op).chain = log.chain := by
  cases op <;> rfl

variable {jit : Jit}

theorem KeysOk.apply (hwf : sp.Wf) (hroom : sp.Room) {op : SpaceOp} (hsane : op.Sane)
    (hok : KeysOk sp log jit) : KeysOk (sp.apply op) (log.fence op) jit where
  vcache i := by
    rw [log.fence_vcache]
    exact (hok.vcache i).imp id (KeyOk.apply hwf hroom hsane)
  chain i := by
    rw [log.fence_chain]
    refine (hok.chain i).imp id ?_
    rintro ⟨gen, privLevel, hgen, hkey⟩
    exact ⟨gen, privLevel, hgen, hkey.apply hwf hroom hsane⟩

theorem KeysOk.drained (hwf : sp.Wf) (hroom : sp.Room) {hit : Bool}
    (hcovers : ∀ va ∈ sp.pendingFlush, ∀ gen, jit.holdsKey (va >>> 12) gen →
      (gen = sp.transGen → hit = true) ∧ ¬ sp.savedElsewhere gen)
    (hok : KeysOk sp log jit) : KeysOk (sp.drained hit) log jit where
  vcache i := (hok.vcache i).imp id fun hkey =>
    hkey.drained hwf hroom fun va hmem hpage =>
      hcovers va hmem _ (Or.inl ⟨i, hpage, rfl⟩)
  chain i := by
    refine (hok.chain i).imp id ?_
    rintro ⟨gen, privLevel, hgen, hkey⟩
    exact ⟨gen, privLevel, hgen, hkey.drained hwf hroom fun va hmem hpage =>
      hcovers va hmem gen (Or.inr ⟨i, privLevel, hpage, hgen⟩)⟩

theorem KeysOk.congr {jit' : Jit} (hok : KeysOk sp log jit)
    (hvcache : jit'.vcache = jit.vcache) (hchain : jit'.chain = jit.chain) :
    KeysOk sp log jit' := by
  constructor
  · rw [hvcache]
    exact hok.vcache
  · rw [hchain]
    exact hok.chain

theorem KeysOk.flush (sp : Spaces) (log : KeyLog) (jit : Jit) : KeysOk sp log jit.flush :=
  ⟨fun _ => Or.inl rfl, fun _ => Or.inl rfl⟩

/-- A key inserted now is sound for the current space. -/
theorem KeyOk.inserted (hwf : sp.Wf) (hpast : ∀ vpn, log.fenced vpn < log.now) :
    KeyOk sp log ⟨sp.satp, log.now⟩ onPage sp.transGen :=
  (hwf.ledger .chain).sound (hwf.current .chain) ⟨rfl, fun vpn _ => Or.inl (hpast vpn)⟩

/-- The log after the keys of the current PC have been inserted. -/
def KeyLog.insert (log : KeyLog) (s : Supervisor) : KeyLog :=
  { log with
    vcache := Function.update log.vcache
      (vcacheIndex (vcacheKey s.cpu.pc s.privLevel)) ⟨s.satp, log.now⟩
    chain := Function.update log.chain (chainIndex s.cpu.pc) ⟨s.satp, log.now⟩ }

theorem KeysOk.insertKeys {s : Supervisor} (hwf : s.spaces.Wf)
    (hpast : ∀ vpn, log.fenced vpn < log.now)
    (hsynced : jit.chainGen = genWord s.transGen s.privLevel)
    (hok : KeysOk s.spaces log jit) (hit : Hit) :
    KeysOk s.spaces (log.insert s) (jit.insertKeys s hit) := by
  rw [Jit.insertKeys_eq]
  refine ⟨fun i => ?_, fun i => ?_⟩
  · dsimp only [KeyLog.insert]
    by_cases hi : i = vcacheIndex (vcacheKey s.cpu.pc s.privLevel)
    · subst hi
      rw [Function.update_self, Function.update_self]
      exact Or.inr (KeyOk.inserted hwf hpast)
    · rw [Function.update_of_ne hi, Function.update_of_ne hi]
      exact hok.vcache i
  · dsimp only [KeyLog.insert]
    by_cases hi : i = chainIndex s.cpu.pc
    · subst hi
      rw [Function.update_self, Function.update_self]
      exact Or.inr ⟨s.transGen, s.privLevel, hsynced, KeyOk.inserted hwf hpast⟩
    · rw [Function.update_of_ne hi, Function.update_of_ne hi]
      exact hok.chain i

/-- The invariant of the logged machine. -/
structure KeyInv (l : KeyLogged β) : Prop where
  loop : LoopInv l.machine
  past : ∀ vpn, l.log.fenced vpn < l.log.now
  keys : KeysOk l.machine.cpu.spaces l.log l.machine.jit

/-- While the tables are consulted, usable keys are fresh. -/
theorem KeyInv.keysFresh {l : KeyLogged β} (hinv : KeyInv l)
    (hprobing : l.machine.probing = true) : l.KeysFresh := by
  have hdrained := hinv.loop.queue_of_probing hprobing
  have hlive := hinv.loop.wf.current .chain
  have hcurrent : l.machine.cpu.transGen.toNat + 1 < 2 ^ 30 := by
    have hle := (hinv.loop.wf.ledger .chain).bounded hlive
    exact Nat.lt_of_le_of_lt (Nat.succ_le_succ hle) hinv.loop.bound
  have hfresh : ∀ {stamp onPage pc}, onPage (pc >>> 12) →
      KeyOk l.machine.cpu.spaces l.log stamp onPage l.machine.cpu.transGen →
        stamp.Fresh l.log l.machine.cpu.satp pc := by
    intro stamp onPage pc hpage hkey
    obtain ⟨hsatp, hfenced⟩ := hkey.2 _ hlive
    refine ⟨hsatp, (hfenced _ hpage).resolve_right ?_⟩
    rintro ⟨va, hmem, -⟩
    rw [hdrained] at hmem
    cases hmem
  have hword : l.machine.jit.chainGen = genWord l.machine.cpu.transGen l.machine.cpu.privLevel :=
    congrArg Prod.fst (hinv.loop.synced hprobing)
  intro pc
  refine ⟨fun hkey hgen => ?_, fun hkey hgen => ?_⟩
  · rcases hinv.keys.vcache (vcacheIndex (vcacheKey pc l.machine.cpu.privLevel)) with
      hvoid | hok
    · rw [hvoid] at hgen
      rw [← hgen] at hcurrent
      exact absurd hcurrent (by decide)
    · rw [hgen] at hok
      exact hfresh ⟨pc, _, hkey, rfl⟩ hok
  · rw [hword] at hgen
    rcases hinv.keys.chain (chainIndex pc) with hvoid | ⟨gen, privLevel, hgenWord, hok⟩
    · exact absurd (hgen.symm.trans hvoid) (genWord_ne_zero hcurrent _)
    have hbound : gen.toNat + 1 < 2 ^ 30 :=
      Nat.lt_of_le_of_lt (Nat.succ_le_succ hok.1) hinv.loop.bound
    rw [(genWord_inj hbound hcurrent (hgenWord.symm.trans hgen)).1] at hok
    exact hfresh (by rw [ChainEntry.onPage, hkey]) hok

variable {log : KeyLog}

theorem KeyLog.fence_past (hpast : ∀ vpn, log.fenced vpn < log.now)
    (op : SpaceOp) (vpn : U64) : (log.fence op).fenced vpn < (log.fence op).now := by
  have hvpn := hpast vpn
  unfold fenced at hvpn
  cases op with
  | keep | satp _ | code => exact hvpn
  | all =>
    change max log.now (log.fencedPage vpn) < log.now + 1
    omega
  | page va =>
    change max log.fencedAll (Function.update log.fencedPage (va >>> 12) log.now vpn) < log.now + 1
    by_cases hva : vpn = va >>> 12
    · rw [hva, Function.update_self]
      omega
    · rw [Function.update_of_ne hva]
      omega

theorem Jit.invalidateTlbPages_keys (pages : List U64) (jit : Jit) :
    (pages.foldl invalidateTlbPage jit).vcache = jit.vcache ∧
      (pages.foldl invalidateTlbPage jit).chain = jit.chain := by
  induction pages generalizing jit with
  | nil => exact ⟨rfl, rfl⟩
  | cons page pages ih => exact ih (jit.invalidateTlbPage page)

theorem Machine.drainFlush_keys (m : Machine β) :
    m.drainFlush.jit.vcache = m.jit.vcache ∧ m.drainFlush.jit.chain = m.jit.chain := by
  unfold drainFlush
  split
  · exact ⟨rfl, rfl⟩
  · exact Jit.invalidateTlbPages_keys _ m.jit

variable {m : Machine β}

theorem KeysOk.syncIcache (hok : KeysOk sp log m.jit) : KeysOk sp log m.syncIcache.jit := by
  refine ite_holds (fun m' : Machine β => KeysOk sp log m'.jit) ?_ hok
  exact ite_holds (fun jit : Jit => KeysOk sp log jit) (flush sp log m.jit) hok

theorem Jit.installAll_keys (batch : List Built) (jit : Jit) (idx : U32) :
    (jit.installAll batch idx).vcache = jit.vcache ∧
      (jit.installAll batch idx).chain = jit.chain := by
  induction batch generalizing jit idx with
  | nil => exact ⟨rfl, rfl⟩
  | cons built batch ih => exact ih (jit.installOne built idx) (idx + 1)

theorem Jit.installed_keys (jit : Jit) (batch : List Built) (tableBase : U32) :
    (jit.installed batch tableBase).vcache = jit.vcache ∧
      (jit.installed batch tableBase).chain = jit.chain := by
  have hkeys := installAll_keys batch jit tableBase
  exact ite_holds (fun jit' : Jit => jit'.vcache = jit.vcache ∧ jit'.chain = jit.chain) hkeys hkeys

variable [Bus β]

theorem FetchEffect.insertKeys_eq {s s' : Supervisor} (h : FetchEffect s s') (jit : Jit)
    (hit : Hit) : jit.insertKeys s' hit = jit.insertKeys s hit := by
  rw [h]
  rfl

namespace KeyLog

theorem lookup_of_hit {hit : Hit}
    (hhit : m.jit.vcacheHit m.cpu = some hit) : log.lookup m = log := by
  rw [lookup, if_neg]
  rw [hhit]
  exact fun h => absurd h.1 (by simp)

theorem lookup_of_none (hnone : (m.jit.lookup m.cpu m.bus).1 = none) : log.lookup m = log := by
  rw [lookup, if_neg]
  rw [hnone]
  exact fun h => h.2 rfl

theorem lookup_of_found {hit : Hit} (hmiss : m.jit.vcacheHit m.cpu = none)
    (hfound : (m.jit.lookup m.cpu m.bus).1 = some hit) : log.lookup m = log.insert m.cpu := by
  rw [lookup, if_pos ⟨hmiss, by rw [hfound]; simp⟩]
  rfl

omit [Bus β] in
theorem insert_past (hpast : ∀ vpn, log.fenced vpn < log.now) (s : Supervisor) :
    ∀ vpn, (log.insert s).fenced vpn < (log.insert s).now := hpast

theorem lookup_past (hpast : ∀ vpn, log.fenced vpn < log.now) (m : Machine β) :
    ∀ vpn, (log.lookup m).fenced vpn < (log.lookup m).now :=
  ite_holds (fun log' : KeyLog => ∀ vpn, log'.fenced vpn < log'.now) (insert_past hpast m.cpu) hpast

end KeyLog

/-- A lookup with current words keeps the keys sound. -/
theorem KeysOk.lookup (hwf : m.cpu.spaces.Wf)
    (hpast : ∀ vpn, log.fenced vpn < log.now) (hwords : m.jit.genWords = m.cpu.genWords)
    (hok : KeysOk m.cpu.spaces log m.jit) :
    KeysOk m.cpu.spaces (log.lookup m) (m.jit.lookup m.cpu m.bus).2.1 := by
  have houtcome := m.jit.lookup_outcome m.cpu m.bus
  rcases hres : m.jit.lookup m.cpu m.bus with ⟨hit, jit, s, bus⟩
  rw [hres] at houtcome
  dsimp only at houtcome
  cases houtcome with
  | cached hhit =>
    rw [KeyLog.lookup_of_hit hhit]
    exact hok
  | missing hmiss heffect hjit =>
    rw [KeyLog.lookup_of_none (by rw [hres])]
    rw [hjit]
    exact hok.congr rfl rfl
  | @found hit _ hmiss heffect =>
    rw [KeyLog.lookup_of_found hmiss (by rw [hres])]
    rw [heffect.insertKeys_eq]
    exact hok.insertKeys hwf hpast (congrArg Prod.fst hwords) hit

variable {event : Event β}

theorem Machine.KeysCovered.spaces (hcond : m.KeysCovered event) : m.SpacesCovered event := by
  refine ⟨hcond.1, ?_⟩
  cases event with
  | interpret => exact hcond.2
  | act act =>
    cases act with
    | csr csr rd src val op pc => exact hcond.2
    | _ => trivial
  | _ => trivial

theorem KeyLog.record_past [FloatOps] (hpast : ∀ vpn, log.fenced vpn < log.now)
    (m : Machine β) (event : Event β) :
    ∀ vpn, (log.record m event).fenced vpn < (log.record m event).now := by
  cases event with
  | interpret => exact fence_past hpast _
  | enter => exact lookup_past hpast m
  | act act =>
    cases act with
    | hop pc => exact lookup_past hpast (m.landAt pc)
    | _ => exact hpast
  | _ => exact hpast

theorem KeysOk.csr {m' : Machine β} {csr : Csr} {rd src : Reg} {val : U64}
    {op : CsrOp} (hinv : LoopInv m) (hok : KeysOk m.cpu.spaces log m.jit)
    (hsane : m.cpu.csrDenied csr op src = false → (m.cpu.csrSpaceOp csr src val op).Sane)
    (hservice : CsrService m csr rd src val op m') : KeysOk m'.cpu.spaces log m'.jit := by
  have hjit : m'.jit.vcache = m.jit.vcache ∧ m'.jit.chain = m.jit.chain := by
    cases hservice <;> exact ⟨rfl, rfl⟩
  have hlog : log.fence (m.cpu.csrSpaceOp csr src val op) = log := by
    unfold Supervisor.csrSpaceOp
    split <;> rfl
  rw [hservice.spaces_eq]
  split
  · exact hok.congr hjit.1 hjit.2
  rename_i hallowed
  have happly := hok.apply hinv.wf hinv.room (hsane (Bool.eq_false_iff.mpr hallowed))
  rw [hlog] at happly
  exact happly.congr hjit.1 hjit.2

theorem KeysOk.doAct [FloatOps] (hinv : LoopInv m)
    (hpast : ∀ vpn, log.fenced vpn < log.now) (hprobing : m.probing = true)
    (act : Act β) (hcond : m.KeysCovered (.act act)) (hok : KeysOk m.cpu.spaces log m.jit) :
    KeysOk (m.doAct act).cpu.spaces (log.record m (.act act)) (m.doAct act).jit := by
  have hspaces := m.perform_spaces (.act act)
  change (m.doAct act).cpu.spaces = _ at hspaces
  cases act with
  | regs x f | device effect => exact hok
  | load width addr pc =>
    rw [hspaces, Machine.doAct, (m.jitLoad_effect width addr pc).2.1]
    exact hok.congr rfl rfl
  | store width addr val pc =>
    rw [hspaces, Machine.doAct, (m.jitStore_effect width addr val pc).2.1]
    exact hok.congr rfl rfl
  | inlineStore width addr val =>
    rw [Machine.doAct, m.inlineStore_eq width addr val]
    exact hok
  | csr csr rd src val op pc =>
    exact hok.csr hinv hcond.2 (m.jitCsr_service csr rd src val op pc)
  | fp call pc =>
    rw [hspaces, Machine.doAct]
    obtain ⟨-, -, ⟨hjit, -⟩ | hjit⟩ := m.jitFp_effect call pc <;> rw [hjit]
    · exact hok
    · exact hok.congr rfl rfl
  | hop pc =>
    rw [hspaces, Machine.doAct, m.hop_jit pc]
    exact lookup (m := m.landAt pc) hinv.wf hpast (hinv.synced hprobing) hok

theorem KeysOk.perform [FloatOps] (hinv : LoopInv m) (hpast : ∀ vpn, log.fenced vpn < log.now)
    (hallows : m.allows event = true) (hcond : m.KeysCovered event)
    (hok : KeysOk m.cpu.spaces log m.jit) :
    KeysOk (m.perform event).cpu.spaces (log.record m event) (m.perform event).jit := by
  have hspaces := m.perform_spaces event
  cases event with
  | service tick =>
    rw [hspaces]
    obtain ⟨hvcache, hchain⟩ := ({ m with bus := tick m.bus } : Machine β).drainFlush_keys
    exact ((hok.drained hinv.wf hinv.room hcond.2).congr hvcache hchain).syncIcache
  | choose =>
    rw [hspaces]
    refine ite_holds (fun m' : Machine β => KeysOk m.cpu.spaces log m'.jit) ?_ hok
    exact ite_holds (fun m' : Machine β => KeysOk m.cpu.spaces log m'.jit) hok (hok.congr rfl rfl)
  | enter =>
    have hprobing := Machine.probing_iff.mpr (Or.inl (of_decide_eq_true hallows))
    rw [hspaces, Machine.perform, m.enter_jit]
    exact lookup hinv.wf hpast (hinv.synced hprobing) hok
  | interpret =>
    rw [hspaces]
    exact hok.apply hinv.wf hinv.room hcond.2
  | act act =>
    simp only [Machine.allows, Bool.and_eq_true, decide_eq_true_eq] at hallows
    exact hok.doAct hinv hpast (Machine.probing_iff.mpr (Or.inr hallows)) act hcond
  | leave pc =>
    rw [hspaces]
    exact ite_holds (fun m' : Machine β => KeysOk m.cpu.spaces log m'.jit) hok hok
  | build ok =>
    rw [hspaces]
    exact ite_holds (fun m' : Machine β => KeysOk m.cpu.spaces log m'.jit) hok (hok.congr rfl rfl)
  | installed tableBase =>
    obtain ⟨hvcache, hchain⟩ := m.jit.installed_keys m.pendingInstall tableBase
    rw [hspaces]
    exact ite_holds (fun m' : Machine β => KeysOk m.cpu.spaces log m'.jit) hok
      (hok.congr hvcache hchain)
  | discard => exact flush _ _ _
  | enable on => exact hok

theorem KeyInv.step [FloatOps] (l : KeyLogged β) (event : Event β) (hinv : KeyInv l)
    (hcond : l.machine.allows event = true → l.machine.KeysCovered event) :
    KeyInv (l.step event) := by
  unfold KeyLogged.step
  split
  · rename_i hallows
    have hcovered := hcond hallows
    exact ⟨hinv.loop.perform hallows hcovered.spaces, KeyLog.record_past hinv.past l.machine event,
      hinv.keys.perform hinv.loop hinv.past hallows hcovered⟩
  · exact hinv

omit [Bus β] in
theorem KeyInv.start {cpu : Supervisor} (hreset : cpu.spaces.Reset)
    (hroom : cpu.asidGenNext.toNat + 1 < 2 ^ 30) (bus : β) (dram : DramWindow) :
    KeyInv ⟨Machine.new cpu bus dram, KeyLog.new⟩ where
  loop := .start hreset hroom bus dram
  past _ := Nat.zero_lt_one
  keys := ⟨fun _ => Or.inl rfl, fun _ => Or.inl rfl⟩

/-- In every run from a fresh start whose steps meet the condition, a key that
the run loop or compiled code could use was inserted in the current space and
after the latest fence that covers its page. -/
theorem KeyLogged.run_keysFresh [FloatOps] {cpu : Supervisor} (bus : β) (dram : DramWindow)
    (hreset : cpu.spaces.Reset) (hroom : cpu.asidGenNext.toNat + 1 < 2 ^ 30)
    (events : List (Event β))
    (hcovered : Runs.Along KeyLogged.step
      (fun l event => l.machine.allows event = true → l.machine.KeysCovered event)
      ⟨Machine.new cpu bus dram, KeyLog.new⟩ events)
    (hprobing : (Runs.run KeyLogged.step ⟨Machine.new cpu bus dram, KeyLog.new⟩
      events).machine.probing = true) :
    (Runs.run KeyLogged.step ⟨Machine.new cpu bus dram, KeyLog.new⟩ events).KeysFresh :=
  (hcovered.invariant KeyInv.step (KeyInv.start hreset hroom bus dram)).keysFresh hprobing

/-- After its loop the program runs `csrw satp, x3`, a fence, `csrw satp, x2` and
`j 0x100`. -/
def twoSpacesStart (fence : U32) : KeyLogged Ram :=
  ⟨Machine.new loopCpu (loopRam [0x18019073, fence, 0x18011073, 0xFEDFF06F]) loopWindow,
    KeyLog.new⟩

/-- The block leaves the loop; the program fences from the other space and comes back. -/
def fenceElsewhere : List (Event Ram) :=
  leaveLoop ++ (List.replicate 4 interpRound).flatten ++ [.service id, .choose]

def runTwoSpaces (fence : U32) : KeyLogged Ram :=
  letI := FloatOps.zero
  Runs.run KeyLogged.step (twoSpacesStart fence) (warmLoop ++ fenceElsewhere)

/-- A condition that evaluates and implies the one of the theorem: nothing is
queued for a flush. -/
def Machine.keysQuiet (m : Machine β) (event : Event β) : Bool :=
  m.cpu.asidGenNext.toNat + 2 < 2 ^ 30 &&
    match event with
    | .service _ => m.cpu.pendingFlush.isEmpty
    | .interpret => (m.cpu.stepSpaceOp m.bus).Sane
    | .act (.csr csr _ src val op _) => (m.cpu.csrSpaceOp csr src val op).Sane
    | _ => true

theorem Machine.keysCovered_of_quiet (hquiet : m.keysQuiet event = true) : m.KeysCovered event := by
  obtain ⟨hroom, hevent⟩ := (Bool.and_eq_true _ _).mp hquiet
  refine ⟨of_decide_eq_true hroom, ?_⟩
  cases event with
  | service tick =>
    intro va hva
    rw [List.isEmpty_iff.mp hevent] at hva
    cases hva
  | interpret => exact of_decide_eq_true hevent
  | act act =>
    cases act with
    | csr csr rd src val op pc => exact fun _ => of_decide_eq_true hevent
    | _ => trivial
  | _ => trivial

/-- With `sfence.vma x0` the run meets the condition. -/
theorem global_fence_keysFresh :
    0 < (runTwoSpaces 0x12000073).log.fenced 0 ∧ (runTwoSpaces 0x12000073).KeysFresh := by
  have hrun : 0 < (runTwoSpaces 0x12000073).log.fenced 0 ∧
      (runTwoSpaces 0x12000073).machine.probing = true ∧
      Runs.Along (@KeyLogged.step Ram FloatOps.zero _)
        (fun l event => l.machine.keysQuiet event = true) (twoSpacesStart 0x12000073)
        (warmLoop ++ fenceElsewhere) := by
    decide +kernel
  obtain ⟨hfenced, hprobing, hquiet⟩ := hrun
  exact ⟨hfenced, @KeyLogged.run_keysFresh Ram _ FloatOps.zero _ _ _ loopCpu_reset
    (by decide) _ (hquiet.mono fun l event h (_ : l.machine.allows event = true) =>
      Machine.keysCovered_of_quiet h) hprobing⟩

omit [Bus β] in
/-- A slot that would hit and is older than the latest fence of its page. -/
theorem KeyLogged.not_keysFresh {l : KeyLogged β} {pc key : U64}
    (hstale : vcacheKey pc l.machine.cpu.privLevel = key ∧
      (l.machine.jit.vcache (vcacheIndex key)).key = key ∧
      (l.machine.jit.vcache (vcacheIndex key)).gen = l.machine.cpu.transGen ∧
      (l.log.vcache (vcacheIndex key)).time ≤ l.log.fenced (pc >>> 12)) : ¬ l.KeysFresh := by
  obtain ⟨rfl, hkey, hgen, htime⟩ := hstale
  intro hfresh
  exact absurd ((hfresh pc).1 hkey hgen).2 (Nat.not_lt.mpr htime)

/-- The page of the loop was fenced with `sfence.vma x4` after its keys were inserted, yet the
lookup cache still hits on one of them. -/
theorem page_fence_misses_other_space :
    (runTwoSpaces 0x12020073).machine.probing = true ∧ ¬ (runTwoSpaces 0x12020073).KeysFresh := by
  exact ⟨by decide +kernel,
    @KeyLogged.not_keysFresh _ _ 0x100 (vcacheKey 0x100 .supervisor) (by decide +kernel)⟩

end TabLinux

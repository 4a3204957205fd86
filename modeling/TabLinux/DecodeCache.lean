/-
The decode cache.  An entry is keyed by the physical address of its first
halfword alone.  While the bytes it was decoded from are unchanged, a hit gives
what a fresh fetch would give, except for a 32-bit instruction that straddles
two pages: there a fresh fetch also depends on the second page's translation.
-/
import TabLinux.StepEffects
import TabLinux.PageOffset

namespace TabLinux

open Supervisor

variable {β : Type*} [Bus β]
variable {bus : β}

variable {lo : U16} {upper : Except Trap U16} {pc paddr : U64}
  {fetched : Instr × U64} {s s' : Supervisor} {origins : Origins}

variable {instr : Instr}

/-- The instruction, or the fault, that a lower halfword and the outcome of
fetching the upper one give. -/
def decodeHalves (lo : U16) (upper : Except Trap U16) (pc : U64) :
    Except FetchFault (Instr × U64) :=
  if lo &&& 3 ≠ 3 then
    match decompress lo with
    | some instr => .ok (instr, 2)
    | none => .error (.exception .illegalInstruction, none)
  else
    match upper with
    | .error trap => .error (trap, some (pc + 2))
    | .ok hi => .ok (decode (hi ++ lo), 4)

section

variable (s : Supervisor) (bus : β)

theorem Supervisor.fetchUpperHalf_pc (loPaddr : U64) :
    (s.fetchUpperHalf bus loPaddr).2.1.cpu.pc = s.cpu.pc := by
  rw [(s.fetchUpperHalf_effect bus loPaddr).cacheEffect.cpu_eq]

theorem Supervisor.fetchDecode_fst (paddr : U64) :
    (s.fetchDecode bus paddr).1 = decodeHalves (readU16 bus paddr).1
        (s.fetchUpperHalf (readU16 bus paddr).2 paddr).1 s.cpu.pc := by
  unfold fetchDecode decodeHalves
  rcases readU16 bus paddr with ⟨lo, bus⟩
  have hpc := s.fetchUpperHalf_pc bus paddr
  dsimp only
  by_cases hwide : lo &&& 3 ≠ 3
  · rw [if_pos hwide, if_pos hwide]
    cases decompress lo <;> rfl
  rw [if_neg hwide, if_neg hwide]
  rcases hres : s.fetchUpperHalf bus paddr with ⟨_ | hi, s', bus'⟩ <;> rw [hres] at hpc
  · simp only at hpc ⊢
    rw [hpc]

/-- The halfwords an instruction was decoded from, and where the upper one was
read. -/
structure Origin where
  lo : U16
  hiPaddr : U64
  hi : U16
deriving DecidableEq, Repr

/-- The instruction and its width that the halfwords decode to. -/
def Origin.Decodes (o : Origin) (fetched : Instr × U64) : Prop :=
  ∀ pc, decodeHalves o.lo (.ok o.hi) pc = .ok fetched

/-- The address at which the upper half of the instruction at the PC is read. -/
def Supervisor.upperPaddr (loPaddr : U64) :
    Except Trap U64 :=
  if s.cpu.pc &&& 0xFFF ≠ 0xFFE then .ok (loPaddr + 2)
  else (s.translate bus .instruction (s.cpu.pc + 2)).1

/-- The value of a successful outcome. -/
def okOr {ε α : Type*} (default : α) : Except ε α → α
  | .error _ => default
  | .ok value => value

/-- The halfwords that a fetch of the instruction at `paddr` reads. -/
def Supervisor.fetchOrigin (paddr : U64) : Origin :=
  let (lo, bus) := readU16 bus paddr
  { lo := lo
    hiPaddr := okOr 0 (s.upperPaddr bus paddr)
    hi := okOr 0 (s.fetchUpperHalf bus paddr).1 }

end

/-- A 32-bit instruction at this address lies on two pages. -/
def straddles (addr : U64) : Bool := addr &&& 0xFFF = 0xFFE

theorem decodeHalves_okOr {pc' : U64} (hok : decodeHalves lo upper pc = .ok fetched) :
    decodeHalves lo (.ok (okOr 0 upper)) pc' = .ok fetched := by
  unfold decodeHalves at hok ⊢
  by_cases hwide : lo &&& 3 ≠ 3
  · rw [if_pos hwide] at hok ⊢
    exact hok
  rw [if_neg hwide] at hok ⊢
  cases upper with
  | error trap => cases hok
  | ok hi => exact hok

theorem Supervisor.fetchOrigin_decodes (hok : (s.fetchDecode bus paddr).1 = .ok fetched) :
    (s.fetchOrigin bus paddr).Decodes fetched := by
  rw [s.fetchDecode_fst bus paddr] at hok
  exact fun pc => decodeHalves_okOr hok

theorem Supervisor.fetchOrigin_hiPaddr (hstraddle : straddles s.cpu.pc = false) :
    (s.fetchOrigin bus paddr).hiPaddr = paddr + 2 := by
  have hpc : s.cpu.pc &&& 0xFFF ≠ 0xFFE := by simpa [straddles] using hstraddle
  show okOr 0 (s.upperPaddr (readU16 bus paddr).2 paddr) = paddr + 2
  rw [upperPaddr, if_pos hpc]
  rfl

/-- For each slot, the halfwords its entry was decoded from. -/
abbrev Origins := BitVec 15 → Origin

/-- Record the halfwords of a fetch that fills a slot. -/
def Supervisor.recordFetch (s : Supervisor) (bus : β) (origins : Origins) : Origins :=
  match s.fetchTranslate bus s.cpu.pc with
  | (.error _, _, _) => origins
  | (.ok paddr, s, bus) =>
      match s.dcacheHit paddr, (s.fetchDecode bus paddr).1 with
      | none, .ok _ => Function.update origins (dcacheIndex paddr) (s.fetchOrigin bus paddr)
      | _, _ => origins

def Supervisor.recordStep (s : Supervisor) (bus : β) (origins : Origins) : Origins :=
  let s := s.pollDevices bus
  match s.checkInterrupts with
  | some _ => origins
  | none => s.recordFetch bus origins

/-- States of a machine since reset, with the origins of the cached decodes:
steps of the interpreter, and anything else (devices, compiled code, a debugger)
that leaves the decode cache alone. -/
inductive Cached [FloatOps] : Supervisor → β → Origins → Prop
  | reset (pc hartid : U64) (bus : β) (origins : Origins) :
      Cached (new pc hartid) bus origins
  | step {s : Supervisor} {bus : β} {origins : Origins} (h : Cached s bus origins) :
      Cached (s.step bus).2.1 (s.step bus).2.2 (s.recordStep bus origins)
  | other {s s' : Supervisor} {bus bus' : β} {origins : Origins} (h : Cached s bus origins)
      (hsame : s'.dcache = s.dcache) : Cached s' bus' origins

/-- Every entry sits in its slot and is what its origin decodes to; the upper half
of an instruction that does not straddle pages came right after the lower. -/
def OriginsOk (s : Supervisor) (origins : Origins) : Prop :=
  ∀ slot entry, s.dcache slot = some entry →
    (origins slot).Decodes (entry.instr, entry.width) ∧
      (straddles entry.tag = false → (origins slot).hiPaddr = entry.tag + 2)

theorem HartEffect.dcache_eq (h : HartEffect s s') : s'.dcache = s.dcache := by
  rw [h]

theorem Supervisor.takeTrapWithVaddr_dcache (s : Supervisor) (trap : Trap)
    (faultVaddr : Option U64) :
    (s.takeTrapWithVaddr trap faultVaddr).2.dcache = s.dcache := by
  unfold takeTrapWithVaddr
  split <;> rfl

theorem ExecEffect.dcache_eq (h : ExecEffect s s') : s'.dcache = s.dcache := by
  cases h with
  | quiet effect => exact effect.dcache_eq
  | trap effect trap faultVaddr =>
    exact (takeTrapWithVaddr_dcache _ _ _).trans effect.dcache_eq

theorem Supervisor.writeSatp_dcache (s : Supervisor) (val : U64) :
    (s.writeSatp val).dcache = s.dcache :=
  ite_keep dcache (ite_keep dcache rfl rfl) rfl

theorem CsrEffect.dcache_eq {csr : Csr} {val : U64} (h : CsrEffect s csr val s') :
    s'.dcache = s.dcache := by
  cases h with
  | ignored => rfl
  | fcsr => rfl
  | register _ effect => rw [effect]
  | satp => exact s.writeSatp_dcache val

theorem Supervisor.sfenceVma_dcache (s : Supervisor) (rs1 : Reg) :
    (s.sfenceVma rs1).dcache = s.dcache :=
  ite_keep dcache (ite_keep dcache rfl rfl) rfl

theorem Supervisor.waitForInterrupt_dcache (s : Supervisor) (bus : β) (width : U64) :
    (s.waitForInterrupt bus width).2.dcache = s.dcache := by
  unfold waitForInterrupt park
  split
  · exact takeTrapWithVaddr_dcache _ _ none
  · rfl

theorem ExecOutcome.dcache_eq {bus : β} {width : U64}
    (h : ExecOutcome s bus width instr s') : s'.dcache = s.dcache := by
  cases h with
  | hart hpath effect => exact effect.dcache_eq
  | csrReg hallowed | csrImm hallowed =>
    exact ite_keep dcache ((s.csrWrite_effect _ _).dcache_eq) rfl
  | sbi hpriv => rfl
  | mret => rfl
  | sret hallowed => rfl
  | wait hallowed => exact s.waitForInterrupt_dcache bus width
  | @fence rs1 rs2 hallowed => exact s.sfenceVma_dcache rs1

section

variable [FloatOps]

/-- A finished step keeps the decode cache, or has emptied it. -/
theorem Supervisor.finishStep_dcache (s : Supervisor) (instr : Instr) (width : U64)
    (bus : β) : (s.finishStep instr width bus).2.1.dcache = (s.flushedFor instr).dcache := by
  have hexec := ((s.flushedFor instr).executeSupervisor_outcome instr width bus).dcache_eq
  unfold finishStep
  rcases deliver_cases _ _ _ with ⟨trap, hout⟩ | hout
  · rw [hout]
    exact (takeTrapWithVaddr_dcache _ trap none).trans hexec
  · rw [hout]
    exact hexec

end

namespace Supervisor

variable (s : Supervisor) (bus : β)

theorem translate_dcache (access : AccessType)
    (vaddr : U64) : (s.translate bus access vaddr).2.1.dcache = s.dcache := by
  rw [s.translate_state bus access vaddr]

theorem fetchTranslate_dcache (vaddr : U64) :
    (s.fetchTranslate bus vaddr).2.1.dcache = s.dcache := by
  have htranslate := s.translate_dcache bus .instruction vaddr
  unfold fetchTranslate
  split
  · rfl
  · rcases hres : s.translate bus .instruction vaddr with ⟨_ | paddr, s', bus'⟩ <;>
      rw [hres] at htranslate <;> exact htranslate

theorem fetchUpperHalf_dcache (loPaddr : U64) :
    (s.fetchUpperHalf bus loPaddr).2.1.dcache = s.dcache := by
  have htranslate := s.translate_dcache bus .instruction (s.cpu.pc + 2)
  unfold fetchUpperHalf
  split
  · rfl
  · rcases hres : s.translate bus .instruction (s.cpu.pc + 2) with ⟨_ | paddr, s', bus'⟩ <;>
      rw [hres] at htranslate <;> exact htranslate

theorem fetchDecode_dcache (paddr : U64) :
    (s.fetchDecode bus paddr).2.1.dcache = s.dcache := by
  unfold fetchDecode
  rcases readU16 bus paddr with ⟨half, bus⟩
  have hupper := s.fetchUpperHalf_dcache bus paddr
  dsimp only
  by_cases hwide : half &&& 3 ≠ 3
  · rw [if_pos hwide]
    cases decompress half with
    | some instr => rfl
    | none => exact hupper
  · rw [if_neg hwide]
    rcases hres : s.fetchUpperHalf bus paddr with ⟨_ | hi, s', bus'⟩ <;>
      rw [hres] at hupper <;> exact hupper

end Supervisor

theorem OriginsOk.congr (h : OriginsOk s origins) (hsame : s'.dcache = s.dcache) :
    OriginsOk s' origins := by
  intro slot entry hentry
  exact h slot entry (hsame ▸ hentry)

/-- A slot filled with a decoded instruction and its origin. -/
theorem OriginsOk.insert (h : OriginsOk s origins) (paddr : U64)
    (fetched : Instr × U64) (origin : Origin) (hdecodes : origin.Decodes fetched)
    (hupper : straddles paddr = false → origin.hiPaddr = paddr + 2) :
    OriginsOk (s.dcacheInsert paddr fetched)
      (Function.update origins (dcacheIndex paddr) origin) := by
  intro slot entry hentry
  by_cases hslot : slot = dcacheIndex paddr
  · subst hslot
    simp only [dcacheInsert, Function.update_self, Option.some.injEq] at hentry
    subst hentry
    rw [Function.update_self]
    exact ⟨hdecodes, hupper⟩
  · simp only [dcacheInsert, Function.update_of_ne hslot] at hentry
    rw [Function.update_of_ne hslot]
    exact h slot entry hentry

/-- A fetch keeps the invariant: what it inserts it has just decoded. -/
theorem OriginsOk.fetch (h : OriginsOk s origins) (bus : β) :
    OriginsOk (s.fetch bus).2.1 (s.recordFetch bus origins) := by
  have hdcache := s.fetchTranslate_dcache bus s.cpu.pc
  have heffect := s.fetchTranslate_effect bus s.cpu.pc
  have hoffset : ∀ paddr, (s.fetchTranslate bus s.cpu.pc).1 = .ok paddr →
      paddr &&& 0xFFF = s.cpu.pc &&& 0xFFF := fun _ => fetchTranslate_offset
  unfold Supervisor.fetch Supervisor.recordFetch
  rcases hres : s.fetchTranslate bus s.cpu.pc with ⟨_ | paddr, s', bus'⟩ <;>
    rw [hres] at hdcache heffect hoffset
  · exact h.congr hdcache
  have hs' : OriginsOk s' origins := h.congr hdcache
  have hpc : s'.cpu.pc = s.cpu.pc := congrArg Cpu.pc heffect.cacheEffect.cpu_eq
  simp only
  cases hhit : s'.dcacheHit paddr with
  | some fetched => exact hs'
  | none =>
    have hdecode := s'.fetchDecode_dcache bus' paddr
    have horigin : ∀ fetched, (s'.fetchDecode bus' paddr).1 = .ok fetched →
        (s'.fetchOrigin bus' paddr).Decodes fetched :=
      fun _ => fetchOrigin_decodes
    rcases hfetch : s'.fetchDecode bus' paddr with ⟨_ | fetched, s'', bus''⟩ <;>
      rw [hfetch] at hdecode horigin
    · exact hs'.congr hdecode
    refine (hs'.congr hdecode).insert paddr fetched _ (horigin fetched rfl) ?_
    intro hstraddle
    apply fetchOrigin_hiPaddr
    simp only [straddles, hpc] at hstraddle ⊢
    rw [hoffset paddr rfl] at hstraddle
    exact hstraddle

theorem Supervisor.pollDevices_dcache (s : Supervisor) (bus : β) :
    (s.pollDevices bus).dcache = s.dcache :=
  ite_keep dcache rfl rfl

theorem OriginsOk.flushed (h : OriginsOk s origins) (instr : Instr) :
    OriginsOk (s.flushedFor instr) origins :=
  ite_holds (fun s' : Supervisor => OriginsOk s' origins) nofun h

section

variable [FloatOps]

theorem OriginsOk.step (h : OriginsOk s origins) (bus : β) :
    OriginsOk (s.step bus).2.1 (s.recordStep bus origins) := by
  have hpolled : OriginsOk (s.pollDevices bus) origins := h.congr (s.pollDevices_dcache bus)
  have hfetch := hpolled.fetch bus
  unfold Supervisor.step Supervisor.stepPolled Supervisor.recordStep
  dsimp only
  cases (s.pollDevices bus).checkInterrupts with
  | some trap => exact hpolled.congr (takeTrapWithVaddr_dcache _ trap none)
  | none =>
    rcases hres : (s.pollDevices bus).fetch bus with ⟨⟨trap, vaddr⟩ | ⟨instr, width⟩, s', bus'⟩ <;>
      rw [hres] at hfetch
    · exact hfetch.congr (takeTrapWithVaddr_dcache s' trap vaddr)
    · exact (hfetch.flushed instr).congr (s'.finishStep_dcache instr width bus')

/-- Over every run the cached decodes agree with their origins. -/
theorem Cached.originsOk (h : Cached s bus origins) : OriginsOk s origins := by
  induction h with
  | reset => exact nofun
  | step _ ih => exact ih.step _
  | other _ hsame ih => exact ih.congr hsame

end

/-- Reading the entry's halfwords on this bus has no effect and gives what it was
decoded from. -/
def Intact (bus : β) (entry : DcacheEntry) (origin : Origin) : Prop :=
  readU16 bus entry.tag = (origin.lo, bus) ∧
    (entry.width = 4 → readU16 bus origin.hiPaddr = (origin.hi, bus))

/-- The decode cache emptied. -/
def Supervisor.emptyDcache (s : Supervisor) : Supervisor := { s with dcache := fun _ => none }

/-- What a step fetches: nothing where an interrupt comes first. -/
def Supervisor.stepFetch (s : Supervisor) (bus : β) :
    Option (Except FetchFault (Instr × U64)) :=
  let s := s.pollDevices bus
  match s.checkInterrupts with
  | some _ => none
  | none => some (s.fetch bus).1

/-- Empty the decode cache of an outcome. -/
def outEmptyDcache {α : Type*} (out : α × Supervisor × β) : α × Supervisor × β :=
  (out.1, out.2.1.emptyDcache, out.2.2)

namespace Supervisor

section

variable (s : Supervisor) (bus : β)

theorem translate_emptyDcache (access : AccessType) (vaddr : U64) :
    s.emptyDcache.translate bus access vaddr = outEmptyDcache (s.translate bus access vaddr) :=
  ite_map outEmptyDcache (ite_map _ rfl (ite_map _ rfl (ite_map _ rfl rfl))) rfl

theorem fetchTranslate_emptyDcache (vaddr : U64) :
    s.emptyDcache.fetchTranslate bus vaddr = outEmptyDcache (s.fetchTranslate bus vaddr) := by
  refine ite_map outEmptyDcache rfl ?_
  rw [s.translate_emptyDcache bus .instruction vaddr]
  rcases s.translate bus .instruction vaddr with ⟨trap | paddr, s', bus'⟩ <;> rfl

theorem fetchUpperHalf_emptyDcache (loPaddr : U64) :
    s.emptyDcache.fetchUpperHalf bus loPaddr = outEmptyDcache (s.fetchUpperHalf bus loPaddr) := by
  refine ite_map outEmptyDcache rfl ?_
  have htranslate : s.emptyDcache.translate bus .instruction (s.emptyDcache.cpu.pc + 2) = _ :=
    s.translate_emptyDcache bus .instruction (s.cpu.pc + 2)
  rw [htranslate]
  rcases s.translate bus .instruction (s.cpu.pc + 2) with ⟨trap | paddr, s', bus'⟩ <;> rfl

/-- What a fresh fetch at `paddr` gives in this state. -/
def freshFetch (paddr : U64) :
    Except FetchFault (Instr × U64) :=
  (s.fetchDecode bus paddr).1

theorem freshFetch_emptyDcache (paddr : U64) :
    s.emptyDcache.freshFetch bus paddr = s.freshFetch bus paddr := by
  unfold freshFetch
  rw [s.emptyDcache.fetchDecode_fst bus paddr, s.fetchDecode_fst bus paddr,
    s.fetchUpperHalf_emptyDcache]
  rfl

end

theorem fetch_fst {bus' : β} (htranslate : s.fetchTranslate bus s.cpu.pc = (.ok paddr, s', bus')) :
    (s.fetch bus).1 =
      match s'.dcacheHit paddr with
      | some fetched => .ok fetched
      | none => s'.freshFetch bus' paddr := by
  unfold fetch freshFetch
  rw [htranslate]
  simp only
  cases s'.dcacheHit paddr with
  | some fetched => rfl
  | none => rcases s'.fetchDecode bus' paddr with ⟨_ | fetched, s'', bus''⟩ <;> rfl

end Supervisor

/-- A compressed instruction decodes without its upper half. -/
theorem decodeHalves_compressed (hwide : lo &&& 3 ≠ 3) (upper upper' : Except Trap U16)
    (pc pc' : U64) : decodeHalves lo upper pc = decodeHalves lo upper' pc' := by
  unfold decodeHalves
  rw [if_pos hwide, if_pos hwide]

theorem decodeHalves_width (hok : decodeHalves lo upper pc = .ok fetched) :
    fetched.2 = if lo &&& 3 ≠ 3 then 2 else 4 := by
  unfold decodeHalves at hok
  by_cases hwide : lo &&& 3 ≠ 3
  · rw [if_pos hwide] at hok ⊢
    cases hdec : decompress lo with
    | some instr =>
      rw [hdec] at hok
      cases hok
      rfl
    | none =>
      rw [hdec] at hok
      cases hok
  · rw [if_neg hwide] at hok ⊢
    cases upper with
    | error trap => cases hok
    | ok hi =>
      cases hok
      rfl

theorem decodeHalves_wide_iff (hwide : ¬ lo &&& 3 ≠ 3) :
    decodeHalves lo upper pc = .ok (instr, 4) ↔
      ∃ hi, upper = .ok hi ∧ decode (hi ++ lo) = instr := by
  unfold decodeHalves
  rw [if_neg hwide]
  cases upper with
  | error trap => simp
  | ok hi => simp

/-- With its bytes intact, a cached decode is what a fresh fetch gives, unless a
32-bit instruction straddles two pages: then the second page decides. -/
theorem Supervisor.freshFetch_intact_iff {entry : DcacheEntry} {origin : Origin}
    (hdecodes : origin.Decodes (entry.instr, entry.width))
    (hupper : straddles entry.tag = false → origin.hiPaddr = entry.tag + 2)
    (hoffset : entry.tag &&& 0xFFF = s.cpu.pc &&& 0xFFF) (hintact : Intact bus entry origin) :
    s.freshFetch bus entry.tag = .ok (entry.instr, entry.width) ↔
      (entry.width = 4 → straddles entry.tag = true →
        ∃ hi, (s.fetchUpperHalf bus entry.tag).1 = .ok hi ∧
          decode (hi ++ origin.lo) = entry.instr) := by
  have hfresh : s.freshFetch bus entry.tag =
      decodeHalves origin.lo (s.fetchUpperHalf bus entry.tag).1 s.cpu.pc := by
    unfold freshFetch
    rw [s.fetchDecode_fst bus entry.tag, hintact.1]
  have hcached := hdecodes s.cpu.pc
  have hwidth : entry.width = if origin.lo &&& 3 ≠ 3 then 2 else 4 := decodeHalves_width hcached
  rw [hfresh]
  by_cases hwide : origin.lo &&& 3 ≠ 3
  · rw [if_pos hwide] at hwidth
    rw [decodeHalves_compressed hwide _ (.ok origin.hi) _ s.cpu.pc, hcached, hwidth]
    simp
  rw [if_neg hwide] at hwidth
  rw [hwidth] at hcached ⊢
  rw [decodeHalves_wide_iff hwide] at hcached ⊢
  obtain ⟨hi, hhi, hdecode⟩ := hcached
  cases hhi
  cases hstraddle : straddles entry.tag with
  | true => simp
  | false =>
    have hpc : s.cpu.pc &&& 0xFFF ≠ 0xFFE := by
      rw [← hoffset]
      simpa [straddles] using hstraddle
    have hread := hintact.2 hwidth
    rw [hupper hstraddle] at hread
    have hhalf : (s.fetchUpperHalf bus entry.tag).1 = .ok origin.hi := by
      unfold fetchUpperHalf
      rw [if_pos hpc, hread]
    simp [hhalf, hdecode]

/-- Where a hit gives what a fresh fetch would.  `s` and `bus` are those after
the translation of the PC, whose own update of an accessed bit can hit the cached
bytes. -/
def HitStands (s : Supervisor) (bus : β) (entry : DcacheEntry) (origin : Origin) : Prop :=
  (Intact bus entry origin → entry.width = 4 → straddles entry.tag = true →
    ∃ hi, (s.fetchUpperHalf bus entry.tag).1 = .ok hi ∧
      decode (hi ++ origin.lo) = entry.instr) ∧
  (¬ Intact bus entry origin → s.freshFetch bus entry.tag = .ok (entry.instr, entry.width))

theorem Supervisor.pollDevices_emptyDcache (s : Supervisor) (bus : β) :
    s.emptyDcache.pollDevices bus = (s.pollDevices bus).emptyDcache :=
  ite_map emptyDcache rfl rfl

theorem Supervisor.pollDevices_pc (s : Supervisor) (bus : β) :
    (s.pollDevices bus).cpu.pc = s.cpu.pc :=
  ite_keep (fun s' : Supervisor => s'.cpu.pc) rfl rfl

/-- On a decode-cache hit, a step fetches what it would fetch with the cache
emptied, exactly when the hit stands. -/
theorem Cached.stepFetch_transparent_iff [FloatOps] {s : Supervisor} {bus : β}
    {origins : Origins} (h : Cached s bus origins) {entry : DcacheEntry}
    {s' : Supervisor} {bus' : β}
    (hinterrupt : (s.pollDevices bus).checkInterrupts = none)
    (htranslate : (s.pollDevices bus).fetchTranslate bus s.cpu.pc = (.ok entry.tag, s', bus'))
    (hhit : s.dcache (dcacheIndex entry.tag) = some entry) :
    s.stepFetch bus = s.emptyDcache.stepFetch bus ↔
      HitStands s' bus' entry (origins (dcacheIndex entry.tag)) := by
  have hpc := s.pollDevices_pc bus
  have hpc' : s'.cpu.pc = s.cpu.pc := by
    have heffect := (s.pollDevices bus).fetchTranslate_effect bus s.cpu.pc
    rw [htranslate] at heffect
    exact (congrArg Cpu.pc heffect.cacheEffect.cpu_eq).trans hpc
  have hdcache : s'.dcache = s.dcache := by
    have hsame := (s.pollDevices bus).fetchTranslate_dcache bus s.cpu.pc
    rw [htranslate] at hsame
    exact hsame.trans (s.pollDevices_dcache bus)
  have hoffset : entry.tag &&& 0xFFF = s'.cpu.pc &&& 0xFFF := by
    rw [hpc']
    exact fetchTranslate_offset (congrArg Prod.fst htranslate)
  -- With the cache: the hit.  With the cache emptied: the fresh fetch.
  have hwith : s.stepFetch bus = some (.ok (entry.instr, entry.width)) := by
    have hentry : s'.dcacheHit entry.tag = some (entry.instr, entry.width) := by
      simp [dcacheHit, hdcache, hhit]
    rw [← hpc] at htranslate
    simp only [stepFetch, hinterrupt, fetch_fst htranslate, hentry]
  have hwithout : s.emptyDcache.stepFetch bus = some (s'.freshFetch bus' entry.tag) := by
    have hempty : (s.pollDevices bus).emptyDcache.fetchTranslate bus
        (s.pollDevices bus).emptyDcache.cpu.pc = (.ok entry.tag, s'.emptyDcache, bus') := by
      show (s.pollDevices bus).emptyDcache.fetchTranslate bus (s.pollDevices bus).cpu.pc = _
      rw [fetchTranslate_emptyDcache, hpc, htranslate]
      rfl
    have hcheck : (s.pollDevices bus).emptyDcache.checkInterrupts = none := hinterrupt
    have hmiss : s'.emptyDcache.dcacheHit entry.tag = none := rfl
    simp only [stepFetch, s.pollDevices_emptyDcache bus, hcheck,
      fetch_fst hempty, hmiss, s'.freshFetch_emptyDcache]
  have horigin := h.originsOk _ entry hhit
  have hiff : s.stepFetch bus = s.emptyDcache.stepFetch bus ↔
      s'.freshFetch bus' entry.tag = .ok (entry.instr, entry.width) := by
    rw [hwith, hwithout, Option.some.injEq]
    exact eq_comm
  rw [hiff]
  by_cases hintact : Intact bus' entry (origins (dcacheIndex entry.tag))
  · rw [freshFetch_intact_iff horigin.1 horigin.2 hoffset hintact]
    simp [HitStands, hintact]
  · simp [HitStands, hintact]

/-- `jal x0, 0` at address 0: the second step hits what the first one cached. -/
def loopProgram : Ram := Ram.ofWords [0x0000006F]

def loopStep : Status × Supervisor × Ram :=
  letI := FloatOps.zero
  (new 0 0).step loopProgram

def loopOrigins : Origins :=
  (new 0 0).recordStep loopProgram fun _ => ⟨0, 0, 0⟩

/-- The outcome of translating the PC in the second step. -/
def loopFetch : Except Trap U64 × Supervisor × Ram :=
  (loopStep.2.1.pollDevices loopStep.2.2).fetchTranslate loopStep.2.2 loopStep.2.1.cpu.pc

theorem stepFetch_transparent_iff_loop :
    (loopStep.2.1.stepFetch loopStep.2.2 = loopStep.2.1.emptyDcache.stepFetch loopStep.2.2 ↔
      HitStands loopFetch.2.1 loopFetch.2.2 ⟨0, .jal 0 0, 4⟩ (loopOrigins 0)) :=
  @Cached.stepFetch_transparent_iff Ram _ FloatOps.zero loopStep.2.1 loopStep.2.2 loopOrigins
    (@Cached.step Ram _ FloatOps.zero _ _ _ (@Cached.reset Ram _ FloatOps.zero 0 0 loopProgram _))
    ⟨0, .jal 0 0, 4⟩ loopFetch.2.1 loopFetch.2.2 (by decide +kernel)
    (Prod.ext (by decide +kernel) rfl) (by decide +kernel)

/-- A gigapage for the low addresses and nothing above it, and, from the last
halfword of that page on: `addi x1, x0, 8; slli x1, x1, 60; addi x1, x1, 2;
csrw satp, x1; lui x2, 0x40000; addi x2, x2, -2; csrw mepc, x2; mret`. -/
def straddleProgram : Ram := fun addr =>
  if addr = 0x2000 then 0x5B
  else Ram.ofWords [0x00800093, 0x03C09093, 0x00208093, 0x18009073, 0x40000137,
    0xFFE10113, 0x34111073, 0x30200073] (addr - 0x3FFFFFFE)

/-- User mode is about to fetch the first instruction again, whose second half is
no longer mapped. -/
def straddleState : Supervisor × Ram :=
  letI := FloatOps.zero
  (new 0x3FFFFFFE 0).run straddleProgram 8

/-- The bytes of the cached instruction are those it was decoded from; the hit
executes it, where a fresh fetch takes a page fault on its second half. -/
theorem straddling_hit_hides_page_fault :
    straddleState.1.cpu.pc = 0x3FFFFFFE ∧ straddleState.1.privLevel = .user ∧
      (readU16 straddleState.2 0x3FFFFFFE).1 = 0x0093 ∧
      (readU16 straddleState.2 0x40000000).1 = 0x0080 ∧
      straddleState.1.stepFetch straddleState.2 = some (.ok (decode 0x00800093, 4)) ∧
      straddleState.1.emptyDcache.stepFetch straddleState.2 =
        some (.error (.exception .instructionPageFault, some 0x40000000)) := by
  decide +kernel

end TabLinux

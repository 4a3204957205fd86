/-
Permissions behind the inlined data TLBs.  Compiled code trusts an entry whose word is
current; the word holds the address space's generation and the privilege level, while
the MMU also looks at SUM, MXR and, in machine mode, at MPRV and MPP.  A record of the
status under which each entry was filled says when that is enough.
-/
import TabLinux.DataAccess

namespace TabLinux

open Generations Runs

variable {cpu : Supervisor} {mem : Ram} {view : DataView}

variable {entry : InlineTlbEntry} {s : Supervisor} {rd src : Reg} {val : U64} {op : CsrOp}

/-- Compiled code calls the host for a load, a store or a CSR instruction, or leaves its
block; the interpreter takes traps and returns from them, and enters compiled code again
after the words have been refreshed.  All other accesses of the hart are calls of the MMU,
and all other changes of memory are given by their outcome. -/
inductive DataEvent where
  | load (width : Width) (addr pc : U64)
  | store (width : Width) (addr val pc : U64)
  | csr (csr : Csr) (rd src : Reg) (val : U64) (op : CsrOp) (pc : U64)
  | leave (pc : U64)
  | trap (trap : Trap) (faultVaddr : Option U64)
  | mret
  | sret
  | resume
  | call (privLevel : Privilege) (access : AccessType) (vaddr : U64)
  | memory (mem : Ram)

/-- A block whose access faulted does nothing but return, and the interpreter runs
outside of blocks. -/
def Machine.allowsData (m : Machine Ram) : DataEvent → Bool
  | .load _ _ _ | .store _ _ _ _ | .csr _ _ _ _ _ _ =>
      m.phase = .compiled && m.cpu.cpu.jitFault = 0
  | .leave _ => m.phase = .compiled
  | .trap _ _ | .mret | .sret | .resume => m.phase = .top
  | .call _ _ _ | .memory _ => true

/-- The words are refreshed and a block is entered. -/
def Machine.resume (m : Machine Ram) : Machine Ram :=
  { m with
    cpu := { m.cpu with cpu := { m.cpu.cpu with jitFault := 0 } }
    jit := m.jit.refreshGen m.cpu
    phase := .compiled }

def Machine.performData (m : Machine Ram) : DataEvent → Machine Ram
  | .load width addr pc => (m.jitLoad width addr pc).2
  | .store width addr val pc => m.jitStore width addr val pc
  | .csr csr rd src val op pc => m.jitCsr csr rd src val op pc
  | .leave pc => m.leave pc
  | .trap trap faultVaddr => { m with cpu := (m.cpu.takeTrapWithVaddr trap faultVaddr).2 }
  | .mret => { m with cpu := m.cpu.doMret.2 }
  | .sret => { m with cpu := m.cpu.doSret.2 }
  | .resume => m.resume
  | .call privLevel access vaddr =>
      let (_, cpu, mem) := m.cpu.mmuTranslate m.bus privLevel access vaddr
      { m with cpu := cpu, bus := mem }
  | .memory mem => { m with bus := mem }

/-- Where an entry was filled: the address space and the status. -/
structure FillStamp where
  satp : Satp
  view : DataView

/-- A machine with the stamps of the entries of its two tables. -/
structure DataLogged where
  machine : Machine Ram
  stamp : Bool → BitVec 12 → FillStamp

namespace DataLogged

/-- The stamps after a host access, which may have cached a page. -/
def fill (l : DataLogged) (store : Bool) (addr : U64) :
    Bool → BitVec 12 → FillStamp :=
  if (l.machine.fill? store addr).isSome then
    Function.update l.stamp store (Function.update (l.stamp store)
      (inlineTlbIndex (addr >>> 12)) ⟨l.machine.cpu.satp, l.machine.cpu.dataView⟩)
  else l.stamp

def record (l : DataLogged) : DataEvent → Bool → BitVec 12 → FillStamp
  | .load _ addr _ => l.fill false addr
  | .store _ addr _ _ => l.fill true addr
  | _ => l.stamp

/-- One event, ignored where it cannot happen. -/
def step (l : DataLogged) (event : DataEvent) : DataLogged :=
  if l.machine.allowsData event then ⟨l.machine.performData event, l.record event⟩ else l

/-- A machine with nothing compiled and nothing cached. -/
def start (cpu : Supervisor) (mem : Ram) (dram : DramWindow) : DataLogged :=
  ⟨Machine.new cpu mem dram, fun _ _ => ⟨cpu.satp, cpu.dataView⟩⟩

end DataLogged

/-- Where compiled code compares words, the one it has is the current one; and an entry
that matches an address and carries the current word holds the page that translation
finds. -/
def Machine.TlbPermits (m : Machine Ram) : Prop :=
  (m.probing = true → m.jit.dataGen = m.dataWord) ∧
    ∀ (store : Bool) (addr : U64),
      (m.jit.tlb store (inlineTlbIndex (addr >>> 12))).vpn = addr >>> 12 →
      (m.jit.tlb store (inlineTlbIndex (addr >>> 12))).gen = m.dataWord →
        ∃ pa, (m.cpu.translate m.bus (tlbAccess store) addr).1 = .ok pa ∧
          m.dram.pageHostAddr pa =
            some ((m.jit.tlb store (inlineTlbIndex (addr >>> 12))).base.setWidth 32)

/-- The page tables of all the address spaces that the run uses are left alone, the MMU's
own updates aside.  A store writes after its own translation. -/
def DataLogged.KeepsTables (spaces : Set Satp) (l : DataLogged) (event : DataEvent) : Prop :=
  (l.step event).machine.cpu.satp ∈ spaces ∧
    match event with
    | .store width addr val pc => ∀ satp ∈ spaces,
        TablesKept satp (l.machine.cpu.translate l.machine.bus .store addr).2.2
          (l.machine.jitStore width addr val pc).bus
    | .memory mem => ∀ satp ∈ spaces, TablesKept satp l.machine.bus mem
    | _ => True

/-- With `s` the hart that the event leaves: the entries that carry the word of `s` were
all filled under the status of `s`. -/
def DataLogged.StatusKept (l : DataLogged) (s : Supervisor) : Prop :=
  ∀ store i, (l.machine.jit.tlb store i).gen = genWord s.dataTransGen s.privLevel →
    (l.stamp store i).view = s.dataView

/-- The condition on an event: the generation counter stays clear of its end, `satp` is
not set to all ones, and a change of privilege or status does not bring back a word of
entries that were filled under another status. -/
def DataLogged.Meets (l : DataLogged) (event : DataEvent) : Prop :=
  l.machine.cpu.asidGenNext.toNat + 2 < 2 ^ 30 ∧
    match event with
    | .csr csr rd src val op _ =>
        l.machine.cpu.csrDenied csr op src = false →
          (l.machine.cpu.csrSpaceOp csr src val op).Sane ∧
            l.StatusKept (l.machine.cpu.csrAccess l.machine.bus csr rd src val op)
    | .trap trap faultVaddr =>
        l.StatusKept (l.machine.cpu.takeTrapWithVaddr trap faultVaddr).2
    | .mret => l.StatusKept l.machine.cpu.doMret.2
    | .sret => l.StatusKept l.machine.cpu.doSret.2
    | _ => True

/-- An entry holds the page that translation finds in the space and under the status of
its stamp, and only that space can get its word back. -/
structure Backed (spaces : Set Satp) (m : Machine Ram) (store : Bool)
    (entry : InlineTlbEntry) (stamp : FillStamp) : Prop where
  used : stamp.satp ∈ spaces
  word : ∃ gen privLevel, entry.gen = genWord gen privLevel ∧
    (m.cpu.spaces.ledger .data).Sound (fun satp => satp = stamp.satp) gen.toNat
  answer : ∃ addr pa : U64, addr >>> 12 = entry.vpn ∧
    dataAnswer m.bus stamp.satp stamp.view (tlbAccess store) addr = .ok pa ∧
    m.dram.pageHostAddr pa = some (entry.base.setWidth 32)

/-- Entries stay backed while generations advance and walks end as before. -/
theorem Backed.mono {spaces : Set Satp} {m m' : Machine Ram} {store : Bool}
    {stamp : FillStamp} (h : Backed spaces m store entry stamp)
    (hadvance : (m.cpu.spaces.ledger .data).Advance (m'.cpu.spaces.ledger .data))
    (halike : ∀ satp ∈ spaces, WalksAlike satp m.bus m'.bus) (hdram : m'.dram = m.dram) :
    Backed spaces m' store entry stamp := by
  obtain ⟨gen, privLevel, hgen, hsound⟩ := h.word
  obtain ⟨addr, pa, haddr, hanswer, hpage⟩ := h.answer
  refine ⟨h.used, ⟨gen, privLevel, hgen, hsound.advance hadvance⟩, addr, pa, haddr, ?_, ?_⟩
  · rw [(halike _ h.used).dataAnswer_eq]
    exact hanswer
  · rw [hdram]
    exact hpage

/-- What holds of the machine and the stamps between events. -/
structure DataLogged.Sound (spaces : Set Satp) (l : DataLogged) : Prop where
  wf : l.machine.cpu.spaces.Wf
  bound : l.machine.cpu.spaces.asidGenNext.toNat + 1 < 2 ^ 30
  synced : l.machine.Synced
  used : l.machine.cpu.satp ∈ spaces
  tlb : TlbSound l.machine.bus l.machine.cpu.satp l.machine.cpu.mmu.tlb
  entries : ∀ store i, (l.machine.jit.tlb store i).gen = 0 ∨
    Backed spaces l.machine store (l.machine.jit.tlb store i) (l.stamp store i)
  status : l.StatusKept l.machine.cpu

namespace DataLogged

variable {spaces : Set Satp} {l : DataLogged}

variable (h : l.Sound spaces)
include h

theorem Sound.room : l.machine.cpu.spaces.Room := by
  have hbound := h.bound
  unfold Spaces.Room
  omega

/-- A backed entry with the current word is for the current space. -/
theorem Sound.satp_eq {store : Bool}
    {stamp : FillStamp} (hbacked : Backed spaces l.machine store entry stamp)
    (hgen : entry.gen = l.machine.dataWord) : stamp.satp = l.machine.cpu.satp := by
  obtain ⟨gen, privLevel, hword, hle, howner⟩ := hbacked.word
  have hlive := h.wf.current .data
  have hcurrent := (h.wf.ledger .data).bounded hlive
  have hbound := h.bound
  have hgenLe : gen.toNat ≤ l.machine.cpu.spaces.asidGenNext.toNat := hle
  have hcurrentLe : l.machine.cpu.dataTransGen.toNat ≤
      l.machine.cpu.spaces.asidGenNext.toNat := hcurrent
  obtain ⟨hsame, -⟩ := genWord_inj (by omega) (by omega) (hword.symm.trans hgen)
  rw [hsame] at howner
  exact (howner _ hlive).symm

theorem Sound.dataWord_ne_zero : l.machine.dataWord ≠ 0 := by
  have hcurrent := (h.wf.ledger .data).bounded (h.wf.current .data)
  have hbound := h.bound
  have hcurrentLe : l.machine.cpu.dataTransGen.toNat ≤
      l.machine.cpu.spaces.asidGenNext.toNat := hcurrent
  exact genWord_ne_zero (by omega) _

theorem Sound.permits : l.machine.TlbPermits := by
  refine ⟨fun hprobing => congrArg Prod.snd (h.synced hprobing), ?_⟩
  intro store addr hvpn hgen
  rcases h.entries store (inlineTlbIndex (addr >>> 12)) with hzero | hbacked
  · exact absurd (hgen.symm.trans hzero) h.dataWord_ne_zero
  obtain ⟨addr', pa, hpage, hanswer, hhost⟩ := hbacked.answer
  rw [h.satp_eq hbacked hgen, h.status store _ hgen,
    ← Supervisor.translate_dataAnswer h.tlb] at hanswer
  refine ⟨rebase pa addr, ?_, ?_⟩
  · rw [Supervisor.translate_page _ _ _ (hvpn.symm.trans hpage.symm), hanswer]
    rfl
  · rw [pageHostAddr_rebase]
    exact hhost

end DataLogged

/-- What an event may do to the hart and to memory. -/
structure DataMove (spaces : Set Satp) (m m' : Machine Ram) : Prop where
  moves : m.cpu.spaces.Moves m'.cpu.spaces
  synced : m'.Synced
  used : m'.cpu.satp ∈ spaces
  tlb : TlbSound m'.bus m'.cpu.satp m'.cpu.mmu.tlb
  alike : ∀ satp ∈ spaces, WalksAlike satp m.bus m'.bus
  dram : m'.dram = m.dram

namespace DataLogged

variable {spaces : Set Satp} {l : DataLogged} {m' : Machine Ram}

/-- An event that keeps each entry with its stamp or fills it now. -/
theorem Sound.next (h : l.Sound spaces) (hmove : DataMove spaces l.machine m')
    (hroom : l.machine.cpu.asidGenNext.toNat + 2 < 2 ^ 30)
    (hstatus : l.StatusKept m'.cpu) {stamp : Bool → BitVec 12 → FillStamp}
    (hentry : ∀ store i,
      (m'.jit.tlb store i = l.machine.jit.tlb store i ∧ stamp store i = l.stamp store i) ∨
        (Backed spaces m' store (m'.jit.tlb store i) (stamp store i) ∧
          (stamp store i).view = m'.cpu.dataView)) : (⟨m', stamp⟩ : DataLogged).Sound spaces := by
  have hnext := hmove.moves.next
  have hbefore : l.machine.cpu.spaces.asidGenNext.toNat + 2 < 2 ^ 30 := hroom
  refine ⟨hmove.moves.wf, ?_, hmove.synced, hmove.used, hmove.tlb, ?_, ?_⟩
  · dsimp only
    omega
  · intro store i
    dsimp only
    rcases hentry store i with ⟨hsame, hstamp⟩ | ⟨hbacked, -⟩
    · rw [hsame, hstamp]
      rcases h.entries store i with hzero | hbacked
      · exact Or.inl hzero
      · exact Or.inr (hbacked.mono (hmove.moves.advance .data) hmove.alike hmove.dram)
    · exact Or.inr hbacked
  · intro store i hgen
    dsimp only at hgen ⊢
    rcases hentry store i with ⟨hsame, hstamp⟩ | ⟨-, hview⟩
    · rw [hsame] at hgen
      rw [hstamp]
      exact hstatus store i hgen
    · exact hview

theorem Sound.next_same (h : l.Sound spaces) (hmove : DataMove spaces l.machine m')
    (hroom : l.machine.cpu.asidGenNext.toNat + 2 < 2 ^ 30) (hstatus : l.StatusKept m'.cpu)
    (htlb : ∀ store, m'.jit.tlb store = l.machine.jit.tlb store) :
    (⟨m', l.stamp⟩ : DataLogged).Sound spaces :=
  h.next hmove hroom hstatus fun store i => Or.inl ⟨congrFun (htlb store) i, rfl⟩

theorem Sound.quiet (h : l.Sound spaces) (hspaces : m'.cpu.spaces = l.machine.cpu.spaces)
    (hmmu : m'.cpu.mmu = l.machine.cpu.mmu) (hbus : m'.bus = l.machine.bus)
    (hdram : m'.dram = l.machine.dram) (hsynced : m'.Synced) : DataMove spaces l.machine m' := by
  have hsatp : m'.cpu.satp = l.machine.cpu.satp := congrArg Spaces.satp hspaces
  refine ⟨?_, hsynced, ?_, ?_, ?_, hdram⟩
  · rw [hspaces]
    exact h.wf.moves_self
  · rw [hsatp]
    exact h.used
  · rw [hsatp, hmmu, hbus]
    exact h.tlb
  intro satp _
  rw [hbus]
  exact WalksAlike.refl satp _

/-- Entries are judged by the word and the status of the hart only. -/
theorem StatusKept.congr {s' : Supervisor} (h : l.StatusKept s)
    (hwords : s'.genWords = s.genWords) (hview : s'.dataView = s.dataView) : l.StatusKept s' := by
  have hword : genWord s'.dataTransGen s'.privLevel = genWord s.dataTransGen s.privLevel :=
    congrArg Prod.snd hwords
  intro store i hgen
  rw [hword] at hgen
  rw [hview]
  exact h store i hgen

section

variable (h : l.Sound spaces)
include h

/-- The entry that a host access fills, in the state before the access. -/
theorem Sound.backed_fill (hwords : l.machine.jit.dataGen = l.machine.dataWord) {store : Bool}
    {addr : U64}
    {page : U32} (hfill : l.machine.fill? store addr = some page) :
    Backed spaces l.machine store ⟨addr >>> 12, l.machine.jit.dataGen, page.setWidth 64⟩
      ⟨l.machine.cpu.satp, l.machine.cpu.dataView⟩ := by
  have hlive := h.wf.current .data
  refine ⟨h.used, ⟨l.machine.cpu.dataTransGen, l.machine.cpu.privLevel, hwords,
    (h.wf.ledger .data).sound hlive rfl⟩, ?_⟩
  unfold Machine.fill? at hfill
  rw [Supervisor.translate_dataAnswer h.tlb] at hfill
  cases hanswer : dataAnswer l.machine.bus l.machine.cpu.satp l.machine.cpu.dataView
      (tlbAccess store) addr with
  | error trap =>
    rw [hanswer] at hfill
    cases hfill
  | ok pa =>
    rw [hanswer] at hfill
    dsimp only at hfill
    split at hfill
    · cases hfill
    refine ⟨addr, pa, rfl, hanswer, ?_⟩
    rw [hfill]
    simp

theorem Sound.next_filled (hmove : DataMove spaces l.machine m')
    (hroom : l.machine.cpu.asidGenNext.toNat + 2 < 2 ^ 30)
    (heffect : HartEffect l.machine.cpu m'.cpu)
    (hwords : l.machine.jit.dataGen = l.machine.dataWord) (side : Bool) (addr : U64)
    (htlb : ∀ store, m'.jit.tlb store =
      if store = side then l.machine.filled store addr else l.machine.jit.tlb store) :
    (⟨m', l.fill side addr⟩ : DataLogged).Sound spaces := by
  refine h.next hmove hroom (h.status.congr heffect.genWords_eq heffect.dataView_eq) ?_
  intro store i
  rw [htlb]
  unfold Machine.filled DataLogged.fill
  by_cases hside : store = side
  · subst hside
    rw [if_pos rfl]
    cases hfill : l.machine.fill? store addr with
    | none => exact Or.inl ⟨rfl, rfl⟩
    | some page =>
      dsimp only [Option.isSome_some]
      rw [if_pos rfl, Function.update_self]
      by_cases hi : i = inlineTlbIndex (addr >>> 12)
      · subst hi
        rw [Function.update_self, Function.update_self]
        exact Or.inr ⟨(h.backed_fill hwords hfill).mono (hmove.moves.advance .data)
          hmove.alike hmove.dram, heffect.dataView_eq.symm⟩
      · rw [Function.update_of_ne hi, Function.update_of_ne hi]
        exact Or.inl ⟨rfl, rfl⟩
  · rw [if_neg hside]
    refine Or.inl ⟨rfl, ?_⟩
    split
    · rw [Function.update_of_ne hside]
    · rfl

/-- An event that translates one access and then keeps the tables. -/
theorem Sound.move_translated (access : AccessType) (addr : U64)
    (heffect : HartEffect l.machine.cpu m'.cpu)
    (hmmu : m'.cpu.mmu = (l.machine.cpu.translate l.machine.bus access addr).2.1.mmu)
    (hkept : ∀ satp ∈ spaces,
      TablesKept satp (l.machine.cpu.translate l.machine.bus access addr).2.2 m'.bus)
    (hdram : m'.dram = l.machine.dram) (hsynced : m'.Synced) : DataMove spaces l.machine m' := by
  obtain ⟨htlb, hgrow⟩ := Supervisor.translate_sound h.tlb access addr
  have hspaces := heffect.spaces_eq
  have hsatp : m'.cpu.satp = l.machine.cpu.satp := congrArg Spaces.satp hspaces
  refine ⟨?_, hsynced, ?_, ?_, ?_, hdram⟩
  · rw [hspaces]
    exact h.wf.moves_self
  · rw [hsatp]
    exact h.used
  · rw [hsatp, hmmu]
    exact fun hmode => (hkept _ h.used).tlbOk (htlb hmode)
  intro satp hsatp
  have hgrown : WalksAlike satp l.machine.bus _ := translateResult_grow hgrow satp
  exact hgrown.trans (translateResult_kept (hkept satp hsatp))

theorem Sound.words (hprobing : l.machine.probing = true) :
    l.machine.jit.dataGen = l.machine.dataWord :=
  congrArg Prod.snd (h.synced hprobing)

theorem Sound.load (hphase : l.machine.phase = .compiled) (hfault : l.machine.cpu.cpu.jitFault = 0)
    (hroom : l.machine.cpu.asidGenNext.toNat + 2 < 2 ^ 30) (width : Width) (addr pc : U64) :
    (⟨(l.machine.jitLoad width addr pc).2, l.fill false addr⟩ : DataLogged).Sound spaces := by
  have hprobing := Machine.probing_iff.mpr (Or.inr ⟨hphase, hfault⟩)
  obtain ⟨heffect, hjit, -⟩ := l.machine.jitLoad_effect width addr pc
  obtain ⟨hmmu, hbus, hdram⟩ := l.machine.jitLoad_memory width addr pc
  have hsynced : (l.machine.jitLoad width addr pc).2.Synced :=
    .of_eq (h.synced hprobing) (by rw [hjit]; rfl) heffect.genWords_eq
  have hmove : DataMove spaces l.machine (l.machine.jitLoad width addr pc).2 := by
    refine h.move_translated .load addr heffect hmmu ?_ hdram hsynced
    intro satp _
    rw [hbus]
    exact TablesKept.refl satp _
  refine h.next_filled hmove hroom heffect (h.words hprobing) false addr fun store => ?_
  rw [l.machine.jitLoad_tlb width addr pc store]
  cases store <;> rfl

theorem Sound.store (hphase : l.machine.phase = .compiled) (hfault : l.machine.cpu.cpu.jitFault = 0)
    (hroom : l.machine.cpu.asidGenNext.toNat + 2 < 2 ^ 30) (width : Width) (addr val pc : U64)
    (hkept : ∀ satp ∈ spaces,
      TablesKept satp (l.machine.cpu.translate l.machine.bus .store addr).2.2
        (l.machine.jitStore width addr val pc).bus) :
    (⟨l.machine.jitStore width addr val pc, l.fill true addr⟩ : DataLogged).Sound spaces := by
  have hprobing := Machine.probing_iff.mpr (Or.inr ⟨hphase, hfault⟩)
  obtain ⟨heffect, hjit, -⟩ := l.machine.jitStore_effect width addr val pc
  obtain ⟨hmmu, hdram⟩ := l.machine.jitStore_memory width addr val pc
  have hsynced : (l.machine.jitStore width addr val pc).Synced :=
    .of_eq (h.synced hprobing) (by rw [hjit]; rfl) heffect.genWords_eq
  have hmove : DataMove spaces l.machine (l.machine.jitStore width addr val pc) :=
    h.move_translated .store addr heffect hmmu hkept hdram hsynced
  exact h.next_filled hmove hroom heffect (h.words hprobing) true addr
    (l.machine.jitStore_tlb width addr val pc)

/-- After a CSR access that is allowed, wherever the service goes on. -/
theorem Sound.csrAccess {csr : Csr} {m' : Machine Ram}
    (hroom : l.machine.cpu.asidGenNext.toNat + 2 < 2 ^ 30)
    (hsane : (l.machine.cpu.csrSpaceOp csr src val op).Sane)
    (hstatus : l.StatusKept (l.machine.cpu.csrAccess l.machine.bus csr rd src val op))
    (hused : m'.cpu.satp ∈ spaces)
    (heffect : ∃ mip, HartEffect
      { l.machine.cpu.csrAccess l.machine.bus csr rd src val op with mip := mip } m'.cpu)
    (hmmu : m'.cpu.mmu = (l.machine.cpu.csrAccess l.machine.bus csr rd src val op).mmu)
    (hbus : m'.bus = l.machine.bus) (hdram : m'.dram = l.machine.dram)
    (hsynced : m'.Synced) (htlb : ∀ store, m'.jit.tlb store = l.machine.jit.tlb store) :
    (⟨m', l.stamp⟩ : DataLogged).Sound spaces := by
  obtain ⟨mip, heffect⟩ := heffect
  have hspaces : m'.cpu.spaces =
      l.machine.cpu.spaces.apply (l.machine.cpu.csrSpaceOp csr src val op) :=
    heffect.spaces_eq.trans (l.machine.cpu.csrAccess_spaces l.machine.bus csr rd src val op)
  have hsatp : m'.cpu.satp = (l.machine.cpu.csrAccess l.machine.bus csr rd src val op).satp :=
    congrArg Spaces.satp heffect.spaces_eq
  refine h.next_same ⟨?_, hsynced, hused, ?_, ?_, hdram⟩ hroom
    (hstatus.congr heffect.genWords_eq heffect.dataView_eq) htlb
  · rw [hspaces]
    exact h.wf.moves_apply h.room hsane
  · rw [hsatp, hmmu, hbus]
    exact Supervisor.csrAccess_tlbSound h.wf.legal h.tlb csr rd src val op
  intro satp _
  rw [hbus]
  exact WalksAlike.refl satp _

theorem Sound.csr (hphase : l.machine.phase = .compiled)
    {csr : Csr} {m' : Machine Ram} (hservice : CsrService l.machine csr rd src val op m')
    (hroom : l.machine.cpu.asidGenNext.toNat + 2 < 2 ^ 30)
    (hcond : l.machine.cpu.csrDenied csr op src = false →
      (l.machine.cpu.csrSpaceOp csr src val op).Sane ∧
        l.StatusKept (l.machine.cpu.csrAccess l.machine.bus csr rd src val op))
    (hused : m'.cpu.satp ∈ spaces) : (⟨m', l.stamp⟩ : DataLogged).Sound spaces := by
  have hsynced := hservice.synced hphase
  have htlb := fun store => hservice.tlb_eq store
  cases hservice with
  | denied pc _ =>
    have hmove : DataMove spaces l.machine (l.machine.faultAt pc) := h.quiet rfl rfl rfl rfl hsynced
    exact h.next_same hmove hroom (h.status.congr rfl rfl) htlb
  | interrupted pc mip hallowed =>
    obtain ⟨hsane, hstatus⟩ := hcond hallowed
    exact h.csrAccess hroom hsane hstatus hused ⟨mip, Machine.faultAt_effect _ pc⟩ rfl rfl
      rfl hsynced htlb
  | done mip hallowed =>
    obtain ⟨hsane, hstatus⟩ := hcond hallowed
    exact h.csrAccess hroom hsane hstatus hused ⟨mip, HartEffect.refl _⟩ rfl rfl rfl hsynced htlb

/-- An event of the interpreter that keeps the spaces, the TLB and memory. -/
theorem Sound.outside (hphase : l.machine.phase = .top)
    (hroom : l.machine.cpu.asidGenNext.toNat + 2 < 2 ^ 30)
    (hspaces : cpu.spaces = l.machine.cpu.spaces) (hmmu : cpu.mmu = l.machine.cpu.mmu)
    (hstatus : l.StatusKept cpu) :
    (⟨{ l.machine with cpu := cpu }, l.stamp⟩ : DataLogged).Sound spaces := by
  have hsynced : ({ l.machine with cpu := cpu } : Machine Ram).Synced :=
    .of_phase (by dsimp only; rw [hphase]; rfl)
  have hmove : DataMove spaces l.machine { l.machine with cpu := cpu } :=
    h.quiet hspaces hmmu rfl rfl hsynced
  exact h.next_same hmove hroom hstatus fun _ => rfl

section

variable (hroom : l.machine.cpu.asidGenNext.toNat + 2 < 2 ^ 30)
include hroom

theorem Sound.leave (pc : U64) :
    (⟨l.machine.leave pc, l.stamp⟩ : DataLogged).Sound spaces := by
  unfold Machine.leave
  split
  · exact h.next_same (h.quiet rfl rfl rfl rfl (.of_phase rfl)) hroom
      (h.status.congr rfl rfl) fun _ => rfl
  · exact h.next_same (h.quiet rfl rfl rfl rfl (.of_phase rfl)) hroom
      (h.status.congr rfl rfl) fun _ => rfl

theorem Sound.resume : (⟨l.machine.resume, l.stamp⟩ : DataLogged).Sound spaces := by
  refine h.next_same (h.quiet rfl rfl rfl rfl fun _ => rfl) hroom (h.status.congr rfl rfl) ?_
  intro store
  cases store <;> rfl

theorem Sound.call (privLevel : Privilege) (access : AccessType) (vaddr : U64) :
    (⟨l.machine.performData (.call privLevel access vaddr), l.stamp⟩ : DataLogged).Sound
      spaces := by
  have hstate : TlbSound (l.machine.cpu.mmu, l.machine.bus).2 l.machine.cpu.satp
      (l.machine.cpu.mmu, l.machine.bus).1.tlb := h.tlb
  have htlb := MmuCall.apply_sound hstate
    (.translate privLevel l.machine.cpu.mstatus.sum l.machine.cpu.mstatus.mxr access vaddr)
  have hgrow := Mmu.translate_adGrow h.tlb privLevel l.machine.cpu.mstatus.sum
    l.machine.cpu.mstatus.mxr access vaddr
  have hmove : DataMove spaces l.machine (l.machine.performData (.call privLevel access vaddr)) :=
    ⟨h.wf.moves_self, h.synced, h.used, htlb, fun satp _ => translateResult_grow hgrow satp, rfl⟩
  exact h.next_same hmove hroom (h.status.congr rfl rfl) fun _ => rfl

theorem Sound.memory (hkept : ∀ satp ∈ spaces, TablesKept satp l.machine.bus mem) :
    (⟨{ l.machine with bus := mem }, l.stamp⟩ : DataLogged).Sound spaces := by
  have hmove : DataMove spaces l.machine { l.machine with bus := mem } :=
    ⟨h.wf.moves_self, h.synced, h.used, fun hmode => (hkept _ h.used).tlbOk (h.tlb hmode),
      fun satp hsatp => translateResult_kept (hkept satp hsatp), rfl⟩
  exact h.next_same hmove hroom (h.status.congr rfl rfl) fun _ => rfl

end

theorem Sound.step {event : DataEvent}
    (hkeeps : l.KeepsTables spaces event) (hcond : l.Meets event) :
    (l.step event).Sound spaces := by
  obtain ⟨hused, hkept⟩ := hkeeps
  obtain ⟨hroom, hcond⟩ := hcond
  unfold DataLogged.step at hused ⊢
  by_cases hallows : l.machine.allowsData event
  · rw [if_pos hallows] at hused ⊢
    cases event with
    | load width addr pc =>
      simp only [Machine.allowsData, Bool.and_eq_true, decide_eq_true_eq] at hallows
      exact h.load hallows.1 hallows.2 hroom width addr pc
    | store width addr val pc =>
      simp only [Machine.allowsData, Bool.and_eq_true, decide_eq_true_eq] at hallows
      exact h.store hallows.1 hallows.2 hroom width addr val pc hkept
    | csr csr rd src val op pc =>
      simp only [Machine.allowsData, Bool.and_eq_true, decide_eq_true_eq] at hallows
      exact h.csr hallows.1 (l.machine.jitCsr_service csr rd src val op pc) hroom hcond hused
    | leave pc => exact h.leave hroom pc
    | trap trap faultVaddr =>
      refine h.outside (of_decide_eq_true hallows) hroom
        (l.machine.cpu.takeTrapWithVaddr_spaces trap faultVaddr) ?_ hcond
      unfold Supervisor.takeTrapWithVaddr
      split <;> rfl
    | mret => exact h.outside (of_decide_eq_true hallows) hroom rfl rfl hcond
    | sret => exact h.outside (of_decide_eq_true hallows) hroom rfl rfl hcond
    | resume => exact h.resume hroom
    | call privLevel access vaddr => exact h.call hroom privLevel access vaddr
    | memory mem => exact h.memory hroom hkept
  · rw [if_neg hallows]
    exact h

end

theorem Sound.start (hreset : cpu.spaces.Reset) (hroom : cpu.asidGenNext.toNat + 1 < 2 ^ 30)
    (htlb : TlbSound mem cpu.satp cpu.mmu.tlb) (hused : cpu.satp ∈ spaces) (dram : DramWindow) :
    (DataLogged.start cpu mem dram).Sound spaces where
  wf := hreset.wf
  bound := hroom
  synced := .of_phase rfl
  used := hused
  tlb := htlb
  entries store i := Or.inl (by cases store <;> rfl)
  status _ _ _ := rfl

/-- Entries that were all filled under one status stay so while the status lasts. -/
def Uniform (view : DataView) (l : DataLogged) : Prop :=
  ∀ store i, (l.stamp store i).view = view

theorem Uniform.fill (h : l.Uniform view) (hview : l.machine.cpu.dataView = view) (side : Bool)
    (addr : U64) (store : Bool) (i : BitVec 12) : (l.fill side addr store i).view = view := by
  unfold DataLogged.fill
  split
  · by_cases hside : store = side
    · subst hside
      rw [Function.update_self]
      by_cases hi : i = inlineTlbIndex (addr >>> 12)
      · rw [hi, Function.update_self]
        exact hview
      · rw [Function.update_of_ne hi]
        exact h store i
    · rw [Function.update_of_ne hside]
      exact h store i
  · exact h store i

theorem Uniform.step (h : l.Uniform view) (hview : l.machine.cpu.dataView = view)
    (event : DataEvent) : (l.step event).Uniform view := by
  unfold DataLogged.step
  split
  · cases event with
    | load width addr pc => exact h.fill hview false addr
    | store width addr val pc => exact h.fill hview true addr
    | _ => exact h
  · exact h

/-- The event finds the given status and leaves it. -/
def Steady (view : DataView) (l : DataLogged) (event : DataEvent) :
    Prop :=
  l.machine.cpu.dataView = view ∧ l.machine.cpu.asidGenNext.toNat + 2 < 2 ^ 30 ∧
    match event with
    | .csr csr rd src val op _ =>
        (l.machine.cpu.csrSpaceOp csr src val op).Sane ∧
          (l.machine.cpu.csrAccess l.machine.bus csr rd src val op).dataView = view
    | .trap trap faultVaddr =>
        (l.machine.cpu.takeTrapWithVaddr trap faultVaddr).2.dataView = view
    | .mret => l.machine.cpu.doMret.2.dataView = view
    | .sret => l.machine.cpu.doSret.2.dataView = view
    | _ => True

instance (view : DataView) (l : DataLogged) (event : DataEvent) :
    Decidable (l.Steady view event) := by
  unfold Steady SpaceOp.Sane
  cases event <;> infer_instance

theorem Uniform.statusKept (h : l.Uniform view) (hview : s.dataView = view) : l.StatusKept s :=
  fun store i _ => (h store i).trans hview.symm

theorem Uniform.meets (h : l.Uniform view) {event : DataEvent} (hsteady : l.Steady view event) :
    l.Meets event := by
  obtain ⟨-, hroom, hevent⟩ := hsteady
  refine ⟨hroom, ?_⟩
  cases event with
  | csr csr rd src val op pc => exact fun _ => ⟨hevent.1, h.statusKept hevent.2⟩
  | trap trap faultVaddr => exact h.statusKept hevent
  | mret => exact h.statusKept hevent
  | sret => exact h.statusKept hevent
  | _ => trivial

/-- A run under one status meets the condition. -/
theorem meets_of_steady {dram : DramWindow} {events : List DataEvent}
    (hsteady : Along DataLogged.step (DataLogged.Steady cpu.dataView)
      (DataLogged.start cpu mem dram) events) :
    Along DataLogged.step DataLogged.Meets (DataLogged.start cpu mem dram) events := by
  have hstart : (DataLogged.start cpu mem dram).Uniform cpu.dataView := fun _ _ => rfl
  refine Along.of_invariant ?_ ?_ hstart hsteady
  · intro l event h hevent
    exact h.step hevent.1 event
  · intro l event h hevent
    exact h.meets hevent

/-- From a restored hart, through any loads, stores, CSR instructions, traps and returns
that leave the page tables alone: as long as no change of status brings back a word of
entries filled under another status, the entries in use hold what translation finds. -/
theorem run_tlbPermits (spaces : Set Satp) (cpu : Supervisor) (mem : Ram) (dram : DramWindow)
    (events : List DataEvent) (hreset : cpu.spaces.Reset)
    (hroom : cpu.asidGenNext.toNat + 1 < 2 ^ 30)
    (htlb : TlbSound mem cpu.satp cpu.mmu.tlb) (hused : cpu.satp ∈ spaces)
    (hkeeps : Along DataLogged.step (DataLogged.KeepsTables spaces)
      (DataLogged.start cpu mem dram) events)
    (hmeets : Along DataLogged.step DataLogged.Meets (DataLogged.start cpu mem dram) events) :
    (run DataLogged.step (DataLogged.start cpu mem dram) events).machine.TlbPermits := by
  refine Sound.permits ((hkeeps.and hmeets).invariant ?_ (Sound.start hreset hroom htlb hused dram))
  intro l event h hevent
  exact h.step hevent.1 hevent.2

end DataLogged

/-- A gigapage of user memory at address 0; the table lies at 0x2000. -/
def userPage : Ram := fun addr => if addr = 0x2000 then 0xDF else 0

/-- Supervisor mode with SUM set; every exception is delegated. -/
def sumCpu : Supervisor :=
  { loopCpu with
    mstatus := { loopCpu.mstatus with sum := true }
    medeleg := BitVec.allOnes 64 }

def sumStart : DataLogged := DataLogged.start sumCpu userPage loopWindow

/-- The kernel reads a user page through the host and clears SUM. -/
def clearSum : List DataEvent :=
  [.resume, .load .u64 0x1000 0x100, .csr 0x100 0 1 (1#64 <<< 18) .rc 0x104]

def sumCleared : DataLogged := run DataLogged.step sumStart clearSum

theorem sumCleared_live :
    sumCleared.machine.probing = true ∧
      sumCleared.machine.jit.dataGen = sumCleared.machine.dataWord ∧
      (sumCleared.machine.jit.tlb false (inlineTlbIndex (0x1000#64 >>> 12))).vpn =
        0x1000#64 >>> 12 ∧
      (sumCleared.machine.jit.tlb false (inlineTlbIndex (0x1000#64 >>> 12))).gen =
        sumCleared.machine.dataWord ∧
      (sumCleared.machine.cpu.translate sumCleared.machine.bus .load 0x1000).1 =
        .error (.exception .loadPageFault) := by
  decide +kernel

/-- Compiled code goes on with an entry for the page, from which a load now faults. -/
theorem cleared_sum_keeps_entry :
    Along DataLogged.step (DataLogged.KeepsTables {sumCpu.satp}) sumStart clearSum ∧
      sumCleared.machine.probing = true ∧
      (sumCleared.machine.jit.tlb false (inlineTlbIndex (0x1000#64 >>> 12))).gen =
        sumCleared.machine.jit.dataGen ∧
      (sumCleared.machine.cpu.translate sumCleared.machine.bus .load 0x1000).1 =
        .error (.exception .loadPageFault) ∧
      ¬ sumCleared.machine.TlbPermits := by
  obtain ⟨hprobing, hword, hvpn, hgen, hfault⟩ := sumCleared_live
  refine ⟨⟨⟨?_, trivial⟩, ⟨?_, trivial⟩, ⟨?_, trivial⟩, trivial⟩, hprobing,
    hgen.trans hword.symm, hfault, ?_⟩
  · exact Set.mem_singleton_iff.mpr (by decide +kernel)
  · exact Set.mem_singleton_iff.mpr (by decide +kernel)
  · exact Set.mem_singleton_iff.mpr (by decide +kernel)
  rintro ⟨-, hpermits⟩
  obtain ⟨pa, hpa, -⟩ := hpermits false 0x1000 hvpn hgen
  rw [show tlbAccess false = .load from rfl, hfault] at hpa
  cases hpa

/-- The page is read and written, and a trap is handled, with SUM set throughout. -/
def sumKeptEvents : List DataEvent :=
  [.resume, .load .u64 0x1000 0x100, .store .u64 0x1008 7 0x104,
    .csr 0x140 0 1 5 .rw 0x108, .leave 0x10C, .trap (.exception .breakpoint) none, .sret,
    .resume]

def sumKept : DataLogged := run DataLogged.step sumStart sumKeptEvents

theorem sumKept_keepsTables :
    Along DataLogged.step (DataLogged.KeepsTables {sumCpu.satp}) sumStart sumKeptEvents := by
  have hused : ∀ n ≤ 8,
      (run DataLogged.step sumStart (sumKeptEvents.take n)).machine.cpu.satp =
        sumCpu.satp := by
    decide +kernel
  refine ⟨⟨hused 1 (by decide), trivial⟩, ⟨hused 2 (by decide), trivial⟩,
    ⟨hused 3 (by decide), ?_⟩, ⟨hused 4 (by decide), trivial⟩,
    ⟨hused 5 (by decide), trivial⟩, ⟨hused 6 (by decide), trivial⟩,
    ⟨hused 7 (by decide), trivial⟩, ⟨hused 8 (by decide), trivial⟩, trivial⟩
  rintro satp rfl
  refine TablesKept.of_root ?_ ?_
  · decide +kernel
  · decide +kernel

theorem sumKept_meets : Along DataLogged.step DataLogged.Meets sumStart sumKeptEvents :=
  DataLogged.meets_of_steady (by decide +kernel)

/-- After the run the entry of the page is still in use. -/
theorem run_tlbPermits_sumKept :
    Along DataLogged.step (DataLogged.KeepsTables {sumCpu.satp}) sumStart sumKeptEvents ∧
      Along DataLogged.step DataLogged.Meets sumStart sumKeptEvents ∧
      (sumKept.machine.jit.tlb true (inlineTlbIndex (0x1008#64 >>> 12))).gen =
        sumKept.machine.dataWord ∧
      sumKept.machine.TlbPermits :=
  ⟨sumKept_keepsTables, sumKept_meets, by decide +kernel,
    DataLogged.run_tlbPermits {sumCpu.satp} sumCpu userPage loopWindow sumKeptEvents
      { loopCpu_reset with } (by decide) (fun _ => TlbOk.of_no_valid fun _ => rfl) rfl
      sumKept_keepsTables sumKept_meets⟩

end TabLinux

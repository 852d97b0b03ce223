import YarvUc.Execute.PeriPort
import YarvUc.Isa.Pipeline
import YarvUc.Sequential.Attended

/-!
# The instruction set among interrupts and devices

`Isa.Turn` is what the instruction set and the trap unit make of one turn: the instruction at
the PC, by its architectural meaning, or an interrupt, with what comes in from outside. It is
the machine of `Turns` wherever no slip and no hint stands at the PC.
-/

namespace YarvUc

/-! ## The kinds of the instructions -/

def RegFn.divides : RegFn → Bool
  | div | divu | rem | remu => true
  | _ => false

def Instr.kind : Instr → OpKind
  | lui .. | auipc .. | immediate .. | shift .. => .alu
  | register f .. => if f.divides then .div else .alu
  | jal .. | jalr .. => .jump
  | branch .. => .cond
  | load .. | indexed .. => .load
  | store .. => .store
  | fence .. | fenceI .. => .nop
  | csr .. | csrImm .. => .csr
  | ecall | ebreak => .exc
  | mret => .mret
  | wfi => .wfi

namespace OpKind

/-- A pending interrupt does not let it pass. -/
def yields : OpKind → Bool
  | cond | jump | alu | nop => true
  | _ => false

/-- An interrupt may be taken in front of it. -/
def interruptible : OpKind → Bool
  | csr | div => true
  | k => k.yields

/-- At a wake it goes before the interrupt. -/
def precedes : OpKind → Bool
  | exc | mret => true
  | _ => false

end OpKind

theorem Instr.flags_ctrl (i : Instr) : i.ctrl.flags = i.kind.flags := by
  cases i with
  | register f rd rs1 rs2 => cases f <;> rfl
  | branch c rs1 rs2 off => cases c <;> rfl
  | load z rd rs1 imm => cases z <;> rfl
  | csr f rd rs1 addr => cases f <;> rfl
  | csrImm f rd zimm addr => cases f <;> rfl
  | immediate f rd rs1 imm => cases f <;> rfl
  | shift f rd rs1 shamt => cases f <;> rfl
  | _ => rfl

/-- A D/E word carries its control word's enables. -/
theorem flags_decodeWord (regs : BitVec 5 → Word) (pc w : Word) (c : Bool) :
    (decodeWord regs pc w c).flags = (decodeUniform w).flags := by
  simp only [DeT.flags, Ctrl.flags, decodeWord, OpFlags.mk.injEq, true_and, and_true]
  refine ⟨rfl, ?_, ?_⟩ <;> cases (decodeUniform w).decIllegal <;> simp [Branch.isJump]

theorem flags_word {regs : BitVec 5 → Word} {pc w : Word} {c : Bool} (plain : ¬ Slip32 w) :
    (decodeWord regs pc w c).flags = ((Instr.ofWord w).elim .exc Instr.kind).flags := by
  rw [flags_decodeWord]
  cases read : Instr.ofWord w with
  | some i =>
    rw [← Instr.encode_ofWord read, Instr.decode_encode]
    exact i.flags_ctrl
  | none =>
    have refused : (decodeUniform w).decIllegal = true := by
      rw [← Bool.not_eq_false, (agrees w).accepts, Instr.legal32_iff, read]
      simpa using plain
    obtain ⟨k, flags⟩ := classified_uniform w
    have exc : k.flags.exc = true := by
      rw [← flags, Ctrl.flags, refused]
      rfl
    rw [flags]
    cases k <;> first | rfl | cases exc

namespace DeT

variable {de : DeT} {k : OpKind}

/-- What execute asks of a word before an interrupt is a matter of its kind. -/
theorem kind_turns (flags : de.flags = k.flags) :
    de.yields = k.yields ∧ de.interruptible = k.interruptible ∧ (de.exception || de.isMretOp) = k.precedes ∧
      de.isWfiOp = decide (k = .wfi) ∧ de.isMretOp = decide (k = .mret) := by
  have exc : de.exception = k.flags.exc := congrArg OpFlags.exc flags
  have read : de.memRead = k.flags.memRead := congrArg OpFlags.memRead flags
  have write : de.memWrite = k.flags.memWrite := congrArg OpFlags.memWrite flags
  have csr : de.isCsrOp = k.flags.csrWren := congrArg OpFlags.csrWren flags
  have div : de.isDivOp = k.flags.div := congrArg OpFlags.div flags
  have wfi : de.isWfiOp = k.flags.wfi := congrArg OpFlags.wfi flags
  have mret : de.isMretOp = k.flags.mret := congrArg OpFlags.mret flags
  simp only [yields, interruptible, isMemOp, exc, read, write, csr, div, wfi, mret]
  cases k <;> exact ⟨rfl, rfl, rfl, rfl, rfl⟩

end DeT

/-! ## The machine -/

namespace Isa

section Machine

variable (w : ℕ) (m : DmemParams) (image : ℕ → BitVec 64)

/-- The instruction at the PC, or the expansion of a halfword; none where the I-mem has nothing. -/
def instr (s : Arch) : Option Instr :=
  if outsideImem w s.pc || isWide w image s && outsideImem w (s.pc + 2) then none
  else Instr.ofWord (shown w image s)

def kind (s : Arch) : OpKind := (instr w image s).elim .exc Instr.kind

/-- The handler of the interrupt that goes first is entered, and returns to the instruction at the PC. -/
def interrupted (s : Arch) (o : Outside) : Arch where
  pc := s.csr.vectorOf (s.csr.lined o).firstDue
  rf := s.rf
  csr := (s.csr.passed .low false).enter s.pc (s.csr.lined o).dueCause 0
  mem := s.mem

/-- One turn of the instruction set. -/
inductive Turn (o : Outside) : Sleeper → Turned → Sleeper → Prop
  | instr {t : Sleeper}
      (wakes : t.asleep = true → (t.arch.csr.lined o).due = true ∧ (kind w image t.arch).precedes = true)
      (gives : (t.arch.csr.lined o).due = true → (kind w image t.arch).yields = false) :
      Turn o t (.did (event w m image (fun _ => o.data) (t.arch.sees o)))
        ⟨step w m image (fun _ => o.data) (t.arch.sees o), kind w image t.arch = .wfi⟩
  | interrupt {t : Sleeper} (pends : (t.arch.csr.lined o).due = true)
      (takes : t.asleep = true ∨ (kind w image t.arch).interruptible = true) :
      Turn o t (.interrupt t.arch.pc (t.arch.csr.lined o).dueCause) ⟨interrupted t.arch o, false⟩

/-- The machine behind a turn that shows `x`. -/
def behind (t : Sleeper) (x : Outside × Turned) : Sleeper :=
  match x.2 with
  | .did _ => ⟨step w m image (fun _ => x.1.data) (t.arch.sees x.1), kind w image t.arch = .wfi⟩
  | .interrupt .. => ⟨interrupted t.arch x.1, false⟩

/-- The machine stands at no slip, no hint and no word astride the end of the I-mem, returns to
an even address, and does not stand at a WFI asleep. -/
structure Fits (t : Sleeper) : Prop where
  plain : Plain w image t.arch
  inside : ¬ Straddles w image t.arch.pc
  ret : kind w image t.arch = .mret → t.arch.csr.mepc.getLsbD 0 = false
  sleeps : t.asleep = true → kind w image t.arch ≠ .wfi

end Machine

variable {w : ℕ} {p : Params} {m : DmemParams} {image : ℕ → BitVec 64} {o : Outside} {t u : Sleeper} {a : Turned}

theorem Turn.behind_eq (turn : Turn w m image o t a u) : u = behind w m image t (o, a) := by
  cases turn <;> rfl

/-- At the PC stands a word, wide or expanded, or the I-mem has nothing. -/
theorem word_cases {s : Arch} (plain : Plain p.imemAddrW image s) :
    (∃ v c, ¬ Slip32 v ∧ s.word p image = decodeWord s.rf.read s.pc v c ∧
      instr p.imemAddrW image s = Instr.ofWord v) ∨
    (∃ a, s.word p image = (Fetched.fault a).word s.rf.read ∧ instr p.imemAddrW image s = none) := by
  rw [Arch.word, fetchAt_eq, instr, shown]
  cases inside : outsideImem p.imemAddrW s.pc with
  | true => exact .inr ⟨s.pc, rfl, rfl⟩
  | false =>
    cases long : isWide p.imemAddrW image s with
    | true =>
      cases outsideImem p.imemAddrW (s.pc + 2) with
      | true => exact .inr ⟨s.pc + 2, rfl, rfl⟩
      | false => exact .inl ⟨wide p.imemAddrW image s, false, plain.word inside long, rfl, rfl⟩
    | false => exact .inl ⟨cExpand (low p.imemAddrW image s), true, unslipped_expand _, rfl, rfl⟩

theorem flags_pc {s : Arch} (plain : Plain p.imemAddrW image s) :
    (s.word p image).flags = (kind p.imemAddrW image s).flags := by
  rw [kind]
  obtain ⟨v, c, unslipped, word, instr⟩ | ⟨a, word, instr⟩ := word_cases plain
  · rw [word, instr]
    exact flags_word unslipped
  · rw [word, instr]
    rfl

theorem pends_eq (s : Arch) (o : Outside) : s.pends o = (s.csr.lined o).due := CsrRegs.intPending_eq _

theorem interrupted_eq (s : Arch) (o : Outside) : s.interrupted o = interrupted s o := by
  have cause : (s.csr.interrupt o s.pc).cause = (s.csr.lined o).dueCause := CsrRegs.intCause_eq _
  have csr : (s.interrupted o).csr = (interrupted s o).csr := by
    have entered := CsrRegs.next_enter (r := s.csr) (t := s.csr.interrupt o s.pc)
      (i := { csrAddr := 0, csrWren := false, csrData := 0, trap := (s.csr.interrupt o s.pc).trapWrite s.csr,
              lines := .low, instrRetire := false }) rfl rfl rfl
    rw [cause] at entered
    exact entered
  have pc : (s.interrupted o).pc = (interrupted s o).pc :=
    CsrRegs.redirectAddr_interrupt (r := s.csr) (t := s.csr.interrupt o s.pc) rfl rfl cause
  rw [Arch.interrupted, interrupted, Arch.mk.injEq]
  exact ⟨pc, rfl, csr, rfl⟩

/-- A turn of the sequential machine is one of the instruction set. -/
theorem turn_eq (fits : Fits p.imemAddrW image t) (turn : YarvUc.Turn p m image o t a u) :
    Turn p.imemAddrW m image o t a u := by
  obtain ⟨yields, interruptible, precedes, wfi, -⟩ := DeT.kind_turns (flags_pc fits.plain)
  have seen : Plain p.imemAddrW image (t.arch.sees o) := ⟨fits.plain.word, fits.plain.half⟩
  cases turn with
  | instr wakes gives =>
    have turned : t.arch.turned p m image o = event p.imemAddrW m image (fun _ => o.data) (t.arch.sees o) :=
      event_eq seen
    have turn : t.arch.turn p m image o = step p.imemAddrW m image (fun _ => o.data) (t.arch.sees o) := step_eq seen
    rw [pends_eq, precedes] at wakes
    rw [pends_eq, yields] at gives
    rw [turned, turn, wfi]
    exact .instr wakes gives
  | interrupt pends takes =>
    rw [pends_eq] at pends
    rw [interruptible] at takes
    rw [interrupted_eq, CsrRegs.intCause_eq]
    exact .interrupt pends takes

instance (w : ℕ) (image : ℕ → BitVec 64) (s : Arch) : Decidable (Plain w image s) :=
  decidable_of_iff
    ((outsideImem w s.pc = false → isWide w image s = true → ¬ Slip32 (wide w image s)) ∧
      (outsideImem w s.pc = false → isWide w image s = false →
        hint16 (low w image s) = false ∧ ¬ Slip16 (low w image s)))
    ⟨fun ⟨word, half⟩ => ⟨word, half⟩, fun h => ⟨h.word, h.half⟩⟩

instance (w : ℕ) (image : ℕ → BitVec 64) (t : Sleeper) : Decidable (Fits w image t) :=
  decidable_of_iff
    (Plain w image t.arch ∧ ¬ Straddles w image t.arch.pc ∧
      (kind w image t.arch = .mret → t.arch.csr.mepc.getLsbD 0 = false) ∧
      (t.asleep = true → kind w image t.arch ≠ .wfi))
    ⟨fun ⟨plain, inside, ret, sleeps⟩ => ⟨plain, inside, ret, sleeps⟩, fun h => ⟨h.plain, h.inside, h.ret, h.sleeps⟩⟩

end Isa

/-! ## At the peripheral port -/

/-- The address a word loads from. -/
def DeT.loadsFrom (de : DeT) : Option Word := if de.memRead then some de.lsuEa else none

def Instr.loadsFrom (s : Arch) : Instr → Option Word
  | load _ _ rs1 imm => some (s.x rs1 + imm.signExtend 32)
  | indexed x _ rs1 rs2 => some (s.x rs2 + s.x rs1 <<< x.scale)
  | _ => none

/-- The access of the peripheral port that a turn retires: a store as it stands on the port, or a
load from `loads` with the word from outside. -/
def portOf (loads : Option Word) (x : Outside × Turned) : List PortOp :=
  match x.2 with
  | .did (.commit _ _ _ _ (some a)) => if a.peri then [.store a.addr a.wdata a.wstrb] else []
  | .did (.commit _ _ _ _ none) => (loads.filter (·.getLsbD PERI_ADDR_BIT)).toList.map (.load · x.1.data)
  | _ => []

section Loads

variable {s : Arch} {c : Bool}

theorem Instr.loadsFrom_decoded (i : Instr) : (decodeWord s.rf.read s.pc i.encode c).loadsFrom = i.loadsFrom s := by
  have ea : (decodeWord s.rf.read s.pc i.encode c).lsuEa = (decoded s i).lsuEa := rfl
  have flags : (decodeWord s.rf.read s.pc i.encode c).flags = i.kind.flags := by
    rw [flags_decodeWord, decode_encode]
    exact i.flags_ctrl
  have read : (decodeWord s.rf.read s.pc i.encode c).memRead = i.kind.flags.memRead := congrArg OpFlags.memRead flags
  rw [DeT.loadsFrom, read, ea]
  cases i with
  | load z rd rs1 imm => exact congrArg some (ea_load z rs1 imm)
  | indexed x rd rs1 rs2 => exact congrArg some (ea_indexed x rs1 rs2)
  | register f rd rs1 rs2 => cases f <;> rfl
  | _ => rfl

theorem loadsFrom_word {w : Word} (plain : ¬ Slip32 w) :
    (decodeWord s.rf.read s.pc w c).loadsFrom = (Instr.ofWord w).bind (·.loadsFrom s) := by
  cases read : Instr.ofWord w with
  | some i =>
    rw [← Instr.encode_ofWord read]
    exact i.loadsFrom_decoded
  | none =>
    have flags : (decodeWord s.rf.read s.pc w c).flags = _ := flags_word plain
    rw [read] at flags
    have none : (decodeWord s.rf.read s.pc w c).memRead = false := congrArg OpFlags.memRead flags
    rw [DeT.loadsFrom, none]
    rfl

theorem Isa.loadsFrom_pc {p : Params} {image : ℕ → BitVec 64} (plain : Isa.Plain p.imemAddrW image s) :
    (s.word p image).loadsFrom = (Isa.instr p.imemAddrW image s).bind (·.loadsFrom s) := by
  obtain ⟨v, c, unslipped, word, instr⟩ | ⟨a, word, instr⟩ := Isa.word_cases plain
  · rw [word, instr]
    exact loadsFrom_word unslipped
  · rw [word, instr]
    rfl

end Loads

namespace Ordered.Attending

variable {p : Params} {m : DmemParams} {image : ℕ → BitVec 64} {o : Ordered} {i : CpuIn} {t : Sleeper}

/-- What a cycle needs follows from where the machine is. -/
theorem tame (att : o.Attending p m image t) (fits : Isa.Fits p.imemAddrW image t) : o.Tame p m image i := by
  obtain ⟨-, -, -, wfi, mret⟩ := DeT.kind_turns (Isa.flags_pc fits.plain)
  refine ⟨fun returns => ?_, fun sleeps => ?_, ?_⟩
  · simp only [ExCyc.mretReq, Bool.and_eq_true] at returns
    have valid : o.cpu.de.valid = true := returns.1.1.1
    have isMret : o.cpu.de.base.isMretOp = true := returns.2
    rw [← att.word valid, mret, decide_eq_true_eq] at isMret
    rw [(CsrRegs.untimed_eq att.csr).2.2.2.2.2.1]
    exact fits.ret isMret
  · obtain ⟨stall, on⟩ := sleeps
    simp only [Bool.and_eq_true] at on
    have isWfi : o.cpu.de.base.isWfiOp = true := on.2
    simp only [ExCyc.wfiStall, Bool.and_eq_true] at stall
    rw [← att.word on.1, wfi, decide_eq_true_eq] at isWfi
    exact fits.sleeps (att.asleep.symm.trans stall.1) isWfi
  · rw [att.pc]
    exact fits.inside

/-- A silent cycle retires no access, -/
theorem portDone_silent (silent : o.cpu.turns p m i = []) : (o.cpu.exec p m i).portDone = [] := by
  rw [ExCyc.portDone, (Cpu.turns_silent silent).1]
  rfl

/-- and a turn its own. -/
theorem portDone_turn (att : o.Attending p m image t) (fits : Isa.Fits p.imemAddrW image t) {x : Outside} {a : Turned}
    (turn : o.cpu.turns p m i = [(x, a)]) :
    (o.cpu.exec p m i).portDone = portOf ((Isa.instr p.imemAddrW image t.arch).bind (·.loadsFrom t.arch)) (x, a) := by
  cases (show (o.cpu.exec p m i).Outcome from att.order.lsu.core.outcome) with
  | bubble valid awake idle stall calm inert => rw [shows_quiet calm inert] at turn; cases turn
  | asleep halted quiet idle stall calm inert => rw [shows_quiet calm inert] at turn; cases turn
  | hold valid awake stall calm inert => rw [shows_quiet calm inert] at turn; cases turn
  | interrupt idle pending why nonexc sync mret int inert =>
    rw [Cpu.turns, inert.commit, sync, int] at turn
    cases turn
    exact ExCyc.portDone_inert inert
  | trap valid why sync mret int inert =>
    rw [Cpu.turns, inert.commit, sync] at turn
    cases turn
    exact ExCyc.portDone_inert inert
  | commit k valid is nonexc state awake stall sync int mret commit wb csr train bus memory settles halt =>
    have r : o.cpu.Retires p m i k := ⟨valid, is, nonexc, state, sync, int, mret, commit, wb, csr, bus, memory⟩
    have loads : (Isa.instr p.imemAddrW image t.arch).bind (·.loadsFrom t.arch) = o.cpu.de.loadsFrom := by
      rw [← Isa.loadsFrom_pc fits.plain, att.word valid]
      rfl
    have write : o.cpu.de.memWrite = k.flags.memWrite := is.memWrite
    have read : o.cpu.de.memRead = k.flags.memRead := is.memRead
    have data : (o.cpu.exec p m i).periRsp.rdata = i.periRsp.rdata := rfl
    rw [Cpu.turns, commit, if_pos rfl, busWrite r] at turn
    cases turn
    rw [loads, ExCyc.portDone, commit, Cpu.exec_de, DeT.loadsFrom, write, read]
    cases port : o.cpu.de.lsuEa.getLsbD PERI_ADDR_BIT <;> cases k <;>
      simp [portOf, OpKind.flags, DeT.storeAccess, DeT.isPeriLive, port, Option.filter_some, Cpu.outside, data]

end Ordered.Attending

end YarvUc

import YarvUc.Clocked.Run
import YarvUc.Execute.Cycle
import YarvUc.Rtl.Core

/-!
# Stays in execute

Decode and execute over whole runs, with arbitrary inputs: every valid word enters
D/E, makes its bus access if it is a memory instruction that retires, and leaves by
retiring, trapping or being squashed, before the next one enters.
-/

namespace YarvUc

/-- What happens to a D/E word. -/
inductive StayEvent where
  | enter (de : DeT)
  | req (a : Access)
  | commit (de : DeT)
  | trap (de : DeT)
  | squash (de : DeT)

/-- A word whose access does not lie at a multiple of its size. -/
def DeT.Misaligned (de : DeT) : Prop := de.effAddr.toNat % de.memSize.bytes ≠ 0

/-- The access is what the instruction asks for: the port of address bit 28, its direction,
its effective address, and for a store its bytes on their lanes. -/
structure Access.Serves (a : Access) (de : DeT) : Prop where
  port : a.peri = de.effAddr.getLsbD PERI_ADDR_BIT
  write : a.we = de.memWrite
  addr : a.addr = de.effAddr
  lanes : de.memWrite = true → de.Lanes a.wdata a.wstrb

/-- The stay of one word, from its entry to its end. -/
inductive Stay (de : DeT) : List StayEvent → Prop
  | access {a} (mem : de.isMemOp = true) (aligned : ¬ de.Misaligned) (nonexc : de.exception = false)
      (serves : a.Serves de) : Stay de [.enter de, .req a, .commit de]
  | plain (other : de.isMemOp = false) (nonexc : de.exception = false) : Stay de [.enter de, .commit de]
  | trap (why : de.exception = true ∨ de.isMemOp = true ∧ de.Misaligned) : Stay de [.enter de, .trap de]
  | squash : Stay de [.enter de, .squash de]

theorem DeT.misaligned_iff {de : DeT} {k : OpKind} (is : de.Is k) (mem : de.isMemOp = true) :
    de.Misaligned ↔ de.memMisalignedLive = true := by
  rw [Misaligned, ← lsuEa_eq is mem, ne_eq, ← aligned_iff, ← DeT.memMisalignedLive, Bool.not_eq_false]

theorem Captured.misaligned {de : DeT} {q : ExQ} (own : Captured de q) (live : de.memMisalignedLive = true) :
    de.isMemOp = true ∧ de.Misaligned := by
  rcases own.mem with is | is <;> exact ⟨is.isMemOp, (DeT.misaligned_iff is is.isMemOp).mpr live⟩

theorem Access.For.serves {a : Access} {de : DeT} {k : OpKind} (mine : a.For de) (is : de.Is k)
    (mem : de.isMemOp = true) (aligned : de.memMisalignedLive = false) : a.Serves de := by
  refine ⟨?_, mine.we, ?_, fun write => ?_⟩
  · rw [mine.peri, DeT.isPeriLive, DeT.lsuEa_eq is mem]
  · rw [mine.addr, DeT.lsuEa_eq is mem]
  · obtain ⟨hd, hs⟩ := mine.lanes write
    rw [hd, hs]
    exact DeT.lanes is mem aligned

theorem Stay.access_of {a : Access} {de : DeT} {k : OpKind} (mine : a.For de) (is : de.Is k)
    (mem : de.isMemOp = true) (aligned : de.memMisalignedLive = false) (nonexc : de.exception = false) :
    Stay de [.enter de, .req a, .commit de] :=
  .access mem (by rw [DeT.misaligned_iff is mem, aligned]; simp) nonexc (mine.serves is mem aligned)

theorem Phase.formed {p : Params} {de : DeT} {q : ExQ} (phase : Phase p de q) (valid : de.valid = true) :
    de.Formed := by
  cases phase with
  | idle _ _ formed => exact formed valid
  | launch _ own _ => exact own.mem.elim (fun h => ⟨_, h⟩) fun h => ⟨_, h⟩
  | trap _ own _ _ => exact own.mem.elim (fun h => ⟨_, h⟩) fun h => ⟨_, h⟩
  | wait _ _ is _ => exact ⟨_, is⟩
  | div _ _ is _ _ => exact ⟨_, is⟩
  | csr _ _ is _ _ => exact ⟨_, is⟩

namespace ExCyc

variable {e e' : ExCyc}

theorem redirect_calm (calm : e.Calm) : e.trapRedirectReq = false := by
  simp [trapRedirectReq, calm.sync, calm.mret, calm.int]

theorem flush_calm (calm : e.Calm) (train : e.cfResolving = false) : e.flushO = false := by
  simp [flushO, branchValidO, mispredict, train, redirect_calm calm]

theorem flush_redirect (redirect : e.trapRedirectReq = true) : e.flushO = true := by
  simp [flushO, branchValidO, redirect]

/-! ## A request that is not accepted -/

/-- The word in D/E stays, and `e'` is its next cycle. -/
structure Stays (e e' : ExCyc) : Prop where
  p : e'.p = e.p
  q : e'.q = e.next
  de : e'.de = e.de
  free : e'.stallI = false

/-- What a live load is. -/
structure Drives (e : ExCyc) : Prop where
  live : e.p.lsuLiveLoad = true
  valid : e.de.valid = true
  mem : e.de.isMemOp = true
  idle : e.q.state = .IDLE
  exc : e.de.exception = false
  awake : e.q.wfiHalt = false
  aligned : e.de.memMisalignedLive = false
  dmem : e.de.isPeriLive = false
  read : e.de.memRead = true

theorem drives (drive : e.dmemLoadDrive = true) : e.memReqPending = true ∧ e.Drives := by
  obtain ⟨⟨⟨⟨live, pending⟩, aligned⟩, dmem⟩, read⟩ : (((e.p.lsuLiveLoad = true ∧ e.memReqPending = true) ∧
      e.de.memMisalignedLive = false) ∧ e.de.isPeriLive = false) ∧ e.de.memRead = true := by
    simpa [dmemLoadDrive] using drive
  obtain ⟨⟨⟨⟨⟨valid, mem⟩, idle⟩, -⟩, exc⟩, awake⟩ : ((((e.de.valid = true ∧ e.de.isMemOp = true) ∧
      e.q.state = .IDLE) ∧ e.freeze = false) ∧ e.de.exception = false) ∧ e.q.wfiHalt = false := by
    simpa [memReqPending, inState] using pending
  exact ⟨pending, live, valid, mem, idle, exc, awake, aligned, dmem, read⟩

/-- A live load that is not accepted stays where it is, -/
theorem drive_waits (phase : Phase e.p e.de e.q) (free : e.stallI = false) (drive : e.dmemLoadDrive = true)
    (wait : e.memRsp.wready = false) :
    e.flushO = false ∧ e.stallO = true ∧ e.next.state = .IDLE ∧ e.next.wfiHalt = false := by
  obtain ⟨pending, d⟩ := drives drive
  obtain ⟨k, is⟩ := phase.formed d.valid
  obtain rfl : k = .load := by
    have read := d.read
    rw [is.memRead] at read
    cases k <;> first | rfl | cases read
  have w := idle_wires d.idle
  have mret : e.de.isMretOp = false := is.isMretOp
  have g : e.Proceeds := by
    refine ⟨d.valid, d.awake, free, ?_, ?_, ?_⟩
    · simp [syncTrapReq, w.misaligned, d.exc]
    · simp [mretReq, mret]
    · simp [takeInterrupt, normalIntEligible, d.mem, d.awake]
  have start : e.aluStart = false := by
    simp [aluStart, is.isDivOp, OpKind.flags]
  have csrStart : e.csrStart = false := by
    simp [ExCyc.csrStart, is.isCsrOp, OpKind.flags]
  refine ⟨flush_calm g.calm (g.train is (by simp)), by simp [g.stall, pending, w.store], ?_, g.halt is⟩
  rw [show e.next.state = e.stateD from rfl, stateD_idle d.idle]
  simp [start, csrStart, memMisalignedLaunch, memCapture, drive, dmemLoadHs, d.aligned, wait]

/-- and is offered again. -/
theorem drive_again (stays : e.Stays e') (drive : e.dmemLoadDrive = true) (state : e.next.state = .IDLE)
    (halt : e.next.wfiHalt = false) : e'.dmemLoadDrive = true := by
  obtain ⟨-, d⟩ := drives drive
  simp [dmemLoadDrive, memReqPending, inState, freeze, wfiStall, stays.p, stays.q, stays.de, stays.free, d.live,
    d.valid, d.mem, state, d.exc, halt, d.aligned, d.dmem, d.read]

/-- The request flops keep what they hold. -/
structure KeepsRequest (e : ExCyc) : Prop where
  addr : e.next.memAddr = e.q.memAddr
  wdata : e.next.memWdata = e.q.memWdata
  wstrb : e.next.memWstrb = e.q.memWstrb
  peri : e.next.memIsPeri = e.q.memIsPeri

theorem keepsRequest (quiet : e.memReqPending = false) : e.KeepsRequest := by
  constructor <;> simp [next, quiet]

/-- A captured launch that is not accepted stays where it is, -/
theorem launch_waits (phase : Phase e.p e.de e.q) (free : e.stallI = false) (drive : e.capturedDrive = true)
    (wait : e.lsuRspWait.wready = false) :
    e.flushO = false ∧ e.stallO = true ∧ e.next.state = .MEM_LAUNCH ∧ e.KeepsRequest := by
  obtain ⟨⟨state, valid⟩, aligned⟩ : (e.q.state = .MEM_LAUNCH ∧ e.de.valid = true) ∧ e.misalignedTrap = false := by
    simpa [capturedDrive, memLaunchState, inState] using drive
  have own := phase.launched state
  have busy : e.q.state ≠ .IDLE := by simp [state]
  have b := busy_wires busy own.awake
  have g := proceeds_busy busy own.awake valid free aligned
  have train : e.cfResolving = false := by
    rcases own.mem with is | is <;> exact g.train is (by simp)
  have hs : e.capturedHs = false := by simp [capturedHs, wait]
  have launch : e.memLaunchState = true := by
    simp [memLaunchState, inState, state]
  refine ⟨flush_calm g.calm train, by simp [g.stall, launch, storeDone, hs], ?_, keepsRequest b.pending⟩
  rw [show e.next.state = e.stateD from rfl, stateD, state]
  simp [aligned, hs]

/-- and is offered again. -/
theorem launch_again (stays : e.Stays e') (drive : e.capturedDrive = true) (state : e.next.state = .MEM_LAUNCH)
    (kept : e.KeepsRequest) : e'.capturedDrive = true := by
  obtain ⟨⟨before, valid⟩, aligned⟩ : (e.q.state = .MEM_LAUNCH ∧ e.de.valid = true) ∧ e.misalignedTrap = false := by
    simpa [capturedDrive, memLaunchState, inState] using drive
  have still : e'.misalignedTrap = e.misalignedTrap := by
    simp only [misalignedTrap, inState, memMisalignedQ, stays.p, stays.q, stays.de, state, before, kept.addr]
  simp [capturedDrive, memLaunchState, inState, still, aligned, stays.q, state, stays.de, valid]

end ExCyc

namespace Core

variable {p : Params} {c : Core} {i : CoreIn}

/-- Execute's state knows the word in D/E. -/
def Inv (p : Params) (c : Core) : Prop := Phase p c.dec.de c.ex

theorem inv_reset : Inv p .reset := .idle rfl rfl (by simp [Core.reset, DecQ.reset])

theorem Inv.outcome (inv : c.Inv p) : (c.exec p i).Outcome := ExCyc.outcome rfl inv

theorem de_flush (flush : (c.exec p i).flushO = true) : (c.next p i).dec.de = {} := by
  simp [Core.next, DecCyc.next, DecCyc.deNext, decode, flush]

theorem de_stall (kept : (c.exec p i).flushO = false) (stall : (c.exec p i).stallO = true) :
    (c.next p i).dec.de = c.dec.de := by
  simp [Core.next, DecCyc.next, DecCyc.deNext, decode, kept, stall]

theorem de_advance (kept : (c.exec p i).flushO = false) (running : (c.exec p i).stallO = false) :
    (c.next p i).dec.de = (c.decode p i).deD := by
  simp [Core.next, DecCyc.next, DecCyc.deNext, decode, kept, running]

/-- A word that was not there before is formed. -/
theorem formed_next (fresh : (c.exec p i).flushO = true ∨ (c.exec p i).stallO = false)
    (valid : (c.next p i).dec.de.valid = true) : (c.next p i).dec.de.Formed := by
  cases flush : (c.exec p i).flushO with
  | true =>
    rw [de_flush flush] at valid
    cases valid
  | false =>
    rw [de_advance flush (fresh.resolve_left (by simp [flush]))] at valid ⊢
    exact DecCyc.formed_deD valid

theorem inv_settled (settles : (c.exec p i).Settles)
    (formed : (c.next p i).dec.de.valid = true → (c.next p i).dec.de.Formed) : (c.next p i).Inv p :=
  .idle settles.state settles.div formed

theorem Inv.formed (inv : c.Inv p) (valid : c.dec.de.valid = true) : c.dec.de.Formed := Phase.formed inv valid

theorem Inv.next (inv : c.Inv p) : (c.next p i).Inv p := by
  cases inv.outcome (i := i) with
  | bubble valid awake idle stall calm inert bus settles halt =>
    exact inv_settled settles (formed_next (.inr stall))
  | asleep halted quiet idle stall calm inert bus settles halt nextPc =>
    refine inv_settled settles fun valid => ?_
    rw [de_stall (ExCyc.flush_calm calm inert.train) stall] at valid ⊢
    exact inv.formed valid
  | trap valid why sync mret int inert bus settles halt =>
    exact inv_settled settles (formed_next (.inl (ExCyc.flush_redirect (by simp [ExCyc.trapRedirectReq, sync]))))
  | interrupt idle pending why nonexc sync mret int inert bus settles halt =>
    exact inv_settled settles (formed_next (.inl (ExCyc.flush_redirect (by simp [ExCyc.trapRedirectReq, int]))))
  | hold valid awake stall calm inert phase bus halt =>
    rw [Inv, de_stall (ExCyc.flush_calm calm inert.train) stall]
    exact phase
  | commit k valid is nonexc state awake stall sync int mret commit wb csr train bus memory settles halt =>
    exact inv_settled settles (formed_next (.inr stall))

variable {ins : ℕ → CoreIn}

theorem inv_run (n : ℕ) : (Clocked.run (next p) reset ins n).Inv p :=
  Clocked.run_invariant (Inv p) (fun _ _ => True) inv_reset (fun _ _ inv _ => inv.next) n fun _ _ => trivial

/-! ## The events of a cycle -/

/-- How the word in D/E leaves. -/
def ending (p : Params) (c : Core) (i : CoreIn) : List StayEvent :=
  if c.dec.de.valid then
    (if (c.exec p i).opCommits then [.commit c.dec.de] else []) ++
      (if (c.exec p i).syncTrapReq then [.trap c.dec.de] else []) ++
      (if (c.exec p i).takeInterrupt then [.squash c.dec.de] else [])
  else []

/-- The word latched into D/E at the edge. -/
def entering (p : Params) (c : Core) (i : CoreIn) : List StayEvent :=
  if !(c.exec p i).flushO && !(c.exec p i).stallO && (c.next p i).dec.de.valid then [.enter (c.next p i).dec.de] else []

def events (p : Params) (c : Core) (i : CoreIn) : List StayEvent :=
  (c.exec p i).accepted.map .req ++ c.ending p i ++ c.entering p i

/-- The stay that is not over: in `EX_MEM_WAIT` its access has been accepted. -/
inductive Open (c : Core) : List StayEvent → Prop
  | none (empty : c.dec.de.valid = false) : Open c []
  | entered (valid : c.dec.de.valid = true) (state : c.ex.state ≠ .MEM_WAIT) : Open c [.enter c.dec.de]
  | asked {a} (valid : c.dec.de.valid = true) (state : c.ex.state = .MEM_WAIT) (mine : a.For c.dec.de) :
      Open c [.enter c.dec.de, .req a]

/-- The word that enters opens the next stay. -/
theorem open_entering (settles : (c.exec p i).Settles)
    (fresh : (c.exec p i).flushO = true ∨ (c.exec p i).stallO = false) : Open (c.next p i) (c.entering p i) := by
  have state : (c.next p i).ex.state ≠ .MEM_WAIT := by
    rw [show (c.next p i).ex.state = (c.exec p i).next.state from rfl, settles.state]
    simp
  cases valid : (c.next p i).dec.de.valid with
  | false =>
    rw [entering, valid, Bool.and_false, if_neg (by simp)]
    exact .none valid
  | true =>
    cases flush : (c.exec p i).flushO with
    | true =>
      rw [de_flush flush] at valid
      cases valid
    | false =>
      have stall := fresh.resolve_left (by simp [flush])
      rw [entering, valid, flush, stall]
      exact .entered valid state

theorem Open.eq_none {part : List StayEvent} (opn : Open c part) (empty : c.dec.de.valid = false) : part = [] := by
  cases opn with
  | none => rfl
  | entered valid _ => simp [empty] at valid
  | asked valid _ _ => simp [empty] at valid

theorem Open.eq_entered {part : List StayEvent} (opn : Open c part) (valid : c.dec.de.valid = true)
    (state : c.ex.state ≠ .MEM_WAIT) : part = [.enter c.dec.de] := by
  cases opn with
  | none empty => simp [valid] at empty
  | entered => rfl
  | asked _ wait _ => exact absurd wait state

theorem Open.eq_asked {part : List StayEvent} (opn : Open c part) (valid : c.dec.de.valid = true)
    (state : c.ex.state = .MEM_WAIT) : ∃ a : Access, a.For c.dec.de ∧ part = [.enter c.dec.de, .req a] := by
  cases opn with
  | none empty => simp [valid] at empty
  | entered _ other => exact absurd state other
  | asked _ _ mine => exact ⟨_, mine, rfl⟩

/-- The word stays another cycle. -/
theorem open_held (same : (c.next p i).dec.de = c.dec.de) {part : List StayEvent} (opn : Open c part)
    (state : (c.next p i).ex.state = .MEM_WAIT ↔ c.ex.state = .MEM_WAIT) : Open (c.next p i) part := by
  cases opn with
  | none empty => exact .none (same ▸ empty)
  | entered valid other => exact same ▸ Open.entered (same ▸ valid) (fun h => other (state.mp h))
  | asked valid wait mine =>
    rw [← same] at valid mine ⊢
    exact .asked valid (state.mpr wait) mine

theorem entering_stalled (stall : (c.exec p i).stallO = true) : c.entering p i = [] := by
  simp [entering, stall]

theorem ending_quiet (calm : (c.exec p i).Calm) (inert : (c.exec p i).Inert) : c.ending p i = [] := by
  simp [ending, inert.commit, calm.sync, calm.int]

theorem accepted_quiet (bus : (c.exec p i).offered = []) : (c.exec p i).accepted = [] :=
  ExCyc.accepted_of_offered bus

/-- The stay of a word that retires, with what it gets accepted in this cycle. -/
theorem Open.retires {part : List StayEvent} {k : OpKind} {taken : List Access} (opn : Open c part)
    (valid : c.dec.de.valid = true) (is : c.dec.de.Is k) (nonexc : k ≠ .exc) (state : c.ex.state = k.retiresFrom)
    (bus : k = .store ∧ (∃ a, taken = [a] ∧ a.For c.dec.de) ∨ k ≠ .store ∧ taken = [])
    (aligned : k = .load ∨ k = .store → c.dec.de.memMisalignedLive = false) :
    Stay c.dec.de (part ++ (taken.map .req ++ [.commit c.dec.de])) := by
  have exc : c.dec.de.exception = false := by
    rw [is.exception]
    cases k <;> first | rfl | contradiction
  by_cases load : k = .load
  · subst load
    obtain ⟨a, mine, asked⟩ := opn.eq_asked valid state
    obtain ⟨-, none⟩ := bus.resolve_left fun h => by cases h.1
    rw [asked, none]
    exact .access_of mine is is.isMemOp (aligned (.inl rfl)) exc
  · have notWait : c.ex.state ≠ .MEM_WAIT := by
      rw [state]
      exact mt OpKind.retiresFrom_wait.mp load
    rw [opn.eq_entered valid notWait]
    rcases bus with ⟨rfl, a, one, mine⟩ | ⟨other, none⟩
    · rw [one]
      exact .access_of mine is is.isMemOp (aligned (.inr rfl)) exc
    · rw [none]
      refine .plain ?_ exc
      rw [is.isMemOp]
      cases k <;> first | rfl | contradiction

/-- One cycle of a stay. -/
theorem Inv.moves {part : List StayEvent} (inv : c.Inv p) (opn : Open c part) :
    Open (c.next p i) (part ++ c.events p i) ∨
      ∃ a b, c.events p i = a ++ b ∧ (∃ de, Stay de (part ++ a)) ∧ Open (c.next p i) b := by
  have hde : (c.exec p i).de = c.dec.de := rfl
  cases inv.outcome (i := i) with
  | bubble valid awake idle stall calm inert bus settles halt =>
    left
    rw [events, accepted_quiet bus, ending_quiet calm inert, opn.eq_none valid]
    exact open_entering settles (.inr stall)
  | asleep halted quiet idle stall calm inert bus settles halt nextPc =>
    left
    have same := de_stall (ExCyc.flush_calm calm inert.train) stall
    rw [events, accepted_quiet bus, ending_quiet calm inert, entering_stalled stall]
    simp only [List.map_nil, List.append_nil]
    refine open_held same opn ?_
    rw [show (c.next p i).ex.state = .IDLE from settles.state, show c.ex.state = .IDLE from idle]
  | trap valid why sync mret int inert bus settles halt =>
    right
    have flush := ExCyc.flush_redirect (e := c.exec p i) (by simp [ExCyc.trapRedirectReq, sync])
    have notWait : c.ex.state ≠ .MEM_WAIT := by
      rcases why with ⟨h, -⟩ | ⟨h | h, -⟩ <;> rw [show c.ex.state = _ from h] <;> simp
    refine ⟨[.trap c.dec.de], c.entering p i, ?_, ⟨c.dec.de, ?_⟩, open_entering settles (.inl flush)⟩
    · have : c.dec.de.valid = true := valid
      simp [events, accepted_quiet bus, ending, this, inert.commit, sync, int]
    · rw [opn.eq_entered valid notWait]
      refine .trap ?_
      rcases why with ⟨-, -, is⟩ | ⟨-, -, own, misaligned⟩
      · exact .inl is.exception
      · exact .inr (own.misaligned misaligned)
  | interrupt idle pending why nonexc sync mret int inert bus settles halt =>
    have flush := ExCyc.flush_redirect (e := c.exec p i) (by simp [ExCyc.trapRedirectReq, int])
    have notWait : c.ex.state ≠ .MEM_WAIT := by rw [show c.ex.state = .IDLE from idle]; simp
    cases valid : c.dec.de.valid with
    | false =>
      left
      rw [events, accepted_quiet bus, ending, valid, opn.eq_none valid]
      exact open_entering settles (.inl flush)
    | true =>
      right
      refine ⟨[.squash c.dec.de], c.entering p i, ?_, ⟨c.dec.de, ?_⟩, open_entering settles (.inl flush)⟩
      · simp [events, accepted_quiet bus, ending, valid, inert.commit, sync, int]
      · rw [opn.eq_entered valid notWait]
        exact .squash
  | hold valid awake stall calm inert phase bus halt =>
    left
    have same := de_stall (ExCyc.flush_calm calm inert.train) stall
    rw [events, ending_quiet calm inert, entering_stalled stall, List.append_nil, List.append_nil]
    rcases bus with ⟨none, state⟩ | ⟨a, one, mine, is, aligned, before, after⟩
    · rw [none, List.map_nil, List.append_nil]
      exact open_held same opn state
    · rw [one, opn.eq_entered valid before, ← same]
      rw [hde, ← same] at mine
      exact .asked (same ▸ valid) after mine
  | commit k valid is nonexc state awake stall sync int mret commit wb csr train bus memory settles halt =>
    right
    have ending : c.ending p i = [.commit c.dec.de] := by
      have : c.dec.de.valid = true := valid
      simp [Core.ending, this, commit, sync, int]
    refine ⟨(c.exec p i).accepted.map .req ++ [.commit c.dec.de], c.entering p i, by rw [events, ending],
      ⟨c.dec.de, ?_⟩, open_entering settles (.inr stall)⟩
    exact opn.retires valid is nonexc state bus fun mem => (memory mem).2

/-! ## A request stays until it is accepted -/

/-- The next cycle of a word that stays. -/
theorem stays_of (kept : (c.exec p i).flushO = false) (stall : (c.exec p i).stallO = true) (i' : CoreIn) :
    (c.exec p i).Stays ((c.next p i).exec p i') :=
  ⟨rfl, rfl, de_stall kept stall, rfl⟩

/-- A live load that is not accepted is offered again. -/
theorem drive_stays (inv : c.Inv p) (drive : (c.exec p i).dmemLoadDrive = true) (wait : i.memRsp.wready = false)
    (i' : CoreIn) : ((c.next p i).exec p i').dmemLoadDrive = true ∧ (c.next p i).dec.de = c.dec.de := by
  obtain ⟨kept, stall, state, halt⟩ := ExCyc.drive_waits (e := c.exec p i) inv rfl drive wait
  exact ⟨ExCyc.drive_again (stays_of kept stall i') drive state halt, de_stall kept stall⟩

/-- A captured launch that is not accepted is offered again. -/
theorem launch_stays (inv : c.Inv p) (drive : (c.exec p i).capturedDrive = true)
    (wait : (c.exec p i).lsuRspWait.wready = false) (i' : CoreIn) :
    ((c.next p i).exec p i').capturedDrive = true ∧ (c.next p i).dec.de = c.dec.de ∧
      (c.next p i).ex.memAddr = c.ex.memAddr ∧ (c.next p i).ex.memWdata = c.ex.memWdata ∧
      (c.next p i).ex.memWstrb = c.ex.memWstrb ∧ (c.next p i).ex.memIsPeri = c.ex.memIsPeri := by
  obtain ⟨kept, stall, state, flops⟩ := ExCyc.launch_waits (e := c.exec p i) inv rfl drive wait
  exact ⟨ExCyc.launch_again (stays_of kept stall i') drive state flops, de_stall kept stall, flops.addr, flops.wdata,
    flops.wstrb, flops.peri⟩

/-- An offered D-mem request that is not accepted is offered again, unchanged. -/
theorem memReq_stays (inv : c.Inv p) (valid : (c.exec p i).memReq.wvalid = true) (wait : i.memRsp.wready = false)
    (i' : CoreIn) : ((c.next p i).exec p i').memReq.wvalid = true ∧
      ((c.next p i).exec p i').memReq.access false = (c.exec p i).memReq.access false := by
  cases drive : (c.exec p i).dmemLoadDrive with
  | true =>
    obtain ⟨drive', same⟩ := drive_stays inv drive wait i'
    simp [ExCyc.memReq, drive, drive', MemReq.access, same]
  | false =>
    have dmem : c.ex.memIsPeri = false := by
      cases h : c.ex.memIsPeri with
      | false => rfl
      | true => simp [ExCyc.memReq, drive, ExCyc.isPeriRsp, h] at valid
    have captured : (c.exec p i).capturedDrive = true := by
      simpa [ExCyc.memReq, drive, ExCyc.isPeriRsp, dmem, ExCyc.dmemCapturedDrive] using valid
    obtain ⟨captured', same, addr, wdata, wstrb, peri⟩ :=
      launch_stays inv captured (by simp [ExCyc.lsuRspWait, ExCyc.isPeriRsp, dmem, wait]) i'
    have busy : ((c.next p i).exec p i').dmemLoadDrive = false := by
      have : ((c.next p i).exec p i').memLaunchState = true := by
        simp only [ExCyc.capturedDrive, Bool.and_eq_true] at captured'
        exact captured'.1.1
      have state : (c.next p i).ex.state = .MEM_LAUNCH := by simpa [ExCyc.memLaunchState, ExCyc.inState] using this
      simp [ExCyc.dmemLoadDrive, ExCyc.memReqPending, ExCyc.inState, state]
    simp [ExCyc.memReq, drive, busy, ExCyc.isPeriRsp, dmem, peri, ExCyc.dmemCapturedDrive, ExCyc.dmemStoreWe, captured,
      captured', MemReq.access, same, addr, wdata, wstrb]

/-- An offered peripheral request that is not accepted is offered again, unchanged. -/
theorem periReq_stays (inv : c.Inv p) (valid : (c.exec p i).periReq.wvalid = true) (wait : i.periRsp.wready = false)
    (i' : CoreIn) : ((c.next p i).exec p i').periReq.wvalid = true ∧
      ((c.next p i).exec p i').periReq.access true = (c.exec p i).periReq.access true := by
  have drive : (c.exec p i).dmemLoadDrive = false := by
    cases h : (c.exec p i).dmemLoadDrive with
    | false => rfl
    | true => simp [ExCyc.periReq, h] at valid
  have peri : c.ex.memIsPeri = true := by
    cases h : c.ex.memIsPeri with
    | true => rfl
    | false => simp [ExCyc.periReq, drive, ExCyc.isPeriRsp, h] at valid
  have captured : (c.exec p i).capturedDrive = true := by
    simpa [ExCyc.periReq, drive, ExCyc.isPeriRsp, peri] using valid
  obtain ⟨captured', same, addr, wdata, wstrb, peri'⟩ :=
    launch_stays inv captured (by simp [ExCyc.lsuRspWait, ExCyc.isPeriRsp, peri, wait]) i'
  have busy : ((c.next p i).exec p i').dmemLoadDrive = false := by
    have : ((c.next p i).exec p i').memLaunchState = true := by
      simp only [ExCyc.capturedDrive, Bool.and_eq_true] at captured'
      exact captured'.1.1
    have state : (c.next p i).ex.state = .MEM_LAUNCH := by simpa [ExCyc.memLaunchState, ExCyc.inState] using this
    simp [ExCyc.dmemLoadDrive, ExCyc.memReqPending, ExCyc.inState, state]
  simp [ExCyc.periReq, drive, busy, ExCyc.isPeriRsp, peri, peri', captured, captured', MemReq.access, same, addr, wdata,
    wstrb]

/-! ## The run -/

theorem stays_run (ins : ℕ → CoreIn) (n : ℕ) :
    Clocked.Episodes (fun t => ∃ de, Stay de t) (Open (Clocked.run (next p) reset ins n))
      (Clocked.log (next p) (events p) reset ins n) := by
  induction n with
  | zero => exact Clocked.Episodes.nil (.none rfl)
  | succ n ih => exact ih.step fun _ _ _ _ opn => (inv_run n).moves opn

/-- The stay that is not over can still end as one. -/
theorem Open.begun {part : List StayEvent} (inv : c.Inv p) (opn : Open c part) :
    part = [] ∨ ∃ de rest, Stay de (part ++ rest) := by
  cases opn with
  | none => exact .inl rfl
  | entered => exact .inr ⟨_, [.squash _], .squash⟩
  | asked valid state mine =>
    right
    obtain ⟨-, load, aligned⟩ := Phase.waiting inv state
    exact ⟨_, [.commit _], .access_of mine load load.isMemOp aligned load.exception⟩

/-- Each memory instruction performs exactly one bus access, whatever the inputs: the log
of every run is whole stays, one word after another, and the beginning of one more, and a
request that is offered stays on its port, unchanged, until it is accepted. -/
theorem one_access (p : Params) (ins : ℕ → CoreIn) (n : ℕ) :
    (∃ (done : List (List StayEvent)) (part : List StayEvent),
        Clocked.log (next p) (events p) reset ins n = done.flatten ++ part ∧ (∀ t ∈ done, ∃ de, Stay de t) ∧
          (part = [] ∨ ∃ de rest, Stay de (part ++ rest))) ∧
      (let e := (Clocked.run (next p) reset ins n).exec p (ins n)
       let e' := (Clocked.run (next p) reset ins (n + 1)).exec p (ins (n + 1))
       (e.memReq.wvalid = true → e.memRsp.wready = false →
          e'.memReq.wvalid = true ∧ e'.memReq.access false = e.memReq.access false) ∧
        (e.periReq.wvalid = true → e.periRsp.wready = false →
          e'.periReq.wvalid = true ∧ e'.periReq.access true = e.periReq.access true)) := by
  refine ⟨?_, fun valid wait => memReq_stays (inv_run n) valid wait _,
    fun valid wait => periReq_stays (inv_run n) valid wait _⟩
  obtain ⟨done, part, log, whole, opn⟩ := stays_run (p := p) ins n
  exact ⟨done, part, log, whole, opn.begun (inv_run n)⟩

end Core

end YarvUc

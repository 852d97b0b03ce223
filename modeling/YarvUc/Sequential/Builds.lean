import YarvUc.Sequential.Feed

/-!
# Both builds of the LSU

`LSU_LIVE_LOAD` decides the states a memory word goes through and the cycle its request is
offered in. With either value a run plays the script of its words (`Feed.plays`), and with
an environment that keeps nothing waiting for ever each word is over some time
(`Feed.moves`): so both builds write the same log, each at its own pace.
-/

namespace YarvUc

namespace ExCyc

variable {e : ExCyc}

/-! ## Offers -/

theorem offered_drive (drive : e.dmemLoadDrive = true) :
    e.offered ≠ [] ∧ (e.accepted = [] → e.memRsp.wready = false) := by
  refine ⟨by simp [offered, memReq, drive], fun none => ?_⟩
  simpa [accepted, memReq, periReq, drive] using none

theorem offered_captured (drive : e.capturedDrive = true) :
    e.offered ≠ [] ∧ (e.accepted = [] → e.lsuRspWait.wready = false) := by
  have state : e.q.state = .MEM_LAUNCH := by
    simp only [capturedDrive, memLaunchState, inState, Bool.and_eq_true, beq_iff_eq] at drive
    exact drive.1.1
  obtain ⟨offered, accepted⟩ := offered_launch drive (by simp [dmemLoadDrive, memReqPending, inState, state])
  refine ⟨by simp [offered], fun none => ?_⟩
  simpa [accepted, offered] using none

/-- A port is offered a live load or a captured request. -/
theorem offers (offers : e.offered ≠ []) : e.dmemLoadDrive = true ∨ e.capturedDrive = true := by
  by_contra quiet
  rw [not_or, Bool.not_eq_true, Bool.not_eq_true] at quiet
  apply offers
  cases hp : e.isPeriRsp <;> simp [offered, memReq, periReq, dmemCapturedDrive, quiet.1, quiet.2, hp]

/-- A load without its data stays where it is. -/
theorem read_waits (own : Captured e.de e.q) (load : e.de.Is .load) (free : e.stallI = false)
    (state : e.q.state = .MEM_WAIT) (wait : e.lsuRspWait.rvalid = false) :
    e.flushO = false ∧ e.stallO = true ∧ e.next.state = .MEM_WAIT := by
  have busy : e.q.state ≠ .IDLE := by simp [state]
  have g := proceeds_busy busy own.awake own.valid free (by simp [misalignedTrap, inState, state])
  have done : e.memDone = false := by simp [memDone, wait]
  refine ⟨flush_calm g.calm (g.train load (by simp)), ?_, by simp [next, stateD, state, done]⟩
  simp [g.stall, memRunning, inState, state, done]

end ExCyc

namespace Feed

variable {p : Params} {ws : WordSeq} {w : Answers} {ins : ℕ → FeedIn} {n k : ℕ}

namespace At

/-! ## The script -/

theorem busy_full (here : At w p ws ins n) (busy : (stateAt p ws ins n).ex.state ≠ .IDLE) :
    ((stateAt p ws ins n).de ws).valid = true := by
  cases here.phase with
  | idle state => exact absurd state busy
  | launch _ own _ => exact own.valid
  | trap _ own _ _ => exact own.valid
  | wait _ own _ _ => exact own.valid
  | div _ valid _ _ _ => exact valid
  | csr _ valid _ _ _ => exact valid

/-- A request is the beginning of its word's item. -/
theorem part_item (here : At w p ws ins n) (log : List ExEvent) :
    (stateAt p ws ins n).part ws <+: ws.item w p (stateAt p ws ins n).k log := by
  by_cases wait : (stateAt p ws ins n).ex.state = .MEM_WAIT
  · have valid := here.busy_full (by rw [wait]; simp)
    obtain ⟨-, word⟩ := de_full valid
    obtain ⟨-, load, aligned⟩ := here.phase.waiting wait
    have mem : ((stateAt p ws ins n).de ws).isMemOp = true := load.isMemOp
    have clean := DeT.fault_none load.exception fun _ => aligned
    rw [part_wait wait, WordSeq.item, ← word, DeT.item, valid, if_pos rfl, clean, mem, if_pos rfl]
    exact (List.prefix_append _ _).trans (List.prefix_append _ _)
  · rw [part_none wait]
    exact List.nil_prefix

end At

/-- Every run plays the script of its words. -/
theorem plays (answered : Answered p ws w ins) :
    Clocked.Plays (ws.item w p) (logAt p ws ins) fun n => (stateAt p ws ins n).k := by
  constructor
  · intro n
    rw [(at_run answered n).log]
    exact List.prefix_append _ _
  · intro n
    rw [(at_run answered n).log, Clocked.script_succ]
    exact List.prefix_append_right_inj _ |>.mpr ((at_run answered n).part_item _)

/-! ## Each word is over some time -/

/-- Word `k` stands in D/E. -/
structure Stands (p : Params) (ws : WordSeq) (ins : ℕ → FeedIn) (k n : ℕ) : Prop where
  k : (stateAt p ws ins n).k = k
  full : (stateAt p ws ins n).full = true

/-- Word `k` is over. -/
def Ended (p : Params) (ws : WordSeq) (ins : ℕ → FeedIn) (k n : ℕ) : Prop := k < (stateAt p ws ins n).k

namespace Stands

theorem de (stands : Stands p ws ins k n) : (stateAt p ws ins n).de ws = ws.word k := by
  rw [Feed.de, stands.full, stands.k, if_pos rfl]

theorem ended (stands : Stands p ws ins k n) (reloads : (stateAt p ws ins n).reloads p ws (ins n) = true) :
    Ended p ws ins k (n + 1) := by
  have after : (stateAt p ws ins (n + 1)).k = (stateAt p ws ins n).k + 1 := by
    simp [Clocked.run_succ, Feed.next, reloads, stands.full]
  rw [Ended, after, stands.k]
  omega

theorem stays (stands : Stands p ws ins k n) (stays : (stateAt p ws ins n).reloads p ws (ins n) = false) :
    Stands p ws ins k (n + 1) := by
  refine ⟨(k_hold stays).trans stands.k, ?_⟩
  simp [Clocked.run_succ, Feed.next, stays, stands.full]

end Stands

/-- A cycle at whose end the word in D/E is not over. -/
structure Holds (p : Params) (ws : WordSeq) (ins : ℕ → FeedIn) (n : ℕ) : Prop where
  valid : ((stateAt p ws ins n).de ws).valid = true
  stall : (cycleAt p ws ins n).stallO = true
  calm : (cycleAt p ws ins n).Calm
  inert : (cycleAt p ws ins n).Inert
  bus : (cycleAt p ws ins n).accepted = [] ∧
      ((cycleAt p ws ins n).next.state = .MEM_WAIT ↔ (stateAt p ws ins n).ex.state = .MEM_WAIT) ∨
    (stateAt p ws ins n).ex.state ≠ .MEM_WAIT ∧ (cycleAt p ws ins n).next.state = .MEM_WAIT

namespace At

/-- The word is over, or the cycle holds it. -/
theorem reloads_or_holds (here : At w p ws ins n) :
    (stateAt p ws ins n).reloads p ws (ins n) = true ∨
      (stateAt p ws ins n).reloads p ws (ins n) = false ∧ Holds p ws ins n := by
  cases here.outcome with
  | bubble _ _ _ stall => exact .inl (reloads_advance stall)
  | asleep halted =>
    rw [show (cycleAt p ws ins n).q.wfiHalt = false from here.awake] at halted
    cases halted
  | interrupt _ pending => cases pending
  | trap _ _ sync =>
    exact .inl (reloads_flush (ExCyc.flush_redirect (e := cycleAt p ws ins n) (by simp [ExCyc.trapRedirectReq, sync])))
  | hold valid awake stall calm inert phase bus halt =>
    refine .inr ⟨reloads_hold calm inert stall, valid, stall, calm, inert, ?_⟩
    rcases bus with same | ⟨a, -, -, -, -, before, after⟩
    · exact .inl same
    · exact .inr ⟨before, after⟩
  | commit _ _ _ _ _ _ stall => exact .inl (reloads_advance stall)

/-- Without a word D/E takes the next one as soon as decode has it. -/
theorem next_empty (here : At w p ws ins n) (empty : (stateAt p ws ins n).full = false) :
    (stateAt p ws ins (n + 1)).k = (stateAt p ws ins n).k ∧ (stateAt p ws ins (n + 1)).full = (ins n).ready := by
  rcases here.reloads_or_holds with reloads | ⟨-, holds⟩
  · exact ⟨by simp [Clocked.run_succ, Feed.next, empty], by simp [Clocked.run_succ, Feed.next, reloads]⟩
  · have full := (de_full holds.valid).1
    rw [empty] at full
    cases full

/-- With a request offered that is not accepted the word stays, and its request. -/
theorem offers_again (here : At w p ws ins n) (offers : (cycleAt p ws ins n).offered ≠ [])
    (waits : (cycleAt p ws ins n).accepted = []) :
    (stateAt p ws ins n).reloads p ws (ins n) = false ∧ (cycleAt p ws ins (n + 1)).offered ≠ [] := by
  have stays : (cycleAt p ws ins n).flushO = false → (cycleAt p ws ins n).stallO = true →
      (stateAt p ws ins n).reloads p ws (ins n) = false ∧ (cycleAt p ws ins n).Stays (cycleAt p ws ins (n + 1)) := by
    intro kept stall
    have reloads : (stateAt p ws ins n).reloads p ws (ins n) = false := by simp [reloads, kept, stall]
    exact ⟨reloads, rfl, rfl, de_hold reloads, rfl⟩
  rcases ExCyc.offers offers with drive | drive
  · have wait := (ExCyc.offered_drive drive).2 waits
    obtain ⟨kept, stall, state, halt⟩ := ExCyc.drive_waits here.phase rfl drive wait
    obtain ⟨reloads, again⟩ := stays kept stall
    exact ⟨reloads, (ExCyc.offered_drive (ExCyc.drive_again again drive state halt)).1⟩
  · have wait := (ExCyc.offered_captured drive).2 waits
    obtain ⟨kept, stall, state, flops⟩ := ExCyc.launch_waits here.phase rfl drive wait
    obtain ⟨reloads, again⟩ := stays kept stall
    exact ⟨reloads, (ExCyc.offered_captured (ExCyc.launch_again again drive state flops)).1⟩

/-- A captured request is offered, a misaligned access traps. -/
theorem launch_offers (holds : Holds p ws ins n) (state : (stateAt p ws ins n).ex.state = .MEM_LAUNCH) :
    (cycleAt p ws ins n).offered ≠ [] := by
  have aligned : (cycleAt p ws ins n).misalignedTrap = false := by
    have sync := holds.calm.sync
    simp only [ExCyc.syncTrapReq, Bool.or_eq_false_iff] at sync
    exact sync.2
  refine (ExCyc.offered_captured ?_).1
  simp [ExCyc.capturedDrive, ExCyc.memLaunchState, ExCyc.inState, state, holds.valid, aligned]

/-- `EX_MEM_TRAP` and `EX_CSR_WAIT` last one cycle. -/
theorem passes (here : At w p ws ins n) (holds : Holds p ws ins n) :
    (stateAt p ws ins n).ex.state ≠ .MEM_TRAP ∧ (stateAt p ws ins n).ex.state ≠ .CSR_WAIT := by
  constructor
  · intro state
    have live : p.lsuLiveLoad = true := here.phase.liveLoad state
    have sync := holds.calm.sync
    simp [ExCyc.syncTrapReq, ExCyc.misalignedTrap, holds.valid, exec, live, ExCyc.inState, state] at sync
  · intro state
    have commit := (ExCyc.csr_wait (e := cycleAt p ws ins n) rfl here.phase state).2.2.commit
    rw [holds.inert.commit] at commit
    cases commit

end At

/-- A division is done. -/
theorem div_ends (answered : Answered p ws w ins) (k : ℕ) :
    Clocked.LeadsTo (fun n => Stands p ws ins k n ∧ (stateAt p ws ins n).ex.state = .DIV_BUSY) (Ended p ws ins k) := by
  refine .descend (fun n => (stateAt p ws ins n).ex.delay) ?_
  rintro n ⟨stands, busy⟩
  have here := at_run answered n
  rcases here.reloads_or_holds with reloads | ⟨stays, holds⟩
  · exact .inl (stands.ended reloads)
  · have is := here.phase.is_div busy
    have going := ExCyc.div_going (e := cycleAt p ws ins n) holds.valid is here.awake rfl holds.calm holds.inert
    obtain ⟨after, less⟩ := ExCyc.delay_div (e := cycleAt p ws ins n) (here.div busy) busy is going
    exact .inr ⟨⟨stands.stays stays, after⟩, less⟩

section Moves

variable (answered : Answered p ws w ins) (served : Served p ws ins)
include answered served

/-- A read is answered. -/
theorem wait_ends (k : ℕ) :
    Clocked.LeadsTo (fun n => Stands p ws ins k n ∧ (stateAt p ws ins n).ex.state = .MEM_WAIT) (Ended p ws ins k) := by
  have fair : Clocked.LeadsTo (fun n => Stands p ws ins k n ∧ (stateAt p ws ins n).ex.state = .MEM_WAIT)
      fun n => ((ins n).rsp (ws.word k).isPeriLive).rvalid = true := by
    rintro n ⟨stands, wait⟩
    obtain ⟨m, hm, a, accepted, read, peri, -, quiet⟩ := (at_run answered n).asked wait
    obtain ⟨l, hl, rvalid⟩ := served.answers m a accepted read
    rw [stands.de] at peri
    refine ⟨l, ?_, by rw [← peri]; exact rvalid⟩
    by_contra earlier
    rw [quiet l hl (by omega)] at rvalid
    cases rvalid
  refine (Clocked.LeadsTo.wait ?_ fair).trans (.next ?_)
  · rintro n ⟨stands, wait⟩ silent
    have here := at_run answered n
    have own := here.phase.captured wait
    have quiet : (cycleAt p ws ins n).lsuRspWait.rvalid = false := by
      rw [← stands.de, ← own.peri, Bool.not_eq_true] at silent
      exact silent
    obtain ⟨kept, stall, after⟩ := ExCyc.read_waits own (here.phase.is_load wait) rfl wait quiet
    exact ⟨stands.stays (by simp [reloads, kept, stall]), after⟩
  · rintro n ⟨⟨stands, wait⟩, rvalid⟩
    have here := at_run answered n
    rcases here.reloads_or_holds with reloads | ⟨-, holds⟩
    · exact stands.ended reloads
    · rcases holds.bus with ⟨-, same⟩ | ⟨other, -⟩
      · have quiet := At.unanswered wait (here.phase.captured wait) (same.mpr wait)
        rw [stands.de, rvalid] at quiet
        cases quiet
      · exact absurd wait other

/-- A request that is offered is accepted. -/
theorem offer_ends (k : ℕ) : Clocked.LeadsTo (fun n => Stands p ws ins k n ∧ (cycleAt p ws ins n).offered ≠ [])
    (Ended p ws ins k) := by
  have fair : Clocked.LeadsTo (fun n => Stands p ws ins k n ∧ (cycleAt p ws ins n).offered ≠ [])
      fun n => (cycleAt p ws ins n).accepted ≠ [] := fun n h => served.accepts n h.2
  have accepted : Clocked.LeadsTo (fun n => Stands p ws ins k n ∧ (cycleAt p ws ins n).offered ≠ [])
      fun n => Ended p ws ins k n ∨ Stands p ws ins k n ∧ (stateAt p ws ins n).ex.state = .MEM_WAIT := by
    refine (Clocked.LeadsTo.wait ?_ fair).trans (.next ?_)
    · rintro n ⟨stands, offers⟩ waits
      obtain ⟨stays, again⟩ := (at_run answered n).offers_again offers (not_not.mp waits)
      exact ⟨stands.stays stays, again⟩
    · rintro n ⟨⟨stands, -⟩, takes⟩
      rcases (at_run answered n).reloads_or_holds with reloads | ⟨stays, holds⟩
      · exact .inl (stands.ended reloads)
      · rcases holds.bus with ⟨none, -⟩ | ⟨-, after⟩
        · exact absurd none takes
        · exact .inr ⟨stands.stays stays, after⟩
  exact accepted.trans (.or (.now fun n h => h) (wait_ends answered served k))

/-- A word that was started is over some time. -/
theorem busy_ends (k : ℕ) :
    Clocked.LeadsTo (fun n => Stands p ws ins k n ∧ (stateAt p ws ins n).ex.state ≠ .IDLE) (Ended p ws ins k) := by
  rintro n ⟨stands, busy⟩
  have here := at_run answered n
  rcases here.reloads_or_holds with reloads | ⟨stays, holds⟩
  · exact ⟨n + 1, Nat.le_succ n, stands.ended reloads⟩
  · cases state : (stateAt p ws ins n).ex.state with
    | IDLE => exact absurd state busy
    | MEM_LAUNCH => exact offer_ends answered served k n ⟨stands, At.launch_offers holds state⟩
    | MEM_TRAP => exact absurd state (here.passes holds).1
    | DIV_BUSY => exact div_ends answered k n ⟨stands, state⟩
    | MEM_WAIT => exact wait_ends answered served k n ⟨stands, state⟩
    | CSR_WAIT => exact absurd state (here.passes holds).2

/-- A word in D/E is over some time. -/
theorem word_ends (k : ℕ) : Clocked.LeadsTo (Stands p ws ins k) (Ended p ws ins k) := by
  intro n stands
  have here := at_run answered n
  by_cases idle : (stateAt p ws ins n).ex.state = .IDLE
  · rcases here.reloads_or_holds with reloads | ⟨stays, holds⟩
    · exact ⟨n + 1, Nat.le_succ n, stands.ended reloads⟩
    · rcases ExCyc.starts_or_drives (e := cycleAt p ws ins n) idle here.awake rfl holds.stall with starts | ⟨drive, -⟩
      · obtain ⟨m, hm, ended⟩ := busy_ends answered served k (n + 1) ⟨stands.stays stays, starts⟩
        exact ⟨m, by omega, ended⟩
      · exact offer_ends answered served k n ⟨stands, (ExCyc.offered_drive drive).1⟩
  · exact busy_ends answered served k n ⟨stands, idle⟩

/-- The word comes, and is over some time. -/
theorem moves (k : ℕ) : Clocked.LeadsTo (fun n => (stateAt p ws ins n).k = k) (Ended p ws ins k) := by
  have fair : Clocked.LeadsTo (fun n => (stateAt p ws ins n).k = k ∧ (stateAt p ws ins n).full = false)
      fun n => (ins n).ready = true := fun n _ => served.ready n
  have comes : Clocked.LeadsTo (fun n => (stateAt p ws ins n).k = k ∧ (stateAt p ws ins n).full = false)
      (Stands p ws ins k) := by
    refine (Clocked.LeadsTo.wait ?_ fair).trans (.next ?_)
    · rintro n ⟨rfl, empty⟩ waits
      obtain ⟨same, full⟩ := (at_run answered n).next_empty empty
      exact ⟨same, full.trans (Bool.eq_false_iff.mpr waits)⟩
    · rintro n ⟨⟨rfl, empty⟩, ready⟩
      obtain ⟨same, full⟩ := (at_run answered n).next_empty empty
      exact ⟨same, full.trans ready⟩
  intro n h
  cases full : (stateAt p ws ins n).full with
  | true => exact word_ends answered served k n ⟨h, full⟩
  | false => exact comes.trans (word_ends answered served k) n ⟨h, full⟩

end Moves

/-! ## The builds -/

/-- The build with `LSU_LIVE_LOAD` on or off. -/
def build (p : Params) (live : Bool) : Params := { p with lsuLiveLoad := live }

/-- The two builds of the LSU write the same log: the same requests, writebacks, commits and
traps, in one order. `live` and `held` are the inputs of two runs on one sequence of words, each
with its own gaps and delays, and the slaves answer both by the requests they have accepted. Then
of the two logs one is always the beginning of the other; and a run that keeps nothing waiting
for ever gets to whatever the other one has done. -/
theorem lsu_builds (p : Params) (ws : WordSeq) (w : Answers) (live held : ℕ → FeedIn)
    (answeredLive : Answered (build p true) ws w live) (answeredHeld : Answered (build p false) ws w held) :
    (∀ n m, logAt (build p true) ws live n <+: logAt (build p false) ws held m ∨
        logAt (build p false) ws held m <+: logAt (build p true) ws live n) ∧
      (Served (build p false) ws held →
        ∀ n, ∃ m, logAt (build p true) ws live n <+: logAt (build p false) ws held m) ∧
      (Served (build p true) ws live →
        ∀ m, ∃ n, logAt (build p false) ws held m <+: logAt (build p true) ws live n) := by
  have one : ws.item w (build p false) = ws.item w (build p true) := rfl
  have playsLive := plays answeredLive
  have playsHeld := plays answeredHeld
  rw [one] at playsHeld
  refine ⟨playsLive.comparable playsHeld, fun served => ?_, fun served => ?_⟩
  · exact playsLive.catches playsHeld fun k => moves answeredHeld served k
  · exact playsHeld.catches playsLive fun k => moves answeredLive served k

/-- A load from the D-mem, a store to the bus and a misaligned load, then bubbles. -/
def threeAccesses : WordSeq where
  word
    | 0 =>
      { valid := true, rs1Data := 0x100#32, imm := 4, rd := 5, regWrite := true, wbSrc := .MEM, memRead := true,
        memSize := .W, aluSrcB := .IMM }
    | 1 =>
      { valid := true, pc := 4, rs1Data := 0x10000000#32, rs2Data := 7, imm := 8, memWrite := true, memSize := .W,
        aluSrcB := .IMM }
    | 2 =>
      { valid := true, pc := 8, rs1Data := 0x100#32, imm := 1, rd := 6, regWrite := true, wbSrc := .MEM,
        memRead := true, memSize := .H, aluSrcB := .IMM }
    | _ + 3 => {}
  formed
    | 0, _ | 2, _ => ⟨.load, rfl, by simp, fun _ => .inl ⟨rfl, rfl, rfl⟩⟩
    | 1, _ => ⟨.store, rfl, by simp, fun _ => .inl ⟨rfl, rfl, rfl⟩⟩
    | _ + 3, valid => by cases valid
  wakeful
    | 0, _ | 1, _ | 2, _ => rfl
    | _ + 3, valid => by cases valid

/-- Slaves that hold one word, ready at once; decode and the data come in the cycles of `on`. -/
def slowPorts (on : ℕ → Bool) (n : ℕ) : FeedIn where
  ready := on n
  csrRdata := 0
  memRsp := { wready := true, rvalid := on n, rdata := 42 }
  periRsp := { wready := true, rvalid := on n, rdata := 42 }

theorem slowPorts_answered (p : Params) (ws : WordSeq) (on : ℕ → Bool) :
    Answered p ws ⟨fun _ _ => 42, fun _ => 0⟩ (slowPorts on) := by
  refine ⟨fun n a _ _ m _ _ _ => ?_, fun _ _ => rfl⟩
  cases a.peri <;> rfl

theorem slowPorts_served (p : Params) (ws : WordSeq) {on : ℕ → Bool} (often : ∀ n, ∃ m > n, on m = true) :
    Served p ws (slowPorts on) := by
  refine ⟨fun n => ?_, fun n offers => ⟨n, le_refl n, ?_⟩, fun n a _ _ => ?_⟩
  · obtain ⟨m, hm, up⟩ := often n
    exact ⟨m, hm.le, up⟩
  · intro none
    apply offers
    have mem : (cycleAt p ws (slowPorts on) n).memRsp.wready = true := rfl
    have peri : (cycleAt p ws (slowPorts on) n).periRsp.wready = true := rfl
    rwa [ExCyc.accepted, mem, peri, Bool.and_true, Bool.and_true] at none
  · obtain ⟨m, hm, up⟩ := often n
    refine ⟨m, hm, ?_⟩
    cases a.peri <;> exact up

/-- The live build at full speed against the captured one at every third cycle. -/
theorem lsu_builds_threeAccesses :
    let live := logAt (build .board true) threeAccesses (slowPorts fun _ => true)
    let held := logAt (build .board false) threeAccesses (slowPorts fun n => n % 3 == 0)
    live 7 = [.req { peri := false, we := false, addr := 0x104, lanes := none }, .write 5 42,
        .commit (threeAccesses.word 0), .req { peri := true, we := true, addr := 0x10000008, lanes := some (7, 15) },
        .commit (threeAccesses.word 1), .trap 4 0x101 8] ∧
      live 7 = held 9 ∧ (∀ n, ∃ m, live n <+: held m) ∧ (∀ m, ∃ n, held m <+: live n) := by
  intro live held
  obtain ⟨-, gets, got⟩ := lsu_builds .board threeAccesses ⟨fun _ _ => 42, fun _ => 0⟩ (slowPorts fun _ => true)
    (slowPorts fun n => n % 3 == 0) (slowPorts_answered _ _ _) (slowPorts_answered _ _ _)
  refine ⟨by decide +kernel, by decide +kernel, gets (slowPorts_served _ _ fun n => ?_),
    got (slowPorts_served _ _ fun n => ?_)⟩
  · exact ⟨3 * (n + 1), by omega, by simp⟩
  · exact ⟨n + 1, Nat.lt_succ_self n, rfl⟩

end Feed

end YarvUc

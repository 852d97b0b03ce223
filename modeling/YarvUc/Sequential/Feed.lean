import YarvUc.Clocked.Progress
import YarvUc.Sequential.Delay

/-!
# Execute on a sequence of D/E words

Execute as decode feeds it: the words of a sequence stand in D/E one after another, each
until it is over, with any gaps between them. What an observer has of it is the log of the
requests accepted, the writebacks, the commits and the traps. `DeT.item` says what one word
adds to the log, without a clock and without the build of the LSU, and `Feed.at_run` that
the log of every run is the script of these items.
-/

namespace YarvUc

/-! ## What is observed -/

/-- A request without what it leaves open: a load's lanes. -/
structure Request where
  peri : Bool
  we : Bool
  addr : Word
  lanes : Option (Word × BitVec 4)
deriving DecidableEq

def Access.request (a : Access) : Request where
  peri := a.peri
  we := a.we
  addr := a.addr
  lanes := if a.we then some (a.wdata, a.wstrb) else none

/-- The request a memory word makes. -/
def DeT.request (de : DeT) : Request where
  peri := de.isPeriLive
  we := de.memWrite
  addr := de.lsuEa
  lanes := if de.memWrite then some (de.storeWdata, de.storeWstrb) else none

theorem Access.For.request {a : Access} {de : DeT} (mine : a.For de) : a.request = de.request := by
  rw [Access.request, DeT.request, mine.peri, mine.we, mine.addr]
  cases write : de.memWrite with
  | false => rfl
  | true =>
    obtain ⟨wdata, wstrb⟩ := mine.lanes write
    rw [wdata, wstrb]

inductive ExEvent where
  | req (r : Request)
  | write (rd : BitVec 5) (data : Word)
  | commit (de : DeT)
  | trap (cause tval mepc : Word)
deriving DecidableEq

def ExEvent.request? : ExEvent → Option Request
  | req r => some r
  | _ => none

/-- The requests of a log. -/
def requestsOf (log : List ExEvent) : List Request := log.filterMap ExEvent.request?

/-! ## What a word does -/

/-- What the two slaves answer to a read, by the port and the requests accepted so far, and
what a CSR is found to hold, by all that has happened. -/
structure Answers where
  data : Bool → List Request → Word
  csr : List ExEvent → Word

namespace DeT

variable (w : Answers) (p : Params) (de : DeT) (log : List ExEvent)

/-- What a word writes back, behind `log`. -/
def result : Word :=
  match de.wbSrc with
  | .ALU => de.aluValue p
  | .MEM => de.loadData (w.data de.isPeriLive (requestsOf (log ++ [.req de.request]))) de.lsuEa
  | .PC4 => de.pcLink
  | .CSR => w.csr log

/-- What a word adds to `log`. -/
def item : List ExEvent :=
  if de.valid then
    match de.fault with
    | some (cause, tval) => [.trap cause tval de.pc]
    | none =>
      (if de.isMemOp then [.req de.request] else []) ++
        (if de.regWrite then [.write de.rd (de.result w p log)] else []) ++ [.commit de]
  else []

end DeT

/-- A sequence of D/E words as decode builds them, without WFI; words that are not valid are bubbles. -/
structure WordSeq where
  word : ℕ → DeT
  formed : ∀ k, (word k).valid = true → (word k).Formed
  wakeful : ∀ k, (word k).valid = true → (word k).isWfiOp = false

def WordSeq.item (ws : WordSeq) (w : Answers) (p : Params) (k : ℕ) : List ExEvent → List ExEvent := (ws.word k).item w p

/-! ## The circuit -/

/-- Execute, the number of the next word, and whether it is in D/E. -/
structure Feed where
  ex : ExQ
  k : ℕ
  full : Bool

/-- The inputs of one cycle; `ready` is up when decode has the next word. -/
structure FeedIn where
  ready : Bool
  csrRdata : Word
  memRsp : MemRsp
  periRsp : MemRsp

/-- The response on a port. -/
def FeedIn.rsp (i : FeedIn) (peri : Bool) : MemRsp := if peri then i.periRsp else i.memRsp

namespace Feed

def reset : Feed := { ex := .reset, k := 0, full := false }

variable (p : Params) (ws : WordSeq) (s : Feed) (i : FeedIn)

/-- The D/E register. -/
def de : DeT := if s.full then ws.word s.k else {}

/-- `u_execute`'s cycle, without interrupts and with `stall_i` low. -/
def exec : ExCyc where
  p := p
  q := s.ex
  de := s.de ws
  csrRdata := i.csrRdata
  intPending := false
  intCause := 0
  stallI := false
  memRsp := i.memRsp
  periRsp := i.periRsp

/-- D/E is loaded or cleared at the edge. -/
def reloads : Bool := (s.exec p ws i).flushO || !(s.exec p ws i).stallO

def next : Feed where
  ex := (s.exec p ws i).next
  k := if s.full && s.reloads p ws i then s.k + 1 else s.k
  full := if s.reloads p ws i then i.ready else s.full

def events : List ExEvent :=
  (s.exec p ws i).accepted.map (fun a => .req a.request) ++
    (if (s.exec p ws i).wbEn then [.write (s.de ws).rd (s.exec p ws i).wbData] else []) ++
    (if (s.exec p ws i).opCommits then [.commit (s.de ws)] else []) ++
    (if (s.exec p ws i).syncTrapReq then
      [.trap (s.exec p ws i).trapCause (s.exec p ws i).trapTval (s.exec p ws i).trapMepc] else [])

/-- The state before cycle `n` of a run, the cycle, and the log until then. -/
abbrev stateAt (ins : ℕ → FeedIn) (n : ℕ) : Feed := Clocked.run (next p ws) reset ins n
abbrev cycleAt (ins : ℕ → FeedIn) (n : ℕ) : ExCyc := (stateAt p ws ins n).exec p ws (ins n)
abbrev logAt (ins : ℕ → FeedIn) (n : ℕ) : List ExEvent := Clocked.log (next p ws) (events p ws) reset ins n

/-- The slaves and the CSR file answer `w`: the first `rvalid` behind an accepted read comes
with the data for the requests accepted until then. -/
structure Answered (w : Answers) (ins : ℕ → FeedIn) : Prop where
  data : ∀ n, ∀ a ∈ (cycleAt p ws ins n).accepted, a.we = false → ∀ m > n,
    (∀ j, n < j → j < m → ((ins j).rsp a.peri).rvalid = false) → ((ins m).rsp a.peri).rvalid = true →
      ((ins m).rsp a.peri).rdata = w.data a.peri (requestsOf (logAt p ws ins (n + 1)))
  csr : ∀ n, (cycleAt p ws ins n).csrOpValid = true → (ins n).csrRdata = w.csr (logAt p ws ins n)

/-- Nothing is kept waiting for ever: decode gets its next word, a slave accepts what it is
offered and answers a read it has accepted. -/
structure Served (ins : ℕ → FeedIn) : Prop where
  ready : ∀ n, ∃ m ≥ n, (ins m).ready = true
  accepts : ∀ n, (cycleAt p ws ins n).offered ≠ [] → ∃ m ≥ n, (cycleAt p ws ins m).accepted ≠ []
  answers : ∀ n, ∀ a ∈ (cycleAt p ws ins n).accepted, a.we = false → ∃ m > n, ((ins m).rsp a.peri).rvalid = true

variable {p : Params} {ws : WordSeq} {s : Feed} {i : FeedIn} {w : Answers} {ins : ℕ → FeedIn}

@[simp] theorem exec_de : (s.exec p ws i).de = s.de ws := rfl
@[simp] theorem exec_q : (s.exec p ws i).q = s.ex := rfl

/-! ## The edge -/

theorem de_full (valid : (s.de ws).valid = true) : s.full = true ∧ s.de ws = ws.word s.k := by
  unfold de at valid ⊢
  cases full : s.full with
  | true => exact ⟨rfl, rfl⟩
  | false => simp [full] at valid

/-- A valid word in D/E is one of the sequence. -/
theorem formed_de (valid : (s.de ws).valid = true) : (s.de ws).Formed ∧ (s.de ws).isWfiOp = false := by
  obtain ⟨-, word⟩ := de_full valid
  rw [word] at valid ⊢
  exact ⟨ws.formed _ valid, ws.wakeful _ valid⟩

theorem reloads_flush (flush : (s.exec p ws i).flushO = true) : s.reloads p ws i = true := by simp [reloads, flush]

theorem reloads_advance (stall : (s.exec p ws i).stallO = false) : s.reloads p ws i = true := by simp [reloads, stall]

theorem reloads_hold (calm : (s.exec p ws i).Calm) (inert : (s.exec p ws i).Inert)
    (stall : (s.exec p ws i).stallO = true) : s.reloads p ws i = false := by
  simp [reloads, ExCyc.flush_calm calm inert.train, stall]

theorem de_hold (stays : s.reloads p ws i = false) : (s.next p ws i).de ws = s.de ws := by
  simp [de, next, stays]

theorem k_hold (stays : s.reloads p ws i = false) : (s.next p ws i).k = s.k := by simp [next, stays]

/-- The script behind the word in D/E, once it is over. -/
theorem script_reloads (reloads : s.reloads p ws i = true) : Clocked.script (ws.item w p) (s.next p ws i).k =
    Clocked.script (ws.item w p) s.k ++ (s.de ws).item w p (Clocked.script (ws.item w p) s.k) := by
  cases full : s.full with
  | true =>
    have k : (s.next p ws i).k = s.k + 1 := by simp [next, reloads, full]
    rw [k, Clocked.script_succ, de, full, if_pos rfl]
    rfl
  | false =>
    have k : (s.next p ws i).k = s.k := by simp [next, full]
    rw [k, de, full, if_neg Bool.false_ne_true]
    exact (List.append_nil _).symm

/-! ## The events of a cycle -/

theorem events_quiet (calm : (s.exec p ws i).Calm) (inert : (s.exec p ws i).Inert) :
    s.events p ws i = (s.exec p ws i).accepted.map fun a => .req a.request := by
  simp [events, calm.sync, inert.commit, inert.wb]

/-- A word that traps writes down its trap. -/
theorem events_trap (awake : s.ex.wfiHalt = false) (valid : (s.de ws).valid = true)
    (why : s.ex.state = .IDLE ∧ (s.exec p ws i).misalignedTrap = false ∧ (s.de ws).Is .exc ∨
      (s.ex.state = .MEM_TRAP ∨ s.ex.state = .MEM_LAUNCH) ∧ (s.exec p ws i).misalignedTrap = true ∧
        Captured (s.de ws) s.ex ∧ (s.de ws).memMisalignedLive = true)
    (sync : (s.exec p ws i).syncTrapReq = true) (int : (s.exec p ws i).takeInterrupt = false)
    (inert : (s.exec p ws i).Inert) (bus : (s.exec p ws i).offered = []) (log : List ExEvent) :
    s.events p ws i = (s.de ws).item w p log := by
  have events : s.events p ws i =
      [.trap (s.exec p ws i).syncCause (s.exec p ws i).syncTval (s.de ws).pc] := by
    simp [Feed.events, ExCyc.accepted_of_offered bus, inert.wb, inert.commit, sync, ExCyc.trapCause, ExCyc.trapTval,
      ExCyc.trapMepc, int, awake]
  rw [events, DeT.item, valid, if_pos rfl]
  rcases why with ⟨-, decoded, is⟩ | ⟨-, misaligned, own, live⟩
  · rw [DeT.fault_exc is.exception]
    simp [ExCyc.syncCause, ExCyc.syncTval, decoded]
  · have nonexc : (s.de ws).exception = false := own.mem.elim (fun is => is.exception) fun is => is.exception
    have mem : (s.de ws).isMemOp = true := own.mem.elim (fun is => is.isMemOp) fun is => is.isMemOp
    rw [DeT.fault_misaligned nonexc mem live]
    simp only [ExCyc.syncCause, ExCyc.syncTval, misaligned, if_true, exec_q, own.addr]
    rfl

/-- What the word in D/E has written so far: in `EX_MEM_WAIT` its request. -/
def part (ws : WordSeq) (s : Feed) : List ExEvent := if s.ex.state = .MEM_WAIT then [.req (s.de ws).request] else []

theorem part_none (other : s.ex.state ≠ .MEM_WAIT) : s.part ws = [] := if_neg other

theorem part_wait (wait : s.ex.state = .MEM_WAIT) : s.part ws = [.req (s.de ws).request] := if_pos wait

section Retires

variable {k : OpKind}

/-- The request of a memory word is in the log when it retires. -/
theorem request_retires (r : (s.exec p ws i).Retires k) :
    s.part ws ++ (s.exec p ws i).accepted.map (fun a => ExEvent.req a.request) =
      if (s.de ws).isMemOp then [.req (s.de ws).request] else [] := by
  have state : s.ex.state = k.retiresFrom := r.state
  have isMem : (s.de ws).isMemOp = (k.flags.memRead || k.flags.memWrite) := r.is.isMemOp
  rw [isMem]
  rcases r.bus with ⟨rfl, a, one, mine⟩ | ⟨other, none⟩
  · rw [part_none (by rw [state]; exact mt OpKind.retiresFrom_wait.mp nofun), one]
    simp [mine.request, OpKind.flags]
  · rw [none, List.map_nil, List.append_nil]
    by_cases load : k = .load
    · subst load
      exact part_wait state
    · rw [part_none (by rw [state]; exact mt OpKind.retiresFrom_wait.mp load)]
      cases k <;> simp_all [OpKind.flags]

/-- A word that retires writes down what is left of its item. -/
theorem events_retires (r : (s.exec p ws i).Retires k) {log : List ExEvent}
    (value : k.flags.regWrite = true → (s.exec p ws i).wbData = (s.de ws).result w p log) :
    s.part ws ++ s.events p ws i = (s.de ws).item w p log := by
  have valid : (s.de ws).valid = true := r.valid
  have clean : (s.de ws).fault = none := r.clean
  have writesBack : (s.de ws).regWrite = k.flags.regWrite := r.is.regWrite
  have written : (if (s.exec p ws i).wbEn then [ExEvent.write (s.de ws).rd (s.exec p ws i).wbData] else []) =
      if (s.de ws).regWrite then [.write (s.de ws).rd ((s.de ws).result w p log)] else [] := by
    rw [r.wb, writesBack]
    cases writes : k.flags.regWrite with
    | false => rfl
    | true => rw [value writes]
  rw [events, written, r.commit, r.sync, if_pos rfl, if_neg Bool.false_ne_true, List.append_nil, ← List.append_assoc,
    ← List.append_assoc, request_retires r, DeT.item, valid, if_pos rfl, clean]

end Retires

/-! ## The run -/

theorem logAt_succ (n : ℕ) : logAt p ws ins (n + 1) =
    logAt p ws ins n ++ (stateAt p ws ins n).events p ws (ins n) := rfl

/-- The read of the word in D/E has been accepted, and was not answered yet. -/
def Asked (p : Params) (ws : WordSeq) (ins : ℕ → FeedIn) (n : ℕ) : Prop :=
  ∃ m < n, ∃ a ∈ (cycleAt p ws ins m).accepted, a.we = false ∧ a.peri = ((stateAt p ws ins n).de ws).isPeriLive ∧
    logAt p ws ins (m + 1) = logAt p ws ins n ∧ ∀ j, m < j → j < n → ((ins j).rsp a.peri).rvalid = false

/-- Before cycle `n` the log is the script up to the word in D/E, and what that has written so far. -/
structure At (w : Answers) (p : Params) (ws : WordSeq) (ins : ℕ → FeedIn) (n : ℕ) : Prop where
  phase : Phase p ((stateAt p ws ins n).de ws) (stateAt p ws ins n).ex
  awake : (stateAt p ws ins n).ex.wfiHalt = false
  div : (stateAt p ws ins n).ex.state = .DIV_BUSY →
    (stateAt p ws ins n).ex.alu.Underway ((stateAt p ws ins n).de ws).aluComb
  log : logAt p ws ins n =
    Clocked.script (ws.item w p) (stateAt p ws ins n).k ++ (stateAt p ws ins n).part ws
  asked : (stateAt p ws ins n).ex.state = .MEM_WAIT → Asked p ws ins n

namespace At

variable {n : ℕ}

theorem start : At w p ws ins 0 := by
  refine ⟨.idle rfl rfl fun valid => ?_, rfl, ?_, rfl, ?_⟩
  · cases valid
  · intro busy
    cases busy
  · intro wait
    cases wait

theorem outcome (here : At w p ws ins n) : (cycleAt p ws ins n).Outcome := ExCyc.outcome rfl here.phase

/-- A word that is over leaves the log at the script. -/
theorem settled (settles : (cycleAt p ws ins n).Settles) (halt : (cycleAt p ws ins n).next.wfiHalt = false)
    (log : logAt p ws ins (n + 1) = Clocked.script (ws.item w p) (stateAt p ws ins (n + 1)).k) :
    At w p ws ins (n + 1) := by
  have idle : (stateAt p ws ins (n + 1)).ex.state = .IDLE := settles.state
  have other : (stateAt p ws ins (n + 1)).ex.state ≠ .MEM_WAIT := by
    rw [idle]
    simp
  refine ⟨.idle idle settles.div fun valid => (formed_de valid).1, halt, fun busy => ?_, ?_, fun wait => ?_⟩
  · rw [idle] at busy
    cases busy
  · rw [log, part_none other, List.append_nil]
  · exact absurd wait other

/-- The log of a cycle at whose end the word is over. -/
theorem log_reloads (here : At w p ws ins n) (reloads : (stateAt p ws ins n).reloads p ws (ins n) = true)
    (item : (stateAt p ws ins n).part ws ++ (stateAt p ws ins n).events p ws (ins n) =
      ((stateAt p ws ins n).de ws).item w p (Clocked.script (ws.item w p) (stateAt p ws ins n).k)) :
    logAt p ws ins (n + 1) = Clocked.script (ws.item w p) (stateAt p ws ins (n + 1)).k := by
  rw [logAt_succ, here.log, List.append_assoc, item]
  exact (script_reloads reloads).symm

/-- In `EX_MEM_WAIT` a cycle that goes on has no `rvalid`. -/
theorem unanswered (wait : (stateAt p ws ins n).ex.state = .MEM_WAIT)
    (own : Captured ((stateAt p ws ins n).de ws) (stateAt p ws ins n).ex)
    (more : (cycleAt p ws ins n).next.state = .MEM_WAIT) :
    ((ins n).rsp ((stateAt p ws ins n).de ws).isPeriLive).rvalid = false := by
  cases rvalid : ((ins n).rsp ((stateAt p ws ins n).de ws).isPeriLive).rvalid with
  | false => rfl
  | true =>
    have done : (cycleAt p ws ins n).memDone = true := by
      rw [← own.peri] at rvalid
      have data : (cycleAt p ws ins n).lsuRspWait.rvalid = true := rvalid
      simp [ExCyc.memDone, ExCyc.inState, wait, data]
    simp [ExCyc.next, ExCyc.stateD, wait, done] at more

/-- A word that stays. -/
theorem hold (here : At w p ws ins n) (stall : (cycleAt p ws ins n).stallO = true)
    (calm : (cycleAt p ws ins n).Calm) (inert : (cycleAt p ws ins n).Inert)
    (phase : Phase p ((stateAt p ws ins n).de ws) (cycleAt p ws ins n).next)
    (bus : (cycleAt p ws ins n).accepted = [] ∧
        ((cycleAt p ws ins n).next.state = .MEM_WAIT ↔ (stateAt p ws ins n).ex.state = .MEM_WAIT) ∨
      ∃ a, (cycleAt p ws ins n).accepted = [a] ∧ a.For ((stateAt p ws ins n).de ws) ∧
        ((stateAt p ws ins n).de ws).Is .load ∧ ((stateAt p ws ins n).de ws).memMisalignedLive = false ∧
        (stateAt p ws ins n).ex.state ≠ .MEM_WAIT ∧ (cycleAt p ws ins n).next.state = .MEM_WAIT)
    (halt : (cycleAt p ws ins n).next.wfiHalt = false) : At w p ws ins (n + 1) := by
  have stays := reloads_hold calm inert stall
  have de : (stateAt p ws ins (n + 1)).de ws = (stateAt p ws ins n).de ws := de_hold stays
  have k : (stateAt p ws ins (n + 1)).k = (stateAt p ws ins n).k := k_hold stays
  have ex : (stateAt p ws ins (n + 1)).ex = (cycleAt p ws ins n).next := rfl
  have log : logAt p ws ins (n + 1) =
      logAt p ws ins n ++ (cycleAt p ws ins n).accepted.map fun a => .req a.request := by
    rw [logAt_succ, events_quiet calm inert]
  refine ⟨by rw [de, ex]; exact phase, halt, fun busy => ?_, ?_, fun wait => ?_⟩
  · rw [de, ex]
    exact ExCyc.underway_next (e := cycleAt p ws ins n) here.phase here.div busy
  · rw [log, here.log, k, List.append_assoc]
    congr 1
    rcases bus with ⟨none, same⟩ | ⟨a, one, mine, -, -, before, after⟩
    · rw [none, List.map_nil, List.append_nil]
      simp only [part, ex, same, de]
    · rw [part_none before, part_wait (by rw [ex]; exact after), one, de]
      simp [mine.request]
  · rw [Asked, de]
    rcases bus with ⟨none, same⟩ | ⟨a, one, mine, load, -, before, after⟩
    · -- the read is still open, or it would be answered in this cycle
      have was := same.mp wait
      obtain ⟨m, hm, a, accepted, read, peri, same, quiet⟩ := here.asked was
      refine ⟨m, by omega, a, accepted, read, peri, ?_, fun j hj hj' => ?_⟩
      · rw [log, none, List.map_nil, List.append_nil, same]
      · rcases Nat.lt_succ_iff_lt_or_eq.mp hj' with earlier | rfl
        · exact quiet j hj earlier
        · rw [peri]
          exact unanswered was (here.phase.captured was) wait
    · -- it is accepted in this cycle
      refine ⟨n, Nat.lt_succ_self n, a, by rw [one]; exact List.mem_singleton_self a, ?_, mine.peri, rfl, ?_⟩
      · rw [mine.we]
        exact load.memWrite
      · intro j hj hj'
        omega

/-- The data of a load that retires are those of its request. -/
theorem loaded (here : At w p ws ins n) (answered : Answered p ws w ins) (r : (cycleAt p ws ins n).Retires .load) :
    (cycleAt p ws ins n).lsuRspWait.rdata = w.data ((stateAt p ws ins n).de ws).isPeriLive
      (requestsOf (Clocked.script (ws.item w p) (stateAt p ws ins n).k ++
        [.req ((stateAt p ws ins n).de ws).request])) := by
  have state : (stateAt p ws ins n).ex.state = .MEM_WAIT := r.state
  have own := here.phase.captured state
  have rsp : (cycleAt p ws ins n).lsuRspWait = (ins n).rsp ((stateAt p ws ins n).de ws).isPeriLive := by
    rw [← own.peri]
    rfl
  have done := r.rvalid
  obtain ⟨m, hm, a, accepted, read, peri, same, quiet⟩ := here.asked state
  rw [rsp, ← peri] at done
  rw [rsp, ← peri, answered.data m a accepted read n hm quiet done, same, here.log, part_wait state]

/-- A word that retires. -/
theorem retires {k : OpKind} (here : At w p ws ins n) (answered : Answered p ws w ins)
    (r : (cycleAt p ws ins n).Retires k) (stall : (cycleAt p ws ins n).stallO = false) :
    logAt p ws ins (n + 1) = Clocked.script (ws.item w p) (stateAt p ws ins (n + 1)).k := by
  refine here.log_reloads (reloads_advance stall) (events_retires r fun writes => r.wbData writes ?_ ?_ ?_)
  · rintro rfl
    exact here.div r.state
  · rintro rfl
    have addr : (cycleAt p ws ins n).q.memAddr = ((stateAt p ws ins n).de ws).lsuEa := (r.memory (.inl rfl)).1.addr
    rw [here.loaded answered r, addr]
    rfl
  · rintro rfl
    have state : (stateAt p ws ins n).ex.state = .CSR_WAIT := r.state
    have log : logAt p ws ins n = Clocked.script (ws.item w p) (stateAt p ws ins n).k := by
      rw [here.log, part_none (by rw [state]; simp), List.append_nil]
    rw [← log]
    exact answered.csr n r.csr

/-- Every cycle keeps the log on the script. -/
theorem next (here : At w p ws ins n) (answered : Answered p ws w ins) : At w p ws ins (n + 1) := by
  cases here.outcome with
  | bubble valid awake idle stall calm inert bus settles halt =>
    have other : (stateAt p ws ins n).ex.state ≠ .MEM_WAIT := by
      rw [show (stateAt p ws ins n).ex.state = .IDLE from idle]
      simp
    refine settled settles halt (here.log_reloads (reloads_advance stall) ?_)
    rw [events_quiet calm inert, ExCyc.accepted_of_offered bus, part_none other, DeT.item,
      show ((stateAt p ws ins n).de ws).valid = false from valid]
    rfl
  | asleep halted =>
    rw [show (cycleAt p ws ins n).q.wfiHalt = false from here.awake] at halted
    cases halted
  | interrupt _ pending => cases pending
  | trap valid why sync mret int inert bus settles halt =>
    have flush := ExCyc.flush_redirect (e := cycleAt p ws ins n) (by simp [ExCyc.trapRedirectReq, sync])
    have other : (stateAt p ws ins n).ex.state ≠ .MEM_WAIT := by
      rcases why with ⟨h, -⟩ | ⟨h | h, -⟩ <;> rw [show (stateAt p ws ins n).ex.state = _ from h] <;> simp
    refine settled settles halt (here.log_reloads (reloads_flush flush) ?_)
    rw [part_none other, List.nil_append]
    exact events_trap here.awake valid why sync int inert bus _
  | hold valid awake stall calm inert phase bus halt => exact here.hold stall calm inert phase bus halt
  | commit k valid is nonexc state awake stall sync int mret commit wb csr train bus memory settles halt =>
    have wakeful : (cycleAt p ws ins n).next.wfiHalt = false := by
      rw [halt, ← is.isWfiOp]
      exact (formed_de valid).2
    exact settled settles wakeful
      (here.retires answered ⟨valid, is, nonexc, state, sync, mret, commit, wb, csr, bus, memory⟩ stall)

end At

theorem at_run (answered : Answered p ws w ins) (n : ℕ) : At w p ws ins n := by
  induction n with
  | zero => exact .start
  | succ n ih => exact ih.next answered

end Feed

end YarvUc

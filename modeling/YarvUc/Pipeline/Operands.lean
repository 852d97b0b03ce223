import YarvUc.Execute.Stays
import YarvUc.Pipeline.Order

/-!
# Operands are current

Decode, the register file and execute over whole runs, with arbitrary inputs. There is no
interlock: a word is latched in the cycle in which the one before it leaves, with that word's
writeback forwarded, so what is captured is the register file after everything older, and
nothing writes it while the word stays.
-/

namespace YarvUc

/-- The flops of the two stages and the register file. -/
structure CoreRf where
  core : Core
  rf : RegFile

namespace CoreRf

/-- The register file is not reset. -/
def reset (rf : RegFile) : CoreRf := { core := .reset, rf := rf }

variable (p : Params) (s : CoreRf) (i : CoreIn)

/-- Decode reads the register file. -/
def coreIn : CoreIn := { i with regRead := s.rf.read }

def exec : ExCyc := s.core.exec p (s.coreIn i)
def decode : DecCyc := s.core.decode p (s.coreIn i)

/-- The clock edge. -/
def next : CoreRf where
  core := s.core.next p (s.coreIn i)
  rf := s.rf.next (s.exec p i).wbEn s.core.dec.de.rd (s.exec p i).wbData

/-- The word in D/E. -/
def de : DeT := s.core.dec.de

/-! ## The words of a run -/

/-- The word latched into D/E. -/
def enters : List DeT :=
  if !(s.exec p i).flushO && !(s.exec p i).stallO && (s.decode p i).deD.valid then [(s.decode p i).deD] else []

/-- The word that leaves D/E by retiring, trapping or being squashed, with what it writes to `rd`. -/
def leaves : List (DeT × Option Word) :=
  if s.de.valid && ((s.exec p i).opCommits || (s.exec p i).syncTrapReq || (s.exec p i).takeInterrupt) then
    [(s.de, if (s.exec p i).opCommits && s.de.regWrite then some (s.exec p i).wbData else none)]
  else []

/-- The register file after a word has left. -/
def writeBack (rf : RegFile) (left : DeT × Option Word) : RegFile :=
  match left.2 with
  | some v => rf.next true left.1.rd v
  | none => rf

/-- A source register as the register file has it: zero when the instruction does not use it. -/
def source (rf : RegFile) (used : Bool) (r : BitVec 5) : Word := if used then rf.read r else 0

/-- The operands of the word in D/E are the registers as they are. -/
structure Current : Prop where
  rs1 : s.de.rs1Data = source s.rf (decodeUniform s.de.instr).usesRs1 (rs1Field s.de.instr)
  rs2 : s.de.rs2Data = source s.rf (decodeUniform s.de.instr).usesRs2 (rs2Field s.de.instr)

variable {p s i}

theorem source_eq (rf : RegFile) (used : Bool) (r : BitVec 5) :
    rf.read (if used then r else 0) = source rf used r := by
  cases used <;> rfl

/-! ## One cycle -/

/-- What is latched is current: the writeback of this cycle is forwarded. -/
theorem current_latched (kept : (s.exec p i).flushO = false) (running : (s.exec p i).stallO = false) :
    (s.next p i).Current := by
  have fresh : (s.next p i).de = (s.decode p i).deD := Core.de_advance kept running
  have rf : (s.decode p i).operand = (s.next p i).rf.read := DecCyc.operand_eq s.rf rfl
  have rs1 : (s.decode p i).deD.rs1Data = (s.decode p i).operand (rs1AddrDec (s.decode p i).deD.instr) := rfl
  have rs2 : (s.decode p i).deD.rs2Data = (s.decode p i).operand (rs2AddrDec (s.decode p i).deD.instr) := rfl
  constructor
  · rw [fresh, rs1, rf]
    exact source_eq _ _ _
  · rw [fresh, rs2, rf]
    exact source_eq _ _ _

/-- A word that stays sees no write. -/
theorem current_kept (same : (s.next p i).de = s.de) (quiet : (s.exec p i).wbEn = false) (current : s.Current) :
    (s.next p i).Current := by
  have rf : (s.next p i).rf = s.rf := by simp [next, RegFile.next, quiet]
  constructor
  · rw [same, rf]
    exact current.rs1
  · rw [same, rf]
    exact current.rs2

theorem leaves_quiet (calm : (s.exec p i).Calm) (inert : (s.exec p i).Inert) : s.leaves p i = [] := by
  simp [leaves, inert.commit, calm.sync, calm.int]

/-- A word that leaves without retiring writes nothing. -/
theorem leaves_entry (inert : (s.exec p i).Inert)
    (entry : ((s.exec p i).syncTrapReq || (s.exec p i).takeInterrupt) = true) :
    s.leaves p i = if s.de.valid then [(s.de, none)] else [] := by
  simp only [leaves, inert.commit, Bool.false_or, entry, Bool.and_true, Bool.false_and]
  rfl

theorem enters_kept (stays : (s.exec p i).flushO = true ∨ (s.exec p i).stallO = true) : s.enters p i = [] := by
  rcases stays with h | h <;> simp [enters, h]

/-- The word that is next in D/E is the one that stayed or the one that entered. -/
theorem enters_running (running : (s.exec p i).stallO = false) :
    s.enters p i = if (s.next p i).de.valid then [(s.next p i).de] else [] := by
  cases flush : (s.exec p i).flushO with
  | true =>
    have empty : (s.next p i).de = {} := Core.de_flush flush
    rw [enters_kept (.inl flush), empty]
    rfl
  | false =>
    have fresh : (s.next p i).de = (s.decode p i).deD := Core.de_advance flush running
    rw [fresh, enters, flush, running]
    rfl

/-- What a cycle does: the words in order, the register file, and the operands. -/
structure Advances (p : Params) (s : CoreRf) (i : CoreIn) : Prop where
  order : (if s.de.valid then [s.de] else []) ++ s.enters p i =
    (s.leaves p i).map Prod.fst ++ if (s.next p i).de.valid then [(s.next p i).de] else []
  registers : (s.next p i).rf = (s.leaves p i).foldl writeBack s.rf
  current : (s.de.valid = true → s.Current) → (s.next p i).de.valid = true → (s.next p i).Current

/-- Nothing leaves and nothing is written: what is in D/E stays, or there is nothing in it. -/
theorem advances_quiet (calm : (s.exec p i).Calm) (inert : (s.exec p i).Inert)
    (stays : (s.exec p i).stallO = true ∨ s.de.valid = false) : s.Advances p i := by
  have kept : (s.exec p i).flushO = false := ExCyc.flush_calm calm inert.train
  refine ⟨?_, ?_, fun current valid => ?_⟩
  · rw [leaves_quiet calm inert]
    cases stall : (s.exec p i).stallO with
    | true =>
      have same : (s.next p i).de = s.de := Core.de_stall kept stall
      rw [enters_kept (.inr stall), same, List.append_nil]
      rfl
    | false =>
      have bubble : s.de.valid = false := stays.resolve_left (by rw [stall]; exact Bool.false_ne_true)
      rw [enters_running stall, bubble]
      rfl
  · rw [leaves_quiet calm inert]
    simp [next, RegFile.next, inert.wb]
  · cases stall : (s.exec p i).stallO with
    | true =>
      have same : (s.next p i).de = s.de := Core.de_stall kept stall
      rw [same] at valid
      exact current_kept same inert.wb (current valid)
    | false => exact current_latched kept stall

/-- A redirect of the trap unit empties D/E. -/
theorem advances_entry (inert : (s.exec p i).Inert)
    (entry : ((s.exec p i).syncTrapReq || (s.exec p i).takeInterrupt) = true) : s.Advances p i := by
  have redirect : (s.exec p i).trapRedirectReq = true := by
    rw [Bool.or_eq_true] at entry
    rcases entry with h | h <;> simp [ExCyc.trapRedirectReq, h]
  have flush := ExCyc.flush_redirect redirect
  have empty : (s.next p i).de = {} := Core.de_flush flush
  refine ⟨?_, ?_, fun _ valid => ?_⟩
  · rw [enters_kept (.inl flush), leaves_entry inert entry, empty]
    cases s.de.valid <;> rfl
  · rw [leaves_entry inert entry]
    have same : (s.next p i).rf = s.rf := by simp [next, RegFile.next, inert.wb]
    cases s.de.valid <;> exact same
  · rw [empty] at valid
    cases valid

theorem advances (inv : s.core.Inv p) : s.Advances p i := by
  have outcome : (s.exec p i).Outcome := inv.outcome
  cases outcome with
  | bubble valid awake idle stall calm inert => exact advances_quiet calm inert (.inr valid)
  | asleep halted quiet idle stall calm inert => exact advances_quiet calm inert (.inl stall)
  | trap valid why sync mret int inert => exact advances_entry inert (by rw [sync]; rfl)
  | interrupt idle pending why nonexc sync mret int inert => exact advances_entry inert (by rw [int, Bool.or_true])
  | hold valid awake stall calm inert => exact advances_quiet calm inert (.inl stall)
  | commit k valid is nonexc state awake stall sync int mret commit wb csr train =>
    have here : s.de.valid = true := valid
    have writes : s.de.regWrite = (s.exec p i).wbEn := is.regWrite.trans wb.symm
    have left : s.leaves p i = [(s.de, if (s.exec p i).wbEn then some (s.exec p i).wbData else none)] := by
      simp only [leaves, here, commit, writes, Bool.true_or, Bool.true_and, if_true]
    refine ⟨?_, ?_, fun _ valid' => ?_⟩
    · rw [left, enters_running stall, here]
      rfl
    · rw [left, List.foldl_cons, List.foldl_nil, writeBack, next]
      cases (s.exec p i).wbEn <;> rfl
    · cases flush : (s.exec p i).flushO with
      | true =>
        have empty : (s.next p i).de = {} := Core.de_flush flush
        rw [empty] at valid'
        cases valid'
      | false => exact current_latched flush stall

/-! ## Runs -/

/-- Execute's invariant, whatever the register file shows. -/
theorem inv_run (p : Params) (rf : RegFile) (ins : ℕ → CoreIn) (n : ℕ) :
    (Clocked.run (next p) (reset rf) ins n).core.Inv p :=
  Clocked.run_invariant (fun s : CoreRf => s.core.Inv p) (fun _ _ => True) Core.inv_reset (fun _ _ inv _ => inv.next) n
    fun _ _ => trivial

/-- The words latched before cycle `n`, and those that have left. -/
def latched (p : Params) (rf : RegFile) (ins : ℕ → CoreIn) (n : ℕ) : List DeT :=
  Clocked.log (next p) (enters p) (reset rf) ins n

def left (p : Params) (rf : RegFile) (ins : ℕ → CoreIn) (n : ℕ) : List (DeT × Option Word) :=
  Clocked.log (next p) (leaves p) (reset rf) ins n

/-- Before every cycle of every run, from the latching of a word to its end: all older words have
left, the register file is what they made of it, and the captured operands are its registers. -/
theorem operands_current (p : Params) (rf : RegFile) (ins : ℕ → CoreIn) (n : ℕ) :
    let s := Clocked.run (next p) (reset rf) ins n
    latched p rf ins n = (left p rf ins n).map Prod.fst ++ (if s.de.valid then [s.de] else []) ∧
      s.rf = (left p rf ins n).foldl writeBack rf ∧ (s.de.valid = true → s.Current) := by
  induction n with
  | zero =>
    refine ⟨rfl, rfl, fun valid => ?_⟩
    cases valid
  | succ n ih =>
    obtain ⟨order, registers, current⟩ := ih
    have step := advances (i := ins n) (inv_run p rf ins n)
    refine ⟨?_, ?_, step.current current⟩
    · rw [latched, Clocked.log_succ, left, Clocked.log_succ, List.map_append, List.append_assoc]
      have := step.order
      rw [Clocked.run_succ, ← this, ← List.append_assoc]
      exact congrArg (· ++ _) order
    · rw [left, Clocked.log_succ, List.foldl_append]
      rw [left] at registers
      rw [← registers]
      exact step.registers

end CoreRf

end YarvUc

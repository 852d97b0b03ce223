import YarvUc.Sequential.Retire

/-!
# How long the next event can take

`Cpu.delay` bounds the cycles until something retires or traps: what is left of the
instruction in execute, or, with execute empty, what fetch and decode still need for the
next word. A cycle that shows nothing brings it down.
-/

namespace YarvUc

namespace Cpu

/-- What fetch and decode need: an entry at the head, and a second one behind a low half. -/
def frontDelay (s : Cpu) : ℕ :=
  (if s.lsu.core.dec.held.isSome then 0 else 3) +
    if s.fetch.fetch.fePort.valid then 0 else if s.fetch.ram.rif then 1 else 2

def delay (s : Cpu) : ℕ := if s.de.valid then s.lsu.core.ex.delay else 37 + s.frontDelay

theorem delay_lt (s : Cpu) : s.delay < 43 := by
  have := s.lsu.core.ex.delay_le
  unfold delay frontDelay
  repeat' split
  all_goals omega

variable {p : Params} {m : DmemParams} {image : ℕ → BitVec 64} {s : Cpu} {i : CpuIn} {a : Arch}

/-! ## Execute empty -/

/-- A cut that yields nothing waits for an entry, or has put a low half aside. -/
theorem Cut.silent {held held' : Option Half} {head next : Option Entry} {n : ℕ}
    (cut : Cut held head next [] held' n) :
    head = none ∧ held' = held ∨ held = none ∧ held'.isSome = true := by
  cases cut with
  | idle => exact .inl ⟨rfl, rfl⟩
  | wait => exact .inl ⟨rfl, rfl⟩
  | stash => exact .inr ⟨rfl, rfl⟩

theorem delay_front (fetch : FetchMem.Inv p image s.fetch) (stall : (s.exec p m i).stallO = false)
    (kept : (s.exec p m i).flushO = false) (bubble : (s.decode p m i).decodedValid = false) :
    (s.next p m i).frontDelay < s.frontDelay := by
  obtain ⟨held', cut, follows⟩ := (s.decode p m i).cut stall kept
  have none : (s.decode p m i).emitted = [] := by rw [DecCyc.emitted, bubble, if_neg (by simp)]
  have noCf : (s.decode p m i).predRedirectFire = false := by simp [DecCyc.predRedirectFire, DecCyc.isCf, bubble]
  have quiet : (s.fetch.cyc p (s.fetchIn p m i)).redirect = false := by rw [redirect_eq, kept, noCf]; rfl
  have held : (s.next p m i).lsu.core.dec.held = held' := follows noCf
  rw [none] at cut
  unfold frontDelay
  rw [held]
  rcases Cut.silent cut with ⟨empty, same⟩ | ⟨was, has⟩
  · have notValid : s.fetch.fetch.fePort.valid = false := by
      cases valid : s.fetch.fetch.fePort.valid with
      | false => rfl
      | true =>
        rw [DecCyc.head_eq (d := s.decode p m i) valid] at empty
        cases empty
    have count : s.fetch.fetch.count = 0 := by simpa [FetchQ.fePort] using notValid
    rw [notValid, show held' = s.lsu.core.dec.held from same]
    cases rif : s.fetch.ram.rif with
    | true =>
      rw [show (s.next p m i).fetch.fetch.fePort.valid = true from fetch.lands quiet count rif]
      simp only [if_true, Bool.false_eq_true, if_false]
      omega
    | false =>
      rcases fetch.starts quiet count rif with valid | launched
      · rw [show (s.next p m i).fetch.fetch.fePort.valid = true from valid]
        simp only [if_true, Bool.false_eq_true, if_false]
        omega
      · rw [show (s.next p m i).fetch.ram.rif = true from launched]
        simp only [if_true, Bool.false_eq_true, if_false]
        cases (s.next p m i).fetch.fetch.fePort.valid <;> simp only [if_true, Bool.false_eq_true, if_false] <;> omega
  · rw [show s.lsu.core.dec.held = .none from was, has]
    simp only [if_true, Option.isSome_none, Bool.false_eq_true, if_false]
    repeat' split
    all_goals omega

theorem delay_bubble (fetch : FetchMem.Inv p image s.fetch) (bubble : s.de.valid = false)
    (stall : (s.exec p m i).stallO = false) (kept : (s.exec p m i).flushO = false) :
    (s.next p m i).delay < s.delay := by
  have fresh : (s.next p m i).de = (s.decode p m i).deD := Core.de_advance kept stall
  have before : s.delay = 37 + s.frontDelay := by rw [delay, bubble, if_neg (by simp)]
  have valid : (s.next p m i).de.valid = (s.decode p m i).decodedValid := by rw [fresh]; rfl
  rw [before, delay, valid]
  cases decoded : (s.decode p m i).decodedValid with
  | true =>
    have := (s.next p m i).lsu.core.ex.delay_le
    rw [if_pos rfl]
    omega
  | false =>
    have := delay_front fetch stall kept decoded
    rw [if_neg (by simp)]
    omega

/-! ## Execute busy -/

/-- The D-mem always takes a request. -/
theorem dmem_ready (inv : s.lsu.Inv p m) : (s.exec p m i).memRsp.wready = true := by
  have count : s.lsu.dmem.newCount (s.lsu.memReq p (s.coreIn i)).rready = 0 := inv.count_next (i := s.coreIn i)
  change decide (s.lsu.dmem.newCount (s.lsu.memReq p (s.coreIn i)).rready < 1) = true
  rw [count]
  rfl

/-- A captured request goes to the D-mem and is taken. -/
theorem launch_accepted (plain : s.Plain p m i) (inv : s.lsu.Inv p m) (state : s.lsu.core.ex.state = .MEM_LAUNCH)
    (valid : s.de.valid = true) (sync : (s.exec p m i).syncTrapReq = false) : (s.exec p m i).accepted ≠ [] := by
  have aligned : (s.exec p m i).misalignedTrap = false := by
    simp only [ExCyc.syncTrapReq, Bool.or_eq_false_iff] at sync
    exact sync.2
  have drive : (s.exec p m i).capturedDrive = true := by
    simp [ExCyc.capturedDrive, ExCyc.memLaunchState, ExCyc.inState, state, valid, aligned]
  have live : (s.exec p m i).dmemLoadDrive = false := by
    simp [ExCyc.dmemLoadDrive, ExCyc.memReqPending, ExCyc.inState, state]
  have port : s.lsu.core.ex.memIsPeri = false := by
    cases peri : s.lsu.core.ex.memIsPeri with
    | false => rfl
    | true =>
      have quiet := plain.peri
      simp [ExCyc.periReq, live, ExCyc.isPeriRsp, peri, drive] at quiet
  simp [ExCyc.accepted, ExCyc.memReq, live, ExCyc.isPeriRsp, port, ExCyc.dmemCapturedDrive, drive, dmem_ready inv]

/-- A word that stays gets on. -/
theorem delay_hold (mid : s.Midway) (plain : s.Plain p m i) (inv : s.lsu.Inv p m)
    (valid : s.de.valid = true) (stall : (s.exec p m i).stallO = true) (calm : (s.exec p m i).Calm)
    (inert : (s.exec p m i).Inert)
    (bus : (s.exec p m i).accepted = [] ∧
        ((s.exec p m i).next.state = .MEM_WAIT ↔ s.lsu.core.ex.state = .MEM_WAIT) ∨
      ∃ a, (s.exec p m i).accepted = [a] ∧ a.For s.de ∧ s.de.Is .load ∧ s.de.memMisalignedLive = false ∧
        s.lsu.core.ex.state ≠ .MEM_WAIT ∧ (s.exec p m i).next.state = .MEM_WAIT) :
    (s.next p m i).delay < s.delay := by
  have same : (s.next p m i).de = s.de := Core.de_stall (ExCyc.flush_calm calm inert.train) stall
  rw [delay, delay, same, valid, if_pos rfl, if_pos rfl]
  cases state : s.lsu.core.ex.state with
  | IDLE =>
    have before : s.lsu.core.ex.delay = 36 := by rw [ExQ.delay, state]
    rw [before]
    exact ExQ.delay_busy (ExCyc.starts_idle (e := s.exec p m i) state mid.awake rfl (dmem_ready inv) stall)
  | MEM_LAUNCH =>
    have before : s.lsu.core.ex.delay = 2 := by rw [ExQ.delay, state]
    rcases bus with ⟨none, -⟩ | ⟨x, -, -, -, -, -, wait⟩
    · exact absurd none (launch_accepted plain inv state valid calm.sync)
    · have after : (s.next p m i).lsu.core.ex.delay = 1 := by
        rw [ExQ.delay, show (s.next p m i).lsu.core.ex.state = .MEM_WAIT from wait]
      rw [before, after]
      decide
  | DIV_BUSY =>
    have is := inv.core.is_div state
    have going := ExCyc.div_going (e := s.exec p m i) valid is mid.awake rfl calm inert
    exact (ExCyc.delay_div (e := s.exec p m i) (mid.div state) state is going).2
  | MEM_WAIT =>
    have done := (inv.done (i := s.coreIn i) state (mid.dmem state)).1
    have idle : (s.exec p m i).next.state = .IDLE := by
      have done' : (s.exec p m i).memDone = true := done
      simp [ExCyc.next, ExCyc.stateD, state, done']
    rcases bus with ⟨-, before⟩ | ⟨x, -, -, -, -, other, -⟩
    · rw [before.mpr state] at idle
      cases idle
    · exact absurd state other
  | MEM_TRAP =>
    exfalso
    have live : p.lsuLiveLoad = true := inv.core.liveLoad state
    have misaligned : (s.exec p m i).misalignedTrap = true := by
      simp [ExCyc.misalignedTrap, valid, live, ExCyc.inState, state]
    have sync := calm.sync
    simp [ExCyc.syncTrapReq, misaligned] at sync
  | CSR_WAIT =>
    exfalso
    have commit := (ExCyc.csr_wait (e := s.exec p m i) rfl inv.core state).2.2.commit
    rw [inert.commit] at commit
    cases commit

end Cpu

end YarvUc

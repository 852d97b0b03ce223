import YarvUc.Pipeline.CsrAccess

/-!
# Sleeping on `wfi`

A WFI that retires halts the pipe until `int_pending`, which is the trap unit's: a source
that is pending and enabled, and `mstatus.MIE` set. Nothing executes while the pipe sleeps,
so the enables do not change, and what wakes it is decided by MIE at the WFI: the first
source to become pending, or nothing.
-/

namespace YarvUc

namespace ExCyc

variable {e : ExCyc}

/-- A halted pipe without an interrupt sleeps on. -/
theorem Outcome.sleeps (h : e.Outcome) (halted : e.q.wfiHalt = true) (quiet : e.intPending = false) :
    e.wfiStall = true ∧ e.Calm ∧ e.Inert ∧ e.stallO = true ∧ e.next.wfiHalt = true := by
  have stall : e.wfiStall = true := by simp [wfiStall, halted, quiet]
  cases h with
  | bubble _ awake => rw [halted] at awake; cases awake
  | asleep _ _ _ stallO calm inert _ _ halt => exact ⟨stall, calm, inert, stallO, halt⟩
  | trap _ why sync =>
    rcases why with ⟨idle, aligned, -⟩ | ⟨-, -, own, -⟩
    · simp [syncTrapReq, freeze, stall, aligned] at sync
    · have awake := own.awake
      rw [halted] at awake
      cases awake
  | interrupt _ pending => rw [quiet] at pending; cases pending
  | hold _ awake => rw [halted] at awake; cases awake
  | commit k _ _ _ _ awake _ _ _ mret =>
    rcases awake with awake | rfl
    · rw [halted] at awake
      cases awake
    · simp [mretReq, freeze, stall, OpKind.flags] at mret

/-- A halted pipe with an interrupt wakes: a handler is entered, or an mret taken. -/
theorem Outcome.wakes (h : e.Outcome) (halted : e.q.wfiHalt = true) (pending : e.intPending = true) :
    e.wfiStall = false ∧ e.trapRedirectReq = true ∧ e.next.wfiHalt = false := by
  have stall : e.wfiStall = false := by simp [wfiStall, pending]
  cases h with
  | bubble _ awake => rw [halted] at awake; cases awake
  | asleep _ quiet => rw [pending] at quiet; cases quiet
  | trap _ _ sync _ _ _ _ _ halt => exact ⟨stall, by simp [trapRedirectReq, sync], halt⟩
  | interrupt _ _ _ _ _ _ int _ _ _ halt => exact ⟨stall, by simp [trapRedirectReq, int], halt⟩
  | hold _ awake => rw [halted] at awake; cases awake
  | commit k _ _ _ _ awake _ _ _ mret _ _ _ _ _ _ _ halt =>
    rcases awake with awake | rfl
    · rw [halted] at awake
      cases awake
    · exact ⟨stall, by simp [trapRedirectReq, mret, OpKind.flags], halt⟩

end ExCyc

namespace Cpu

variable {p : Params} {m : DmemParams} {image : ℕ → BitVec 64} {s : Cpu} {i : CpuIn}

/-- A sleeping cycle keeps the halt and the enables. -/
theorem Sound.sleep_next (sound : s.Sound p m image) (halted : s.lsu.core.ex.wfiHalt = true)
    (quiet : s.csr.regs.intPending = false) :
    (s.exec p m i).wfiStall = true ∧ (s.next p m i).lsu.core.ex.wfiHalt = true ∧
      (s.next p m i).csr.regs.plain = s.csr.regs.plain := by
  obtain ⟨stall, calm, inert, -, halt⟩ :=
    (show (s.exec p m i).Outcome from sound.lsu.core.outcome).sleeps halted quiet
  exact ⟨stall, halt, plain_quiet calm (ExCyc.csrWe_off inert.csr)⟩

/-- The pipe wakes in this cycle. -/
structure Wakes (p : Params) (m : DmemParams) (s : Cpu) (i : CpuIn) : Prop where
  running : (s.exec p m i).wfiStall = false
  redirect : (s.exec p m i).trapRedirectReq = true
  awake : (s.next p m i).lsu.core.ex.wfiHalt = false

/-- A WFI sleeps through no interrupt that MIE enables: a frozen pipe has MIE clear or no
enabled source pending; a halted core with MIE set sleeps until the first cycle in which
such a source is pending and wakes in that one; with MIE clear it sleeps for good. -/
theorem wfi_wakes (p : Params) (m : DmemParams) (boot : Word) (s : Cpu) (ins : ℕ → CpuIn) (n : ℕ) :
    let c := Clocked.run (next p m) (s.start boot) ins
    (((c n).exec p m (ins n)).wfiStall = true →
        (c n).csr.regs.mstatus.getLsbD 3 = false ∨ (c n).csr.regs.armed = false) ∧
      ((c n).lsu.core.ex.wfiHalt = true → (c n).csr.regs.mstatus.getLsbD 3 = true →
        ∀ k ≥ n, (∀ j, n ≤ j → j < k → (c j).csr.regs.armed = false) →
          ((c k).csr.regs.armed = true → (c k).Wakes p m (ins k)) ∧
            ((c k).csr.regs.armed = false → ((c k).exec p m (ins k)).wfiStall = true)) ∧
      ((c n).lsu.core.ex.wfiHalt = true → (c n).csr.regs.mstatus.getLsbD 3 = false →
        ∀ k ≥ n, ((c k).exec p m (ins k)).wfiStall = true) := by
  intro c
  have sound : ∀ n, (c n).Sound p m s.fetch.ram.mem := fun n => sound_run boot s ins n
  -- while no interrupt is pending the pipe sleeps and MIE stays
  have asleep : (c n).lsu.core.ex.wfiHalt = true → ∀ d,
      (∀ j, n ≤ j → j < n + d → (c j).csr.regs.intPending = false) →
      (c (n + d)).lsu.core.ex.wfiHalt = true ∧
        (c (n + d)).csr.regs.mstatus.getLsbD 3 = (c n).csr.regs.mstatus.getLsbD 3 := by
    intro halted d
    induction d with
    | zero => exact fun _ => ⟨halted, rfl⟩
    | succ d ih =>
      intro quiet
      obtain ⟨halted, mie⟩ := ih fun j h h' => quiet j h (by omega)
      have unpended := quiet (n + d) (by omega) (by omega)
      obtain ⟨-, halt, plain⟩ := (sound (n + d)).sleep_next (i := ins (n + d)) halted unpended
      have same : (c (n + d + 1)).csr.regs.mstatus = (c (n + d)).csr.regs.mstatus :=
        show ((c (n + d)).next p m (ins (n + d))).csr.regs.plain.mstatus = (c (n + d)).csr.regs.plain.mstatus by
          rw [plain]
      exact ⟨halt, by rw [← mie, ← Nat.add_assoc, same]⟩
  refine ⟨fun stall => ?_, fun halted mie k hk quiet => ?_, fun halted mie k hk => ?_⟩
  · have quiet : (c n).csr.regs.intPending = false := by
      simp only [ExCyc.wfiStall, exec_intPending, Bool.and_eq_true, Bool.not_eq_true'] at stall
      exact stall.2
    rwa [CsrRegs.intPending_eq, Bool.and_eq_false_iff] at quiet
  · obtain ⟨d, rfl⟩ := Nat.exists_eq_add_of_le hk
    obtain ⟨halted, same⟩ := asleep halted d fun j h h' => by
      rw [CsrRegs.intPending_eq, quiet j h h', Bool.and_false]
    have pending : (c (n + d)).csr.regs.intPending = (c (n + d)).csr.regs.armed := by
      rw [CsrRegs.intPending_eq, same, mie, Bool.true_and]
    constructor
    · intro armed
      rw [armed] at pending
      obtain ⟨running, redirect, awake⟩ :=
        (show ((c (n + d)).exec p m (ins (n + d))).Outcome from (sound (n + d)).lsu.core.outcome).wakes halted pending
      exact ⟨running, redirect, awake⟩
    · intro armed
      rw [armed] at pending
      exact ((sound (n + d)).sleep_next halted pending).1
  · obtain ⟨d, rfl⟩ := Nat.exists_eq_add_of_le hk
    have still : ∀ d, (c (n + d)).lsu.core.ex.wfiHalt = true ∧ (c (n + d)).csr.regs.intPending = false := by
      intro d
      induction d using Nat.strong_induction_on with
      | _ d ih =>
        obtain ⟨halted, same⟩ := asleep halted d fun j h h' => by
          obtain ⟨e, rfl⟩ := Nat.exists_eq_add_of_le h
          exact (ih e (by omega)).2
        exact ⟨halted, by rw [CsrRegs.intPending_eq, same, mie, Bool.false_and]⟩
    exact ((sound (n + d)).sleep_next (still d).1 (still d).2).1

/-- Asleep from cycle 8, woken by the line in cycle 10. -/
theorem wfi_wakes_msip :
    (Clocked.run (next .board .board) (wfiWfi.start 0) (msipFrom 9) 10).Wakes .board .board (msipFrom 9 10) := by
  obtain ⟨-, sleeps, -⟩ := wfi_wakes .board .board 0 wfiWfi (msipFrom 9) 8
  have quiet : ∀ j, 8 ≤ j → j < 10 →
      (Clocked.run (next .board .board) (wfiWfi.start 0) (msipFrom 9) j).csr.regs.armed = false := by
    decide +kernel
  have armed : (Clocked.run (next .board .board) (wfiWfi.start 0) (msipFrom 9) 10).csr.regs.armed = true := by
    decide +kernel
  exact (sleeps (by decide +kernel) (by decide +kernel) 10 (by decide) quiet).1 armed

/-- `csrwi mie, 8` and a WFI, with MIE clear. -/
def wfiMasked : Cpu := ofWords [0x30445073#32, 0x10500073#32, 0x00000013#32]

/-- With MIE clear the pipe is frozen although the software interrupt is pending and enabled. -/
theorem wfi_masked : ¬ ∀ (p : Params) (m : DmemParams) (boot : Word) (s : Cpu) (ins : ℕ → CpuIn) (n : ℕ),
    ((Clocked.run (next p m) (s.start boot) ins n).exec p m (ins n)).wfiStall = true →
    (Clocked.run (next p m) (s.start boot) ins n).csr.regs.armed = false := by
  intro h
  have := h .board .board 0 wfiMasked (msipFrom 0) 6 (by decide +kernel)
  exact absurd this (by decide +kernel)

end Cpu

end YarvUc

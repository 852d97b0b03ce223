import YarvUc.Execute.Arithmetic
import YarvUc.Sequential.Refinement

/-!
# The builds agree

The parameters decide how the pipeline predicts, redirects, multiplies and launches its loads,
and when. What it computes is the sequential machine's, which of all of them reads the size of
the I-mem only: so every two builds retire and trap the same instructions in the same order
with the same writes, whatever their predictors hold.
-/

namespace YarvUc

theorem AluQ.result_shared (q : AluQ) (i : AluIn) (b c : Bool) : q.result i b = q.result i c := by
  rw [result, result]
  cases mul : i.isMulOp with
  | false => rfl
  | true => rw [if_pos rfl, if_pos rfl, AluIn.mulResult_eq mul b, AluIn.mulResult_eq mul c]

namespace Arch

variable {p q : Params} (m : DmemParams) (image : ℕ → BitVec 64) (peri : PeriMem) (s : Arch)

theorem effect_params (p q : Params) (de : DeT) : de.effect p m peri s = de.effect q m peri s := by
  have value : de.value p m peri s = de.value q m peri s := by
    have alu : de.aluValue p = de.aluValue q := by
      rw [DeT.aluValue, DeT.aluValue, AluQ.result_shared]
    rw [DeT.value, DeT.value, alu]
  rw [DeT.effect, DeT.effect, value]

theorem word_params (same : p.imemAddrW = q.imemAddrW) : s.word p image = s.word q image := by rw [word, word, same]

theorem step_params (same : p.imemAddrW = q.imemAddrW) : step p m image peri = step q m image peri := by
  funext s
  rw [step, step, word_params image s same, effect_params m peri s p q]

theorem event_params (same : p.imemAddrW = q.imemAddrW) : event p m image peri = event q m image peri := by
  funext s
  rw [event, event, word_params image s same, effect_params m peri s p q]

end Arch

namespace Cpu

/-- Every two builds agree. Let `p` and `q` differ in any parameter but the size of the I-mem,
their CPUs start over the same memories and registers, and the cycles be as in
`pipeline_refines`. Then what one of them has shown, of the retirements and traps with their
writes, is the beginning of what the other has: of both, where they have shown equally many, the
registers, CSRs and D-mem are the same; and each has shown all that the other has after at most
43 cycles for an event. -/
theorem builds_agree (p q : Params) (m : DmemParams) (peri : PeriMem) (boot : Word) (even : boot.getLsbD 0 = false)
    (size : p.imemAddrW = q.imemAddrW) (s s' : Cpu) (image : s.fetch.ram.mem = s'.fetch.ram.mem) (rf : s.rf = s'.rf)
    (mem : bytesOf s.lsu.dmem.mem = bytesOf s'.lsu.dmem.mem) (i j : ℕ → CpuIn) (n k : ℕ) :
    let c := Clocked.run (next p m) (s.start boot) i
    let d := Clocked.run (next q m) (s'.start boot) j
    let shown := Clocked.log (next p m) (shows p m) (s.start boot) i n
    let shown' := Clocked.log (next q m) (shows q m) (s'.start boot) j k
    (∀ l < n, (c l).Plain p m (i l)) → (∀ l < k, (d l).Plain q m (j l)) →
      (∀ l ≤ max shown.length shown'.length,
        ((Arch.step p m s.fetch.ram.mem peri)^[l] (.start boot s)).Inside p s.fetch.ram.mem) →
      (shown.length ≤ shown'.length → shown <+: shown') ∧
      (shown.length = shown'.length → (c n).rf = (d k).rf ∧
        (c n).csr.regs.uncounted = (d k).csr.regs.uncounted ∧
        bytesOf (c n).lsu.dmem.mem = bytesOf (d k).lsu.dmem.mem) ∧
      (43 * (shown'.length + 1) ≤ n → shown' <+: shown) := by
  intro c d shown shown' plain plain' inside
  have start : Arch.start boot s = Arch.start boot s' := by rw [Arch.start, Arch.start, rf, mem]
  have here := (follows p m s.fetch.ram.mem peri).run (follows_start even s) n plain fun l hl =>
    inside l (hl.trans (le_max_left _ _))
  have there := (follows q m s'.fetch.ram.mem peri).run (follows_start even s') k plain' fun l hl => by
    rw [← image, ← start, ← Arch.step_params m s.fetch.ram.mem peri size, Arch.Inside, ← size]
    exact inside l (hl.trans (le_max_right _ _))
  have log' := there.log
  have rel' := there.rel.agrees
  rw [← image, ← start, ← Arch.step_params m s.fetch.ram.mem peri size] at log' rel'
  rw [← Arch.event_params m s.fetch.ram.mem peri size] at log'
  have order : ∀ {a b : ℕ}, a ≤ b → Clocked.eventsOf (Arch.step p m s.fetch.ram.mem peri)
      (Arch.event p m s.fetch.ram.mem peri) (.start boot s) a <+:
        Clocked.eventsOf (Arch.step p m s.fetch.ram.mem peri) (Arch.event p m s.fetch.ram.mem peri) (.start boot s) b :=
    fun le => Clocked.eventsOf_prefix _ _ _ le
  refine ⟨fun less => ?_, fun equal => ?_, fun later => ?_⟩
  · change Clocked.log _ _ _ _ _ <+: Clocked.log _ _ _ _ _
    rw [here.log, log']
    exact order less
  · have rel := here.rel.agrees
    rw [equal] at rel
    exact ⟨rel.rf.trans rel'.rf.symm, rel.csr.trans rel'.csr.symm, rel.mem.trans rel'.mem.symm⟩
  · have wait := here.wait
    have more : shown'.length ≤ shown.length := by
      change 43 * (shown'.length + 1) ≤ n at later
      change n + _ < 43 * (shown.length + 1) at wait
      omega
    change Clocked.log _ _ _ _ _ <+: Clocked.log _ _ _ _ _
    rw [here.log, log']
    exact order more

/-- The build with the opposite choices. -/
def opposite : Params :=
  { Params.board with bpEn := false, mulSharedDsp := true, execRedirIncycle := true, lsuLiveLoad := false }

theorem builds_agree_opposite :
    Clocked.log (next .board .board) (shows .board .board) (storeLoad.start 0) (msipFrom 99) 9 <+:
      Clocked.log (next opposite .board) (shows opposite .board) (storeLoad.start 0) (msipFrom 99) 12 :=
  (builds_agree .board opposite .board (fun _ => 0) 0 rfl rfl storeLoad storeLoad rfl rfl rfl (msipFrom 99) (msipFrom 99)
    9 12 (by decide +kernel) (by decide +kernel) (by decide +kernel)).1 (by decide +kernel)

end Cpu

end YarvUc

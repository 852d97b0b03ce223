import YarvUc.Isa.Turns
import YarvUc.Soc.Progress

/-!
# The program on the closed circuit

The closed circuit runs the program it is given as the instruction set says: instructions and
interrupts in turn, with the accesses of the devices that the instructions make. What is asked
for speaks of the machine and the program only.
-/

namespace YarvUc

open Clocked

namespace Isa

variable (w : ℕ) (m : DmemParams) (image : ℕ → BitVec 64)

/-- The access of the peripheral port that a turn retires. -/
def port (t : Sleeper) (x : Outside × Turned) : List PortOp :=
  portOf ((instr w image t.arch).bind (·.loadsFrom t.arch)) x

end Isa

namespace Soc

variable {u : UartParams}

/-- The closed circuit runs its program. While the program stays off the slips, the hints and the
end of the I-mem, returns to even addresses and sleeps on no second WFI, what the CPU retires,
traps and interrupts in `n` cycles is a run of the instruction set, with its registers, CSRs,
D-mem and sleep behind it; the accesses of the peripheral port are the ones its instructions
make; and in any 655407 cycles there is a turn, or the CPU sleeps behind a WFI. -/
theorem runs_isa (p : Params) (m : DmemParams) (s : Soc u) (i : ℕ → Bool) (n : ℕ) :
    let c := run (next p m) s.start i
    let image := s.cpu.fetch.ram.mem
    let turns := log (next p m) (fun s _ => s.cpu.turns p m (s.cpuIn p m)) s.start i
    let t := fun k => (turns k).foldl (Isa.behind p.imemAddrW m image) ⟨.start 0 s.cpu, false⟩
    (∀ k < n, Isa.Fits p.imemAddrW image (t k)) →
      Turns (Isa.Turn p.imemAddrW m image) ⟨.start 0 s.cpu, false⟩ (turns n) (t n) ∧ (c n).cpu.Has (t n) ∧
        retired p m s i n =
          along (Isa.behind p.imemAddrW m image) (Isa.port p.imemAddrW image) ⟨.start 0 s.cpu, false⟩ (turns n) ∧
        ∀ j, j + 655407 ≤ n → ∃ k < 655407, (c (j + k)).cpu.turns p m ((c (j + k)).cpuIn p m) ≠ [] ∨
          ((c (j + k)).cpu.exec p m ((c (j + k)).cpuIn p m)).wfiStall = true := by
  intro c image turns t fits
  have attends := (Ordered.attends p m image).hosted (OrderedSoc.hosts (u := u) p m)
  have start := OrderedSoc.attending_start p m s
  have same : ∀ o t a v, Isa.Fits p.imemAddrW image t → Turn p m image o t a v → Isa.Turn p.imemAddrW m image o t a v :=
    fun _ _ _ _ fits turn => Isa.turn_eq fits turn
  have goes : ∀ o t a v, Isa.Turn p.imemAddrW m image o t a v → v = Isa.behind p.imemAddrW m image t (o, a) :=
    fun _ _ _ _ turn => turn.behind_eq
  have needs : ∀ (o : OrderedSoc u) (r : Bool) t,
      (o.soc.cpu.lsu.Inv p m ∧ ∃ t, o.soc.At t) ∧ o.ordered.Attending p m image t → Isa.Fits p.imemAddrW image t →
        o.ordered.Tame p m image (o.soc.cpuIn p m) := fun _ _ _ rel fits => rel.2.tame fits
  have good : ∀ k < n, Isa.Fits p.imemAddrW image
      ((log (OrderedSoc.next p m) (fun o _ => o.ordered.cpu.turns p m (o.soc.cpuIn p m)) (OrderedSoc.start s) i k).foldl
        (Isa.behind p.imemAddrW m image) ⟨.start 0 s.cpu, false⟩) := by
    intro k hk
    rw [OrderedSoc.log_turns]
    exact fits k hk
  have quiet : ∀ (o : OrderedSoc u) (_ : Bool) (t : Sleeper),
      (o.soc.cpu.lsu.Inv p m ∧ ∃ t, o.soc.At t) ∧ o.ordered.Attending p m image t → Isa.Fits p.imemAddrW image t →
        o.ordered.cpu.turns p m (o.soc.cpuIn p m) = [] → o.soc.done p m = [] :=
    fun o _ _ _ _ silent => Ordered.Attending.portDone_silent (o := o.ordered) silent
  have own : ∀ (o : OrderedSoc u) (_ : Bool) (t : Sleeper) x a,
      (o.soc.cpu.lsu.Inv p m ∧ ∃ t, o.soc.At t) ∧ o.ordered.Attending p m image t → Isa.Fits p.imemAddrW image t →
        o.ordered.cpu.turns p m (o.soc.cpuIn p m) = [(x, a)] → o.soc.done p m = Isa.port p.imemAddrW image t (x, a) :=
    fun _ _ _ _ _ rel fits turn => rel.2.portDone_turn fits turn
  obtain ⟨turned, -, att⟩ := attends.machine same needs goes start n good
  have accesses := attends.log_along same needs goes quiet own start n good
  rw [OrderedSoc.log_turns] at turned att accesses
  have soc : ∀ k, (run (OrderedSoc.next p m) (OrderedSoc.start s) i k).soc = c k := OrderedSoc.run_soc p m s i
  refine ⟨turned, ?_, ?_, fun j window => ?_⟩
  · rw [← soc]
    exact ⟨att.rf, att.csr, att.mem, att.asleep⟩
  · have done : log (OrderedSoc.next p m) (fun o _ => o.soc.done p m) (OrderedSoc.start s) i n = retired p m s i n :=
      log_part (show ∀ (o : OrderedSoc u) (r : Bool), (o.next p m r).soc = o.soc.next p m r from fun _ _ => rfl)
        (fun s _ => s.done p m) n
    exact done.symm.trans accesses
  · have ok : ∀ l < j + 655407, (run (OrderedSoc.next p m) (OrderedSoc.start s) i l).ordered.Tame p m image
        ((run (OrderedSoc.next p m) (OrderedSoc.start s) i l).soc.cpuIn p m) := fun l hl =>
      needs _ (i l) _ (attends.machine same needs goes start l fun k hk => good k (by omega)).2 (good l (by omega))
    obtain ⟨k, hk, stirs⟩ := attends.prompt start j ok
    refine ⟨k, hk, ?_⟩
    rw [← soc]
    exact stirs

/-- A program that interrupts itself: `csrsi mie, 8`, `csrsi mstatus, 8`, a store of `x2` to the
address in `x1`, a WFI, a `nop`. The registers power up with 1 and the address of `msip`. -/
def poked : Soc UartQ.tb :=
  let s := ofWords UartQ.tb [0x30446073#32, 0x30046073#32, 0x0020A023#32, 0x10500073#32, 0x00000013#32]
  { s with cpu := { s.cpu with rf := fun r => if r = 2 then 1 else 0x10003000#32 } }

/-- The turns of its first cycles, and the machine behind them. -/
def pokedTurns (n : ℕ) : List (Outside × Turned) :=
  log (next .board .board) (fun s _ => s.cpu.turns .board .board (s.cpuIn .board .board)) poked.start (fun _ => true) n
def pokedBehind (n : ℕ) : Sleeper :=
  (pokedTurns n).foldl (Isa.behind 14 .board poked.cpu.fetch.ram.mem) ⟨.start 0 poked.cpu, false⟩

theorem poked_fits : ∀ k < 11, Isa.Fits 14 poked.cpu.fetch.ram.mem (pokedBehind k) := by decide +kernel

theorem poked_accesses : along (Isa.behind 14 .board poked.cpu.fetch.ram.mem) (Isa.port 14 poked.cpu.fetch.ram.mem)
    ⟨.start 0 poked.cpu, false⟩ (pokedTurns 11) = [.store 0x10003000 1 15] := by decide +kernel

/-- The store goes out, and the interrupt is taken in front of the `nop` behind the WFI. -/
theorem runs_isa_poked :
    Turns (Isa.Turn 14 .board poked.cpu.fetch.ram.mem) ⟨.start 0 poked.cpu, false⟩ (pokedTurns 11) (pokedBehind 11) ∧
      ((pokedTurns 11).map Prod.snd).getLast? = some (.interrupt 16 0x80000003) ∧
      retired .board .board poked (fun _ => true) 11 = [.store 0x10003000 1 15] := by
  obtain ⟨turned, -, accesses, -⟩ := runs_isa .board .board poked (fun _ => true) 11 poked_fits
  exact ⟨turned, by decide +kernel, accesses.trans poked_accesses⟩

end Soc

end YarvUc

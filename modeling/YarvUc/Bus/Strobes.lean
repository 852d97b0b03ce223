import YarvUc.Clocked.Run
import YarvUc.Execute.Word
import YarvUc.Rtl.Peripherals
import YarvUc.Rtl.Uart

/-!
# Byte strobes of the peripherals

What a register write of a slave changes, byte by byte, against the strobes of its
write data. Only the UART looks at the strobes, and only at the one of byte 0: a write
that leaves a byte of its register unstrobed still stores the data's byte there.
-/

namespace YarvUc

/-- A write a slave commits. -/
structure Commit (ρ : Type) where
  reg : ρ
  data : Word
  strb : BitVec 4

/-- The only bytes that change are strobed bytes of the register written. -/
def Respects {ρ : Type} (w : Option (Commit ρ)) (old new : ρ → Word) : Prop :=
  ∀ r, ∀ k < 4, byteOf (new r) k ≠ byteOf (old r) k → ∃ c, w = some c ∧ c.reg = r ∧ c.strb.getLsbD k = true

section Respects

variable {ρ : Type} {c : Commit ρ} {old new : ρ → Word}

theorem respects_quiet (w : Option (Commit ρ)) (quiet : new = old) : Respects w old new := by
  intro r k _ changed
  rw [quiet] at changed
  exact absurd rfl changed

/-- A slave that stores `stored` in the register written respects the strobes exactly when the
bytes not strobed are the ones the register holds. -/
theorem respects_iff {stored : Word} (same : new c.reg = stored) (frame : ∀ r, r ≠ c.reg → new r = old r) :
    Respects (some c) old new ↔ ∀ k < 4, c.strb.getLsbD k = false → byteOf stored k = byteOf (old c.reg) k := by
  constructor
  · intro respects k hk off
    by_contra changed
    rw [← same] at changed
    obtain ⟨c', is, -, on⟩ := respects c.reg k hk changed
    obtain rfl : c = c' := Option.some.inj is
    rw [off] at on
    cases on
  · intro neutral r k hk changed
    by_cases hr : r = c.reg
    · subst hr
      rw [same] at changed
      refine ⟨c, rfl, rfl, ?_⟩
      cases on : c.strb.getLsbD k with
      | true => rfl
      | false => exact absurd (neutral k hk on) changed
    · rw [frame r hr] at changed
      exact absurd rfl changed

end Respects

/-- A slave next to the strobes of its last write-data handshake. -/
structure Strobed (σ : Type) where
  q : σ
  wstrb : BitVec 4

/-! ## The timer -/

namespace TimerQ

/-- The writable registers. -/
def view (q : TimerQ) (r : BitVec 2) : Word :=
  if r = REG_MTIMECMP_LO then q.mtimecmp.extractLsb 31 0
  else if r = REG_MTIMECMP_HI then q.mtimecmp.extractLsb 63 32
  else 0

def wstrbEff (s : Strobed TimerQ) (i : AxiM) : BitVec 4 := if s.q.wHs i then i.wstrb else s.wstrb

def strobedNext (s : Strobed TimerQ) (i : AxiM) : Strobed TimerQ := { q := s.q.next i, wstrb := wstrbEff s i }

def commit (s : Strobed TimerQ) (i : AxiM) : Option (Commit (BitVec 2)) :=
  if s.q.doWrite i then some { reg := s.q.awSelEff i, data := s.q.wdataEff i, strb := wstrbEff s i } else none

/-- The lanes of a compare word that are not strobed carry the bytes it holds. -/
def NeutralWrite (s : Strobed TimerQ) (i : AxiM) : Prop :=
  s.q.doWrite i = true → s.q.awSelEff i = REG_MTIMECMP_LO ∨ s.q.awSelEff i = REG_MTIMECMP_HI →
    ∀ k < 4, (wstrbEff s i).getLsbD k = false → byteOf (s.q.wdataEff i) k = byteOf (s.q.view (s.q.awSelEff i)) k

variable {s : Strobed TimerQ} {i : AxiM}

theorem halves_append (a b : Word) : (a ++ b).extractLsb 31 0 = b ∧ (a ++ b).extractLsb 63 32 = a := by
  have value : (a ++ b).toNat = 2 ^ 32 * a.toNat + b.toNat := by
    rw [BitVec.toNat_append, Nat.shiftLeft_eq, Nat.mul_comm, Nat.two_pow_add_eq_or_of_lt b.isLt]
  constructor <;> apply BitVec.eq_of_toNat_eq <;> rw [BitVec.extractLsb_toNat, Nat.shiftRight_eq_div_pow, value]
  · omega
  · omega

/-- A commit to a compare word stores all of it. -/
theorem view_commit (write : s.q.doWrite i = true)
    (rw' : s.q.awSelEff i = REG_MTIMECMP_LO ∨ s.q.awSelEff i = REG_MTIMECMP_HI) :
    (s.q.next i).view (s.q.awSelEff i) = s.q.wdataEff i ∧
      ∀ r, r ≠ s.q.awSelEff i → (s.q.next i).view r = s.q.view r := by
  have cmp : (s.q.next i).mtimecmp = s.q.mtimecmpD i := rfl
  rcases rw' with sel | sel
  · rw [mtimecmpD, write, if_pos rfl, if_pos sel] at cmp
    rw [sel]
    refine ⟨?_, fun r other => ?_⟩
    · rw [view, if_pos rfl, cmp]
      exact (halves_append _ _).1
    · rw [view, view, if_neg other, if_neg other, cmp, (halves_append _ _).2]
  · rw [mtimecmpD, write, if_pos rfl, sel, if_neg (by decide), if_pos rfl] at cmp
    rw [sel]
    refine ⟨?_, fun r other => ?_⟩
    · rw [view, if_neg (by decide), if_pos rfl, cmp]
      exact (halves_append _ _).2
    · rw [view, view, if_neg other, if_neg other, cmp, (halves_append _ _).1]

theorem respects_iff_neutral :
    Respects (commit s i) s.q.view (s.q.next i).view ↔ NeutralWrite s i := by
  cases write : s.q.doWrite i with
  | false =>
    have same : (s.q.next i).view = s.q.view := by
      funext r
      rw [view, view, show (s.q.next i).mtimecmp = s.q.mtimecmp by simp [TimerQ.next, mtimecmpD, write]]
    exact iff_of_true (respects_quiet _ same) fun h => by rw [write] at h; cases h
  | true =>
    have commits : commit s i = some { reg := s.q.awSelEff i, data := s.q.wdataEff i, strb := wstrbEff s i } := by
      rw [commit, write, if_pos rfl]
    by_cases sel : s.q.awSelEff i = REG_MTIMECMP_LO ∨ s.q.awSelEff i = REG_MTIMECMP_HI
    · obtain ⟨same, frame⟩ := view_commit write sel
      rw [commits, respects_iff same frame]
      exact ⟨fun h _ _ => h, fun h => h write sel⟩
    · -- `mtime` is not writable
      have quiet : (s.q.next i).view = s.q.view := by
        have cmp : (s.q.next i).mtimecmp = s.q.mtimecmp := by
          rw [not_or] at sel
          simp [TimerQ.next, mtimecmpD, sel.1, sel.2]
        funext r
        rw [view, view, cmp]
      exact iff_of_true (respects_quiet _ quiet) fun _ h => absurd h sel

end TimerQ

/-! ## The software interrupt -/

namespace MsipQ

/-- The one register, at every address. -/
def view (q : MsipQ) (_ : Unit) : Word := 0#31 ++ BitVec.ofBool q.msip

def wstrbEff (s : Strobed MsipQ) (i : AxiM) : BitVec 4 := if s.q.wHs i then i.wstrb else s.wstrb

def strobedNext (s : Strobed MsipQ) (i : AxiM) : Strobed MsipQ := { q := s.q.next i, wstrb := wstrbEff s i }

def commit (s : Strobed MsipQ) (i : AxiM) : Option (Commit Unit) :=
  if s.q.doWrite i then some { reg := (), data := s.q.wdataEff i, strb := wstrbEff s i } else none

/-- Without the strobe of byte 0 the data carries the bit as it is. -/
def NeutralWrite (s : Strobed MsipQ) (i : AxiM) : Prop :=
  s.q.doWrite i = true → (wstrbEff s i).getLsbD 0 = false → (s.q.wdataEff i).getLsbD 0 = s.q.msip

variable {s : Strobed MsipQ} {i : AxiM}

/-- The register is a bit of byte 0. -/
theorem byteOf_bit (a b : Bool) {k : ℕ} (hk : k < 4) :
    byteOf (0#31 ++ BitVec.ofBool a) k = byteOf (0#31 ++ BitVec.ofBool b) k ↔ (k = 0 → a = b) := by
  obtain rfl | rfl | rfl | rfl : k = 0 ∨ k = 1 ∨ k = 2 ∨ k = 3 := by omega
  all_goals revert a b; decide

theorem respects_iff_neutral :
    Respects (commit s i) s.q.view (s.q.next i).view ↔ NeutralWrite s i := by
  cases write : s.q.doWrite i with
  | false =>
    have same : (s.q.next i).view = s.q.view := by
      funext r
      rw [view, view, show (s.q.next i).msip = s.q.msip by simp [MsipQ.next, write]]
    exact iff_of_true (respects_quiet _ same) fun h => by rw [write] at h; cases h
  | true =>
    have commits : commit s i = some { reg := (), data := s.q.wdataEff i, strb := wstrbEff s i } := by
      rw [commit, write, if_pos rfl]
    have stored : (s.q.next i).view () = 0#31 ++ BitVec.ofBool ((s.q.wdataEff i).getLsbD 0) := by
      simp [view, MsipQ.next, write]
    rw [commits, respects_iff (c := { reg := (), data := s.q.wdataEff i, strb := wstrbEff s i }) stored
      fun r other => absurd rfl other]
    constructor
    · intro neutral _ off
      exact (byteOf_bit _ _ (by decide)).mp (neutral 0 (by decide) off) rfl
    · intro neutral k hk off
      refine (byteOf_bit _ _ hk).mpr fun zero => ?_
      subst zero
      exact neutral write off

end MsipQ

/-! ## The UART -/

namespace UartQ

variable {u : UartParams}

/-- The `BAUDDIV` value that is, or will be, applied. -/
def baudDiv (q : UartQ u) : BitVec 16 := if q.divPendingValid then q.divPending else q.div

/-- The writable registers. -/
def view (q : UartQ u) (r : BitVec 3) : Word :=
  if r = REG_CTRL then 0#30 ++ BitVec.ofBool q.rxIe ++ BitVec.ofBool q.txIe
  else if r = REG_BAUDDIV then 0#16 ++ q.baudDiv
  else 0

def commit (q : UartQ u) (i : UartIn) : Option (Commit (BitVec 3)) :=
  if q.doWrite i then some { reg := q.waddrEff i, data := q.wdataEff i, strb := q.wstrbEff i } else none

/-- What the TX FIFO holds changes by strobed writes to `TXDATA` only. -/
def PushesStrobed (q : UartQ u) (i : UartIn) : Prop :=
  (q.next i).txFifo ≠ q.txFifo ∨ (q.next i).txWptr ≠ q.txWptr →
    ∃ c, q.commit i = some c ∧ c.reg = REG_TXDATA ∧ c.strb.getLsbD 0 = true

/-- A divisor's byte 1 that is not strobed is the one in effect, or the write is lost to the
update applied in this cycle. -/
def NeutralWrite (q : UartQ u) (i : UartIn) : Prop :=
  q.bauddivWrite i = true → q.divApply = false → (q.wstrbEff i).getLsbD 1 = false →
    byteOf (q.wdataEff i) 1 = byteOf (0#16 ++ q.baudDiv) 1

variable {q : UartQ u} {i : UartIn}

theorem pushesStrobed : q.PushesStrobed i := by
  intro changed
  have push : q.txPush i = true := by
    by_contra quiet
    rcases changed with h | h <;> exact h (if_neg quiet)
  simp only [txPush, txAddrSel, wrLowByte, Bool.and_eq_true, beq_iff_eq] at push
  refine ⟨{ reg := q.waddrEff i, data := q.wdataEff i, strb := q.wstrbEff i }, ?_, push.1.2, push.2⟩
  rw [commit, push.1.1, if_pos rfl]

theorem baudDiv_next : (q.next i).baudDiv =
    if q.bauddivWrite i && !q.divApply then (q.wdataEff i).extractLsb 15 0 else q.baudDiv := by
  rw [baudDiv, next_divPendingValid, next_divPending, next_div]
  cases apply : q.divApply with
  | true =>
    have valid : q.divPendingValid = true := by
      simp only [divApply, Bool.and_eq_true] at apply
      exact apply.1.1
    simp [baudDiv, valid]
  | false => cases write : q.bauddivWrite i <;> simp [baudDiv]

theorem getLsbD_div (v : BitVec 16) (n : ℕ) : (0#16 ++ v : Word).getLsbD n = v.getLsbD n := by
  have bit : (0#16 ++ v : Word).getLsbD n = if n < 16 then v.getLsbD n else (0#16).getLsbD (n - 16) :=
    BitVec.getLsbD_append
  rw [bit]
  split
  · rfl
  · rw [BitVec.getLsbD_zero, BitVec.getLsbD_of_ge v n (by omega)]

/-- Bytes of the divisor's word. -/
theorem byteOf_div (v : Word) : byteOf (0#16 ++ v.extractLsb 15 0) 1 = byteOf v 1 := by
  apply BitVec.eq_of_getLsbD_eq
  intro k hk
  rw [byteOf, byteOf, BitVec.getLsbD_extractLsb', BitVec.getLsbD_extractLsb', getLsbD_div, BitVec.getLsbD_extractLsb]
  simp [show 8 + k < 16 by omega]

theorem byteOf_high (a b : BitVec 16) {k : ℕ} (low : 2 ≤ k) : byteOf (0#16 ++ a) k = byteOf (0#16 ++ b) k := by
  apply BitVec.eq_of_getLsbD_eq
  intro j _
  rw [byteOf, byteOf, BitVec.getLsbD_extractLsb', BitVec.getLsbD_extractLsb', getLsbD_div, getLsbD_div,
    BitVec.getLsbD_of_ge a _ (by omega), BitVec.getLsbD_of_ge b _ (by omega)]

/-- The enables are bits of byte 0. -/
theorem byteOf_enables (a b c d : Bool) {k : ℕ} (low : 1 ≤ k) (hk : k < 4) :
    byteOf (0#30 ++ BitVec.ofBool a ++ BitVec.ofBool b) k = byteOf (0#30 ++ BitVec.ofBool c ++ BitVec.ofBool d) k := by
  obtain rfl | rfl | rfl : k = 1 ∨ k = 2 ∨ k = 3 := by omega
  all_goals revert a b c d; decide

/-- The registers after an edge. -/
theorem view_next (r : BitVec 3) : (q.next i).view r =
    if r = REG_CTRL then
      if q.ctrlWrite i then
        0#30 ++ BitVec.ofBool ((q.wdataEff i).getLsbD 1) ++ BitVec.ofBool ((q.wdataEff i).getLsbD 0)
      else q.view REG_CTRL
    else if r = REG_BAUDDIV then
      if q.bauddivWrite i && !q.divApply then 0#16 ++ (q.wdataEff i).extractLsb 15 0 else q.view REG_BAUDDIV
    else 0 := by
  rw [view, baudDiv_next]
  by_cases ctrl : r = REG_CTRL
  · rw [if_pos ctrl, if_pos ctrl]
    cases write : q.ctrlWrite i <;> simp [UartQ.next, write, view]
  · rw [if_neg ctrl, if_neg ctrl]
    by_cases div : r = REG_BAUDDIV
    · rw [if_pos div, if_pos div]
      split
      · rfl
      · rw [view, if_neg (by decide), if_pos rfl]
    · rw [if_neg div, if_neg div]

theorem view_ctrl_next (quiet : q.ctrlWrite i = false) : (q.next i).view REG_CTRL = q.view REG_CTRL := by
  rw [view_next, if_pos rfl, quiet, if_neg Bool.false_ne_true]

theorem view_bauddiv_next (quiet : (q.bauddivWrite i && !q.divApply) = false) :
    (q.next i).view REG_BAUDDIV = q.view REG_BAUDDIV := by
  rw [view_next, if_neg (by decide), if_pos rfl, quiet, if_neg Bool.false_ne_true]

theorem view_other {r : BitVec 3} (ctrl : r ≠ REG_CTRL) (div : r ≠ REG_BAUDDIV) : q.view r = 0 := by
  rw [view, if_neg ctrl, if_neg div]

/-- The registers that are not written stay as they are. -/
theorem view_frame {r : BitVec 3} (ctrl : r = REG_CTRL → q.ctrlWrite i = false)
    (div : r = REG_BAUDDIV → (q.bauddivWrite i && !q.divApply) = false) : (q.next i).view r = q.view r := by
  by_cases isCtrl : r = REG_CTRL
  · rw [isCtrl]
    exact view_ctrl_next (ctrl isCtrl)
  · by_cases isDiv : r = REG_BAUDDIV
    · rw [isDiv]
      exact view_bauddiv_next (div isDiv)
    · rw [view_other isCtrl isDiv, view_other isCtrl isDiv]

/-- A write of the enables strobes the byte they are in. -/
theorem respects_ctrl (ctrl : q.ctrlWrite i = true) :
    q.bauddivWrite i = false ∧ Respects (q.commit i) q.view (q.next i).view := by
  obtain ⟨⟨write, sel⟩, low⟩ : (q.doWrite i = true ∧ q.waddrEff i = REG_CTRL) ∧ (q.wstrbEff i).getLsbD 0 = true := by
    simpa [ctrlWrite, wrLowByte] using ctrl
  have noDiv : q.bauddivWrite i = false := by
    rw [bauddivWrite, sel]
    simp [REG_CTRL, REG_BAUDDIV]
  refine ⟨noDiv, ?_⟩
  rw [commit, write, if_pos rfl]
  refine (respects_iff (c := { reg := q.waddrEff i, data := q.wdataEff i, strb := q.wstrbEff i }) rfl ?_).mpr ?_
  · intro r other
    rw [sel] at other
    exact view_frame (fun is => absurd is other) fun _ => by rw [noDiv, Bool.false_and]
  · intro k hk off
    have pos : 1 ≤ k := by
      rcases Nat.eq_zero_or_pos k with rfl | pos
      · rw [low] at off
        cases off
      · exact pos
    rw [sel, view_next, if_pos rfl, ctrl, if_pos rfl, view, if_pos rfl]
    exact byteOf_enables _ _ _ _ pos hk

/-- A write of the divisor strobes byte 0 and stores both. -/
theorem respects_bauddiv (ctrl : q.ctrlWrite i = false) (bauddiv : q.bauddivWrite i = true)
    (live : q.divApply = false) : Respects (q.commit i) q.view (q.next i).view ↔ q.NeutralWrite i := by
  obtain ⟨⟨write, sel⟩, low⟩ :
      (q.doWrite i = true ∧ q.waddrEff i = REG_BAUDDIV) ∧ (q.wstrbEff i).getLsbD 0 = true := by
    simpa [bauddivWrite, wrLowByte] using bauddiv
  have stored : (q.next i).view (q.waddrEff i) = 0#16 ++ (q.wdataEff i).extractLsb 15 0 := by
    rw [sel, view_next, if_neg (by decide), if_pos rfl, bauddiv, live, Bool.not_false, Bool.and_self, if_pos rfl]
  have frame : ∀ r, r ≠ q.waddrEff i → (q.next i).view r = q.view r := by
    intro r other
    rw [sel] at other
    exact view_frame (fun _ => ctrl) fun is => absurd is other
  have old : q.view (q.waddrEff i) = 0#16 ++ q.baudDiv := by rw [sel, view, if_neg (by decide), if_pos rfl]
  rw [commit, write, if_pos rfl,
    respects_iff (c := { reg := q.waddrEff i, data := q.wdataEff i, strb := q.wstrbEff i }) stored frame, old]
  constructor
  · intro neutral _ _ off
    rw [← byteOf_div]
    exact neutral 1 (by decide) off
  · intro neutral k hk off
    obtain rfl | rfl | high : k = 0 ∨ k = 1 ∨ 2 ≤ k := by omega
    · rw [low] at off
      cases off
    · rw [byteOf_div]
      exact neutral bauddiv live off
    · exact byteOf_high _ _ high

theorem respects_iff_neutral :
    Respects (q.commit i) q.view (q.next i).view ↔ q.NeutralWrite i := by
  cases ctrl : q.ctrlWrite i with
  | true =>
    obtain ⟨noDiv, respects⟩ := respects_ctrl ctrl
    exact iff_of_true respects fun h => by rw [noDiv] at h; cases h
  | false =>
    cases div : q.bauddivWrite i && !q.divApply with
    | false =>
      have quiet : (q.next i).view = q.view := funext fun r => view_frame (fun _ => ctrl) fun _ => div
      refine iff_of_true (respects_quiet _ quiet) fun write live => ?_
      rw [write, live] at div
      cases div
    | true =>
      obtain ⟨bauddiv, live⟩ : q.bauddivWrite i = true ∧ q.divApply = false := by simpa using div
      exact respects_bauddiv ctrl bauddiv live

end UartQ

/-! ## All three -/

section Slaves

variable {u : UartParams}

/-- Writes of the peripherals respect their strobes: in every cycle of every run of the timer,
the software interrupt and the UART, with any writes in any order of the channels, the only
register bytes that change are strobed ones exactly when the write is neutral where it
is not strobed; the TX FIFO takes strobed bytes only; and the strobes of a store of the
CPU are the bytes it stores. -/
theorem strobes_respected (t : Strobed TimerQ) (m : Strobed MsipQ) (q : UartQ u) (tIns mIns : ℕ → AxiM)
    (uIns : ℕ → UartIn) (n : ℕ) :
    let timer := Clocked.run TimerQ.strobedNext t tIns
    let msip := Clocked.run MsipQ.strobedNext m mIns
    let uart := Clocked.run UartQ.next q uIns
    (Respects (TimerQ.commit (timer n) (tIns n)) (timer n).q.view (timer (n + 1)).q.view ↔
        TimerQ.NeutralWrite (timer n) (tIns n)) ∧
      (Respects (MsipQ.commit (msip n) (mIns n)) (msip n).q.view (msip (n + 1)).q.view ↔
        MsipQ.NeutralWrite (msip n) (mIns n)) ∧
      (Respects ((uart n).commit (uIns n)) (uart n).view (uart (n + 1)).view ∧ (uart n).PushesStrobed (uIns n) ↔
        (uart n).NeutralWrite (uIns n)) ∧
      ∀ de : DeT, de.memMisalignedLive = false → ∀ k,
        de.storeWstrb.getLsbD k =
          decide (DeT.offsetOf de.lsuEa ≤ k ∧ k < DeT.offsetOf de.lsuEa + de.memSize.bytes) := by
  intro timer msip uart
  refine ⟨TimerQ.respects_iff_neutral, MsipQ.respects_iff_neutral, ?_, fun de aligned k => ?_⟩
  · rw [← UartQ.respects_iff_neutral]
    exact ⟨fun h => h.1, fun h => ⟨h, UartQ.pushesStrobed⟩⟩
  · exact DeT.storeWstrb_bit aligned k

/-- `sb x0, 0(mtimecmp_lo)`: byte 0 is strobed. -/
def clearByte : AxiM :=
  { awaddr := 0x10001008, awvalid := true, wdata := 0, wstrb := 0b0001, wvalid := true, bready := true }

/-- The byte store clears the other three bytes of the compare word. -/
theorem strobe_slip : ¬ ∀ (s : Strobed TimerQ) (i : AxiM), Respects (TimerQ.commit s i) s.q.view (s.q.next i).view := by
  intro h
  have := h { q := .reset, wstrb := 0 } clearByte REG_MTIMECMP_LO 1 (by decide) (by decide +kernel)
  exact absurd this (by decide +kernel)

end Slaves

end YarvUc

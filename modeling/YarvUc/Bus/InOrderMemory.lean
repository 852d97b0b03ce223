import Mathlib.Data.Nat.Log
import YarvUc.Clocked.Skid
import YarvUc.Rtl.NativeRam

/-!
# `native_ram` as an in-order memory

At every depth, width and address width, the RAM is a memory that serves its requests one after
another in the order it accepts them. Responses are answered in that order whatever the reader
does with `rready`; at most `OUTSTANDING` of them wait, and the counter that says how many
never leaves its `CNT_W` bits.
-/

namespace YarvUc.RamQ

open Clocked

variable {strbW : ℕ} (p : RamParams)

/-! ## The memory it stands for -/

/-- The word a request is for: a byte address of `ADDR_W` bits in words of `strbW` bytes. -/
def target (i : RamIn strbW) : ℕ := i.reqAddr.toNat % 2 ^ p.addrW / strbW

/-- The memory after an accepted request: a write replaces the strobed bytes of its word. -/
def store (mem : ℕ → BitVec (8 * strbW)) (i : RamIn strbW) : ℕ → BitVec (8 * strbW) :=
  if !p.readOnly && i.reqWe then
    Function.update mem (target p i) (BitVec.strobed (mem (target p i)) i.reqWdata i.reqWstrb)
  else mem

/-- What the reads among the requests return when each is served on the memory the earlier
ones leave. -/
def replies (mem : ℕ → BitVec (8 * strbW)) : List (RamIn strbW) → List (BitVec (8 * strbW))
  | [] => []
  | i :: is => (if i.reqWe then [] else [mem (target p i)]) ++ replies (store p mem i) is

variable {p}

theorem replies_snoc (mem : ℕ → BitVec (8 * strbW)) (is : List (RamIn strbW)) (i : RamIn strbW) :
    replies p mem (is ++ [i]) =
      replies p mem is ++ if i.reqWe then [] else [is.foldl (store p) mem (target p i)] := by
  induction is generalizing mem with
  | nil => simp [replies]
  | cons j is ih => simp only [List.cons_append, replies, ih, List.append_assoc, List.foldl_cons]

/-! ## Its ports over a run -/

variable (p)

/-- The request taken in a cycle. -/
def accepts (q : RamQ strbW) (i : RamIn strbW) : List (RamIn strbW) :=
  if i.reqValid && q.wready p i.reqRready then [i] else []

/-- The response taken in a cycle. -/
def answers (q : RamQ strbW) (i : RamIn strbW) : List (BitVec (8 * strbW)) :=
  if q.rvalid && i.reqRready then [q.rdata] else []

def accepted (q : RamQ strbW) (ins : ℕ → RamIn strbW) (n : ℕ) : List (RamIn strbW) := log (next p) (accepts p) q ins n
def answered (q : RamQ strbW) (ins : ℕ → RamIn strbW) (n : ℕ) : List (BitVec (8 * strbW)) :=
  log (next p) answers q ins n

/-- The responses waiting in the skid FIFO and the one landing. -/
def buffer (q : RamQ strbW) : Skid (BitVec (8 * strbW)) where
  stored := slotList q.skid q.count
  landing := if q.rif then some q.rdD else none

/-- `CNT_W`. -/
def cntW : ℕ := Nat.clog 2 (p.outstanding + 1)

/-- `new_count` and `write_idx` in the `CNT_W` bits the source computes them in. -/
def newCountBits (q : RamQ strbW) (rready : Bool) : BitVec (cntW p) :=
  BitVec.ofNat _ q.count - BitVec.ofNat _ (q.skidPop rready).toNat + BitVec.ofNat _ (q.landStored rready).toNat
def writeIdxBits (q : RamQ strbW) (rready : Bool) : BitVec (cntW p) :=
  BitVec.ofNat _ q.count - BitVec.ofNat _ (q.skidPop rready).toNat

variable {p} {q : RamQ strbW} {i : RamIn strbW}

/-! ## One cycle -/

theorem buffer_held_length : q.buffer.held.length = q.count + q.rif.toNat := by
  cases h : q.rif <;> simp [buffer, Skid.held, h]

theorem rvalid_iff : q.rvalid = true ↔ q.buffer.held ≠ [] := by
  rw [← List.length_pos_iff_ne_nil, buffer_held_length, rvalid]
  cases h : q.rif <;> simp [Nat.pos_iff_ne_zero]

theorem head_rdata (valid : q.rvalid = true) : q.buffer.held.head? = some q.rdata := by
  cases hc : q.count with
  | zero =>
    have lands : q.rif = true := by simpa [rvalid, hc] using valid
    simp [buffer, Skid.held, rdata, hc, lands, slotList]
  | succ c => simp [buffer, Skid.held, rdata, hc, slotList_succ]

theorem answers_given : q.answers i = q.buffer.given i.reqRready := by
  unfold answers Skid.given
  cases valid : q.rvalid with
  | true =>
    rw [head_rdata valid]
    cases i.reqRready <;> rfl
  | false =>
    have none : q.buffer.held = [] := by
      by_contra some
      rw [rvalid_iff.mpr some] at valid
      cases valid
    rw [none]
    cases i.reqRready <;> rfl

/-- The landing word is stored unless it is consumed. -/
theorem landStored_eq {rready : Bool} : q.landStored rready = (q.rif && !q.buffer.consumed rready) := by
  have empty : (slotList q.skid q.count).isEmpty = (q.count == 0) := by
    cases q.count <;> simp [slotList]
  simp only [landStored, landConsumed, Skid.consumed, buffer, empty]
  cases q.rif <;> simp

/-- The shift register after a cycle: the head leaves first, so a word stored in the same cycle
goes to the slot behind the last one that stays. -/
theorem slotList_skidNext (fits : q.count ≤ p.outstanding) (rready : Bool) :
    slotList (q.skidNext p rready) (q.newCount rready) = q.buffer.storedNext rready := by
  have queue : (if rready then (slotList q.skid q.count).tail else slotList q.skid q.count) =
      slotList (fun k => if q.skidPop rready then
        if k + 1 < p.outstanding then q.skid (k + 1) else if k + 1 = p.outstanding then 0 else q.skid k
        else q.skid k) (q.writeIdx rready) := by
    cases hc : q.count with
    | zero => cases rready <;> simp [slotList, writeIdx, hc]
    | succ c =>
      cases rready with
      | false => simp [skidPop, writeIdx, hc]
      | true =>
        rw [slotList_succ, if_pos rfl, List.tail_cons]
        simp only [skidPop, writeIdx, hc, Bool.and_true]
        apply slotList_congr
        intro k hk
        have inside : k + 1 < p.outstanding := by omega
        simp [inside]
  have count : q.newCount rready = q.writeIdx rready + (q.landStored rready).toNat := rfl
  have land : (if q.buffer.consumed rready then [] else q.buffer.landing.toList) =
      if q.landStored rready then [q.rdD] else [] := by
    rw [landStored_eq, buffer]
    cases q.rif <;> cases Skid.consumed _ rready <;> rfl
  have stored : q.buffer.stored = slotList q.skid q.count := rfl
  rw [Skid.storedNext, land, stored, queue, count]
  cases lands : q.landStored rready with
  | false => simp [skidNext, lands]
  | true =>
    simp only [skidNext, lands, Bool.toNat_true, if_true]
    exact slotList_push _ _ _

theorem storedNext_length (fits : q.count ≤ p.outstanding) (rready : Bool) :
    (q.buffer.storedNext rready).length = q.newCount rready := by
  rw [← slotList_skidNext fits, length_slotList]

/-- The word a read selects. -/
def asks (p : RamParams) (q : RamQ strbW) (i : RamIn strbW) : Option (BitVec (8 * strbW)) :=
  if q.launchRead p i then some (q.mem (target p i)) else none

theorem accepts_eq : q.accepts p i = if q.launchHs p i then [i] else [] := rfl

theorem drives : Skid.Drives (next p) (fun q : RamQ strbW => q.buffer) (fun _ i => i.reqRready) (asks p)
    p.outstanding := by
  have count : ∀ q : RamQ strbW, q.buffer.held.length ≤ p.outstanding → q.count ≤ p.outstanding := by
    intro q fits
    rw [buffer_held_length] at fits
    omega
  constructor
  · intro q i fits
    have land : (if q.launchRead p i then some (q.next p i).rdD else none) = asks p q i := by
      unfold asks next
      cases q.launchRead p i <;> rfl
    rw [Skid.next, ← slotList_skidNext (count q fits), ← land]
    rfl
  · intro q i fits asked
    rw [storedNext_length (count q fits)]
    unfold asks at asked
    split at asked
    · rename_i launch
      simp only [launchRead, launchHs, wready, Bool.and_eq_true, decide_eq_true_eq] at launch
      exact launch.1.2
    · cases asked

theorem mem_next : (q.next p i).mem = (q.accepts p i).foldl (store p) q.mem := by
  rw [accepts_eq]
  cases hs : q.launchHs p i with
  | false => simp [next, launchWrite, hs]
  | true => simp [next, launchWrite, hs, store, target, wordAddr, strobeWrite_eq]

/-- Below its bound the counter is computed without wrapping. -/
theorem counter_bits (fits : q.buffer.held.length ≤ p.outstanding) (rready : Bool) :
    (q.newCountBits p rready).toNat = q.newCount rready ∧ (q.writeIdxBits p rready).toNat = q.writeIdx rready := by
  have range : p.outstanding < 2 ^ cntW p := Nat.lt_of_succ_le (Nat.le_pow_clog (by decide) _)
  rw [buffer_held_length] at fits
  have pop : (q.skidPop rready).toNat ≤ q.count := by
    rw [skidPop]
    cases hc : q.count <;> cases rready <;> simp
  have stored : (q.landStored rready).toNat ≤ q.rif.toNat := by
    rw [landStored]
    cases q.rif with
    | false => rfl
    | true => exact Bool.toNat_le _
  have pos : q.count - (q.skidPop rready).toNat < 2 ^ cntW p := by omega
  have index : q.writeIdxBits p rready = BitVec.ofNat _ (q.writeIdx rready) := by
    rw [writeIdxBits, writeIdx, ← BitVec.ofNat_sub_ofNat_of_le _ _ (by omega) pop]
  have count : q.newCountBits p rready = BitVec.ofNat _ (q.newCount rready) := by
    have split : q.newCountBits p rready = q.writeIdxBits p rready + BitVec.ofNat _ (q.landStored rready).toNat := rfl
    rw [split, index, ← BitVec.ofNat_add]
    rfl
  rw [count, index, BitVec.toNat_ofNat, BitVec.toNat_ofNat]
  constructor
  · apply Nat.mod_eq_of_lt
    rw [newCount]
    omega
  · exact Nat.mod_eq_of_lt pos

/-- A word is stored in a slot of the array. -/
theorem writeIdx_lt (fits : q.buffer.held.length ≤ p.outstanding) {rready : Bool}
    (stored : q.landStored rready = true) : q.writeIdx rready < p.outstanding := by
  have lands : q.rif = true := by
    rw [landStored, Bool.and_eq_true] at stored
    exact stored.1
  rw [buffer_held_length, lands, Bool.toNat_true] at fits
  rw [writeIdx]
  omega

/-! ## Runs -/

variable {ins : ℕ → RamIn strbW} {n : ℕ}

/-- The replies to what was accepted are the words the reads selected. -/
theorem replies_accepted :
    replies p q.mem (accepted p q ins n) = log (next p) (fun q i => (asks p q i).toList) q ins n := by
  induction n with
  | zero => rfl
  | succ n ih =>
    have mem : (run (next p) q ins n).mem = (accepted p q ins n).foldl (store p) q.mem :=
      run_foldl RamQ.mem (store p) (accepts p) (fun _ _ => mem_next) n
    have step : accepted p q ins (n + 1) = accepted p q ins n ++ (run (next p) q ins n).accepts p (ins n) := rfl
    rw [step, log_succ, ← ih]
    rw [accepts_eq]
    unfold asks launchRead
    cases hs : (run (next p) q ins n).launchHs p (ins n) with
    | false => simp
    | true =>
      simp only [if_true, replies_snoc, Bool.true_and, ← mem]
      cases (ins n).reqWe <;> simp

/-- The RAM before edge `n` of a run from reset. -/
structure InOrder (p : RamParams) (q : RamQ strbW) (ins : ℕ → RamIn strbW) (n : ℕ) : Prop where
  /-- The storage is what the accepted writes made of the initial contents. -/
  memory : (run (next p) q.reset ins n).mem = (accepted p q.reset ins n).foldl (store p) q.mem
  /-- Every accepted read has had its reply, in order, or its reply is among those held. -/
  replies : replies p q.mem (accepted p q.reset ins n) =
    answered p q.reset ins n ++ (run (next p) q.reset ins n).buffer.held
  valid : (run (next p) q.reset ins n).rvalid = true ↔ (run (next p) q.reset ins n).buffer.held ≠ []
  head : (run (next p) q.reset ins n).rvalid = true →
    (run (next p) q.reset ins n).buffer.held.head? = some (run (next p) q.reset ins n).rdata
  stays : (run (next p) q.reset ins n).rvalid = true → (ins n).reqRready = false →
    (run (next p) q.reset ins (n + 1)).rvalid = true ∧
      (run (next p) q.reset ins (n + 1)).rdata = (run (next p) q.reset ins n).rdata
  /-- A reader that is ready again and again gets every reply. -/
  delivered : (∀ t, ∃ u ≥ t, (ins u).reqRready = true) →
    ∃ m, RamQ.replies p q.mem (accepted p q.reset ins n) <+: answered p q.reset ins m
  bounded : (run (next p) q.reset ins n).buffer.held.length ≤ p.outstanding
  slot : (run (next p) q.reset ins n).landStored (ins n).reqRready = true →
    (run (next p) q.reset ins n).writeIdx (ins n).reqRready < p.outstanding
  counter : ((run (next p) q.reset ins n).newCountBits p (ins n).reqRready).toNat =
      (run (next p) q.reset ins n).newCount (ins n).reqRready ∧
    ((run (next p) q.reset ins n).writeIdxBits p (ins n).reqRready).toNat =
      (run (next p) q.reset ins n).writeIdx (ins n).reqRready
  /-- A read accepted when every earlier one is answered is answered in the next cycle. -/
  prompt : (run (next p) q.reset ins n).accepts p (ins n) = [ins n] → (ins n).reqWe = false →
    answered p q.reset ins (n + 1) = RamQ.replies p q.mem (accepted p q.reset ins n) →
    (run (next p) q.reset ins (n + 1)).rvalid = true ∧
      (run (next p) q.reset ins (n + 1)).rdata =
        (run (next p) q.reset ins n).mem (target p (ins n))

/-- What the head of the next cycle is, is on the port. -/
theorem port_of_head {a : BitVec (8 * strbW)} (head : q.buffer.held.head? = some a) :
    q.rvalid = true ∧ q.rdata = a := by
  have valid : q.rvalid = true := by
    rw [rvalid_iff]
    intro none
    rw [none] at head
    cases head
  refine ⟨valid, ?_⟩
  rw [head_rdata valid] at head
  exact Option.some.inj head

/-- `native_ram` is an in-order memory at every depth, width and address width, from any contents
and under any requests and any `rready`. -/
theorem native_ram_inOrder (strbW : ℕ) (p : RamParams) (q : RamQ strbW) (ins : ℕ → RamIn strbW) (n : ℕ) :
    InOrder p q ins n := by
  have init : q.reset.buffer = Skid.empty := rfl
  have fits := drives (p := p).fits init ins n
  have given : ∀ n, log (next p) (fun q i => q.buffer.given i.reqRready) q.reset ins n = answered p q.reset ins n := by
    intro n
    unfold answered
    congr 1
    funext q i
    exact answers_given.symm
  have served := drives (p := p).run init ins n
  rw [← replies_accepted, given] at served
  have edge : (run (next p) q.reset ins (n + 1)).buffer = _ := drives (p := p).next _ (ins n) fits
  refine ⟨?_, served, rvalid_iff, head_rdata, ?_, ?_, fits, writeIdx_lt fits, counter_bits fits _, ?_⟩
  · exact run_foldl RamQ.mem (store p) (accepts p) (fun _ _ => mem_next) n
  · intro valid wait
    apply port_of_head
    rw [edge, wait]
    exact Skid.head_stays (head_rdata valid)
  · intro fair
    obtain ⟨m, got⟩ := drives (p := p).delivers init ins fair n
    rw [← replies_accepted, given] at got
    exact ⟨m, got⟩
  · intro taken read caught
    apply port_of_head
    have launch : (run (next p) q.reset ins n).launchRead p (ins n) = true := by
      rw [accepts_eq] at taken
      cases hs : (run (next p) q.reset ins n).launchHs p (ins n) with
      | false => simp [hs] at taken
      | true => simp [launchRead, hs, read]
    have asked : asks p (run (next p) q.reset ins n) (ins n) =
        some ((run (next p) q.reset ins n).mem (target p (ins n))) := by
      rw [asks, if_pos launch]
    rw [edge, asked]
    apply Skid.head_lands
    -- what is answered in this cycle is all that was held
    have step : answered p q.reset ins (n + 1) =
        answered p q.reset ins n ++ (run (next p) q.reset ins n).buffer.given (ins n).reqRready := by
      rw [← given, ← given, log_succ]
    have all : (run (next p) q.reset ins n).buffer.given (ins n).reqRready =
        (run (next p) q.reset ins n).buffer.held := by
      apply List.append_cancel_left
      rw [← step, caught]
      exact served
    have split : (run (next p) q.reset ins n).buffer.held ++ (none : Option (BitVec (8 * strbW))).toList =
        (run (next p) q.reset ins n).buffer.given (ins n).reqRready ++
          ((run (next p) q.reset ins n).buffer.next (ins n).reqRready none).held := Skid.conserves
    rw [all] at split
    have rest := List.append_cancel_left split
    simpa [Skid.held, Skid.next] using rest.symm

/-- A write of two bytes of word 1, and reads of it and of word 0 that find the reader busy until
cycle 4. -/
def stalled (n : ℕ) : RamIn 4 where
  reqValid := n < 3
  reqWe := n == 0
  reqAddr := if n < 2 then 0x4 else 0x0
  reqWdata := 0xA1B2C3D4
  reqWstrb := 0b0101
  reqRready := 4 ≤ n

theorem native_ram_inOrder_stalled :
    let p : RamParams := { addrW := 12, strbW := 4, readOnly := false, outstanding := 2 }
    let q : RamQ 4 := { rif := false, rdD := 0, count := 0, skid := fun _ => 0, mem := fun a => BitVec.ofNat 32 a }
    (run (next p) q.reset stalled 4).count = 2 ∧ answered p q.reset stalled 6 = [0x00B200D4, 0x00000000] := by
  intro p q
  have inOrder := (native_ram_inOrder 4 p q stalled 6).replies
  have empty : (run (next p) q.reset stalled 6).buffer.held = [] := by decide +kernel
  rw [empty, List.append_nil] at inOrder
  exact ⟨by decide +kernel, inOrder.symm.trans (by decide +kernel)⟩

end YarvUc.RamQ

import YarvUc.Clocked.Bits
import YarvUc.Rtl.Pkg

/-!
# `native_ram`

The on-die RAM behind the fetch port (64-bit, read-only, two outstanding) and the
LSU port (32-bit, byte-strobed, one outstanding). `strbW` is the number of bytes
of a word (`DATA_WIDTH / 8`); the storage is a function of the word index and the
response skid FIFO a function of the slot.
-/

namespace YarvUc

/-- Parameters of one instance. -/
structure RamParams where
  addrW : Nat
  strbW : Nat
  readOnly : Bool
  outstanding : Nat

/-- The flops and the storage array. -/
structure RamQ (strbW : Nat) where
  rif : Bool
  rdD : BitVec (8 * strbW)
  count : Nat
  skid : Nat → BitVec (8 * strbW)
  mem : Nat → BitVec (8 * strbW)

/-- The request port. -/
structure RamIn (strbW : Nat) where
  reqValid : Bool
  reqWe : Bool
  reqAddr : Word
  reqWdata : BitVec (8 * strbW)
  reqWstrb : BitVec strbW
  reqRready : Bool

/-- `word_addr = req_addr_i[ADDR_W-1:BYTES_W]`. -/
def wordAddr (addrW strbW : Nat) (a : Word) : Nat := a.toNat % 2 ^ addrW / strbW

/-- Byte lane `i` of a word. -/
def laneMask (strbW i : Nat) : BitVec (8 * strbW) := (255#(8 * strbW)) <<< (8 * i)

/-- The write loop over the first `n` byte lanes: `mem[..][8*i+:8] <= wdata[8*i+:8]` where `wstrb[i]`. -/
def strobeLanes {strbW : Nat} (old new : BitVec (8 * strbW)) (strb : BitVec strbW) : Nat → BitVec (8 * strbW)
  | 0 => old
  | n + 1 =>
    let w := strobeLanes old new strb n
    if strb.getLsbD n then (w &&& ~~~laneMask strbW n) ||| (new &&& laneMask strbW n) else w

/-- The byte-strobed write of one word. -/
def strobeWrite {strbW : Nat} (old new : BitVec (8 * strbW)) (strb : BitVec strbW) : BitVec (8 * strbW) :=
  strobeLanes old new strb strbW

namespace RamQ

variable {strbW : Nat}

/-- The reset branch: storage and skid data are not reset. -/
def reset (q : RamQ strbW) : RamQ strbW := { q with rif := false, rdD := 0, count := 0 }

/-- `rsp_rvalid_o`. -/
def rvalid (q : RamQ strbW) : Bool := q.count != 0 || q.rif

/-- `rsp_rdata_o`. -/
def rdata (q : RamQ strbW) : BitVec (8 * strbW) := if q.count ≠ 0 then q.skid 0 else q.rdD

def skidPop (q : RamQ strbW) (rready : Bool) : Bool := q.count != 0 && rready

def landConsumed (q : RamQ strbW) (rready : Bool) : Bool := q.rif && q.count == 0 && rready

def landStored (q : RamQ strbW) (rready : Bool) : Bool := q.rif && !q.landConsumed rready

def newCount (q : RamQ strbW) (rready : Bool) : Nat :=
  q.count - (q.skidPop rready).toNat + (q.landStored rready).toNat

/-- `rsp_wready_o`: registers and the master's `rready` only. -/
def wready (p : RamParams) (q : RamQ strbW) (rready : Bool) : Bool := decide (q.newCount rready < p.outstanding)

def launchHs (p : RamParams) (q : RamQ strbW) (i : RamIn strbW) : Bool := i.reqValid && q.wready p i.reqRready

def launchRead (p : RamParams) (q : RamQ strbW) (i : RamIn strbW) : Bool := q.launchHs p i && !i.reqWe

def launchWrite (p : RamParams) (q : RamQ strbW) (i : RamIn strbW) : Bool := q.launchHs p i && i.reqWe

def writeIdx (q : RamQ strbW) (rready : Bool) : Nat := q.count - (q.skidPop rready).toNat

/-- The shift FIFO after this edge: shift on a pop, then the stored landing word. -/
def skidNext (p : RamParams) (q : RamQ strbW) (rready : Bool) : Nat → BitVec (8 * strbW) :=
  let shifted : Nat → BitVec (8 * strbW) := fun k =>
    if q.skidPop rready then
      if k + 1 < p.outstanding then q.skid (k + 1) else if k + 1 = p.outstanding then 0 else q.skid k
    else q.skid k
  if q.landStored rready then Function.update shifted (q.writeIdx rready) q.rdD else shifted

/-- The clock edge. -/
def next (p : RamParams) (q : RamQ strbW) (i : RamIn strbW) : RamQ strbW where
  rif := q.launchRead p i
  rdD := if q.launchRead p i then q.mem (wordAddr p.addrW strbW i.reqAddr) else q.rdD
  count := q.newCount i.reqRready
  skid := q.skidNext p i.reqRready
  mem :=
    if !p.readOnly && q.launchWrite p i then
      let a := wordAddr p.addrW strbW i.reqAddr
      Function.update q.mem a (strobeWrite (q.mem a) i.reqWdata i.reqWstrb)
    else q.mem

end RamQ

/-! ## Byte lanes -/

theorem getLsbD_laneMask (strbW i k : Nat) (hk : k < 8 * strbW) :
    (laneMask strbW i).getLsbD k = decide (k / 8 = i) := by
  have h255 : ∀ j, Nat.testBit 255 j = decide (j < 8) := by
    intro j
    simpa using Nat.testBit_two_pow_sub_one 8 j
  simp only [laneMask, BitVec.getLsbD_shiftLeft, BitVec.getLsbD_ofNat, h255]
  by_cases h : k / 8 = i
  · simp [h]; omega
  · simp [h]; omega

theorem getLsbD_strobeLanes {strbW : Nat} (old new : BitVec (8 * strbW)) (strb : BitVec strbW) (n k : Nat)
    (hk : k < 8 * strbW) :
    (strobeLanes old new strb n).getLsbD k =
      if k / 8 < n ∧ strb.getLsbD (k / 8) then new.getLsbD k else old.getLsbD k := by
  induction n with
  | zero => simp [strobeLanes]
  | succ n ih =>
    simp only [strobeLanes]
    by_cases hs : strb.getLsbD n
    · simp only [hs, if_true, BitVec.getLsbD_or, BitVec.getLsbD_and, BitVec.getLsbD_not,
        getLsbD_laneMask _ _ _ hk, ih, hk]
      by_cases he : k / 8 = n
      · subst he; simp [hs]
      · have : (k / 8 < n + 1) ↔ k / 8 < n := by omega
        simp [he, this]
    · rw [if_neg hs, ih]
      by_cases he : k / 8 = n
      · subst he; simp [hs]
      · have : (k / 8 < n + 1) ↔ k / 8 < n := by omega
        simp [this]

/-- Bit `k` after a strobed write comes from the new word iff its byte is strobed. -/
theorem getLsbD_strobeWrite {strbW : Nat} (old new : BitVec (8 * strbW)) (strb : BitVec strbW) (k : Nat)
    (hk : k < 8 * strbW) :
    (strobeWrite old new strb).getLsbD k = if strb.getLsbD (k / 8) then new.getLsbD k else old.getLsbD k := by
  have : k / 8 < strbW := by omega
  simp [strobeWrite, getLsbD_strobeLanes _ _ _ _ _ hk, this]

/-- The loop over the lanes stores the strobed bytes. -/
theorem strobeWrite_eq {strbW : Nat} (old new : BitVec (8 * strbW)) (strb : BitVec strbW) :
    strobeWrite old new strb = BitVec.strobed old new strb := by
  apply BitVec.eq_of_getLsbD_eq
  intro k hk
  rw [getLsbD_strobeWrite old new strb k hk, BitVec.getLsbD_strobed old new strb hk]

end YarvUc

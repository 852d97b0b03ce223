import YarvUc.Rtl.Pkg

/-!
# `branch_predictor`

Gshare PHT, global history and return-address stack: combinational lookups at
decode and at buffer push, training at resolve.
-/

namespace YarvUc

structure BpQ where
  pht : PhtIdx → BitVec 2
  ghr : Ghr
  ras : BitVec 3 → Word
  rasPtr : BitVec 3
  rasCnt : BitVec 4

/-- `sat_update`. -/
def satUpdate (c : BitVec 2) (t : Bool) : BitVec 2 :=
  if t then (if c = 0b11#2 then 0b11#2 else c + 1) else (if c = 0b00#2 then 0b00#2 else c - 1)

namespace BpQ

variable (q : BpQ)

/-- The reset branch: history and stack pointers; PHT and stack slots are kept. -/
def reset : BpQ := { q with ghr := 0, rasPtr := 0, rasCnt := 0 }

/-- `lookup_index`: `pc[7:1] ^ ghr`. -/
def lookupIndex (pc : Word) : PhtIdx := pc.extractLsb 7 1 ^^^ q.ghr

/-- The decode-time lookup. -/
def lookup (pc : Word) : BpLookupRsp where
  phtIndex := q.lookupIndex pc
  phtTaken := (q.pht (q.lookupIndex pc)).getLsbD 1
  rasValid := q.rasCnt != 0
  rasTop := q.ras (q.rasPtr - 1)

/-- `push_u*`: the six upper index bits of a word. -/
def pushU (pc : Word) : BitVec 6 := pc.extractLsb 7 2 ^^^ q.ghr.extractLsb 6 1

def pushCtr (pc : Word) (slot : BitVec 1) : BitVec 2 := q.pht (q.pushU pc ++ slot)

/-- The push-time lookup: both halfword slots of both pushed words. -/
def push (pc0 pc1 : Word) : BpPushRsp where
  ghr := q.ghr
  pred0Lo := if q.ghr.getLsbD 0 then (q.pushCtr pc0 1).getLsbD 1 else (q.pushCtr pc0 0).getLsbD 1
  pred0Hi := if q.ghr.getLsbD 0 then (q.pushCtr pc0 0).getLsbD 1 else (q.pushCtr pc0 1).getLsbD 1
  pred1Lo := if q.ghr.getLsbD 0 then (q.pushCtr pc1 1).getLsbD 1 else (q.pushCtr pc1 0).getLsbD 1
  pred1Hi := if q.ghr.getLsbD 0 then (q.pushCtr pc1 0).getLsbD 1 else (q.pushCtr pc1 1).getLsbD 1

/-- The clock edge. -/
def next (t : BpTrain) : BpQ where
  pht :=
    if t.valid && t.cond then Function.update q.pht t.phtIndex (satUpdate (q.pht t.phtIndex) t.taken) else q.pht
  ghr := if t.valid && t.cond then q.ghr.extractLsb 5 0 ++ BitVec.ofBool t.taken else q.ghr
  ras := if t.valid && t.call then Function.update q.ras q.rasPtr t.pushPc else q.ras
  rasPtr :=
    if t.valid && t.ret then q.rasPtr - 1 else if t.valid && t.call then q.rasPtr + 1 else q.rasPtr
  rasCnt :=
    if t.valid && t.ret then (if q.rasCnt = 0 then 0 else q.rasCnt - 1)
    else if t.valid && t.call then (if q.rasCnt = 8 then q.rasCnt else q.rasCnt + 1)
    else q.rasCnt

end BpQ

end YarvUc

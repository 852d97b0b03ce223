import YarvUc.Clocked.Bits
import YarvUc.Clocked.Credits
import YarvUc.Clocked.Ring
import YarvUc.Fetch.Memory

/-!
# The accounts of the fetch buffer

`fetch_stage` against any I-mem. The counters keep a `Clocked.Room` of eight entries: a read
that is launched reserves two of them, and a redirect makes the reads on their way stale.
`FetchCyc.room_next` says that the counters' bits never wrap, and everything about a run is
read off the room.
-/

namespace YarvUc

namespace FetchMem

/-- The entries of this cycle's push. -/
def pushed (c : FetchCyc) : List BufEntry := [c.push0, c.push1].take c.pushCnt.toNat

end FetchMem

namespace FetchQ

/-- The counters as a room. -/
def room (q : FetchQ) : Clocked.Room where
  held := q.count.toNat
  owed := q.inflight.toNat
  stale := q.stale.toNat

/-- Eight entries, two for a read, two reads; and the tail is as far behind the head as the
counter says. -/
structure Counts (q : FetchQ) : Prop where
  fits : q.room.Fits 8 2 2
  tail : q.tail = q.head + BitVec.ofNat 3 q.count.toNat

variable {q : FetchQ}

theorem counts_reset (boot : Word) (q : FetchQ) : (q.reset boot).Counts :=
  ⟨Clocked.Room.fits_empty, rfl⟩

theorem Counts.depth (counts : q.Counts) : q.count.toNat + 2 * q.inflight.toNat ≤ 8 := counts.fits.room

/-- A read on its way finds the port ready: two entries are reserved for it. -/
theorem Counts.rready (counts : q.Counts) (owed : 0 < q.inflight.toNat) : q.rready = true := by
  have depth := counts.depth
  have room : q.count ≤ 6 := by
    rw [BitVec.le_def]
    change q.count.toNat ≤ 6
    omega
  rw [FetchQ.rready, decide_eq_true room, Bool.or_true]

end FetchQ

namespace FetchCyc

variable {c : FetchCyc}

/-- What happens to the room in a cycle. -/
def roomIn (c : FetchCyc) : Clocked.RoomIn where
  flush := c.redirect
  ask := c.launch
  answer := c.rspCap
  put := c.pushCnt.toNat
  take := c.bufPopCnt.toNat

/-- The neighbours keep to the rules: the memory answers no read that is not on its way, and
decode pops two entries only where it sees two. -/
structure Ruled (c : FetchCyc) : Prop where
  rsp : c.imemRsp.rvalid = true → 0 < c.q.inflight.toNat
  pop2 : c.fePop2 = true → c.q.fePort.nextValid = true

/-! ## Pushes and pops -/

theorem pushCnt_cases (c : FetchCyc) : c.pushCnt = 0 ∨ c.pushCnt = 1 ∨ c.pushCnt = 2 := by
  unfold FetchCyc.pushCnt
  split
  · split <;> simp
  · split <;> simp

theorem pushCnt_le (c : FetchCyc) : c.pushCnt.toNat ≤ 2 := by
  rcases c.pushCnt_cases with h | h | h <;> rw [h] <;> decide

/-- Decode pops no more than the buffer holds. -/
theorem bufPopCnt_le (pop2 : c.fePop2 = true → c.q.fePort.nextValid = true) :
    c.bufPopCnt.toNat ≤ c.q.count.toNat := by
  unfold FetchCyc.bufPopCnt
  split
  · rename_i some
    simp only [Bool.and_eq_true, bne_iff_ne, ne_eq] at some
    have pos : c.q.count.toNat ≠ 0 := fun zero => some.1 (BitVec.eq_of_toNat_eq (by simpa using zero))
    split
    · rename_i two
      have := pop2 two
      simpa [FetchQ.fePort, BitVec.le_def] using this
    · exact Nat.one_le_iff_ne_zero.mpr pos
  · exact Nat.zero_le _

theorem incycleLaunch_quiet (quiet : c.redirect = false) : c.incycleLaunch = false := by
  simp only [FetchCyc.redirect, Bool.or_eq_false_iff] at quiet
  simp [FetchCyc.incycleLaunch, FetchCyc.redirect, quiet]

/-- An out-of-range PC pushes a fault or launches, never both. -/
theorem launch_excludes_faultPush (quiet : c.redirect = false) (push : c.faultPush = true) : c.busIssue = false := by
  simp only [FetchCyc.faultPush, Bool.and_eq_true] at push
  simp [FetchCyc.busIssue, incycleLaunch_quiet quiet, push.1.1.1]

/-! ## The rules of the room -/

theorem reserved_eq (c : FetchCyc) : c.reserved.toNat = c.q.count.toNat + 2 * c.q.inflight.toNat := by
  have count := c.q.count.isLt
  have inflight := c.q.inflight.isLt
  have twice : c.twiceInflight.toNat = 2 * c.q.inflight.toNat := by
    rw [FetchCyc.twiceInflight, BitVec.toNat_append_eq]
    change c.q.inflight.toNat * 2 + 0 = _
    omega
  rw [FetchCyc.reserved, BitVec.toNat_add, BitVec.toNat_setWidth, BitVec.toNat_setWidth, twice]
  omega

/-- `available` does not wrap. -/
theorem available_eq (counts : c.q.Counts) :
    c.available.toNat = 8 - (c.q.count.toNat + 2 * c.q.inflight.toNat) := by
  have depth := counts.depth
  rw [FetchCyc.available, BitVec.toNat_sub, reserved_eq, show (8 : BitVec 5).toNat = 8 from rfl]
  omega

/-- A launch finds room in the buffer as the edge leaves it. -/
theorem launch_reserves (counts : c.q.Counts) (launch : c.launch = true) :
    (if c.redirect then 0 else c.q.count.toNat) + 2 * c.q.inflight.toNat + 2 ≤ 8 ∧ c.q.inflight.toNat < 2 := by
  simp only [FetchCyc.launch, FetchCyc.busIssue, Bool.and_eq_true, decide_eq_true_eq, BitVec.le_def,
    BitVec.lt_def] at launch
  obtain ⟨⟨⟨⟨few, room⟩, -⟩, -⟩, -⟩ := launch
  have few : c.q.inflight.toNat < 2 := few
  refine ⟨?_, few⟩
  cases redirect : c.redirect with
  | true =>
    rw [if_pos rfl]
    omega
  | false =>
    rw [if_neg Bool.false_ne_true]
    have room : 2 ≤ c.available.toNat := by simpa [FetchCyc.availableIssue, redirect] using room
    rw [available_eq counts] at room
    omega

theorem rspCap_owed (rsp : c.imemRsp.rvalid = true → 0 < c.q.inflight.toNat) (cap : c.rspCap = true) :
    0 < c.q.inflight.toNat := by
  rw [FetchCyc.rspCap, Bool.and_eq_true] at cap
  exact rsp cap.1

/-- What is pushed comes from a fresh response, or is the fault of a PC that nothing is on its way for. -/
theorem puts (counts : c.q.Counts) : c.q.room.Puts 8 2 c.roomIn := by
  cases rsp : c.doRsp with
  | true =>
    rw [FetchCyc.doRsp, Bool.and_eq_true, beq_iff_eq] at rsp
    refine .answer rsp.1 ?_ c.pushCnt_le
    change c.q.stale.toNat = 0
    rw [rsp.2]
    rfl
  | false =>
    have cnt : c.pushCnt = if c.faultPush then 1 else 0 := by
      simp [FetchCyc.pushCnt, FetchCyc.doRspData, FetchCyc.doRspFault, rsp]
    cases fault : c.faultPush with
    | false =>
      rw [fault, if_neg Bool.false_ne_true] at cnt
      exact .none (congrArg BitVec.toNat cnt)
    | true =>
      rw [fault, if_pos rfl] at cnt
      have free : 1 ≤ c.available.toNat := by
        have push := fault
        simp only [FetchCyc.faultPush, Bool.and_eq_true, decide_eq_true_eq, BitVec.le_def] at push
        exact push.1.1.2
      rw [available_eq counts] at free
      refine .own ?_ fun quiet => ?_
      · change c.q.count.toNat + 2 * c.q.inflight.toNat + c.pushCnt.toNat ≤ 8
        rw [cnt]
        change _ + 1 ≤ 8
        omega
      · change c.launch = false
        rw [FetchCyc.launch, launch_excludes_faultPush quiet fault, Bool.false_and]

theorem ok (counts : c.q.Counts) (ruled : c.Ruled) : c.q.room.Ok 8 2 2 c.roomIn where
  reserves := launch_reserves counts
  answers := rspCap_owed ruled.rsp
  puts := puts counts
  takes := bufPopCnt_le ruled.pop2

/-- A push finds free slots, in the cycle of a redirect too. -/
theorem push_fits (counts : c.q.Counts) (rsp : c.imemRsp.rvalid = true → 0 < c.q.inflight.toNat) :
    c.q.count.toNat + c.pushCnt.toNat ≤ 8 :=
  counts.fits.put (rspCap_owed rsp) (puts counts)

/-! ## The edge -/

theorem count_next (quiet : c.redirect = false) (fits : c.q.count.toNat + c.pushCnt.toNat ≤ 8)
    (pop : c.bufPopCnt.toNat ≤ c.q.count.toNat) :
    c.next.count.toNat = c.q.count.toNat + c.pushCnt.toNat - c.bufPopCnt.toNat := by
  simp only [FetchCyc.next, quiet, Bool.false_eq_true, if_false, BitVec.toNat_sub, BitVec.toNat_add,
    BitVec.toNat_setWidth]
  have := c.pushCnt.isLt
  have := c.bufPopCnt.isLt
  omega

theorem toNat_bit (b : Bool) : (if b then 1 else 0 : BitVec 2).toNat = b.toNat := by cases b <;> rfl

theorem inflight_next (ok : c.q.room.Ok 8 2 2 c.roomIn) :
    c.next.inflight.toNat = c.q.inflight.toNat + c.launch.toNat - c.rspCap.toNat := by
  have few : c.launch = true → c.q.inflight.toNat < 2 := fun launch => (ok.reserves launch).2
  have owed : c.rspCap = true → 0 < c.q.inflight.toNat := ok.answers
  have bits := c.q.inflight.isLt
  change (c.q.inflight + (if c.launch then 1 else 0) - (if c.rspCap then 1 else 0) : BitVec 2).toNat = _
  rw [BitVec.toNat_sub, BitVec.toNat_add, toNat_bit, toNat_bit]
  cases launch : c.launch <;> cases rsp : c.rspCap <;> simp only [Bool.toNat_false, Bool.toNat_true]
  · omega
  · have := owed rsp
    omega
  · have := few launch
    omega
  · have := few launch
    have := owed rsp
    omega

theorem toNat_sub_bit {a : BitVec 2} {b : Bool} (le : b.toNat ≤ a.toNat) :
    (a - (if b then 1 else 0)).toNat = a.toNat - b.toNat := by
  rw [BitVec.toNat_sub_of_le (by rwa [BitVec.le_def, toNat_bit]), toNat_bit]

theorem stale_next (ok : c.q.room.Ok 8 2 2 c.roomIn) : c.next.stale.toNat =
    if c.redirect then c.q.inflight.toNat - c.rspCap.toNat
    else if c.rspCap then c.q.stale.toNat - 1 else c.q.stale.toNat := by
  change (if c.redirect then c.q.inflight - (if c.rspCap then 1 else 0)
    else if c.rspCap && c.q.stale != 0 then c.q.stale - 1 else c.q.stale : BitVec 2).toNat = _
  cases redirect : c.redirect with
  | true =>
    rw [if_pos rfl, if_pos rfl]
    apply toNat_sub_bit
    cases rsp : c.rspCap with
    | false => exact Nat.zero_le _
    | true => exact ok.answers rsp
  | false =>
    rw [if_neg Bool.false_ne_true, if_neg Bool.false_ne_true]
    cases rsp : c.rspCap with
    | false => rfl
    | true =>
      rw [Bool.true_and, if_pos rfl]
      by_cases fresh : c.q.stale = 0
      · rw [fresh]
        rfl
      · rw [if_pos (bne_iff_ne.mpr fresh)]
        have some : c.q.stale.toNat ≠ 0 := fun zero => fresh (BitVec.eq_of_toNat_eq zero)
        exact toNat_sub_bit (b := true) (Nat.one_le_iff_ne_zero.mpr some)

/-- The counters do what the room does: their bits never wrap. -/
theorem room_next (counts : c.q.Counts) (ruled : c.Ruled) : c.next.room = c.q.room.next c.roomIn := by
  have ok := ok counts ruled
  have held : c.next.count.toNat =
      if c.redirect then 0 else c.q.count.toNat + c.pushCnt.toNat - c.bufPopCnt.toNat := by
    cases redirect : c.redirect with
    | true => simp [FetchCyc.next, redirect]
    | false =>
      rw [if_neg Bool.false_ne_true]
      exact count_next redirect (push_fits counts ruled.rsp) ok.takes
  rw [FetchQ.room, held, inflight_next ok, stale_next ok]
  rfl

/-- The buffer array holds the old entries and the pushed ones. -/
theorem ringList_bufNext (counts : c.q.Counts) (fits : c.q.count.toNat + c.pushCnt.toNat ≤ 8) :
    Clocked.ringList c.bufNext c.q.head (c.q.count.toNat + c.pushCnt.toNat) =
      Clocked.ringList c.q.buf c.q.head c.q.count.toNat ++ FetchMem.pushed c := by
  obtain none | one | two := c.pushCnt_cases
  · simp [FetchCyc.bufNext, FetchMem.pushed, none]
  · have room : c.q.count.toNat < 2 ^ 3 := by
      rw [one] at fits
      exact fits
    simp only [FetchCyc.bufNext, FetchMem.pushed, one, counts.tail]
    exact Clocked.ringList_push c.q.buf c.q.head _ _ room
  · have room : c.q.count.toNat + 1 < 2 ^ 3 := by
      rw [two] at fits
      exact fits
    have slot : c.q.tail + 1 = c.q.head + BitVec.ofNat 3 (c.q.count.toNat + 1) := by
      rw [counts.tail, BitVec.add_assoc, BitVec.ofNat_add]
      rfl
    have first := Clocked.ringList_push c.q.buf c.q.head _ c.push0 (Nat.lt_of_succ_lt room)
    have second := Clocked.ringList_push (Function.update c.q.buf c.q.tail c.push0) c.q.head _ c.push1 room
    rw [← slot] at second
    rw [← counts.tail] at first
    rw [first, List.append_assoc] at second
    simp only [FetchCyc.bufNext, FetchMem.pushed, two]
    exact second

/-- A push leaves the slots of the entries that were not read yet alone. -/
theorem bufNext_unread (counts : c.q.Counts) (fits : c.q.count.toNat + c.pushCnt.toNat ≤ 8) {j : ℕ}
    (unread : j < c.q.count.toNat) :
    c.bufNext (c.q.head + BitVec.ofNat 3 j) = c.q.buf (c.q.head + BitVec.ofNat 3 j) := by
  have length : j < (Clocked.ringList c.q.buf c.q.head c.q.count.toNat).length := by
    rw [Clocked.length_ringList]
    exact unread
  have slot := congrArg (·[j]?) (ringList_bufNext counts fits)
  rw [List.getElem?_append_left length, Clocked.ringList_slot _ _ unread,
    Clocked.ringList_slot _ _ (Nat.lt_add_right _ unread)] at slot
  exact Option.some.inj slot

/-- Without a redirect the buffer gains what is pushed and loses what decode popped. -/
theorem next_slots (counts : c.q.Counts) (ruled : c.Ruled) (quiet : c.redirect = false) :
    Clocked.ringList c.next.buf c.next.head c.next.count.toNat =
      (Clocked.ringList c.q.buf c.q.head c.q.count.toNat ++ FetchMem.pushed c).drop c.bufPopCnt.toNat := by
  have fits := push_fits counts ruled.rsp
  have count := count_next quiet fits (bufPopCnt_le ruled.pop2)
  have head : c.next.head = c.q.head + BitVec.ofNat 3 c.bufPopCnt.toNat := by simp [FetchCyc.next, quiet]
  rw [head, count, ← Clocked.ringList_drop, ← ringList_bufNext counts fits]
  rfl

theorem tail_next (counts : c.q.Counts) (ruled : c.Ruled) :
    c.next.tail = c.next.head + BitVec.ofNat 3 c.next.count.toNat := by
  cases redirect : c.redirect with
  | true => simp [FetchCyc.next, redirect]
  | false =>
    have takes := bufPopCnt_le ruled.pop2
    have count := count_next redirect (push_fits counts ruled.rsp) takes
    have head : c.next.head = c.q.head + BitVec.ofNat 3 c.bufPopCnt.toNat := by simp [FetchCyc.next, redirect]
    have tail : c.next.tail = c.q.tail + BitVec.ofNat 3 c.pushCnt.toNat := by simp [FetchCyc.next, redirect]
    rw [tail, head, count, counts.tail, BitVec.add_assoc, BitVec.add_assoc, ← BitVec.ofNat_add, ← BitVec.ofNat_add,
      Nat.add_sub_cancel' (by omega)]

theorem counts_next (counts : c.q.Counts) (ruled : c.Ruled) : c.next.Counts := by
  refine ⟨?_, tail_next counts ruled⟩
  rw [room_next counts ruled]
  exact counts.fits.next (ok counts ruled)

end FetchCyc

/-! ## Runs -/

/-- The inputs of one cycle: what the core feeds, and the memory's response. -/
structure FetchPorts where
  core : FetchIn
  rsp : IfetchRsp

namespace FetchQ

def cyc (p : Params) (q : FetchQ) (i : FetchPorts) : FetchCyc where
  p := p
  q := q
  stall := i.core.stall
  branchValid := i.core.branchValid
  branchAddr := i.core.branchAddr
  predValid := i.core.predValid
  predAddr := i.core.predAddr
  imemRsp := i.rsp
  bpPush := i.core.bpPush
  fePop2 := i.core.fePop2

variable (p : Params) (q : FetchQ) (ins : ℕ → FetchPorts) (n : ℕ)

def next (i : FetchPorts) : FetchQ := (q.cyc p i).next

/-- The reads the memory accepts, and the responses the stage accepts, by the handshakes of the port. -/
def asks (i : FetchPorts) : List Word :=
  if (q.cyc p i).imemReq.valid && i.rsp.ready then [(q.cyc p i).imemReq.addr] else []
def gets (i : FetchPorts) : List (BitVec 64) :=
  if i.rsp.rvalid && (q.cyc p i).imemReq.rready then [i.rsp.rdata] else []

/-- Those before cycle `n`. -/
def asked : List Word := Clocked.log (next p) (asks p) q ins n
def got : List (BitVec 64) := Clocked.log (next p) (gets p) q ins n

/-- The stage's cycle in a run. -/
def cycleAt : FetchCyc := (Clocked.run (next p) q ins n).cyc p (ins n)

end FetchQ

/-- The accounts of a cycle, with the reads asked for and the responses got before it. -/
structure FetchCyc.Accounts (c : FetchCyc) (asked got : ℕ) : Prop where
  outstanding : asked = got + c.q.inflight.toNat
  inflight : c.q.inflight.toNat ≤ 2
  stale : c.q.stale.toNat ≤ c.q.inflight.toNat
  room : c.q.count.toNat + 2 * c.q.inflight.toNat ≤ 8
  distance : (c.q.tail - c.q.head).toNat = c.q.count.toNat % 8
  rready : got < asked → c.q.rready = true
  /-- An entry that was not read yet is still in its slot behind the edge. -/
  unread : ∀ j < c.q.count.toNat,
    c.next.buf (c.q.head + BitVec.ofNat 3 j) = c.q.buf (c.q.head + BitVec.ofNat 3 j)
  /-- What is pushed stands behind the entries that are there. -/
  behind : c.redirect = false →
    Clocked.ringList c.next.buf c.next.head c.next.count.toNat =
      (Clocked.ringList c.q.buf c.q.head c.q.count.toNat ++ FetchMem.pushed c).drop c.bufPopCnt.toNat
  pops : c.bufPopCnt.toNat ≤ c.q.count.toNat
  pushes : c.pushCnt.toNat ≤ 2

theorem FetchQ.Counts.accounts {c : FetchCyc} {asked got : ℕ} (counts : c.q.Counts) (ruled : c.Ruled)
    (outstanding : asked = got + c.q.inflight.toNat) : c.Accounts asked got where
  outstanding := outstanding
  inflight := counts.fits.owed
  stale := counts.fits.stale
  room := counts.depth
  distance := by
    rw [counts.tail, BitVec.add_comm, BitVec.add_sub_cancel, BitVec.toNat_ofNat]
  rready owed := counts.rready (by omega)
  unread j := FetchCyc.bufNext_unread counts (FetchCyc.push_fits counts ruled.rsp)
  behind := FetchCyc.next_slots counts ruled
  pops := FetchCyc.bufPopCnt_le ruled.pop2
  pushes := c.pushCnt_le

namespace FetchQ

variable {p : Params} {q : FetchQ} {ins : ℕ → FetchPorts} {n : ℕ}

theorem length_asks (i : FetchPorts) : (asks p q i).length = (q.cyc p i).launch.toNat := by
  change (if (q.cyc p i).launch then [(q.cyc p i).issueAddr] else []).length = _
  cases (q.cyc p i).launch <;> rfl

theorem length_gets (i : FetchPorts) : (gets p q i).length = (q.cyc p i).rspCap.toNat := by
  change (if (q.cyc p i).rspCap then [i.rsp.rdata] else []).length = _
  cases (q.cyc p i).rspCap <;> rfl

/-- `inflight_q` counts the reads on their way. -/
theorem outstanding_next (ok : (cycleAt p q ins n).q.room.Ok 8 2 2 (cycleAt p q ins n).roomIn)
    (outstanding : (asked p q ins n).length = (got p q ins n).length + (cycleAt p q ins n).q.inflight.toNat) :
    (asked p q ins (n + 1)).length =
      (got p q ins (n + 1)).length + (cycleAt p q ins (n + 1)).q.inflight.toNat := by
  have inflight : (cycleAt p q ins (n + 1)).q.inflight.toNat = (cycleAt p q ins n).q.inflight.toNat +
      (cycleAt p q ins n).launch.toNat - (cycleAt p q ins n).rspCap.toNat := FetchCyc.inflight_next ok
  have owed : (cycleAt p q ins n).rspCap.toNat ≤ (cycleAt p q ins n).q.inflight.toNat := by
    cases rsp : (cycleAt p q ins n).rspCap with
    | false => exact Nat.zero_le _
    | true => exact ok.answers rsp
  have more : (asked p q ins (n + 1)).length = (asked p q ins n).length + (cycleAt p q ins n).launch.toNat := by
    rw [asked, Clocked.log_succ, List.length_append, length_asks]
    rfl
  have given : (got p q ins (n + 1)).length = (got p q ins n).length + (cycleAt p q ins n).rspCap.toNat := by
    rw [got, Clocked.log_succ, List.length_append, length_gets]
    rfl
  omega

/-- The accounts of the fetch buffer, in every cycle of every run from reset: any stalls and
redirects, a memory that may refuse requests and be as late with its responses as it likes,
so long as it answers only reads it has accepted in an earlier cycle, and a decode stage that
pops two entries only where it sees two. -/
theorem fetch_accounts (p : Params) (boot : Word) (q : FetchQ) (ins : ℕ → FetchPorts)
    (inOrder : ∀ n, (ins n).rsp.rvalid = true →
      (got p (q.reset boot) ins n).length < (asked p (q.reset boot) ins n).length)
    (pop2 : ∀ n, (ins n).core.fePop2 = true → (Clocked.run (next p) (q.reset boot) ins n).fePort.nextValid = true)
    (n : ℕ) :
    (cycleAt p (q.reset boot) ins n).Accounts (asked p (q.reset boot) ins n).length
      (got p (q.reset boot) ins n).length := by
  have ruled : ∀ n, (asked p (q.reset boot) ins n).length = (got p (q.reset boot) ins n).length +
      (cycleAt p (q.reset boot) ins n).q.inflight.toNat → (cycleAt p (q.reset boot) ins n).Ruled := by
    intro n outstanding
    refine ⟨fun answers => ?_, pop2 n⟩
    have owed := inOrder n answers
    omega
  have all : ∀ n, (cycleAt p (q.reset boot) ins n).q.Counts ∧
      (asked p (q.reset boot) ins n).length = (got p (q.reset boot) ins n).length +
        (cycleAt p (q.reset boot) ins n).q.inflight.toNat := by
    intro n
    induction n with
    | zero => exact ⟨counts_reset boot q, rfl⟩
    | succ n ih =>
      obtain ⟨counts, outstanding⟩ := ih
      have rules := ruled n outstanding
      exact ⟨FetchCyc.counts_next counts rules, outstanding_next (FetchCyc.ok counts rules) outstanding⟩
  obtain ⟨counts, outstanding⟩ := all n
  exact counts.accounts (ruled n outstanding) outstanding

/-- A memory that takes two requests and is three cycles late with its first response. -/
def lateMemory (n : ℕ) : FetchPorts where
  core := .sequential
  rsp := { ready := true, rvalid := n == 3, rdata := 0 }

/-- Before the response two reads are on their way, and behind it one. -/
theorem fetch_accounts_late :
    (asked .board ((FetchMem.ofImage fun _ => 0).fetch.reset 0) lateMemory 4).length =
      (got .board ((FetchMem.ofImage fun _ => 0).fetch.reset 0) lateMemory 4).length + 1 := by
  have accounts := fetch_accounts .board 0 (FetchMem.ofImage fun _ => 0).fetch lateMemory (fun n answers => by
    obtain rfl : n = 3 := by simpa [lateMemory] using answers
    decide +kernel) (fun n two => by cases two) 4
  have one : (cycleAt .board ((FetchMem.ofImage fun _ => 0).fetch.reset 0) lateMemory 4).q.inflight.toNat = 1 := by
    decide +kernel
  rw [accounts.outstanding, one]

end FetchQ

end YarvUc

import YarvUc.Clocked.Bits
import YarvUc.Clocked.Frames
import YarvUc.Uart.Divisor

/-!
# The serial round trip

Transmitter and receiver each count on their own. Both are followed here along the frame
that is on the line: the transmitter is at tick `τ` of it, the receiver at the tick the
line's delay leaves it, and the receiver's sampling points lie inside the bits as soon as
half a divisor and the cycle of detection fit into one bit, which is a divisor of 1.
-/

namespace YarvUc

variable {d : BitVec 16} {b : BitVec 8} {τ : ℕ}

/-- The cycles of one bit. -/
def bitPeriod (d : BitVec 16) : ℕ := d.toNat + 1

/-- The level of the line at tick `τ` of the frame of `b`: start bit, data, stop bit. -/
def lineLevel (d : BitVec 16) (b : BitVec 8) (τ : ℕ) : Bool :=
  match τ / bitPeriod d with
  | 0 => false
  | j + 1 => if j < 8 then b.getLsbD j else true

theorem lineLevel_bit {j c : ℕ} (hc : c ≤ d.toNat) :
    lineLevel d b (j * bitPeriod d + c) = match j with
      | 0 => false
      | j + 1 => if j < 8 then b.getLsbD j else true := by
  have bit : (j * bitPeriod d + c) / bitPeriod d = j := by
    rw [Nat.mul_comm, Nat.mul_add_div (by simp [bitPeriod]), Nat.div_eq_of_lt (by simp [bitPeriod]; omega)]
    rfl
  rw [lineLevel, bit]

theorem lineLevel_start (hτ : τ ≤ d.toNat) : lineLevel d b τ = false := by
  have := lineLevel_bit (b := b) (j := 0) hτ
  rwa [Nat.zero_mul, Nat.zero_add] at this

theorem lineLevel_data {k c : ℕ} (hk : k < 8) (hc : c ≤ d.toNat) :
    lineLevel d b ((k + 1) * bitPeriod d + c) = b.getLsbD k := by
  rw [lineLevel_bit hc]
  exact if_pos hk

theorem lineLevel_stop (hτ : 9 * bitPeriod d ≤ τ) : lineLevel d b τ = true := by
  have past : 9 ≤ τ / bitPeriod d := (Nat.le_div_iff_mul_le (by simp [bitPeriod])).mpr hτ
  rw [lineLevel]
  split
  · omega
  · rw [if_neg (by omega)]

/-! ## The transmitter -/

/-- The engine at tick `τ` of the frame of `b`. -/
inductive Sending (d : BitVec 16) (b : BitVec 8) (τ : ℕ) (t : TxQ) : Prop
  | start (state : t.state = .START) (shift : t.shift = b) (txd : t.txd = false) (cnt : t.baudCnt.toNat ≤ d.toNat)
      (tick : τ = t.baudCnt.toNat)
  | data (state : t.state = .DATA) (shift : t.shift = b >>> t.bitCnt.toNat) (txd : t.txd = b.getLsbD t.bitCnt.toNat)
      (cnt : t.baudCnt.toNat ≤ d.toNat) (tick : τ = (t.bitCnt.toNat + 1) * bitPeriod d + t.baudCnt.toNat)
  | stop (state : t.state = .STOP) (txd : t.txd = true) (cnt : t.baudCnt.toNat ≤ d.toNat)
      (tick : τ = 9 * bitPeriod d + t.baudCnt.toNat)

/-- The engine between two frames. -/
structure Quiet (t : TxQ) : Prop where
  state : t.state = .IDLE
  txd : t.txd = true

/-- Below the divisor a counter steps, whatever its width. -/
theorem count_up {c : BitVec 16} (below : c.toNat < d.toNat) : (c + 1).toNat = c.toNat + 1 := by
  have := d.isLt
  have one : (1 : BitVec 16).toNat = 1 := rfl
  rw [BitVec.toNat_add, one]
  omega

theorem bit_up {k : BitVec 3} (more : k ≠ 7) : (k + 1).toNat = k.toNat + 1 := by
  have below : k.toNat ≠ 7 := fun h => more (BitVec.eq_of_toNat_eq h)
  have one : (1 : BitVec 3).toNat = 1 := rfl
  rw [BitVec.toNat_add, one]
  omega

namespace TxQ

variable {t : TxQ} {head : Option (BitVec 8)}

theorem tick_iff : t.tick d = true ↔ t.baudCnt.toNat = d.toNat := by
  rw [tick, beq_iff_eq, BitVec.toNat_eq]

theorem next_wait (busy : t.state ≠ .IDLE) (wait : t.tick d = false) :
    t.next d head = { t with baudCnt := t.baudCnt + 1 } := by
  cases state : t.state with
  | IDLE => exact absurd state busy
  | START => simp [next, state, wait]
  | DATA => simp [next, state, wait]
  | STOP => simp [next, state, wait]

theorem next_start (state : t.state = .START) (tick : t.tick d = true) :
    t.next d head = { t with baudCnt := 0, state := .DATA, bitCnt := 0, txd := t.shift.getLsbD 0 } := by
  simp [next, state, tick]

theorem next_data (state : t.state = .DATA) (tick : t.tick d = true) (more : t.bitCnt ≠ 7) :
    t.next d head =
      { t with baudCnt := 0, bitCnt := t.bitCnt + 1, shift := t.shift >>> 1, txd := t.shift.getLsbD 1 } := by
  simp [next, state, tick, show t.bitCnt ≠ 7#3 from more]

theorem next_last (state : t.state = .DATA) (tick : t.tick d = true) (last : t.bitCnt = 7) :
    t.next d head = { t with baudCnt := 0, state := .STOP, txd := true } := by
  simp [next, state, tick, show t.bitCnt = 7#3 from last]

theorem next_stop (state : t.state = .STOP) (tick : t.tick d = true) :
    t.next d head = { t with baudCnt := 0, state := .IDLE } := by
  simp [next, state, tick]

end TxQ

theorem Sending.line {t : TxQ} (h : Sending d b τ t) : t.txd = lineLevel d b τ := by
  cases h with
  | start state shift txd cnt tick => rw [tick, lineLevel_start cnt, txd]
  | data state shift txd cnt tick => rw [tick, lineLevel_data t.bitCnt.isLt cnt, txd]
  | stop state txd cnt tick => rw [tick, lineLevel_stop (by omega), txd]

theorem Quiet.next {t : TxQ} (h : Quiet t) : Quiet (t.next d none) := by
  constructor
  · simp [TxQ.next, h.state]
  · simp [TxQ.next, h.state, h.txd]

theorem Quiet.pop {t : TxQ} (h : Quiet t) : Sending d b 0 (t.next d (some b)) := by
  have next : t.next d (some b) = { t with baudCnt := 0, shift := b, state := .START, txd := false } := by
    simp [TxQ.next, h.state]
  rw [next]
  exact .start rfl rfl rfl (Nat.zero_le _) rfl

/-- A tick inside a bit. -/
theorem Sending.waits {t : TxQ} (h : Sending d b τ t) (head : Option (BitVec 8)) (wait : t.tick d = false) :
    τ + 1 < 10 * bitPeriod d ∧ Sending d b (τ + 1) (t.next d head) := by
  have period : bitPeriod d = d.toNat + 1 := rfl
  have below : t.baudCnt.toNat ≠ d.toNat := fun h' => by simp [TxQ.tick_iff.mpr h'] at wait
  cases h with
  | start state shift txd cnt tick =>
    have up := count_up (d := d) (c := t.baudCnt) (by omega)
    rw [TxQ.next_wait (by simp [state]) wait]
    exact ⟨by omega, .start state shift txd (by rw [up]; omega) (by rw [up, tick])⟩
  | data state shift txd cnt tick =>
    have up := count_up (d := d) (c := t.baudCnt) (by omega)
    have room : (t.bitCnt.toNat + 1) * bitPeriod d ≤ 8 * bitPeriod d :=
      Nat.mul_le_mul_right _ t.bitCnt.isLt
    rw [TxQ.next_wait (by simp [state]) wait]
    exact ⟨by omega, .data state shift txd (by rw [up]; omega) (by rw [up, tick, Nat.add_assoc])⟩
  | stop state txd cnt tick =>
    have up := count_up (d := d) (c := t.baudCnt) (by omega)
    rw [TxQ.next_wait (by simp [state]) wait]
    exact ⟨by omega, .stop state txd (by rw [up]; omega) (by rw [up, tick, Nat.add_assoc])⟩

/-- The tick that ends a data bit. -/
theorem Sending.shifts {t : TxQ} (head : Option (BitVec 8)) (full : t.tick d = true) (state : t.state = .DATA)
    (shift : t.shift = b >>> t.bitCnt.toNat)
    (tick : τ = (t.bitCnt.toNat + 1) * bitPeriod d + d.toNat) : Sending d b (τ + 1) (t.next d head) := by
  have period : bitPeriod d = d.toNat + 1 := rfl
  by_cases last : t.bitCnt = 7
  · rw [TxQ.next_last state full last]
    refine .stop rfl rfl (Nat.zero_le _) ?_
    have seven : t.bitCnt.toNat = 7 := by rw [last]; rfl
    simp only [BitVec.ofNat_eq_ofNat, BitVec.toNat_zero, tick, seven]
    omega
  · have up := bit_up last
    rw [TxQ.next_data state full last]
    refine .data state ?_ ?_ (Nat.zero_le _) ?_
    · simp only [up]
      rw [shift, BitVec.shiftRight_add]
    · simp only [up]
      rw [shift, BitVec.getLsbD_ushiftRight, Nat.add_comm]
    · simp only [up]
      simp only [BitVec.ofNat_eq_ofNat, BitVec.toNat_zero, tick, Nat.add_mul]
      omega

/-- One edge is one tick; the last one ends the frame. -/
theorem Sending.next {t : TxQ} (h : Sending d b τ t) (head : Option (BitVec 8)) :
    if τ + 1 < 10 * bitPeriod d then Sending d b (τ + 1) (t.next d head) else Quiet (t.next d head) := by
  have period : bitPeriod d = d.toNat + 1 := rfl
  cases wait : t.tick d with
  | false =>
    obtain ⟨inside, more⟩ := h.waits head wait
    rw [if_pos inside]
    exact more
  | true =>
    have full : t.baudCnt.toNat = d.toNat := TxQ.tick_iff.mp wait
    cases h with
    | start state shift txd cnt tick =>
      rw [if_pos (by omega), TxQ.next_start state wait]
      refine .data rfl (by simp [shift]) (by simp [shift]) (Nat.zero_le _) ?_
      simp only [BitVec.ofNat_eq_ofNat, BitVec.toNat_zero]
      omega
    | data state shift txd cnt tick =>
      have room : (t.bitCnt.toNat + 1) * bitPeriod d ≤ 8 * bitPeriod d :=
        Nat.mul_le_mul_right _ t.bitCnt.isLt
      rw [if_pos (by omega)]
      exact Sending.shifts head wait state shift (by rw [tick, full])
    | stop state txd cnt tick =>
      rw [if_neg (by omega), TxQ.next_stop state wait]
      exact ⟨rfl, txd⟩

/-! ## The receiver -/

/-- `rx_half_div` as a number. -/
def halfPeriod (d : BitVec 16) : ℕ := d.toNat / 2

/-- The sample, half a divisor and the cycle of detection into the bit, is inside it. -/
theorem half_le (pos : d ≠ 0) : 1 + halfPeriod d ≤ d.toNat := by
  have nonzero : d.toNat ≠ 0 := fun h => pos (BitVec.eq_of_toNat_eq h)
  simp only [halfPeriod]
  omega

/-- The engine while the line it sees is at tick `τ` of the frame of `b`. -/
inductive Receiving (d : BitVec 16) (b : BitVec 8) (τ : ℕ) (r : RxQ) : Prop
  | falling (state : r.state = .IDLE) (tick : τ = 0)
  | start (state : r.state = .START) (cnt : r.cnt.toNat ≤ halfPeriod d) (tick : τ = 1 + r.cnt.toNat)
  | data (state : r.state = .DATA) (cnt : r.cnt.toNat ≤ d.toNat)
      (bits : ∀ j < r.bitCnt.toNat, r.shift.getLsbD (8 - r.bitCnt.toNat + j) = b.getLsbD j)
      (tick : τ = 2 + halfPeriod d + r.bitCnt.toNat * bitPeriod d + r.cnt.toNat)
  | stop (state : r.state = .STOP) (cnt : r.cnt.toNat ≤ d.toNat) (shift : r.shift = b)
      (tick : τ = 2 + halfPeriod d + 8 * bitPeriod d + r.cnt.toNat)
  | past (state : r.state = .IDLE) (tick : 2 + halfPeriod d + 9 * bitPeriod d ≤ τ)

namespace RxQ

variable {r : RxQ} {rxd : Bool}

theorem halfDiv_toNat : (halfDiv d).toNat = halfPeriod d := by
  have fits := d.isLt
  have zero : (0#1).toNat = 0 := rfl
  rw [halfDiv, halfPeriod, BitVec.toNat_append_eq, BitVec.extractLsb_toNat, zero]
  omega

theorem next_falling (state : r.state = .IDLE) : r.next d false = { r with cnt := 0, state := .START } := by
  simp [next, state]

theorem next_high (state : r.state = .IDLE) : (r.next d true).state = .IDLE := by
  simp [next, state]

theorem next_start_wait (state : r.state = .START) (wait : r.cnt ≠ halfDiv d) :
    r.next d rxd = { r with cnt := r.cnt + 1 } := by
  simp [next, state, wait]

theorem next_start (state : r.state = .START) (half : r.cnt = halfDiv d) :
    r.next d false = { r with cnt := 0, state := .DATA, bitCnt := 0 } := by
  simp [next, state, half]

theorem next_data_wait (state : r.state = .DATA) (wait : r.cnt ≠ d) : r.next d rxd = { r with cnt := r.cnt + 1 } := by
  simp [next, state, wait]

theorem next_data (state : r.state = .DATA) (full : r.cnt = d) (more : r.bitCnt ≠ 7) :
    r.next d rxd =
      { r with cnt := 0, shift := BitVec.ofBool rxd ++ r.shift.extractLsb 7 1, bitCnt := r.bitCnt + 1 } := by
  simp [next, state, full, show r.bitCnt ≠ 7#3 from more]

theorem next_last (state : r.state = .DATA) (full : r.cnt = d) (last : r.bitCnt = 7) :
    r.next d rxd = { r with cnt := 0, shift := BitVec.ofBool rxd ++ r.shift.extractLsb 7 1, state := .STOP } := by
  simp [next, state, full, show r.bitCnt = 7#3 from last]

theorem next_stop_wait (state : r.state = .STOP) (wait : r.cnt ≠ d) : r.next d rxd = { r with cnt := r.cnt + 1 } := by
  simp [next, state, wait]

theorem next_stop (state : r.state = .STOP) (full : r.cnt = d) :
    r.next d rxd = { r with cnt := 0, state := .IDLE } := by
  simp [next, state, full]

end RxQ

/-- A sampled bit goes in on top, the others one down. -/
theorem getLsbD_shifted {s : BitVec 8} {v : Bool} {j : ℕ} :
    BitVec.getLsbD (BitVec.ofBool v ++ s.extractLsb 7 1 : BitVec 8) j =
      if j < 7 then s.getLsbD (j + 1) else decide (j = 7) && v := by
  rw [BitVec.getLsbD_append, BitVec.getLsbD_ofBool, BitVec.getLsbD_extractLsb]
  by_cases hj : j < 7
  · simp [hj, Nat.add_comm]
  · simp [hj, show j - 7 = 0 ↔ j = 7 by omega]

/-- With `k` bits in place, the next one takes its place behind them. -/
theorem bits_sampled {s b : BitVec 8} {k : ℕ} (room : k < 8)
    (bits : ∀ j < k, s.getLsbD (8 - k + j) = b.getLsbD j) (j : ℕ) (hj : j < k + 1) :
    BitVec.getLsbD (BitVec.ofBool (b.getLsbD k) ++ s.extractLsb 7 1 : BitVec 8) (8 - (k + 1) + j) = b.getLsbD j := by
  rw [getLsbD_shifted]
  by_cases old : j < k
  · rw [if_pos (by omega), ← bits j old]
    congr 1
    omega
  · obtain rfl : j = k := by omega
    have top : 8 - (j + 1) + j = 7 := by omega
    rw [top, if_neg (by omega), decide_eq_true rfl, Bool.true_and]

namespace Receiving

variable {r : RxQ}

/-- In the start bit the engine waits for its middle. -/
theorem start_next (pos : d ≠ 0) (state : r.state = .START) (cnt : r.cnt.toNat ≤ halfPeriod d)
    (tick : τ = 1 + r.cnt.toNat) : Receiving d b (τ + 1) (r.next d (lineLevel d b τ)) := by
  have half := half_le pos
  by_cases full : r.cnt = RxQ.halfDiv d
  · have sampled : r.cnt.toNat = halfPeriod d := by rw [full, RxQ.halfDiv_toNat]
    rw [lineLevel_start (by omega), RxQ.next_start state full]
    refine .data rfl (Nat.zero_le _) (by simp) ?_
    simp only [BitVec.ofNat_eq_ofNat, BitVec.toNat_zero]
    omega
  · have below : r.cnt.toNat ≠ halfPeriod d := by
      rw [← RxQ.halfDiv_toNat]
      exact fun h => full (BitVec.eq_of_toNat_eq h)
    have up := count_up (d := d) (c := r.cnt) (by omega)
    rw [RxQ.next_start_wait state full]
    exact .start state (by rw [up]; omega) (by rw [up, tick]; omega)

/-- The tick at which a data bit is sampled. -/
theorem sample_next (pos : d ≠ 0) (state : r.state = .DATA) (full : r.cnt = d)
    (bits : ∀ j < r.bitCnt.toNat, r.shift.getLsbD (8 - r.bitCnt.toNat + j) = b.getLsbD j)
    (tick : τ = 2 + halfPeriod d + r.bitCnt.toNat * bitPeriod d + d.toNat) :
    Receiving d b (τ + 1) (r.next d (lineLevel d b τ)) := by
  have period : bitPeriod d = d.toNat + 1 := rfl
  have half := half_le pos
  have level : lineLevel d b τ = b.getLsbD r.bitCnt.toNat := by
    have at' : τ = (r.bitCnt.toNat + 1) * bitPeriod d + (1 + halfPeriod d) := by
      rw [tick, Nat.add_mul]
      omega
    rw [at', lineLevel_data r.bitCnt.isLt half]
  have sampled := bits_sampled r.bitCnt.isLt bits
  rw [level]
  by_cases last : r.bitCnt = 7
  · have seven : r.bitCnt.toNat = 7 := by rw [last]; rfl
    rw [seven] at sampled
    rw [RxQ.next_last state full last]
    refine .stop rfl (Nat.zero_le _) ?_ ?_
    · apply BitVec.eq_of_getLsbD_eq
      intro j hj
      have whole := sampled j hj
      rw [show 8 - (7 + 1) + j = j by omega] at whole
      rw [seven]
      exact whole
    · simp only [BitVec.ofNat_eq_ofNat, BitVec.toNat_zero, tick, seven]
      omega
  · have up := bit_up last
    rw [RxQ.next_data state full last]
    refine .data state (Nat.zero_le _) ?_ ?_
    · intro j hj
      simp only [up] at hj ⊢
      exact sampled j hj
    · simp only [up]
      simp only [BitVec.ofNat_eq_ofNat, BitVec.toNat_zero, tick, Nat.add_mul]
      omega

/-- One edge is one tick: every sample is taken at `halfPeriod d + 1` into its bit. -/
theorem next (h : Receiving d b τ r) (pos : d ≠ 0) : Receiving d b (τ + 1) (r.next d (lineLevel d b τ)) := by
  cases h with
  | falling state tick =>
    rw [tick, lineLevel_start (Nat.zero_le _), RxQ.next_falling state]
    exact .start rfl (Nat.zero_le _) rfl
  | start state cnt tick => exact start_next pos state cnt tick
  | data state cnt bits tick =>
    by_cases full : r.cnt = d
    · exact sample_next pos state full bits (by rw [tick, full])
    · have below : r.cnt.toNat ≠ d.toNat := fun h => full (BitVec.eq_of_toNat_eq h)
      have up := count_up (d := d) (c := r.cnt) (by omega)
      rw [RxQ.next_data_wait state full]
      exact .data state (by rw [up]; omega) bits (by simp only [up, tick]; omega)
  | stop state cnt shift tick =>
    by_cases full : r.cnt = d
    · rw [RxQ.next_stop state full]
      refine .past rfl ?_
      rw [tick, full]
      simp only [bitPeriod]
      omega
    · have below : r.cnt.toNat ≠ d.toNat := fun h => full (BitVec.eq_of_toNat_eq h)
      have up := count_up (d := d) (c := r.cnt) (by omega)
      rw [RxQ.next_stop_wait state full]
      exact .stop state (by rw [up]; omega) shift (by rw [up, tick]; omega)
  | past state tick =>
    rw [lineLevel_stop (by simp only [bitPeriod] at tick ⊢; omega)]
    exact .past (RxQ.next_high state) (by omega)

end Receiving

/-- The tick at which a frame completes. -/
def doneTick (d : BitVec 16) : ℕ := 1 + halfPeriod d + 9 * bitPeriod d

theorem Receiving.ends {r : RxQ} (h : Receiving d b τ r) (past : 10 * bitPeriod d ≤ τ) (pos : d ≠ 0) :
    r.state = .IDLE := by
  have period : bitPeriod d = d.toNat + 1 := rfl
  have half := half_le pos
  cases h with
  | falling state tick => exact state
  | start state cnt tick => omega
  | data state cnt bits tick =>
    have room : r.bitCnt.toNat * bitPeriod d ≤ 7 * bitPeriod d :=
      Nat.mul_le_mul_right _ (by have := r.bitCnt.isLt; omega)
    omega
  | stop state cnt shift tick => omega
  | past state tick => exact state

/-- The frame that is done is the byte's, at its tick and no other. -/
theorem Receiving.frameDone {r : RxQ} (h : Receiving d b τ r) :
    (if r.frameDone d then [r.shift] else []) = if τ = doneTick d then [b] else [] := by
  have period : bitPeriod d = d.toNat + 1 := rfl
  cases h with
  | falling state tick => rw [if_neg (by simp [RxQ.frameDone, state]), if_neg (by rw [doneTick]; omega)]
  | start state cnt tick => rw [if_neg (by simp [RxQ.frameDone, state]), if_neg (by rw [doneTick]; omega)]
  | data state cnt bits tick =>
    have room : r.bitCnt.toNat * bitPeriod d ≤ 7 * bitPeriod d :=
      Nat.mul_le_mul_right _ (by have := r.bitCnt.isLt; omega)
    rw [if_neg (by simp [RxQ.frameDone, state]), if_neg (by rw [doneTick]; omega)]
  | stop state cnt shift tick =>
    by_cases full : r.cnt = d
    · rw [if_pos (by simp [RxQ.frameDone, state, full]), shift, if_pos (by rw [tick, full, doneTick]; omega)]
    · have below : r.cnt.toNat ≠ d.toNat := fun h => full (BitVec.eq_of_toNat_eq h)
      rw [if_neg (by simp [RxQ.frameDone, full]), if_neg (by rw [tick, doneTick]; omega)]
  | past state tick => rw [if_neg (by simp [RxQ.frameDone, state]), if_neg (by rw [doneTick]; omega)]

/-! ## The two instances -/

/-- Where the transmitter is in the frame on the line. -/
def TxAt (d : BitVec 16) : Option (BitVec 8 × ℕ) → TxQ → Prop
  | none, t => Quiet t
  | some (b, τ), t => Sending d b τ t

/-- Where the receiver is in the frame it sees. -/
def RxAt (d : BitVec 16) : Option (BitVec 8 × ℕ) → RxQ → Prop
  | none, r => r.state = .IDLE
  | some (b, τ), r => Receiving d b τ r

namespace UartQ

variable {u v : UartParams}

/-- The byte pulled from the FIFO in a cycle, if any. -/
def txPull (q : UartQ u) : Option (BitVec 8) := if q.txFifoPop then some q.txFifoHead else none

/-- The byte whose frame the transmitter begins. -/
def shipped (q : UartQ u) (_ : UartIn) : List (BitVec 8) := q.txPull.toList

/-- The byte whose frame the receiver completes. -/
def received (q : UartQ u) (_ : UartIn) : List (BitVec 8) := if q.rxFrameDone then [q.rx.shift] else []

/-- The cycles from the pull of a byte to the end of its frame at the other end. -/
def latency (d : BitVec 16) (delay : ℕ) : ℕ := doneTick d + 1 + delay

section Line

variable {A : ℕ → UartQ u} {aIns : ℕ → UartIn} {B : ℕ → UartQ v} {bIns : ℕ → UartIn} {delay n : ℕ}

/-- The frame on the transmitter's line. -/
def onLine (d : BitVec 16) (A : ℕ → UartQ u) : ℕ → Option (BitVec 8 × ℕ) :=
  Clocked.frame (10 * bitPeriod d) fun n => (A n).txPull

theorem onLine_none (idle : onLine d A n = none) : onLine d A (n + 1) = (A n).txPull.map fun b => (b, 0) :=
  Clocked.frame_none idle

theorem onLine_some (busy : onLine d A n = some (b, τ)) :
    onLine d A (n + 1) = if τ + 1 < 10 * bitPeriod d then some (b, τ + 1) else none :=
  Clocked.frame_some busy

theorem tx_at (aRun : ∀ n, A (n + 1) = (A n).next (aIns n)) (aDiv : ∀ n, (A n).div = d) (aStart : Quiet (A 0).tx) :
    TxAt d (onLine d A n) (A n).tx := by
  induction n with
  | zero => exact aStart
  | succ n ih =>
    have step : (A (n + 1)).tx = (A n).tx.next d (A n).txPull := by
      rw [aRun, next_tx, aDiv]
      rfl
    rw [step]
    cases h : onLine d A n with
    | none =>
      rw [h] at ih
      rw [onLine_none h]
      cases (A n).txPull with
      | none => exact ih.next
      | some b => exact ih.pop
    | some x =>
      obtain ⟨b, τ⟩ := x
      rw [h] at ih
      have next := ih.next (A n).txPull
      rw [onLine_some h]
      split
      · rwa [if_pos ‹_›] at next
      · rwa [if_neg ‹_›] at next

/-- What the transmitter ships is what the line takes. -/
theorem shipped_eq (at' : TxAt d (onLine d A n) (A n).tx) :
    (A n).shipped (aIns n) = Clocked.taken (10 * bitPeriod d) (fun n => (A n).txPull) n := by
  rw [Clocked.taken]
  split
  · rfl
  · rename_i busy
    have pull : (A n).txPull = none := by
      cases h : onLine d A n with
      | none => exact absurd h busy
      | some x =>
        obtain ⟨b, τ⟩ := x
        rw [h] at at'
        have state : (A n).tx.state ≠ .IDLE := by
          cases at' <;> simp [*]
        rw [txPull, if_neg]
        simp [txFifoPop, TxQ.idle, state]
    rw [shipped, pull]
    rfl

theorem rx_early (bRun : ∀ n, B (n + 1) = (B n).next (bIns n)) (bStart : (B 0).rx.state = .IDLE)
    (before : ∀ n < delay, (bIns n).rxd = true) (hn : n ≤ delay) : (B n).rx.state = .IDLE := by
  induction n with
  | zero => exact bStart
  | succ n ih =>
    rw [bRun, next_rx, before n (by omega)]
    exact RxQ.next_high (ih (by omega))

theorem rx_at (pos : d ≠ 0) (at' : ∀ n, TxAt d (onLine d A n) (A n).tx)
    (bRun : ∀ n, B (n + 1) = (B n).next (bIns n)) (bDiv : ∀ n, (B n).div = d) (bStart : (B delay).rx.state = .IDLE)
    (line : ∀ n, (bIns (n + delay)).rxd = (A n).txd) : RxAt d (onLine d A n) (B (n + delay)).rx := by
  induction n with
  | zero =>
    rw [Nat.zero_add]
    exact bStart
  | succ n ih =>
    have step : (B (n + 1 + delay)).rx = (B (n + delay)).rx.next d (A n).txd := by
      rw [Nat.add_right_comm, bRun, next_rx, bDiv, line]
    have sent := at' n
    rw [step, txd]
    cases h : onLine d A n with
    | none =>
      rw [h] at ih sent
      rw [onLine_none h, sent.txd]
      have idle := RxQ.next_high (d := d) ih
      cases (A n).txPull with
      | none => exact idle
      | some b => exact .falling idle rfl
    | some x =>
      obtain ⟨b, τ⟩ := x
      rw [h] at ih sent
      have next := ih.next pos
      rw [onLine_some h, sent.line]
      split
      · exact next
      · exact next.ends (by omega) pos

/-- What the receiver completes is what it reads off the line at `doneTick`. -/
theorem received_eq (bDiv : ∀ n, (B n).div = d) (at' : RxAt d (onLine d A n) (B (n + delay)).rx) :
    (B (n + delay)).received (bIns (n + delay)) = Clocked.readAt (doneTick d) (onLine d A n) := by
  rw [received, rxFrameDone, bDiv]
  cases h : onLine d A n with
  | none =>
    rw [h] at at'
    rw [if_neg (by simp [RxQ.frameDone, show (B (n + delay)).rx.state = .IDLE from at'])]
    rfl
  | some x =>
    obtain ⟨b, τ⟩ := x
    rw [h] at at'
    exact at'.frameDone

end Line

/-- A receiver that sees the transmitter's line `delay` cycles later completes, `latency`
cycles after each byte is pulled from the transmitter's FIFO, one frame with that byte,
and no other frame. -/
theorem round_trip (a : UartQ u) (b : UartQ v) (aIns bIns : ℕ → UartIn) (delay : ℕ) (d : BitVec 16) (pos : d ≠ 0) :
    let A := Clocked.run next a aIns
    let B := Clocked.run next b bIns
    (∀ n, (A n).div = d) → (∀ n, (B n).div = d) →
    a.tx.state = .IDLE → a.tx.txd = true → b.rx.state = .IDLE →
    (∀ n, (bIns n).rxd = if n < delay then true else (A (n - delay)).txd) →
    (∀ n, (B (n + latency d delay)).received (bIns (n + latency d delay)) = (A n).shipped (aIns n)) ∧
      (∀ n < latency d delay, (B n).received (bIns n) = []) ∧
      ∀ n, Clocked.log next received b bIns (n + latency d delay) = Clocked.log next shipped a aIns n := by
  intro A B aDiv bDiv aIdle aHigh bIdle line
  have before : ∀ n < delay, (bIns n).rxd = true := fun n hn => by rw [line, if_pos hn]
  have after : ∀ n, (bIns (n + delay)).rxd = (A n).txd := fun n => by
    rw [line, if_neg (by omega), Nat.add_sub_cancel]
  have early : ∀ n ≤ delay, (B n).rx.state = .IDLE := fun n hn => rx_early (fun _ => rfl) bIdle before hn
  have sent : ∀ n, TxAt d (onLine d A n) (A n).tx := fun n => tx_at (fun _ => rfl) aDiv ⟨aIdle, aHigh⟩
  have read : ∀ n, (B (n + delay)).received (bIns (n + delay)) = Clocked.readAt (doneTick d) (onLine d A n) :=
    fun n => received_eq bDiv (rx_at pos sent (fun _ => rfl) bDiv (early delay le_rfl) after)
  have inFrame : doneTick d < 10 * bitPeriod d := by
    have half := half_le pos
    simp only [doneTick, bitPeriod]
    omega
  have late : ∀ n, (B (n + latency d delay)).received (bIns (n + latency d delay)) = (A n).shipped (aIns n) := by
    intro n
    have shift : n + latency d delay = n + 1 + doneTick d + delay := by
      rw [latency]
      omega
    rw [shift, read, onLine, Clocked.readAt_eq_taken inFrame, shipped_eq (sent n)]
  have quiet : ∀ n < latency d delay, (B n).received (bIns n) = [] := by
    intro n hn
    by_cases hd : n < delay
    · rw [received, if_neg]
      simp [rxFrameDone, RxQ.frameDone, early n (by omega)]
    · have shift : n = n - delay + delay := by omega
      rw [shift, read]
      apply Clocked.readAt_early
      rw [latency] at hn
      omega
  exact ⟨late, quiet, Clocked.log_delayed quiet late⟩

/-- Without a write address nothing changes the divisor. -/
theorem div_kept {q : UartQ u} {ins : ℕ → UartIn} (silent : ∀ n, (ins n).axi.awvalid = false) (seen : q.awSeen = false)
    (clear : q.divPendingValid = false) (n : ℕ) : (Clocked.run next q ins n).div = q.div := by
  have kept : ∀ n, (Clocked.run next q ins n).awSeen = false ∧ (Clocked.run next q ins n).divPendingValid = false ∧
      (Clocked.run next q ins n).div = q.div := by
    intro n
    induction n with
    | zero => exact ⟨seen, clear, rfl⟩
    | succ n ih =>
      obtain ⟨seen, clear, div⟩ := ih
      have noHs : (Clocked.run next q ins n).awHs (ins n) = false := by simp [awHs, silent n]
      have noWrite : (Clocked.run next q ins n).doWrite (ins n) = false := by simp [doWrite, awPresent, seen, noHs]
      rw [Clocked.run_succ]
      refine ⟨?_, ?_, ?_⟩
      · simp [next, noWrite, seen, noHs]
      · simp [bauddivWrite, noWrite, clear]
      · simp [divApply, clear, div]
  exact (kept n).2.2

/-- One letter at the smallest divisor, over a line of three cycles. -/
theorem round_trip_letter :
    let a := { blank tb with div := 1, txWptr := 1, txFifo := fun _ => 0x41 }
    let b := { blank tb with div := 1 }
    let idle : ℕ → UartIn := fun _ => { axi := {}, rxd := true }
    let bIns : ℕ → UartIn := fun n =>
      { axi := {}, rxd := if n < 3 then true else (Clocked.run next a idle (n - 3)).txd }
    Clocked.log next received b bIns (2 + latency 1 3) = [0x41] := by
  intro a b idle bIns
  have trip := round_trip a b idle bIns 3 1 (by decide) (div_kept (fun _ => rfl) rfl rfl)
    (div_kept (fun _ => rfl) rfl rfl) rfl rfl rfl (fun _ => rfl)
  rw [trip.2.2 2]
  decide +kernel

end UartQ

end YarvUc

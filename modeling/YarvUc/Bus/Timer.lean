import YarvUc.Bus.Slaves
import YarvUc.Bus.Strobes

/-!
# The timer's compare

`mtip_o` is the 64-bit comparison, two cycles late. Writing the upper compare word to all
ones first keeps every value in between out of the counter's reach.
-/

namespace YarvUc

namespace TimerQ

/-- A write is for one of the words of `mtimecmp`. -/
def compares (w : BitVec 2 × Word) : Bool := w.1 == 2#2 || w.1 == 3#2

/-- The writes to the compare words whose address and data a run from reset has taken, paired in
the order of their channels. -/
def cmpWrites (ins : ℕ → AxiM) (n : ℕ) : List (BitVec 2 × Word) :=
  ((Clocked.log next (fun q i => if q.awHs i then [i.awaddr.extractLsb 3 2] else []) reset ins n).zip
    (Clocked.log next (fun q i => if q.wHs i then [i.wdata] else []) reset ins n)).filter compares

/-- The documented order: the upper word to all ones, the lower word, the upper word. -/
def update (new : BitVec 64) : List (BitVec 2 × Word) :=
  [(3#2, 0xFFFFFFFF#32), (2#2, new.extractLsb 31 0), (3#2, new.extractLsb 63 32)]

variable {q : TimerQ} {i : AxiM}

/-! ## The comparison -/

theorem toNat_halves (v : BitVec 64) :
    v.toNat = (v.extractLsb 63 32).toNat * 2 ^ 32 + (v.extractLsb 31 0).toNat := by
  have lt := v.isLt
  simp only [BitVec.extractLsb_toNat, Nat.shiftRight_eq_div_pow]
  omega

/-- The two stages come to one comparison. -/
theorem compare_halves (cmp time : BitVec 64) :
    (decide (cmp.extractLsb 63 32 < time.extractLsb 63 32) ||
        (time.extractLsb 63 32 == cmp.extractLsb 63 32 && decide (cmp.extractLsb 31 0 ≤ time.extractLsb 31 0))) =
      decide (cmp ≤ time) := by
  have hc := toNat_halves cmp
  have ht := toNat_halves time
  have lc := (cmp.extractLsb 31 0).isLt
  have lt := (time.extractLsb 31 0).isLt
  rw [Bool.eq_iff_iff]
  simp only [Bool.or_eq_true, Bool.and_eq_true, decide_eq_true_eq, beq_iff_eq, BitVec.lt_def, BitVec.le_def,
    ← BitVec.toNat_inj]
  simp only [Nat.reduceSub, Nat.reduceAdd] at hc ht lc lt ⊢
  omega

/-- `mtip_o`, two cycles late. -/
theorem mtip_two (q : TimerQ) (i j : AxiM) : ((q.next i).next j).mtip = decide (q.mtimecmp ≤ q.mtime) :=
  compare_halves q.mtimecmp q.mtime

/-! ## The compare register -/

/-- Other words leave the compare value alone. -/
theorem foldl_compares (cmp : BitVec 64) (ws : List (BitVec 2 × Word)) :
    ws.foldl store cmp = (ws.filter compares).foldl store cmp := by
  induction ws generalizing cmp with
  | nil => rfl
  | cons w ws ih =>
    rw [List.foldl_cons, ih, List.filter_cons]
    by_cases lo : w.1 = 2#2
    · simp [compares, lo]
    · by_cases hi : w.1 = 3#2
      · simp [compares, hi]
      · simp [compares, store, lo, hi]

/-- The compare value is what the writes on the port have made it. -/
theorem mtimecmp_run (ins : ℕ → AxiM) (n : ℕ) :
    (Clocked.run next reset ins n).mtimecmp = (cmpWrites ins n).foldl store (BitVec.allOnes 64) := by
  have stored : (Clocked.run next reset ins n).mtimecmp =
      (slave.writes reset ins n).foldl store (BitVec.allOnes 64) :=
    Clocked.run_foldl mtimecmp store (fun q i => (slave.write q i).toList) (fun _ _ => compare_next) n
  have aws : slave.aws reset ins n =
      Clocked.log next (fun q i => if q.awHs i then [i.awaddr.extractLsb 3 2] else []) reset ins n := by
    unfold Slave.aws
    congr 1
    funext q i
    exact apply_ite Option.toList _ _ _
  have ws : slave.ws reset ins n = Clocked.log next (fun q i => if q.wHs i then [i.wdata] else []) reset ins n := by
    unfold Slave.ws
    congr 1
    funext q i
    exact apply_ite Option.toList _ _ _
  rw [stored, (flagged.ported.inOrder rfl rfl ins n).pairs, aws, ws, foldl_compares]
  rfl

/-- With the upper word all ones the counter stays below. -/
theorem armed_above {cmp time : BitVec 64} (high : cmp.extractLsb 63 32 = 0xFFFFFFFF#32)
    (below : time < 0xFFFFFFFF00000000#64) : ¬ cmp ≤ time := by
  have value := toNat_halves cmp
  rw [high] at value
  rw [BitVec.lt_def] at below
  rw [BitVec.le_def]
  simp only [BitVec.toNat_ofNat] at value below
  omega

/-- Between the first write and the third one the comparison is off. -/
theorem update_quiet {old new time : BitVec 64} {k : ℕ} (more : 0 < k) (less : k < 3)
    (below : time < 0xFFFFFFFF00000000#64) : ¬ ((update new).take k).foldl store old ≤ time := by
  have halves := halves_append
  have other : (3#2 : BitVec 2) ≠ 2#2 := by decide
  rcases show k = 1 ∨ k = 2 by omega with rfl | rfl
  · refine armed_above ?_ below
    simp only [update, List.take_succ_cons, List.take_zero, List.foldl_cons, List.foldl_nil, store, other, if_true,
      if_false]
    exact (halves _ _).2
  · refine armed_above ?_ below
    simp only [update, List.take_succ_cons, List.take_zero, List.foldl_cons, List.foldl_nil, store, other, if_true,
      if_false]
    rw [(halves _ _).2, (halves _ _).2]

/-- All three writes leave the new value. -/
theorem update_done (old new : BitVec 64) : (update new).foldl store old = new := by
  have halves := halves_append
  have other : (3#2 : BitVec 2) ≠ 2#2 := by decide
  simp only [update, List.foldl_cons, List.foldl_nil, store, other, if_true, if_false]
  rw [(halves _ _).1]
  apply BitVec.eq_of_toNat_eq
  rw [toNat_halves new, BitVec.toNat_append_eq]

/-- The pipelined compare is the plain one, in every run from reset; and the update sequence is
free of glitches. Where the writes to the compare words so far are any earlier ones and then the
first ones of the update to `new`, `mtip_o` two cycles later is set only if none of the update
has committed and the counter has reached the value the earlier ones left, or all three have and
it has reached the new one. -/
theorem timer_compare (ins : ℕ → AxiM) (t : ℕ) :
    let c := Clocked.run next reset ins
    (c (t + 2)).mtip = decide ((c t).mtimecmp ≤ (c t).mtime) ∧
      (c t).mtime = BitVec.ofNat 64 t ∧ (c t).mtimecmp = (cmpWrites ins t).foldl store (BitVec.allOnes 64) ∧
      ∀ (earlier part : List (BitVec 2 × Word)) (new : BitVec 64),
        cmpWrites ins t = earlier ++ part → part <+: update new →
          (part ≠ [] → part ≠ update new → (c t).mtime < 0xFFFFFFFF00000000#64) →
            (c (t + 2)).mtip = true →
              part = [] ∧ earlier.foldl store (BitVec.allOnes 64) ≤ (c t).mtime ∨
                part = update new ∧ new ≤ (c t).mtime := by
  intro c
  have compare : (c (t + 2)).mtip = decide ((c t).mtimecmp ≤ (c t).mtime) := mtip_two (c t) (ins t) (ins (t + 1))
  refine ⟨compare, mtime_run ins t, mtimecmp_run ins t, ?_⟩
  intro earlier part new writes begun below fires
  rw [compare, decide_eq_true_iff] at fires
  have value : (c t).mtimecmp = part.foldl store (earlier.foldl store (BitVec.allOnes 64)) := by
    rw [← List.foldl_append, ← writes]
    exact mtimecmp_run ins t
  rw [value] at fires
  rw [List.prefix_iff_eq_take] at begun
  by_cases all : part = update new
  · right
    rw [all, update_done] at fires
    exact ⟨all, fires⟩
  · left
    have short : part.length < 3 := by
      have le : part.length ≤ 3 := by
        rw [begun]
        exact List.length_take_le' _ _
      rcases Nat.lt_or_eq_of_le le with lt | eq
      · exact lt
      · rw [eq] at begun
        exact absurd begun all
    rcases Nat.eq_zero_or_pos part.length with none | some
    · have empty : part = [] := List.length_eq_zero_iff.mp none
      rw [empty] at fires
      exact ⟨empty, fires⟩
    · have low := below (List.ne_nil_of_length_pos some) all
      rw [begun] at fires
      exact absurd fires (update_quiet some short low)

/-- The compare value becomes 3 by two writes, and is then updated to 40: the data of the second
write of the update comes before its address. -/
def rearmed (n : ℕ) : AxiM where
  awaddr := if n ∈ [4, 18] then 0x8 else 0xC
  awvalid := n ∈ [2, 4, 12, 18, 22]
  wdata := if n ∈ [2, 22] then 0 else if n = 4 then 3 else if n = 12 then 0xFFFFFFFF else 40
  wvalid := n ∈ [2, 4, 12, 15, 22]
  bready := true

/-- The old value fires before the update, and the new one behind it. -/
theorem timer_compare_rearmed :
    let c := Clocked.run next reset rearmed
    ((c 12).mtip = true ∧ (3#64 : BitVec 64) ≤ (c 10).mtime) ∧ (∀ n < 42, 14 < n → (c n).mtip = false) ∧
      (c 42).mtip = true ∧ (40#64 : BitVec 64) ≤ (c 40).mtime := by
  intro c
  have old := (timer_compare rearmed 10).2.2.2 [(3#2, 0), (2#2, 3)] [] 40 (by decide +kernel) (by decide)
    (fun some => absurd rfl some) (by decide +kernel)
  have new := (timer_compare rearmed 40).2.2.2 [(3#2, 0), (2#2, 3)] (update 40) 40 (by decide +kernel)
    (List.prefix_refl _) (fun _ other => absurd rfl other) (by decide +kernel)
  refine ⟨⟨by decide +kernel, ?_⟩, by decide +kernel, by decide +kernel, ?_⟩
  · rcases old with ⟨-, reached⟩ | ⟨other, -⟩
    · exact reached
    · exact absurd other (by decide)
  · rcases new with ⟨other, -⟩ | ⟨-, reached⟩
    · exact absurd other (by decide)
    · exact reached

end TimerQ

end YarvUc

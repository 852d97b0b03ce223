import YarvUc.Clocked.Ring

/-!
# FIFOs whose pointers carry a wrap bit

An array of `2 ^ w` slots under a write and a read pointer of `w + 1` bits: the low bits are
the slot, and the top bits tell a full array from an empty one. `fifoList` reads the
contents off the pointers.
-/

namespace Clocked

universe u

variable {α : Type u} {w : ℕ} {buf : ℕ → α} {wptr rptr : BitVec (w + 1)}

/-- The entries written and not read yet. -/
def occupancy (wptr rptr : BitVec (w + 1)) : ℕ := (wptr - rptr).toNat

/-- The contents, oldest first. -/
def fifoList (buf : ℕ → α) (wptr rptr : BitVec (w + 1)) : List α :=
  ringList (fun s : BitVec w => buf s.toNat) (rptr.setWidth w) (occupancy wptr rptr)

@[simp] theorem length_fifoList : (fifoList buf wptr rptr).length = occupancy wptr rptr := length_ringList _ _ _

theorem occupancy_self (ptr : BitVec (w + 1)) : occupancy ptr ptr = 0 := by
  rw [occupancy, BitVec.sub_self]
  rfl

/-- Equal pointers are an empty array. -/
theorem empty_iff : wptr = rptr ↔ occupancy wptr rptr = 0 := by
  constructor
  · intro same
    rw [same]
    exact occupancy_self rptr
  · intro none
    have zero : wptr - rptr = 0#(w + 1) := BitVec.eq_of_toNat_eq none
    have back : wptr - rptr + rptr = wptr := BitVec.sub_add_cancel wptr rptr
    rw [← back, zero, BitVec.zero_add]

/-- The occupancy in numbers: the pointers differ by it, or by it and a whole turn. -/
theorem occupancy_turn (wptr rptr : BitVec (w + 1)) :
    rptr.toNat + occupancy wptr rptr = wptr.toNat ∨ rptr.toNat + occupancy wptr rptr = wptr.toNat + 2 * 2 ^ w := by
  have sum : (rptr.toNat + occupancy wptr rptr) % 2 ^ (w + 1) = wptr.toNat := by
    rw [occupancy, ← BitVec.toNat_add, BitVec.add_comm, BitVec.sub_add_cancel]
  have small : occupancy wptr rptr < 2 ^ (w + 1) := (wptr - rptr).isLt
  have hr := rptr.isLt
  rw [Nat.pow_succ, Nat.mul_comm] at sum small hr
  rcases Nat.lt_or_ge (rptr.toNat + occupancy wptr rptr) (2 * 2 ^ w) with below | above
  · left
    rw [← sum, Nat.mod_eq_of_lt below]
  · right
    rw [Nat.mod_eq_sub_mod above, Nat.mod_eq_of_lt (by omega)] at sum
    omega

/-- A pointer is its wrap bit and its slot. -/
theorem toNat_wrap (ptr : BitVec (w + 1)) : ptr.toNat = 2 ^ w * (ptr.getLsbD w).toNat + ptr.toNat % 2 ^ w := by
  have bit : (ptr.getLsbD w).toNat = ptr.toNat / 2 ^ w := by
    have lt : ptr.toNat / 2 ^ w < 2 := by
      apply Nat.div_lt_of_lt_mul
      have := ptr.isLt
      rwa [Nat.pow_succ] at this
    rw [BitVec.getLsbD, Nat.testBit_eq_decide_div_mod_eq, Nat.mod_eq_of_lt lt]
    rcases Nat.lt_or_ge (ptr.toNat / 2 ^ w) 1 with zero | one
    · rw [Nat.lt_one_iff.mp zero]
      rfl
    · rw [show ptr.toNat / 2 ^ w = 1 by omega]
      rfl
  rw [bit]
  exact (Nat.div_add_mod _ _).symm

/-- Equal slots under different wrap bits are a full array. -/
theorem full_iff : wptr.getLsbD w ≠ rptr.getLsbD w ∧ wptr.toNat % 2 ^ w = rptr.toNat % 2 ^ w ↔
    occupancy wptr rptr = 2 ^ w := by
  have turn := occupancy_turn wptr rptr
  have small : occupancy wptr rptr < 2 ^ (w + 1) := (wptr - rptr).isLt
  have wtop := toNat_wrap wptr
  have rtop := toNat_wrap rptr
  have pos : 0 < 2 ^ w := Nat.two_pow_pos w
  rw [Nat.pow_succ, Nat.mul_comm] at small
  constructor
  · rintro ⟨wrap, slot⟩
    rw [slot] at wtop
    cases bw : wptr.getLsbD w <;> cases br : rptr.getLsbD w <;> rw [bw] at wtop wrap <;> rw [br] at rtop wrap
    case false.false => exact absurd rfl wrap
    case true.true => exact absurd rfl wrap
    all_goals
      simp only [Bool.toNat_true, Bool.toNat_false] at wtop rtop
      omega
  · intro full
    have slot : wptr.toNat % 2 ^ w = rptr.toNat % 2 ^ w := by
      rcases turn with turn | turn
      · rw [← turn, full, Nat.add_mod_right]
      · have : (wptr.toNat + 2 * 2 ^ w) % 2 ^ w = wptr.toNat % 2 ^ w := Nat.add_mul_mod_self_right _ _ _
        rw [← this, ← turn, full, Nat.add_mod_right]
    refine ⟨fun wrap => ?_, slot⟩
    rw [slot, wrap, ← rtop] at wtop
    omega

/-- The write pointer's slot, counted from the read pointer's. -/
theorem slot_write : wptr.setWidth w = rptr.setWidth w + BitVec.ofNat w (occupancy wptr rptr) := by
  have back : rptr + (wptr - rptr) = wptr := by rw [BitVec.add_comm, BitVec.sub_add_cancel]
  have ofNat : BitVec.ofNat w (occupancy wptr rptr) = (wptr - rptr).setWidth w := by
    apply BitVec.eq_of_toNat_eq
    simp [occupancy]
  rw [ofNat, ← BitVec.setWidth_add _ _ (Nat.le_succ w), back]

theorem occupancy_push (room : occupancy wptr rptr < 2 ^ w) :
    occupancy (wptr + 1) rptr = occupancy wptr rptr + 1 := by
  have shift : wptr + 1 - rptr = wptr - rptr + 1 := by
    rw [BitVec.sub_eq_add_neg, BitVec.sub_eq_add_neg, BitVec.add_assoc, BitVec.add_comm 1, BitVec.add_assoc]
  have double : 2 ^ (w + 1) = 2 * 2 ^ w := by rw [Nat.pow_succ, Nat.mul_comm]
  unfold occupancy at room ⊢
  have one : (1 : BitVec (w + 1)).toNat = 1 := by simp
  rw [shift, BitVec.toNat_add, one, Nat.mod_eq_of_lt (by omega)]

theorem occupancy_pop (some : 0 < occupancy wptr rptr) : occupancy wptr (rptr + 1) + 1 = occupancy wptr rptr := by
  have shift : wptr - (rptr + 1) = wptr - rptr - 1 := by
    simp only [BitVec.sub_eq_add_neg, BitVec.neg_add, BitVec.add_assoc]
  unfold occupancy at some ⊢
  have one : (1 : BitVec (w + 1)).toNat = 1 := by simp
  rw [shift, BitVec.toNat_sub_of_le (by rw [BitVec.le_def, one]; exact some), one]
  omega

/-- A push at the tail appends. -/
theorem fifoList_push (room : occupancy wptr rptr < 2 ^ w) (x : α) :
    fifoList (Function.update buf (wptr.toNat % 2 ^ w) x) (wptr + 1) rptr = fifoList buf wptr rptr ++ [x] := by
  have slot : (fun s : BitVec w => Function.update buf (wptr.toNat % 2 ^ w) x s.toNat) =
      Function.update (fun s : BitVec w => buf s.toNat) (wptr.setWidth w) x := by
    funext s
    by_cases here : s = wptr.setWidth w
    · subst here
      simp
    · have other : s.toNat ≠ wptr.toNat % 2 ^ w := by
        intro same
        apply here
        apply BitVec.eq_of_toNat_eq
        rw [same, BitVec.toNat_setWidth]
      rw [Function.update_of_ne other, Function.update_of_ne here]
  have tail : wptr.setWidth w = rptr.setWidth w + BitVec.ofNat w (occupancy wptr rptr) := slot_write
  rw [fifoList, occupancy_push room, slot, tail, ringList_push _ _ _ _ room]
  rfl

/-- A pop takes the head. -/
theorem fifoList_pop (some : 0 < occupancy wptr rptr) :
    fifoList buf wptr rptr = buf (rptr.toNat % 2 ^ w) :: fifoList buf wptr (rptr + 1) := by
  have step : (rptr + 1).setWidth w = rptr.setWidth w + 1 := by
    rw [BitVec.setWidth_add _ _ (Nat.le_succ w)]
    congr 1
    apply BitVec.eq_of_toNat_eq
    simp
  rw [fifoList, fifoList, ← occupancy_pop some, ringList, step]
  simp

variable (buf) in
/-- One cycle: the head leaves first, so a full array takes an entry in the slot it frees. -/
theorem fifoList_cycle {pop push : Bool} (x : α) (some : pop = true → 0 < occupancy wptr rptr)
    (room : push = true → occupancy wptr rptr - pop.toNat < 2 ^ w) :
    fifoList (if push then Function.update buf (wptr.toNat % 2 ^ w) x else buf) (if push then wptr + 1 else wptr)
        (if pop then rptr + 1 else rptr) =
      (fifoList buf wptr rptr).drop pop.toNat ++ if push then [x] else [] := by
  have popped : fifoList buf wptr (if pop then rptr + 1 else rptr) = (fifoList buf wptr rptr).drop pop.toNat := by
    cases pop with
    | false => rfl
    | true =>
      rw [fifoList_pop (some rfl)]
      rfl
  cases push with
  | false =>
    refine popped.trans ?_
    exact (List.append_nil _).symm
  | true =>
    have left : occupancy wptr (if pop then rptr + 1 else rptr) < 2 ^ w := by
      have length : (fifoList buf wptr (if pop then rptr + 1 else rptr)).length = _ := length_fifoList
      rw [← length, popped, List.length_drop, length_fifoList]
      exact room rfl
    rw [← popped]
    exact fifoList_push left x

end Clocked

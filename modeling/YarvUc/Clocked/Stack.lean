import Mathlib.Data.BitVec
import Mathlib.Logic.Function.Basic

/-!
# Bounded stacks and histories

A stack of at most `2 ^ k` entries kept in a ring: the pointer is the next slot to write, and a
count, which stops at both ends, says how many slots behind it are live. A push on a full stack
lands on the oldest entry; a pop of an empty one moves the pointer and nothing else, so what
the slots hold is read relative to the pointer. `Recent` is a shift register of outcomes.
-/

namespace Clocked

universe u

variable {α : Type u} {k : ℕ}

/-! ## Stacks -/

/-- The `n` entries behind the pointer, last pushed first. -/
def stackList (slots : BitVec k → α) (ptr : BitVec k) : ℕ → List α
  | 0 => []
  | n + 1 => slots (ptr - 1) :: stackList slots (ptr - 1) n

/-- A push that drops what no longer fits. -/
def pushBounded (depth : ℕ) (a : α) (stack : List α) : List α := (a :: stack).take depth

@[simp] theorem length_stackList (slots : BitVec k → α) (ptr : BitVec k) (n : ℕ) :
    (stackList slots ptr n).length = n := by
  induction n generalizing ptr with
  | zero => rfl
  | succ n ih => simp [stackList, ih]

theorem stackList_take (slots : BitVec k → α) (ptr : BitVec k) {n m : ℕ} (le : m ≤ n) :
    (stackList slots ptr n).take m = stackList slots ptr m := by
  induction m generalizing ptr n with
  | zero => rfl
  | succ m ih =>
    obtain ⟨n, rfl⟩ : ∃ j, n = j + 1 := ⟨n - 1, by omega⟩
    rw [stackList, stackList, List.take_succ_cons, ih (ptr - 1) (by omega)]

/-- The slot written next is none of those behind the pointer. -/
theorem stackList_update (slots : BitVec k → α) (ptr : BitVec k) (a : α) {n j : ℕ} (fits : n + j < 2 ^ k) :
    stackList (Function.update slots ptr a) (ptr - BitVec.ofNat k j) n =
      stackList slots (ptr - BitVec.ofNat k j) n := by
  induction n generalizing j with
  | zero => rfl
  | succ n ih =>
    have step : ptr - BitVec.ofNat k j - 1 = ptr - BitVec.ofNat k (j + 1) := by
      rw [BitVec.ofNat_add, BitVec.sub_sub]
      rfl
    have other : ptr - BitVec.ofNat k (j + 1) ≠ ptr := by
      intro same
      have zero : BitVec.ofNat k (j + 1) = 0#k := by
        have back : ptr - (ptr - BitVec.ofNat k (j + 1)) = BitVec.ofNat k (j + 1) := sub_sub_cancel _ _
        rw [← back, same, BitVec.sub_self]
      have := congrArg BitVec.toNat zero
      rw [BitVec.toNat_ofNat, Nat.mod_eq_of_lt (by omega)] at this
      simp at this
    rw [stackList, stackList, step, Function.update_of_ne other, ih (by omega)]

/-- A push on a stack that fits in the ring, or fills it. -/
theorem stackList_push (slots : BitVec k → α) (ptr : BitVec k) (a : α) {n : ℕ} (fits : n ≤ 2 ^ k) :
    stackList (Function.update slots ptr a) (ptr + 1) (if n = 2 ^ k then n else n + 1) =
      pushBounded (2 ^ k) a (stackList slots ptr n) := by
  have grow : ∀ m, m < 2 ^ k →
      stackList (Function.update slots ptr a) (ptr + 1) (m + 1) = a :: stackList slots ptr m := by
    intro m lt
    have back : ptr + 1 - 1 = ptr := BitVec.add_sub_cancel ptr 1
    have rest : stackList (Function.update slots ptr a) ptr m = stackList slots ptr m := by
      simpa using stackList_update (j := 0) slots ptr a lt
    rw [stackList, back, Function.update_self, rest]
  split
  · rename_i full
    obtain ⟨m, rfl⟩ : ∃ m, n = m + 1 := ⟨n - 1, by have := Nat.two_pow_pos k; omega⟩
    rw [grow m (by omega), pushBounded, ← full, List.take_succ_cons, stackList_take _ _ (Nat.le_succ m)]
  · rw [grow n (by omega), pushBounded, List.take_of_length_le]
    rw [List.length_cons, length_stackList]
    omega

/-- A pop, of an empty stack too. -/
theorem stackList_pop (slots : BitVec k → α) (ptr : BitVec k) (n : ℕ) :
    stackList slots (ptr - 1) (n - 1) = (stackList slots ptr n).tail := by
  cases n <;> rfl

/-! ## Histories -/

/-- The newest outcomes, bit 0 the newest, with zeros before the first. -/
def Recent {w : ℕ} (h : BitVec w) (newest : List Bool) : Prop := ∀ j < w, h.getLsbD j = newest.getD j false

theorem Recent.shift {w : ℕ} {h : BitVec (w + 1)} {newest : List Bool} (recent : Recent h newest) (t : Bool) :
    Recent (h.extractLsb' 0 w ++ BitVec.ofBool t) (t :: newest) := by
  intro j hj
  rw [BitVec.getLsbD_append]
  cases j with
  | zero => simp
  | succ j =>
    have inside : j < w := by omega
    simp [inside, recent j (by omega)]

end Clocked

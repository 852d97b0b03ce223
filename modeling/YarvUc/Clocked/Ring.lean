import Mathlib.Data.BitVec
import Mathlib.Logic.Function.Basic

/-!
# Ring buffers with a power-of-two depth

A FIFO kept in an array indexed by a `k`-bit pointer that wraps. `ringList` reads
its contents off the array, the head pointer and the occupancy; the lemmas say what
a push at the tail and a pop at the head do to it.
-/

namespace Clocked

universe u

variable {α : Type u} {k : ℕ}

/-- The `n` entries from `head` on, oldest first. -/
def ringList (buf : BitVec k → α) (head : BitVec k) : ℕ → List α
  | 0 => []
  | n + 1 => buf head :: ringList buf (head + 1) n

@[simp] theorem length_ringList (buf : BitVec k → α) (head : BitVec k) (n : ℕ) :
    (ringList buf head n).length = n := by
  induction n generalizing head with
  | zero => rfl
  | succ n ih => simp [ringList, ih]

theorem add_one_add_ofNat (a : BitVec k) (n : ℕ) : a + 1 + BitVec.ofNat k n = a + BitVec.ofNat k (n + 1) := by
  rw [BitVec.add_assoc]
  congr 1
  rw [Nat.add_comm, BitVec.ofNat_add]
  rfl

/-- The last entry sits `n` slots behind the head. -/
theorem ringList_succ_last (buf : BitVec k → α) (head : BitVec k) (n : ℕ) :
    ringList buf head (n + 1) = ringList buf head n ++ [buf (head + BitVec.ofNat k n)] := by
  induction n generalizing head with
  | zero => simp [ringList]
  | succ n ih =>
    rw [ringList, ih (head + 1), ringList, List.cons_append, add_one_add_ofNat]

/-- A pop of `m` entries moves the head. -/
theorem ringList_drop (buf : BitVec k → α) (head : BitVec k) (n m : ℕ) :
    (ringList buf head n).drop m = ringList buf (head + BitVec.ofNat k m) (n - m) := by
  induction m generalizing head n with
  | zero => simp
  | succ m ih =>
    cases n with
    | zero => simp [ringList]
    | succ n =>
      rw [ringList, List.drop_succ_cons, ih, add_one_add_ofNat, Nat.add_sub_add_right]

theorem ringList_take (buf : BitVec k → α) (head : BitVec k) {n m : ℕ} (le : m ≤ n) :
    (ringList buf head n).take m = ringList buf head m := by
  induction m generalizing head n with
  | zero => rfl
  | succ m ih =>
    obtain ⟨n, rfl⟩ : ∃ j, n = j + 1 := ⟨n - 1, by omega⟩
    rw [ringList, ringList, List.take_succ_cons, ih (head + 1) (by omega)]

/-- Entry `j` sits `j` slots behind the head. -/
theorem ringList_slot (buf : BitVec k → α) (head : BitVec k) {n j : ℕ} (lt : j < n) :
    (ringList buf head n)[j]? = some (buf (head + BitVec.ofNat k j)) := by
  obtain ⟨m, rest⟩ : ∃ m, n - j = m + 1 := ⟨n - j - 1, by omega⟩
  rw [← List.head?_drop, ringList_drop, rest]
  rfl

theorem slot_ne_head {n : ℕ} (head : BitVec k) (pos : 0 < n) (lt : n < 2 ^ k) : head ≠ head + BitVec.ofNat k n := by
  intro h
  have h0 : BitVec.ofNat k n = 0#k := by
    have := congrArg (fun x => x - head) h
    simpa [BitVec.add_comm head, BitVec.add_sub_cancel] using this.symm
  have := congrArg BitVec.toNat h0
  simp [BitVec.toNat_ofNat, Nat.mod_eq_of_lt lt] at this
  omega

/-- A write one past the last entry leaves the contents alone while the ring is not full. -/
theorem ringList_update (buf : BitVec k → α) (head : BitVec k) (n m : ℕ) (x : α) (le : n ≤ m) (lt : m < 2 ^ k) :
    ringList (Function.update buf (head + BitVec.ofNat k m) x) head n = ringList buf head n := by
  induction n generalizing head m with
  | zero => rfl
  | succ n ih =>
    obtain ⟨m, rfl⟩ : ∃ j, m = j + 1 := ⟨m - 1, by omega⟩
    rw [ringList, ringList, Function.update_of_ne (slot_ne_head head (by omega) lt)]
    congr 1
    rw [← add_one_add_ofNat]
    exact ih (head + 1) m (by omega) (by omega)

/-- A push at the tail appends. -/
theorem ringList_push (buf : BitVec k → α) (head : BitVec k) (n : ℕ) (x : α) (lt : n < 2 ^ k) :
    ringList (Function.update buf (head + BitVec.ofNat k n) x) head (n + 1) = ringList buf head n ++ [x] := by
  rw [ringList_succ_last, ringList_update buf head n n x le_rfl lt, Function.update_self]

end Clocked

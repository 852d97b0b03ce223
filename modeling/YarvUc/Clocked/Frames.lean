import YarvUc.Clocked.Run

/-!
# Frames on a line

A source takes an item when it has none, and works on it for `len` ticks. `frame` is the
item and the tick of each cycle: whatever follows the source in step with it is a
function of that, and what a follower reads off at one tick of each frame is what the
source took, a fixed time later.
-/

namespace Clocked

universe u v w x y

variable {α : Type u}

/-- The item in work and its tick, from the item on offer in each cycle. -/
def frame (len : ℕ) (offer : ℕ → Option α) : ℕ → Option (α × ℕ)
  | 0 => none
  | n + 1 =>
    match frame len offer n with
    | none => (offer n).map fun a => (a, 0)
    | some (a, t) => if t + 1 < len then some (a, t + 1) else none

/-- The item taken in a cycle. -/
def taken (len : ℕ) (offer : ℕ → Option α) (n : ℕ) : List α :=
  if frame len offer n = none then (offer n).toList else []

/-- The item a follower reads at tick `t`. -/
def readAt (t : ℕ) : Option (α × ℕ) → List α
  | some (a, s) => if s = t then [a] else []
  | none => []

variable {len : ℕ} {offer : ℕ → Option α} {a : α} {n t : ℕ}

theorem frame_none (idle : frame len offer n = none) : frame len offer (n + 1) = (offer n).map fun a => (a, 0) := by
  rw [frame, idle]

theorem frame_some (busy : frame len offer n = some (a, t)) :
    frame len offer (n + 1) = if t + 1 < len then some (a, t + 1) else none := by
  rw [frame, busy]

theorem frame_first : frame len offer (n + 1) = some (a, 0) ↔ frame len offer n = none ∧ offer n = some a := by
  cases h : frame len offer n with
  | none =>
    rw [frame_none h]
    cases offer n <;> simp
  | some x =>
    obtain ⟨b, s⟩ := x
    rw [frame_some h]
    split <;> simp

theorem frame_later (ht : t + 1 < len) :
    frame len offer (n + 1) = some (a, t + 1) ↔ frame len offer n = some (a, t) := by
  cases h : frame len offer n with
  | none =>
    rw [frame_none h]
    cases offer n <;> simp
  | some x =>
    obtain ⟨b, s⟩ := x
    rw [frame_some h]
    by_cases hs : s + 1 < len
    · simp [hs]
    · rw [if_neg hs]
      constructor
      · intro h'
        cases h'
      · intro h'
        simp only [Option.some.injEq, Prod.mk.injEq] at h'
        omega

/-- A frame is at tick `t` exactly `t + 1` cycles after its item was taken. -/
theorem frame_at (ht : t < len) :
    frame len offer (n + 1 + t) = some (a, t) ↔ frame len offer n = none ∧ offer n = some a := by
  induction t with
  | zero => exact frame_first
  | succ t ih =>
    rw [← Nat.add_assoc, frame_later ht]
    exact ih (by omega)

/-- No frame is older than the line. -/
theorem frame_age (busy : frame len offer n = some (a, t)) : t < n := by
  induction n generalizing a t with
  | zero => cases busy
  | succ n ih =>
    cases t with
    | zero => omega
    | succ t =>
      cases h : frame len offer n with
      | none =>
        rw [frame_none h] at busy
        cases hoffer : offer n <;> rw [hoffer] at busy <;> simp at busy
      | some x =>
        obtain ⟨b, s⟩ := x
        rw [frame_some h] at busy
        split at busy
        · simp only [Option.some.injEq, Prod.mk.injEq] at busy
          have := ih h
          omega
        · cases busy

theorem readAt_early (early : n ≤ t) : readAt t (frame len offer n) = [] := by
  cases h : frame len offer n with
  | none => rfl
  | some x =>
    obtain ⟨b, s⟩ := x
    have := frame_age h
    rw [readAt, if_neg (by omega)]

/-- What is read at tick `t` is what was taken `t + 1` cycles before. -/
theorem readAt_eq_taken (ht : t < len) : readAt t (frame len offer (n + 1 + t)) = taken len offer n := by
  cases h : frame len offer (n + 1 + t) with
  | none =>
    rw [readAt, taken]
    split
    · rename_i idle
      cases hoffer : offer n with
      | none => rfl
      | some a =>
        rw [(frame_at ht).mpr ⟨idle, hoffer⟩] at h
        cases h
    · rfl
  | some x =>
    obtain ⟨b, s⟩ := x
    rw [readAt]
    by_cases hs : s = t
    · subst hs
      obtain ⟨idle, hoffer⟩ := (frame_at ht).mp h
      rw [if_pos rfl, taken, if_pos idle, hoffer]
      rfl
    · rw [if_neg hs, taken]
      split
      · rename_i idle
        cases hoffer : offer n with
        | none => rfl
        | some a =>
          rw [(frame_at ht).mpr ⟨idle, hoffer⟩] at h
          simp only [Option.some.injEq, Prod.mk.injEq] at h
          exact absurd h.2.symm hs
      · rfl

/-- An observer that sees each cycle of another one `k` cycles later, and nothing before,
has its log. -/
theorem log_delayed {σ : Type v} {ι : Type w} {σ' : Type x} {ι' : Type y} {next : σ → ι → σ} {next' : σ' → ι' → σ'}
    {out : σ → ι → List α} {out' : σ' → ι' → List α} {s : σ} {s' : σ'} {i : ℕ → ι} {i' : ℕ → ι'} {k : ℕ}
    (quiet : ∀ n < k, out' (run next' s' i' n) (i' n) = [])
    (late : ∀ n, out' (run next' s' i' (n + k)) (i' (n + k)) = out (run next s i n) (i n)) (n : ℕ) :
    log next' out' s' i' (n + k) = log next out s i n := by
  induction n with
  | zero =>
    rw [Nat.zero_add, log_zero]
    have start : ∀ m ≤ k, log next' out' s' i' m = [] := by
      intro m hm
      induction m with
      | zero => rfl
      | succ m ih => rw [log_succ, ih (by omega), quiet m (by omega), List.append_nil]
    exact start k (by omega)
  | succ n ih => rw [Nat.add_right_comm, log_succ, ih, late, log_succ]

end Clocked

import YarvUc.Clocked.Run

/-!
# Skid buffers behind a registered read

A read that is accepted lands in a register one cycle later. A reader that is ready takes it
from there; otherwise it goes to the end of a queue, and the reader is served from the queue
first. The reader sees the queue followed by the register, and that is a FIFO of everything
accepted: `held`. `slotList` is a queue kept in the first slots of an array.
-/

namespace Clocked

universe u v w

variable {α : Type u}

/-! ## Queues in the first slots of an array -/

/-- The first `n` slots, head first. -/
def slotList (f : ℕ → α) (n : ℕ) : List α := (List.range n).map f

@[simp] theorem length_slotList (f : ℕ → α) (n : ℕ) : (slotList f n).length = n := by simp [slotList]

theorem slotList_succ (f : ℕ → α) (n : ℕ) : slotList f (n + 1) = f 0 :: slotList (fun k => f (k + 1)) n := by
  simp [slotList, List.range_succ_eq_map, Function.comp_def]

theorem slotList_congr {f g : ℕ → α} {n : ℕ} (same : ∀ k < n, f k = g k) : slotList f n = slotList g n := by
  apply List.map_congr_left
  intro k hk
  exact same k (List.mem_range.mp hk)

/-- Writing the first free slot appends. -/
theorem slotList_push (f : ℕ → α) (n : ℕ) (a : α) :
    slotList (Function.update f n a) (n + 1) = slotList f n ++ [a] := by
  have before : slotList (Function.update f n a) n = slotList f n := by
    apply slotList_congr
    intro k hk
    exact Function.update_of_ne (Nat.ne_of_lt hk) a f
  rw [← before, slotList, List.range_succ, List.map_append]
  simp [slotList]

/-! ## The queue and the register -/

/-- What waits in the queue, and what has just landed. -/
structure Skid (α : Type u) where
  stored : List α
  landing : Option α

namespace Skid

def empty : Skid α := { stored := [], landing := none }

section Cycle

variable (s : Skid α) (ready : Bool) (asked : Option α)

/-- Everything accepted and not taken yet, oldest first. -/
def held : List α := s.stored ++ s.landing.toList

/-- What the reader takes. -/
def given : List α := if ready then s.held.head?.toList else []

/-- A ready reader without a queue before it takes the landing word at once. -/
def consumed : Bool := s.stored.isEmpty && ready

/-- The queue after this cycle. -/
def storedNext : List α :=
  (if ready then s.stored.tail else s.stored) ++ (if s.consumed ready then [] else s.landing.toList)

def next : Skid α where
  stored := s.storedNext ready
  landing := asked

end Cycle

variable {s : Skid α} {ready : Bool} {asked : Option α} {depth : ℕ}

/-- The reader takes from the front. -/
theorem storedNext_eq : s.storedNext ready = if ready then s.held.tail else s.held := by
  unfold storedNext consumed held
  cases ready with
  | false => simp
  | true =>
    cases s.stored with
    | nil => cases s.landing <;> rfl
    | cons a as => simp

/-- Each word is given once and in order. -/
theorem conserves : s.held ++ asked.toList = s.given ready ++ (s.next ready asked).held := by
  have split : s.held = s.given ready ++ s.storedNext ready := by
    rw [storedNext_eq, given]
    cases ready with
    | false => rfl
    | true => cases s.held <;> rfl
  rw [split, List.append_assoc]
  rfl

/-- With a word asked for only when the queue has room after the cycle, none is lost. -/
theorem held_length (fits : s.held.length ≤ depth) (room : asked.isSome = true → (s.storedNext ready).length < depth) :
    (s.next ready asked).held.length ≤ depth := by
  have shorter : (s.storedNext ready).length ≤ s.held.length := by
    rw [storedNext_eq]
    cases ready <;> simp
  rw [held, List.length_append, next]
  cases asked with
  | none =>
    simp only [Option.toList_none, List.length_nil]
    omega
  | some a =>
    have := room rfl
    simp only [Option.toList_some, List.length_singleton]
    omega

/-- A head that is not taken stays. -/
theorem head_stays {a : α} (head : s.held.head? = some a) : (s.next false asked).held.head? = some a := by
  have stays : (s.next false asked).held = s.held ++ asked.toList := by
    have all : s.held ++ asked.toList = s.given false ++ (s.next false asked).held := conserves
    rw [all]
    rfl
  rw [stays, List.head?_append, head]
  rfl

/-- What lands behind nothing is the head. -/
theorem head_lands {a : α} (alone : s.storedNext ready = []) : (s.next ready (some a)).held.head? = some a := by
  rw [held, next, alone]
  rfl

/-! ### Circuits with such a buffer -/

section Run

variable {σ : Type v} {ι : Type w} {step : σ → ι → σ} {view : σ → Skid α} {ready : σ → ι → Bool}
  {asked : σ → ι → Option α}

/-- The buffer of a circuit, as a view of its state, moves like a `Skid` under an invariant. -/
structure Drives (step : σ → ι → σ) (view : σ → Skid α) (ready : σ → ι → Bool) (asked : σ → ι → Option α)
    (depth : ℕ) : Prop where
  next : ∀ s x, (view s).held.length ≤ depth → view (step s x) = (view s).next (ready s x) (asked s x)
  room : ∀ s x, (view s).held.length ≤ depth → (asked s x).isSome = true →
    ((view s).storedNext (ready s x)).length < depth

theorem Drives.fits (drives : Drives step view ready asked depth) {s : σ} (init : view s = empty) (ins : ℕ → ι)
    (n : ℕ) : (view (Clocked.run step s ins n)).held.length ≤ depth := by
  induction n with
  | zero =>
    rw [run_zero, init]
    exact Nat.zero_le depth
  | succ n ih =>
    rw [run_succ, drives.next _ _ ih]
    exact held_length ih (drives.room _ _ ih)

/-- What a run has asked for, it has given or still holds. -/
theorem Drives.run (drives : Drives step view ready asked depth) {s : σ} (init : view s = empty) (ins : ℕ → ι)
    (n : ℕ) :
    log step (fun s x => (asked s x).toList) s ins n =
      log step (fun s x => (view s).given (ready s x)) s ins n ++ (view (Clocked.run step s ins n)).held := by
  induction n with
  | zero =>
    rw [run_zero, init]
    rfl
  | succ n ih =>
    rw [log_succ, log_succ, run_succ, ih, drives.next _ _ (drives.fits init ins n), List.append_assoc, conserves,
      List.append_assoc]

/-- A reader that is ready again and again is given everything that is asked for. -/
theorem Drives.delivers (drives : Drives step view ready asked depth) {s : σ} (init : view s = empty) (ins : ℕ → ι)
    (fair : ∀ t, ∃ u ≥ t, ready (Clocked.run step s ins u) (ins u) = true) (n : ℕ) :
    ∃ m, log step (fun s x => (asked s x).toList) s ins n <+:
      log step (fun s x => (view s).given (ready s x)) s ins m := by
  have served := drives.run init ins
  have grows : ∀ k ≤ (log step (fun s x => (asked s x).toList) s ins n).length,
      ∃ m ≥ n, k ≤ (log step (fun s x => (view s).given (ready s x)) s ins m).length := by
    intro k
    induction k with
    | zero => exact fun _ => ⟨n, Nat.le_refl n, Nat.zero_le _⟩
    | succ k ih =>
      intro small
      obtain ⟨m, from_n, enough⟩ := ih (by omega)
      obtain ⟨u, from_m, takes⟩ := fair m
      have sofar : (log step (fun s x => (view s).given (ready s x)) s ins m).length ≤
          (log step (fun s x => (view s).given (ready s x)) s ins u).length := (log_grows _ from_m).length_le
      have asked_u : (log step (fun s x => (asked s x).toList) s ins n).length ≤
          (log step (fun s x => (asked s x).toList) s ins u).length :=
        (log_grows _ (Nat.le_trans from_n from_m)).length_le
      refine ⟨u + 1, by omega, ?_⟩
      rw [log_succ, List.length_append]
      cases here : (view (Clocked.run step s ins u)).held with
      | nil =>
        -- nothing is held: everything asked for has been given
        have all := congrArg List.length (served u)
        rw [here, List.append_nil] at all
        omega
      | cons a as =>
        have one : ((view (Clocked.run step s ins u)).given (ready (Clocked.run step s ins u) (ins u))).length = 1 := by
          rw [takes, given, here]
          rfl
        omega
  obtain ⟨m, later, enough⟩ := grows _ (Nat.le_refl _)
  have all : log step (fun s x => (asked s x).toList) s ins n <+: log step (fun s x => (asked s x).toList) s ins m :=
    log_grows _ later
  rw [served m] at all
  exact ⟨m, List.prefix_of_prefix_length_le all (List.prefix_append _ _) enough⟩

end Run

end Skid

end Clocked

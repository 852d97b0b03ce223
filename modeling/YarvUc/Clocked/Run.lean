import Mathlib.Data.List.Basic

/-!
# Runs of clocked circuits

A synchronous circuit is its next-state function: one application per clock edge,
with a fresh input every cycle. This file has the run of a circuit on an input
stream, the log an observer keeps of it, and the two induction rules everything
about runs goes through (an invariant kept by every edge, and a quantity the log
and the state conserve between them), and logs that are episodes one after another.
-/

namespace Clocked

universe u v w x y

variable {σ : Type u} {ι : Type v} {α : Type w}

/-- The state before edge `n`. -/
def run (next : σ → ι → σ) (s : σ) (i : ℕ → ι) : ℕ → σ
  | 0 => s
  | n + 1 => next (run next s i n) (i n)

/-- What an observer of the state and the input has written down before edge `n`. -/
def log (next : σ → ι → σ) (out : σ → ι → List α) (s : σ) (i : ℕ → ι) : ℕ → List α
  | 0 => []
  | n + 1 => log next out s i n ++ out (run next s i n) (i n)

variable {next : σ → ι → σ} {s : σ} {i : ℕ → ι}

@[simp] theorem run_zero : run next s i 0 = s := rfl

theorem run_succ (n : ℕ) : run next s i (n + 1) = next (run next s i n) (i n) := rfl

@[simp] theorem log_zero {out : σ → ι → List α} : log next out s i 0 = [] := rfl

theorem log_succ {out : σ → ι → List α} (n : ℕ) :
    log next out s i (n + 1) = log next out s i n ++ out (run next s i n) (i n) := rfl

/-- A log only grows. -/
theorem log_grows (out : σ → ι → List α) {n m : ℕ} (later : n ≤ m) : log next out s i n <+: log next out s i m := by
  induction later with
  | refl => exact List.prefix_refl _
  | step _ ih => exact ih.trans (List.prefix_append _ _)

/-- Where an observer writes down one thing in a cycle at most, each entry has its cycle. -/
theorem log_entry {out : σ → ι → List α} (one : ∀ k, (out (run next s i k) (i k)).length ≤ 1) {n : ℕ}
    {before after : List α} {x : α} (entry : log next out s i n = before ++ x :: after) :
    ∃ k < n, log next out s i k = before ∧ out (run next s i k) (i k) = [x] := by
  induction n generalizing after with
  | zero => simp at entry
  | succ n ih =>
    rw [log_succ] at entry
    have few := one n
    cases now : out (run next s i n) (i n) with
    | nil =>
      rw [now, List.append_nil] at entry
      obtain ⟨k, hk, here⟩ := ih entry
      exact ⟨k, by omega, here⟩
    | cons y rest =>
      rw [now] at entry few
      obtain rfl : rest = [] := List.eq_nil_of_length_eq_zero (by simpa using few)
      rcases List.eq_nil_or_concat after with rfl | ⟨after, z, rfl⟩
      · obtain ⟨same, last⟩ := List.append_inj' entry rfl
        exact ⟨n, Nat.lt_succ_self n, same, now.trans last⟩
      · rw [List.concat_eq_append, ← List.cons_append, ← List.append_assoc] at entry
        obtain ⟨k, hk, here⟩ := ih (List.append_inj' entry rfl).1
        exact ⟨k, by omega, here⟩

/-- An invariant that every admissible edge keeps holds after `n` admissible edges. -/
theorem run_invariant (Inv : σ → Prop) (Ok : σ → ι → Prop) (init : Inv s)
    (step : ∀ s x, Inv s → Ok s x → Inv (next s x)) (n : ℕ) (ok : ∀ m < n, Ok (run next s i m) (i m)) :
    Inv (run next s i n) := by
  induction n with
  | zero => exact init
  | succ n ih => exact step _ _ (ih fun m hm => ok m (by omega)) (ok n (by omega))

/-- What every edge folds its log into is the log folded in. -/
theorem run_foldl {β : Type x} (view : σ → β) (fold : β → α → β) (out : σ → ι → List α)
    (step : ∀ s x, view (next s x) = (out s x).foldl fold (view s)) (n : ℕ) :
    view (run next s i n) = (log next out s i n).foldl fold (view s) := by
  induction n with
  | zero => rfl
  | succ n ih => rw [run_succ, log_succ, List.foldl_append, ← ih, step]

/-- Conservation: when each edge moves exactly what it logs from the front of `rest`,
the log and the rest always make up the whole. -/
theorem log_conserves (out : σ → ι → List α) (rest : σ → List α) (Inv : σ → Prop) (Ok : σ → ι → Prop)
    (init : Inv s) (step : ∀ s x, Inv s → Ok s x → Inv (next s x))
    (moves : ∀ s x, Inv s → Ok s x → rest s = out s x ++ rest (next s x))
    (n : ℕ) (ok : ∀ m < n, Ok (run next s i m) (i m)) :
    rest s = log next out s i n ++ rest (run next s i n) := by
  induction n with
  | zero => simp
  | succ n ih =>
    have before : ∀ m < n, Ok (run next s i m) (i m) := fun m hm => ok m (by omega)
    have inv : Inv (run next s i n) := run_invariant Inv Ok init step n before
    rw [log_succ, run_succ, List.append_assoc, ← moves _ _ inv (ok n (by omega))]
    exact ih before

/-! ## Parts -/

section Part

variable {σ' : Type x} {ι' : Type y} {next' : σ' → ι' → σ'} {view : σ → σ'} {feed : σ → ι → ι'}

/-- A part of a circuit runs on what the circuit feeds it, -/
theorem run_part (part : ∀ s x, view (next s x) = next' (view s) (feed s x)) (n : ℕ) :
    view (run next s i n) = run next' (view s) (fun k => feed (run next s i k) (i k)) n := by
  induction n with
  | zero => rfl
  | succ n ih => rw [run_succ, run_succ, part, ih]

/-- and an observer of the part sees it do so. -/
theorem log_part (part : ∀ s x, view (next s x) = next' (view s) (feed s x)) (out : σ' → ι' → List α) (n : ℕ) :
    log next (fun s x => out (view s) (feed s x)) s i n =
      log next' out (view s) (fun k => feed (run next s i k) (i k)) n := by
  induction n with
  | zero => rfl
  | succ n ih => rw [log_succ, log_succ, ih, run_part part]

end Part

/-! ## Episodes -/

/-- A log made of whole episodes and the beginning of one more. -/
def Episodes (Whole Open : List α → Prop) (log : List α) : Prop :=
  ∃ (done : List (List α)) (part : List α), log = done.flatten ++ part ∧ (∀ t ∈ done, Whole t) ∧ Open part

variable {Whole Open Open' : List α → Prop} {log out : List α}

theorem Episodes.nil (start : Open []) : Episodes Whole Open [] := ⟨[], [], rfl, by simp, start⟩

/-- What is logged next continues the open episode, or ends it and begins another. -/
theorem Episodes.step (h : Episodes Whole Open log)
    (moves : ∀ (done : List (List α)) (part : List α), log = done.flatten ++ part → (∀ t ∈ done, Whole t) → Open part →
      Open' (part ++ out) ∨ ∃ a b, out = a ++ b ∧ Whole (part ++ a) ∧ Open' b) :
    Episodes Whole Open' (log ++ out) := by
  obtain ⟨done, part, hlog, whole, opn⟩ := h
  rcases moves done part hlog whole opn with more | ⟨a, b, hout, ends, starts⟩
  · exact ⟨done, part ++ out, by rw [hlog, List.append_assoc], whole, more⟩
  · refine ⟨done ++ [part ++ a], b, by simp [hlog, hout], ?_, starts⟩
    intro t ht
    rcases List.mem_append.mp ht with ht | ht
    · exact whole t ht
    · rw [List.mem_singleton.mp ht]
      exact ends

end Clocked

import Mathlib.Logic.Function.Iterate
import YarvUc.Clocked.Run

/-!
# Circuits that follow a machine

A circuit takes some cycles for what a machine does in one step. `Follows` says how the two
go together: a cycle shows the machine's next event and both move on, or it shows nothing,
the machine waits, and the delay until the next event runs down. Then whatever the circuit
has shown is what the machine does, and the bound on the delay is a bound on the wait.
-/

namespace Clocked

universe u v w x

variable {σ : Type u} {ι : Type v} {α : Type w} {τ : Type x}

/-- Each admissible cycle from related states is silent or shows the machine's event. -/
structure Follows (next : σ → ι → σ) (out : σ → ι → List α) (step : τ → τ) (event : τ → α) (delay : σ → ℕ)
    (bound : ℕ) (Rel : σ → τ → Prop) (Ok : σ → ι → Prop) (Good : τ → Prop) : Prop where
  bounded : ∀ s t, Rel s t → delay s < bound
  moves : ∀ s x t, Rel s t → Ok s x → Good t →
    out s x = [] ∧ Rel (next s x) t ∧ delay (next s x) < delay s ∨
      out s x = [event t] ∧ Rel (next s x) (step t)

/-- The events of the first `k` steps. -/
def eventsOf (step : τ → τ) (event : τ → α) (t : τ) (k : ℕ) : List α := (List.range k).map fun j => event (step^[j] t)

theorem length_eventsOf (step : τ → τ) (event : τ → α) (t : τ) (k : ℕ) : (eventsOf step event t k).length = k := by
  simp [eventsOf]

theorem eventsOf_succ (step : τ → τ) (event : τ → α) (t : τ) (k : ℕ) :
    eventsOf step event t (k + 1) = eventsOf step event t k ++ [event (step^[k] t)] := by
  simp [eventsOf, List.range_succ]

theorem eventsOf_prefix (step : τ → τ) (event : τ → α) (t : τ) {j k : ℕ} (le : j ≤ k) :
    eventsOf step event t j <+: eventsOf step event t k := by
  induction le with
  | refl => exact List.prefix_refl _
  | step _ ih =>
    rw [eventsOf_succ]
    exact ih.trans (List.prefix_append _ _)

variable {next : σ → ι → σ} {out : σ → ι → List α} {step : τ → τ} {event : τ → α} {delay : σ → ℕ} {bound : ℕ}
  {Rel : σ → τ → Prop} {Ok : σ → ι → Prop} {Good : τ → Prop} {s : σ} {t : τ} {i : ℕ → ι}

/-- The machine may be another where it does the same, and what a cycle needs may follow from it. -/
theorem Follows.machine {step' : τ → τ} {event' : τ → α} {Ok' : σ → ι → Prop} {Good' : τ → Prop}
    (follows : Follows next out step event delay bound Rel Ok Good)
    (same : ∀ t, Good' t → Good t ∧ step t = step' t ∧ event t = event' t)
    (needs : ∀ s x t, Rel s t → Ok' s x → Good' t → Ok s x) :
    Follows next out step' event' delay bound Rel Ok' Good' := by
  refine ⟨follows.bounded, fun s x t rel ok good' => ?_⟩
  obtain ⟨good, steps, shows⟩ := same t good'
  rw [← steps, ← shows]
  exact follows.moves s x t rel (needs s x t rel ok good') good

/-- Related before edge `n`, with the first events of the machine shown and the wait bounded. -/
structure Follows.At (next : σ → ι → σ) (out : σ → ι → List α) (step : τ → τ) (event : τ → α) (delay : σ → ℕ)
    (bound : ℕ) (Rel : σ → τ → Prop) (s : σ) (t : τ) (i : ℕ → ι) (n k : ℕ) : Prop where
  log : log next out s i n = eventsOf step event t k
  rel : Rel (run next s i n) (step^[k] t)
  wait : n + delay (run next s i n) < bound * (k + 1)

theorem Follows.start (follows : Follows next out step event delay bound Rel Ok Good) (init : Rel s t) :
    Follows.At next out step event delay bound Rel s t i 0 0 := by
  refine ⟨rfl, init, ?_⟩
  have := follows.bounded s t init
  simpa using this

theorem Follows.At.edge {n k : ℕ} (here : Follows.At next out step event delay bound Rel s t i n k)
    (follows : Follows next out step event delay bound Rel Ok Good) (ok : Ok (run next s i n) (i n))
    (good : Good (step^[k] t)) :
    Follows.At next out step event delay bound Rel s t i (n + 1) k ∨
      Follows.At next out step event delay bound Rel s t i (n + 1) (k + 1) := by
  have wait := here.wait
  rcases follows.moves _ _ _ here.rel ok good with ⟨silent, rel, less⟩ | ⟨shows, rel⟩
  · left
    refine ⟨?_, rel, ?_⟩
    · rw [log_succ, silent, List.append_nil, here.log]
    · rw [run_succ]
      omega
  · right
    rw [← Function.iterate_succ_apply' step] at rel
    refine ⟨?_, rel, ?_⟩
    · rw [log_succ, shows, here.log, eventsOf_succ]
    · have := follows.bounded _ _ rel
      rw [run_succ, Nat.mul_succ bound (k + 1)]
      omega

/-- After `n` cycles the log is the machine's first events, the states are related behind
them, and the next event is not longer away than the bound. -/
theorem Follows.run (follows : Follows next out step event delay bound Rel Ok Good) (init : Rel s t) (n : ℕ)
    (ok : ∀ m < n, Ok (run next s i m) (i m))
    (good : ∀ k ≤ (Clocked.log next out s i n).length, Good (step^[k] t)) :
    Follows.At next out step event delay bound Rel s t i n (Clocked.log next out s i n).length := by
  have whole : ∀ n, (∀ m < n, Ok (Clocked.run next s i m) (i m)) →
      (∀ k ≤ (Clocked.log next out s i n).length, Good (step^[k] t)) →
      ∃ k, Follows.At next out step event delay bound Rel s t i n k := by
    intro n
    induction n with
    | zero =>
      intro _ _
      exact ⟨0, follows.start init⟩
    | succ n ih =>
      intro ok good
      have fewer : (Clocked.log next out s i n).length ≤ (Clocked.log next out s i (n + 1)).length := by
        rw [log_succ, List.length_append]
        omega
      obtain ⟨k, here⟩ := ih (fun m hm => ok m (by omega)) fun k hk => good k (by omega)
      have len : (Clocked.log next out s i n).length = k := by rw [here.log, length_eventsOf]
      rcases here.edge follows (ok n (by omega)) (good k (by omega)) with stays | moves
      · exact ⟨k, stays⟩
      · exact ⟨k + 1, moves⟩
  obtain ⟨k, here⟩ := whole n ok good
  have len : (Clocked.log next out s i n).length = k := by rw [here.log, length_eventsOf]
  rwa [len]

end Clocked

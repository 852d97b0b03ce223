import YarvUc.Clocked.Simulation

/-!
# What a machine gets to

`Leads step Good n s Q`: the machine takes `n` steps from `s`, each in a good state, and then
`Q` holds. The rules are those of a program: nothing, one step after another, a weaker goal, and
a loop whose body takes one count to the next. A circuit that follows the machine gets to the
same state.
-/

namespace Clocked

universe u v w x

variable {σ : Type u} {ι : Type v} {α : Type w} {τ : Type x}

/-- `n` good steps from `s` lead to `Q`. -/
structure Leads (step : τ → τ) (Good : τ → Prop) (n : ℕ) (s : τ) (Q : τ → Prop) : Prop where
  good : ∀ k < n, Good (step^[k] s)
  holds : Q (step^[n] s)

namespace Leads

variable {step : τ → τ} {Good : τ → Prop} {n k : ℕ} {s : τ} {Q R : τ → Prop}

theorem here (q : Q s) : Leads step Good 0 s Q := ⟨nofun, q⟩

theorem cons (good : Good s) (rest : Leads step Good n (step s) Q) : Leads step Good (n + 1) s Q := by
  refine ⟨fun k hk => ?_, rest.holds⟩
  cases k with
  | zero => exact good
  | succ k => exact rest.good k (by omega)

theorem mono (leads : Leads step Good n s Q) (weaker : ∀ t, Q t → R t) : Leads step Good n s R :=
  ⟨leads.good, weaker _ leads.holds⟩

theorem trans (leads : Leads step Good n s Q) (next : ∀ t, Q t → Leads step Good k t R) :
    Leads step Good (n + k) s R := by
  induction n generalizing s with
  | zero =>
    rw [Nat.zero_add]
    exact next s leads.holds
  | succ n ih =>
    rw [Nat.succ_add]
    exact cons (leads.good 0 (Nat.succ_pos n)) (ih ⟨fun k hk => leads.good (k + 1) (by omega), leads.holds⟩)

/-- A loop: `c` steps lead from each count to the next. -/
theorem loop {I : ℕ → τ → Prop} {c : ℕ} (body : ∀ k < n, ∀ t, I k t → Leads step Good c t (I (k + 1))) (init : I 0 s) :
    Leads step Good (n * c) s (I n) := by
  induction n with
  | zero =>
    rw [Nat.zero_mul]
    exact here init
  | succ n ih =>
    rw [Nat.succ_mul]
    exact (ih fun k hk => body k (by omega)).trans (body n (Nat.lt_succ_self n))

end Leads

section Circuit

variable {next : σ → ι → σ} {out : σ → ι → List α} {step : τ → τ} {event : τ → α} {delay : σ → ℕ} {bound : ℕ}
  {Rel : σ → τ → Prop} {Ok : σ → ι → Prop} {Good : τ → Prop} {s : σ} {t : τ} {i : ℕ → ι}

/-- The next event comes. -/
theorem Follows.At.advance (follows : Follows next out step event delay bound Rel Ok Good) {n k : ℕ}
    (ok : ∀ m < bound * (k + 1), Ok (Clocked.run next s i m) (i m))
    (here : Follows.At next out step event delay bound Rel s t i n k) (good : Good (step^[k] t)) :
    ∃ n', Follows.At next out step event delay bound Rel s t i n' (k + 1) := by
  have inside : n < bound * (k + 1) := Nat.lt_of_le_of_lt (Nat.le_add_right _ _) here.wait
  obtain ⟨left, gap⟩ : ∃ left, bound * (k + 1) = n + left := Nat.exists_eq_add_of_le (Nat.le_of_lt inside)
  induction left generalizing n with
  | zero => omega
  | succ left ih =>
    rcases here.edge follows (ok n inside) good with stays | moves
    · exact ih stays (Nat.lt_of_le_of_lt (Nat.le_add_right _ _) stays.wait) (by omega)
    · exact ⟨n + 1, moves⟩

/-- The circuit gets to where the machine leads, with the machine's events shown. -/
theorem Follows.leads (follows : Follows next out step event delay bound Rel Ok Good) (init : Rel s t) {k : ℕ}
    (ok : ∀ m < bound * k, Ok (Clocked.run next s i m) (i m)) {Q : τ → Prop} (leads : Leads step Good k t Q) :
    ∃ n < bound * (k + 1), Clocked.log next out s i n = eventsOf step event t k ∧
      ∃ t', Rel (Clocked.run next s i n) t' ∧ Q t' := by
  have arrives : ∀ j ≤ k, ∃ n, Follows.At next out step event delay bound Rel s t i n j := by
    intro j
    induction j with
    | zero => exact fun _ => ⟨0, follows.start init⟩
    | succ j ih =>
      intro hj
      obtain ⟨n, here⟩ := ih (by omega)
      exact here.advance follows (fun m hm => ok m (Nat.lt_of_lt_of_le hm (Nat.mul_le_mul_left _ hj)))
        (leads.good j (by omega))
  obtain ⟨n, here⟩ := arrives k (Nat.le_refl k)
  exact ⟨n, Nat.lt_of_le_of_lt (Nat.le_add_right _ _) here.wait, here.log, _, here.rel, leads.holds⟩

end Circuit

end Clocked

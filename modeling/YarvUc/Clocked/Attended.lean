import YarvUc.Clocked.Run

/-!
# Circuits that attend a machine

The machine takes each of its turns under a value from outside: what a device answers, that
an interrupt is due. A circuit `Attends` it when a cycle shows the value and the event of one
turn, or shows nothing, leaves the machine where it is, and brings the delay down or waits for
the outside. Then whatever the circuit has shown is a run of the machine, and it is never
silent for longer than the bound unless it waits.
-/

namespace Clocked

universe u v w x y

variable {σ : Type u} {ι : Type v} {α : Type w} {τ : Type x} {ο : Type y}

/-- The turns of a list, one after another. -/
inductive Turns (Step : ο → τ → α → τ → Prop) (t : τ) : List (ο × α) → τ → Prop
  | none : Turns Step t [] t
  | more {l : List (ο × α)} {u v : τ} {o : ο} {a : α} (before : Turns Step t l u) (turn : Step o u a v) :
      Turns Step t (l ++ [(o, a)]) v

/-- Each admissible cycle from related states is silent or shows one turn. -/
structure Attends (next : σ → ι → σ) (out : σ → ι → List (ο × α)) (Step : ο → τ → α → τ → Prop) (delay : σ → ℕ)
    (bound : ℕ) (waits : σ → ι → Bool) (Rel : σ → τ → Prop) (Ok : σ → ι → Prop) : Prop where
  bounded : ∀ s t, Rel s t → delay s < bound
  moves : ∀ s x t, Rel s t → Ok s x →
    out s x = [] ∧ Rel (next s x) t ∧ (delay (next s x) < delay s ∨ waits s x = true) ∨
      ∃ o a u, out s x = [(o, a)] ∧ Step o t a u ∧ Rel (next s x) u

variable {next : σ → ι → σ} {out : σ → ι → List (ο × α)} {Step : ο → τ → α → τ → Prop} {delay : σ → ℕ} {bound : ℕ}
  {waits : σ → ι → Bool} {Rel : σ → τ → Prop} {Ok : σ → ι → Prop} {s : σ} {t : τ} {i : ℕ → ι}

/-- What `n` cycles have shown is a run of the machine, and the states are related behind it. -/
theorem Attends.run (attends : Attends next out Step delay bound waits Rel Ok) (init : Rel s t) (n : ℕ)
    (ok : ∀ m < n, Ok (run next s i m) (i m)) :
    ∃ u, Turns Step t (log next out s i n) u ∧ Rel (Clocked.run next s i n) u := by
  induction n with
  | zero => exact ⟨t, .none, init⟩
  | succ n ih =>
    obtain ⟨u, turns, rel⟩ := ih fun m hm => ok m (by omega)
    rw [run_succ, log_succ]
    rcases attends.moves _ _ _ rel (ok n (by omega)) with ⟨silent, rel', -⟩ | ⟨o, a, v, shows, step, rel'⟩
    · rw [silent, List.append_nil]
      exact ⟨u, turns, rel'⟩
    · rw [shows]
      exact ⟨v, .more turns step, rel'⟩

/-- Silent cycles that do not wait use the delay up. -/
theorem Attends.descends (attends : Attends next out Step delay bound waits Rel Ok) (init : Rel s t) {n : ℕ} (d : ℕ)
    (ok : ∀ m < n + d, Ok (Clocked.run next s i m) (i m))
    (quiet : ∀ j < d, out (Clocked.run next s i (n + j)) (i (n + j)) = [] ∧
      waits (Clocked.run next s i (n + j)) (i (n + j)) = false) :
    delay (Clocked.run next s i (n + d)) + d ≤ delay (Clocked.run next s i n) := by
  induction d with
  | zero => exact Nat.le_refl _
  | succ d ih =>
    have fewer := ih (fun m hm => ok m (by omega)) fun j hj => quiet j (by omega)
    obtain ⟨u, -, rel⟩ := attends.run init (n + d) fun m hm => ok m (by omega)
    obtain ⟨silent, goes⟩ := quiet d (by omega)
    rcases attends.moves _ _ _ rel (ok (n + d) (by omega)) with ⟨-, -, less | waiting⟩ | ⟨o, a, v, shows, -, -⟩
    · have edge : Clocked.run next s i (n + (d + 1)) = next (Clocked.run next s i (n + d)) (i (n + d)) := rfl
      rw [edge]
      omega
    · rw [goes] at waiting
      cases waiting
    · rw [silent] at shows
      cases shows

/-- In every stretch as long as the bound something shows, or the circuit waits. -/
theorem Attends.prompt (attends : Attends next out Step delay bound waits Rel Ok) (init : Rel s t) (n : ℕ)
    (ok : ∀ m < n + bound, Ok (Clocked.run next s i m) (i m)) :
    ∃ j < bound, out (Clocked.run next s i (n + j)) (i (n + j)) ≠ [] ∨
      waits (Clocked.run next s i (n + j)) (i (n + j)) = true := by
  by_contra never
  push Not at never
  have quiet := attends.descends (n := n) init bound ok fun j hj => by simpa using never j hj
  obtain ⟨u, -, rel⟩ := attends.run init n fun m hm => ok m (by omega)
  have := attends.bounded _ _ rel
  omega

/-! ## Another machine -/

section Machine

variable {Step' : ο → τ → α → τ → Prop} {Good : τ → Prop} {behind : τ → ο × α → τ} {β : Type w}

/-- A machine whose turns leave it where `behind` says is behind a run where they all do. -/
theorem Turns.behind_eq (goes : ∀ o t a u, Step o t a u → u = behind t (o, a)) {l : List (ο × α)} {u : τ}
    (turns : Turns Step t l u) : u = l.foldl behind t := by
  induction turns with
  | none => rfl
  | more before turn ih =>
    rw [List.foldl_append, ← ih]
    exact goes _ _ _ _ turn

/-- The machine may be another where it takes the same turns, and what a cycle needs may follow
from where the machine is. -/
theorem Attends.machine (attends : Attends next out Step delay bound waits Rel Ok)
    (same : ∀ o t a u, Good t → Step o t a u → Step' o t a u) (needs : ∀ s x t, Rel s t → Good t → Ok s x)
    (goes : ∀ o t a u, Step' o t a u → u = behind t (o, a)) (init : Rel s t) (n : ℕ)
    (good : ∀ k < n, Good ((log next out s i k).foldl behind t)) :
    Turns Step' t (log next out s i n) ((log next out s i n).foldl behind t) ∧
      Rel (Clocked.run next s i n) ((log next out s i n).foldl behind t) := by
  induction n with
  | zero => exact ⟨.none, init⟩
  | succ n ih =>
    obtain ⟨turns, rel⟩ := ih fun k hk => good k (by omega)
    have here := good n (by omega)
    rw [run_succ, log_succ]
    rcases attends.moves _ _ _ rel (needs _ _ _ rel here) with ⟨silent, rel', -⟩ | ⟨o, a, u, shows, step, rel'⟩
    · rw [silent, List.append_nil]
      exact ⟨turns, rel'⟩
    · have turn := same _ _ _ _ here step
      have last : ((log next out s i n) ++ [(o, a)]).foldl behind t = u := by
        rw [List.foldl_append]
        exact (goes _ _ _ _ turn).symm
      rw [shows, last]
      exact ⟨.more turns turn, rel'⟩

/-- What turns give, each in the state before it. -/
def along (behind : τ → ο × α → τ) (gives : τ → ο × α → List β) (t : τ) : List (ο × α) → List β
  | [] => []
  | x :: l => gives t x ++ along behind gives (behind t x) l

theorem along_concat {gives : τ → ο × α → List β} (l : List (ο × α)) (x : ο × α) :
    along behind gives t (l ++ [x]) = along behind gives t l ++ gives (l.foldl behind t) x := by
  induction l generalizing t with
  | nil => simp [along]
  | cons y l ih => simp [along, ih]

/-- What else a cycle shows is given by its turn. -/
theorem Attends.log_along (attends : Attends next out Step delay bound waits Rel Ok)
    (same : ∀ o t a u, Good t → Step o t a u → Step' o t a u) (needs : ∀ s x t, Rel s t → Good t → Ok s x)
    (goes : ∀ o t a u, Step' o t a u → u = behind t (o, a)) {out' : σ → ι → List β} {gives : τ → ο × α → List β}
    (quiet : ∀ s x t, Rel s t → Good t → out s x = [] → out' s x = [])
    (turn : ∀ s x t o a, Rel s t → Good t → out s x = [(o, a)] → out' s x = gives t (o, a)) (init : Rel s t) (n : ℕ)
    (good : ∀ k < n, Good ((log next out s i k).foldl behind t)) :
    log next out' s i n = along behind gives t (log next out s i n) := by
  induction n with
  | zero => rfl
  | succ n ih =>
    have before := ih fun k hk => good k (by omega)
    have here := good n (by omega)
    obtain ⟨-, rel⟩ := attends.machine same needs goes init n fun k hk => good k (by omega)
    rw [log_succ, log_succ, before]
    rcases attends.moves _ _ _ rel (needs _ _ _ rel here) with ⟨silent, -⟩ | ⟨o, a, u, shows, -⟩
    · rw [quiet _ _ _ rel here silent, silent, List.append_nil, List.append_nil]
    · rw [turn _ _ _ _ _ rel here shows, shows, along_concat]

end Machine

/-! ## A system around the circuit -/

section System

variable {σ' : Type u} {ι' : Type v} {next' : σ' → ι' → σ'} {view : σ' → σ} {feed : σ' → ι' → ι} {Inv : σ' → Prop}
  {rank : σ' → ℕ} {limit : ℕ} {waits' : σ' → ι' → Bool}

/-- The circuit is a part of a system that brings its waits to an end, but for some that stay
waits: `rank` falls in every cycle it waits in, and rises only when something shows. -/
structure Hosts (next : σ → ι → σ) (out : σ → ι → List (ο × α)) (delay : σ → ℕ) (waits : σ → ι → Bool)
    (next' : σ' → ι' → σ') (view : σ' → σ) (feed : σ' → ι' → ι) (Inv : σ' → Prop) (rank : σ' → ℕ) (limit : ℕ)
    (waits' : σ' → ι' → Bool) : Prop where
  part : ∀ s x, view (next' s x) = next (view s) (feed s x)
  keeps : ∀ s x, Inv s → Inv (next' s x)
  limited : ∀ s, Inv s → rank s < limit
  silent : ∀ s x, Inv s → out (view s) (feed s x) = [] → rank (next' s x) ≤ rank s
  ends : ∀ s x, Inv s → out (view s) (feed s x) = [] → waits (view s) (feed s x) = true →
    waits' s x = true ∨ rank (next' s x) < rank s ∧ delay (next (view s) (feed s x)) ≤ delay (view s)

/-- Such a system attends the machine with the waits that stay. -/
theorem Attends.hosted (attends : Attends next out Step delay bound waits Rel Ok)
    (hosts : Hosts next out delay waits next' view feed Inv rank limit waits') :
    Attends next' (fun s x => out (view s) (feed s x)) Step (fun s => delay (view s) + rank s) (bound + limit) waits'
      (fun s t => Inv s ∧ Rel (view s) t) (fun s x => Ok (view s) (feed s x)) := by
  refine ⟨fun s t rel => Nat.add_lt_add (attends.bounded _ _ rel.2) (hosts.limited s rel.1), ?_⟩
  intro s x t rel ok
  obtain ⟨inv, rel⟩ := rel
  have kept := hosts.keeps s x inv
  rcases attends.moves _ _ _ rel ok with ⟨silent, rel', goes⟩ | ⟨o, a, v, shows, step, rel'⟩
  · have part := hosts.part s x
    have low := hosts.silent s x inv silent
    refine .inl ⟨silent, ⟨kept, part ▸ rel'⟩, ?_⟩
    rw [part]
    rcases goes with less | waiting
    · exact .inl (by omega)
    · rcases hosts.ends s x inv silent waiting with stays | ⟨falls, level⟩
      · exact .inr stays
      · exact .inl (by omega)
  · exact .inr ⟨o, a, v, shows, step, kept, hosts.part s x ▸ rel'⟩

end System

end Clocked

import Mathlib.Data.Nat.Find
import YarvUc.Clocked.Run

/-!
# Progress, and the logs of one script

`LeadsTo` is progress along a run: from every cycle where `P` holds one comes where `Q`
does. Its rules are the usual ones: a condition that lasts until what it waits for happens,
and a rank that falls. A `script` is a list of items, each of which may depend on all that
was written before; a log that `Plays` it has written some items whole, and the beginning
of the next. Two circuits that play one script write the same log, each at its own pace.
-/

namespace Clocked

universe u

/-! ## Progress -/

/-- From every cycle where `P` holds, one where `Q` holds is not passed. -/
def LeadsTo (P Q : ℕ → Prop) : Prop := ∀ n, P n → ∃ m ≥ n, Q m

namespace LeadsTo

variable {P P' Q R : ℕ → Prop}

theorem now (now : ∀ n, P n → Q n) : LeadsTo P Q := fun n h => ⟨n, le_refl n, now n h⟩

theorem next (next : ∀ n, P n → Q (n + 1)) : LeadsTo P Q := fun n h => ⟨n + 1, Nat.le_succ n, next n h⟩

theorem trans (first : LeadsTo P Q) (second : LeadsTo Q R) : LeadsTo P R := by
  intro n h
  obtain ⟨m, hm, hq⟩ := first n h
  obtain ⟨l, hl, hr⟩ := second m hq
  exact ⟨l, le_trans hm hl, hr⟩

theorem or (left : LeadsTo P R) (right : LeadsTo P' R) : LeadsTo (fun n => P n ∨ P' n) R :=
  fun n h => h.elim (left n) (right n)

/-- What lasts until `R` happens meets it. -/
theorem wait (stays : ∀ n, P n → ¬ R n → P (n + 1)) (fair : LeadsTo P R) : LeadsTo P fun n => P n ∧ R n := by
  intro n h
  by_contra never
  push Not at never
  have lasts : ∀ d, P (n + d) := by
    intro d
    induction d with
    | zero => exact h
    | succ d ih => exact stays (n + d) ih (never (n + d) (Nat.le_add_right n d) ih)
  obtain ⟨m, hm, hr⟩ := fair n h
  obtain ⟨d, rfl⟩ := Nat.exists_eq_add_of_le hm
  exact never (n + d) hm (lasts d) hr

/-- A rank that falls from cycle to cycle gets to `Q`. -/
theorem descend (rank : ℕ → ℕ) (step : ∀ n, P n → Q (n + 1) ∨ P (n + 1) ∧ rank (n + 1) < rank n) : LeadsTo P Q := by
  have bounded : ∀ r n, rank n = r → P n → ∃ m ≥ n, Q m := by
    intro r
    induction r using Nat.strong_induction_on with
    | _ r ih =>
      intro n hr h
      rcases step n h with done | ⟨more, less⟩
      · exact ⟨n + 1, Nat.le_succ n, done⟩
      · obtain ⟨m, hm, hq⟩ := ih (rank (n + 1)) (hr ▸ less) (n + 1) rfl more
        exact ⟨m, by omega, hq⟩
  exact fun n h => bounded (rank n) n rfl h

end LeadsTo

/-- A condition that lasts until what it leads to lasts until the first time of that. -/
theorem LeadsTo.first {P Q : ℕ → Prop} (leads : LeadsTo P Q) (stays : ∀ n, P n → ¬ Q n → P (n + 1)) {n : ℕ} (h : P n) :
    ∃ m ≥ n, P m ∧ Q m ∧ ∀ k, n ≤ k → k < m → P k ∧ ¬ Q k := by
  classical
  obtain ⟨l, hl, ql⟩ := leads n h
  have some : ∃ m, n ≤ m ∧ Q m := ⟨l, hl, ql⟩
  obtain ⟨le, found⟩ := Nat.find_spec some
  have least : ∀ k, n ≤ k → k < Nat.find some → ¬ Q k := fun k hk lt q => Nat.find_min some lt ⟨hk, q⟩
  have lasts : ∀ d, n + d ≤ Nat.find some → P (n + d) := by
    intro d
    induction d with
    | zero => exact fun _ => h
    | succ d ih => exact fun hd => stays (n + d) (ih (by omega)) (least (n + d) (by omega) (by omega))
  have all : ∀ k, n ≤ k → k ≤ Nat.find some → P k := by
    intro k hk hm
    obtain ⟨d, rfl⟩ := Nat.exists_eq_add_of_le hk
    exact lasts d hm
  exact ⟨Nat.find some, le, all _ le (le_refl _), found, fun k hk lt => ⟨all k hk (Nat.le_of_lt lt), least k hk lt⟩⟩

/-- A counter that always moves on passes every bound. -/
theorem counts {k : ℕ → ℕ} (moves : ∀ j, LeadsTo (fun n => k n = j) fun n => j < k n) (j : ℕ) : ∃ n, j ≤ k n := by
  induction j with
  | zero => exact ⟨0, Nat.zero_le _⟩
  | succ j ih =>
    obtain ⟨n, hn⟩ := ih
    rcases Nat.eq_or_lt_of_le hn with rfl | more
    · obtain ⟨m, -, hm⟩ := moves _ n rfl
      exact ⟨m, hm⟩
    · exact ⟨n, more⟩

/-! ## What has lasted -/

variable {α : Type u}

/-- In `m` it was idle, and has not been again up to `n`; and `own` has been the same all along. -/
structure Since (Idle : ℕ → Prop) (own : ℕ → α) (m n : ℕ) : Prop where
  before : m < n
  idle : Idle m
  busy : ∀ k, m < k → k ≤ n → ¬ Idle k
  same : ∀ k, m ≤ k → k ≤ n → own k = own n

/-- What a busy cycle takes over has been the same since the last idle one. -/
theorem since {Idle : ℕ → Prop} {own : ℕ → α} (init : Idle 0) (keeps : ∀ n, ¬ Idle (n + 1) → own (n + 1) = own n)
    {n : ℕ} (busy : ¬ Idle n) : ∃ m, Since Idle own m n := by
  induction n with
  | zero => exact absurd init busy
  | succ n ih =>
    have kept : own (n + 1) = own n := keeps n busy
    by_cases idle : Idle n
    · refine ⟨n, Nat.lt_succ_self n, idle, fun k hk le => ?_, fun k hk le => ?_⟩
      · obtain rfl : k = n + 1 := by omega
        exact busy
      · obtain rfl | rfl : k = n ∨ k = n + 1 := by omega
        · exact kept.symm
        · rfl
    · obtain ⟨m, so⟩ := ih idle
      refine ⟨m, Nat.lt_succ_of_lt so.before, so.idle, fun k hk le => ?_, fun k hk le => ?_⟩
      · rcases Nat.lt_or_eq_of_le le with lt | rfl
        · exact so.busy k hk (Nat.le_of_lt_succ lt)
        · exact busy
      · rcases Nat.lt_or_eq_of_le le with lt | rfl
        · exact (so.same k hk (Nat.le_of_lt_succ lt)).trans kept.symm
        · rfl

/-! ## Scripts -/

/-- The first `k` items, each written behind all those before it. -/
def script (item : ℕ → List α → List α) : ℕ → List α
  | 0 => []
  | k + 1 => script item k ++ item k (script item k)

variable {item : ℕ → List α → List α}

theorem script_succ (k : ℕ) : script item (k + 1) = script item k ++ item k (script item k) := rfl

theorem script_mono {j k : ℕ} (le : j ≤ k) : script item j <+: script item k := by
  induction le with
  | refl => exact List.prefix_refl _
  | step _ ih => exact ih.trans (List.prefix_append _ _)

/-- Before cycle `n` the log holds `k n` items whole and some of the next. -/
structure Plays (item : ℕ → List α → List α) (log : ℕ → List α) (k : ℕ → ℕ) : Prop where
  whole : ∀ n, script item (k n) <+: log n
  begun : ∀ n, log n <+: script item (k n + 1)

variable {log log' : ℕ → List α} {k k' : ℕ → ℕ}

/-- Of two logs of one script, one is always the beginning of the other. -/
theorem Plays.comparable (plays : Plays item log k) (plays' : Plays item log' k') (n m : ℕ) :
    log n <+: log' m ∨ log' m <+: log n := by
  have left : log n <+: script item (max (k n + 1) (k' m + 1)) :=
    (plays.begun n).trans (script_mono (le_max_left _ _))
  have right : log' m <+: script item (max (k n + 1) (k' m + 1)) :=
    (plays'.begun m).trans (script_mono (le_max_right _ _))
  exact List.prefix_or_prefix_of_prefix left right

/-- A log whose items always come to an end gets wherever the other one is. -/
theorem Plays.catches (plays : Plays item log k) (plays' : Plays item log' k')
    (moves : ∀ j, LeadsTo (fun n => k' n = j) fun n => j < k' n) (n : ℕ) : ∃ m, log n <+: log' m := by
  obtain ⟨m, hm⟩ := counts moves (k n + 1)
  exact ⟨m, ((plays.begun n).trans (script_mono hm)).trans (plays'.whole m)⟩

end Clocked

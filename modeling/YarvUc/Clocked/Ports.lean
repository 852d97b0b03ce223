import YarvUc.Clocked.Run

/-!
# Ports that take a request in two halves

The two halves of a request arrive on channels of their own, in any order and at any
distance. The port keeps the half that came first, commits when it has both, and then owes
one response; while it does, neither channel takes anything. `Pairing` is such a port:
whatever is offered to it, every half that is taken is used for exactly one commit, in the
order of its channel. `Answer` is the register of a read channel, which holds what was read
until it is collected.
-/

namespace Clocked

universe u v w x

/-! ## Two halves -/

/-- The halves kept, and whether a response is owed. -/
structure Pairing (α : Type u) (β : Type v) where
  left : Option α
  right : Option β
  owed : Bool

/-- One cycle: what is offered, whether the response is collected, and whether the left
channel is shut or the commit put off. -/
structure PairingIn (α : Type u) (β : Type v) where
  left : Option α
  right : Option β
  collect : Bool
  shut : Bool
  hold : Bool

namespace Pairing

variable {α : Type u} {β : Type v}

def empty : Pairing α β := { left := none, right := none, owed := false }

section Cycle

variable (p : Pairing α β) (i : PairingIn α β)

/-- What the left channel takes. -/
def takeLeft : Option α := if p.left.isSome || p.owed || i.shut then none else i.left

/-- What the right channel takes. -/
def takeRight : Option β := if p.right.isSome || p.owed then none else i.right

def leftNow : Option α := p.left.or (p.takeLeft i)
def rightNow : Option β := p.right.or (p.takeRight i)

/-- Both halves, once they are there. -/
def commit : Option (α × β) :=
  match p.leftNow i, p.rightNow i with
  | some a, some b => if p.owed || i.hold then none else some (a, b)
  | _, _ => none

/-- The response is collected. -/
def collected : Bool := p.owed && i.collect

def next : Pairing α β where
  left := if (p.commit i).isSome then none else p.leftNow i
  right := if (p.commit i).isSome then none else p.rightNow i
  owed := if p.owed then !i.collect else (p.commit i).isSome

end Cycle

variable {p : Pairing α β} {i : PairingIn α β} {ls : List α} {rs : List β} {cs : List (α × β)} {done : ℕ}

theorem commit_eq_some {c : α × β} :
    p.commit i = some c ↔
      p.leftNow i = some c.1 ∧ p.rightNow i = some c.2 ∧ p.owed = false ∧ i.hold = false := by
  unfold commit
  constructor
  · intro h
    split at h
    · rename_i a b left right
      split at h
      · cases h
      · rename_i free
        obtain rfl := Option.some.inj h
        simp only [Bool.or_eq_true, not_or, Bool.not_eq_true] at free
        exact ⟨left, right, free.1, free.2⟩
    · cases h
  · rintro ⟨left, right, owed, hold⟩
    rw [left, right, owed, hold]
    rfl

/-- The halves taken so far are those committed and the ones kept, and every commit is
answered or owed its response. -/
structure Accounts (p : Pairing α β) (ls : List α) (rs : List β) (cs : List (α × β)) (done : ℕ) :
    Prop where
  left : ls = cs.map Prod.fst ++ p.left.toList
  right : rs = cs.map Prod.snd ++ p.right.toList
  owed : cs.length = done + p.owed.toNat
  clear : p.owed = true → p.left = none ∧ p.right = none

theorem accounts_empty : Accounts (empty : Pairing α β) [] [] [] 0 :=
  ⟨rfl, rfl, rfl, fun owed => by cases owed⟩

/-- What a channel has kept and takes is what it has now. -/
theorem leftNow_toList : (p.leftNow i).toList = p.left.toList ++ (p.takeLeft i).toList := by
  unfold leftNow takeLeft
  cases p.left <;> simp

theorem rightNow_toList : (p.rightNow i).toList = p.right.toList ++ (p.takeRight i).toList := by
  unfold rightNow takeRight
  cases p.right <;> simp

namespace Accounts

theorem next (h : p.Accounts ls rs cs done) :
    (p.next i).Accounts (ls ++ (p.takeLeft i).toList) (rs ++ (p.takeRight i).toList)
      (cs ++ (p.commit i).toList) (done + (p.collected i).toNat) := by
  rw [h.left, h.right, List.append_assoc, List.append_assoc, ← leftNow_toList, ← rightNow_toList]
  cases commit : p.commit i with
  | none =>
    refine ⟨by simp [Pairing.next, commit], by simp [Pairing.next, commit], ?_, ?_⟩
    · have owed := h.owed
      cases hp : p.owed <;> cases hc : i.collect <;> simp_all [Pairing.next, collected]
    · intro owed
      cases hp : p.owed with
      | false => simp [Pairing.next, commit, hp] at owed
      | true =>
        obtain ⟨left, right⟩ := h.clear hp
        simp [Pairing.next, commit, leftNow, rightNow, takeLeft, takeRight, left, right, hp]
  | some c =>
    obtain ⟨left, right, free, -⟩ := commit_eq_some.mp commit
    refine ⟨by simp [Pairing.next, commit, left], by simp [Pairing.next, commit, right], ?_, ?_⟩
    · have owed := h.owed
      simp_all [Pairing.next, collected]
    · intro _
      simp [Pairing.next, commit]

/-- Without a half of either kind left over, each is committed. -/
theorem eq_zip (h : p.Accounts ls rs cs done) (one : p.left = none ∨ p.right = none) :
    cs = ls.zip rs := by
  rw [h.left, h.right, List.zip_append (by simp), ← List.zip_of_prod rfl rfl]
  rcases one with none | none <;> rw [none] <;> simp

/-- A channel takes nothing before the responses to all commits are collected. -/
theorem taken_left (h : p.Accounts ls rs cs done) (takes : (p.takeLeft i).isSome = true) :
    ls.length = done := by
  unfold takeLeft at takes
  split at takes
  · cases takes
  · rename_i free
    simp only [Bool.or_eq_true, not_or, Bool.not_eq_true, Option.isSome_eq_false_iff, Option.isNone_iff_eq_none]
      at free
    have owed := h.owed
    simp_all [h.left]

theorem taken_right (h : p.Accounts ls rs cs done) (takes : (p.takeRight i).isSome = true) :
    rs.length = done := by
  unfold takeRight at takes
  split at takes
  · cases takes
  · rename_i free
    simp only [Bool.or_eq_true, not_or, Bool.not_eq_true, Option.isSome_eq_false_iff, Option.isNone_iff_eq_none]
      at free
    have owed := h.owed
    simp_all [h.right]

end Accounts

/-- A port that never puts a commit off keeps at most one half. -/
theorem one_half (prompt : i.hold = false) (clear : p.owed = true → p.left = none ∧ p.right = none) :
    (p.next i).left = none ∨ (p.next i).right = none := by
  cases commit : p.commit i with
  | some c => exact .inl (by simp [next, commit])
  | none =>
    simp only [next, commit, Option.isSome_none, Bool.false_eq_true, if_false]
    cases left : p.leftNow i with
    | none => exact .inl rfl
    | some a =>
      cases right : p.rightNow i with
      | none => exact .inr rfl
      | some b =>
        cases owed : p.owed with
        | false =>
          have := (commit_eq_some (c := (a, b))).mpr ⟨left, right, owed, prompt⟩
          rw [commit] at this
          cases this
        | true =>
          obtain ⟨empty, -⟩ := clear owed
          simp [leftNow, takeLeft, empty, owed] at left

/-! ### Circuits with such a port -/

/-- The port of a circuit, as a view of its state, moves like a `Pairing`. -/
def Drives {σ : Type w} {ι : Type x} (step : σ → ι → σ) (view : σ → Pairing α β) (offer : σ → ι → PairingIn α β) :
    Prop :=
  ∀ s x, view (step s x) = (view s).next (offer s x)

section Run

variable {σ : Type w} {ι : Type x} {step : σ → ι → σ} {view : σ → Pairing α β} {offer : σ → ι → PairingIn α β}

/-- What the port of a run has taken, committed and answered. -/
theorem Drives.run (drives : Drives step view offer) {s : σ} (init : view s = empty) (ins : ℕ → ι) (n : ℕ) :
    (view (Clocked.run step s ins n)).Accounts
      (log step (fun s x => ((view s).takeLeft (offer s x)).toList) s ins n)
      (log step (fun s x => ((view s).takeRight (offer s x)).toList) s ins n)
      (log step (fun s x => ((view s).commit (offer s x)).toList) s ins n)
      (log step (fun s x => if (view s).collected (offer s x) then [()] else []) s ins n).length := by
  induction n with
  | zero =>
    rw [run_zero, init]
    exact accounts_empty
  | succ n ih =>
    have count : ∀ b : Bool, (if b then [()] else []).length = b.toNat := by decide
    rw [run_succ, drives, log_succ, log_succ, log_succ, log_succ, List.length_append, count]
    exact ih.next

theorem Drives.one_half (drives : Drives step view offer) {s : σ} (init : view s = empty)
    (prompt : ∀ s x, (offer s x).hold = false) (ins : ℕ → ι) (n : ℕ) :
    (view (Clocked.run step s ins n)).left = none ∨ (view (Clocked.run step s ins n)).right = none := by
  cases n with
  | zero =>
    rw [run_zero, init]
    exact .inl rfl
  | succ n =>
    rw [run_succ, drives]
    exact Pairing.one_half (prompt _ _) (drives.run init ins n).clear

end Run

end Pairing

/-! ## Kept in flags and latches -/

/-- The port as a circuit keeps it: a flag and a latch for each half. -/
structure Flags (α : Type u) (β : Type v) where
  leftSeen : Bool
  rightSeen : Bool
  left : α
  right : β
  owed : Bool

/-- The wires of the two channels. -/
structure FlagsIn (α : Type u) (β : Type v) where
  leftValid : Bool
  left : α
  rightValid : Bool
  right : β
  collect : Bool
  shut : Bool
  hold : Bool

namespace Flags

variable {α : Type u} {β : Type v} (f : Flags α β) (i : FlagsIn α β)

def leftHs : Bool := i.leftValid && (!f.leftSeen && !f.owed && !i.shut)
def rightHs : Bool := i.rightValid && (!f.rightSeen && !f.owed)
def leftNow : α := if f.leftHs i then i.left else f.left
def rightNow : β := if f.rightHs i then i.right else f.right
def go : Bool := (f.leftSeen || f.leftHs i) && (f.rightSeen || f.rightHs i) && !f.owed && !i.hold

def next : Flags α β where
  leftSeen := if f.go i then false else f.leftSeen || f.leftHs i
  rightSeen := if f.go i then false else f.rightSeen || f.rightHs i
  left := f.leftNow i
  right := f.rightNow i
  owed := if f.owed && i.collect then false else f.go i || f.owed

def view : Pairing α β where
  left := if f.leftSeen then some f.left else none
  right := if f.rightSeen then some f.right else none
  owed := f.owed

end Flags

def FlagsIn.offer {α : Type u} {β : Type v} (i : FlagsIn α β) : PairingIn α β where
  left := if i.leftValid then some i.left else none
  right := if i.rightValid then some i.right else none
  collect := i.collect
  shut := i.shut
  hold := i.hold

namespace Flags

variable {α : Type u} {β : Type v} {f : Flags α β} {i : FlagsIn α β}

theorem takeLeft : f.view.takeLeft i.offer = if f.leftHs i then some i.left else none := by
  unfold Pairing.takeLeft view FlagsIn.offer leftHs
  cases f.leftSeen <;> cases f.owed <;> cases i.leftValid <;> cases i.shut <;> rfl

theorem takeRight : f.view.takeRight i.offer = if f.rightHs i then some i.right else none := by
  unfold Pairing.takeRight view FlagsIn.offer rightHs
  cases f.rightSeen <;> cases f.owed <;> cases i.rightValid <;> rfl

/-- A latch is read when nothing is taken over it. -/
theorem view_leftNow : f.view.leftNow i.offer = if f.leftSeen || f.leftHs i then some (f.leftNow i) else none := by
  rw [Pairing.leftNow, takeLeft, leftNow]
  cases seen : f.leftSeen with
  | false => cases f.leftHs i <;> simp [view, seen]
  | true =>
    have none : f.leftHs i = false := by simp [leftHs, seen]
    simp [view, seen, none]

theorem view_rightNow :
    f.view.rightNow i.offer = if f.rightSeen || f.rightHs i then some (f.rightNow i) else none := by
  rw [Pairing.rightNow, takeRight, rightNow]
  cases seen : f.rightSeen with
  | false => cases f.rightHs i <;> simp [view, seen]
  | true =>
    have none : f.rightHs i = false := by simp [rightHs, seen]
    simp [view, seen, none]

theorem commit : f.view.commit i.offer = if f.go i then some (f.leftNow i, f.rightNow i) else none := by
  have owed : f.view.owed = f.owed := rfl
  have hold : i.offer.hold = i.hold := rfl
  rw [Pairing.commit, view_leftNow, view_rightNow, go, owed, hold]
  cases f.leftSeen || f.leftHs i <;> cases f.rightSeen || f.rightHs i <;> cases f.owed <;> cases i.hold <;> rfl

theorem view_next : (f.next i).view = f.view.next i.offer := by
  have commits : (f.view.commit i.offer).isSome = f.go i := by
    rw [commit]
    cases f.go i <;> rfl
  rw [Pairing.next, commits, view_leftNow, view_rightNow]
  simp only [view, next, Pairing.mk.injEq]
  refine ⟨?_, ?_, ?_⟩
  · rcases Bool.eq_false_or_eq_true (f.go i) with write | write <;> simp [write]
  · rcases Bool.eq_false_or_eq_true (f.go i) with write | write <;> simp [write]
  · have collect : i.offer.collect = i.collect := rfl
    rw [collect]
    rcases Bool.eq_false_or_eq_true f.owed with owed | owed
    · have quiet : f.go i = false := by simp [go, owed]
      simp [quiet, owed]
    · simp [owed]

end Flags

/-! ## The answer register -/

/-- What was read and not collected yet. -/
def Answer.next {α : Type u} (held : Option α) (asked : Option α) (collect : Bool) : Option α :=
  match asked with
  | some a => some a
  | none => if collect then none else held

/-- What is collected in a cycle. -/
def Answer.given {α : Type u} (held : Option α) (collect : Bool) : List α := if collect then held.toList else []

/-- With nothing asked over an answer that is still held, each is given once. -/
theorem Answer.conserves {α : Type u} {held asked : Option α} {collect : Bool}
    (room : asked.isSome = true → held = none ∨ collect = true) :
    held.toList ++ asked.toList = Answer.given held collect ++ (Answer.next held asked collect).toList := by
  cases asked with
  | none => cases collect <;> simp [Answer.given, Answer.next]
  | some a => rcases room rfl with none | taken <;> simp_all [Answer.given, Answer.next]

/-- The register as a flag and a word. -/
theorem Answer.flag_next {α : Type u} (valid asks collect : Bool) (word new : α) :
    (if asks || (valid && !collect) then some (if asks then new else word) else none) =
      Answer.next (if valid then some word else none) (if asks then some new else none) collect := by
  cases asks <;> cases valid <;> cases collect <;> rfl

/-- It asks when nothing is held, or what is held is collected. -/
theorem Answer.flag_room {α : Type u} {offered valid collect : Bool} {word new : α}
    (asks : (if offered && (!valid || (valid && collect)) then some new else none).isSome = true) :
    (if valid then some word else none) = none ∨ collect = true := by
  cases valid with
  | false => exact .inl rfl
  | true =>
    cases collect with
    | true => exact .inr rfl
    | false => simp at asks

/-- A circuit with such a register hands out everything it reads, once and in order. -/
theorem Answer.run {σ : Type w} {ι : Type x} {α : Type u} {step : σ → ι → σ} {held : σ → Option α}
    {asked : σ → ι → Option α} {collect : σ → ι → Bool}
    (answer : ∀ s x, held (step s x) = Answer.next (held s) (asked s x) (collect s x))
    (room : ∀ s x, (asked s x).isSome = true → held s = none ∨ collect s x = true) {s : σ} (silent : held s = none)
    (ins : ℕ → ι) (n : ℕ) :
    log step (fun s x => (asked s x).toList) s ins n =
      log step (fun s x => Answer.given (held s) (collect s x)) s ins n ++
        (held (Clocked.run step s ins n)).toList := by
  induction n with
  | zero =>
    rw [run_zero, silent]
    rfl
  | succ n ih =>
    rw [log_succ, log_succ, run_succ, ih, answer, List.append_assoc, Answer.conserves (room _ _), List.append_assoc]

end Clocked

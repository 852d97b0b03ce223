import Mathlib.Data.Nat.Basic

/-!
# Room for what is asked

A buffer that is filled by answers. Who asks reserves room for all that the answer may
bring, so an answer always finds room, however late it comes. The buffer may be emptied at
any time: what has been asked for until then is stale, and its answers bring nothing.
-/

namespace Clocked

/-- What is held, the asks that are not answered yet, and the stale ones among them. -/
structure Room where
  held : ℕ
  owed : ℕ
  stale : ℕ

/-- What happens in one cycle. -/
structure RoomIn where
  flush : Bool
  ask : Bool
  answer : Bool
  put : ℕ
  take : ℕ

namespace Room

/-- The counters after the edge. What is asked in the cycle of a flush is not stale. -/
def next (r : Room) (i : RoomIn) : Room where
  held := if i.flush then 0 else r.held + i.put - i.take
  owed := r.owed + i.ask.toNat - i.answer.toNat
  stale := if i.flush then r.owed - i.answer.toNat else if i.answer then r.stale - 1 else r.stale

/-- A buffer of `depth` slots, of which an answer fills up to `width`, with at most `limit`
answers on their way. -/
structure Fits (depth width limit : ℕ) (r : Room) : Prop where
  room : r.held + width * r.owed ≤ depth
  owed : r.owed ≤ limit
  stale : r.stale ≤ r.owed

/-- Where what is put comes from. -/
inductive Puts (depth width : ℕ) (r : Room) (i : RoomIn) : Prop
  | none (nothing : i.put = 0)
  | answer (comes : i.answer = true) (fresh : r.stale = 0) (few : i.put ≤ width)
  /-- Something that was not asked for finds room left over, and nothing is asked for behind it. -/
  | own (fits : r.held + width * r.owed + i.put ≤ depth) (noAsk : i.flush = false → i.ask = false)

/-- The rules of a cycle. -/
structure Ok (depth width limit : ℕ) (r : Room) (i : RoomIn) : Prop where
  /-- Room is reserved, in the buffer as the edge leaves it. -/
  reserves : i.ask = true → (if i.flush then 0 else r.held) + width * r.owed + width ≤ depth ∧ r.owed < limit
  answers : i.answer = true → 0 < r.owed
  puts : Puts depth width r i
  takes : i.take ≤ r.held

variable {depth width limit : ℕ} {r : Room} {i : RoomIn}

theorem fits_empty : Fits depth width limit { held := 0, owed := 0, stale := 0 } :=
  ⟨by simp, Nat.zero_le _, le_refl _⟩

/-- What is put finds room, in the cycle of a flush too. -/
theorem Fits.put (fits : Fits depth width limit r) (answers : i.answer = true → 0 < r.owed)
    (puts : Puts depth width r i) : r.held + i.put ≤ depth := by
  have room := fits.room
  cases puts with
  | none nothing => omega
  | answer comes fresh few =>
    have one : width * 1 ≤ width * r.owed := Nat.mul_le_mul_left width (answers comes)
    omega
  | own fits noAsk => omega

theorem Fits.next_owed (fits : Fits depth width limit r) (ok : Ok depth width limit r i) : (r.next i).owed ≤ limit := by
  have owed := fits.owed
  change r.owed + i.ask.toNat - i.answer.toNat ≤ limit
  cases ask : i.ask with
  | false => exact Nat.le_trans (Nat.sub_le _ _) owed
  | true =>
    have less := (ok.reserves ask).2
    exact Nat.le_trans (Nat.sub_le _ _) less

theorem Fits.next_stale (fits : Fits depth width limit r) (ok : Ok depth width limit r i) :
    (r.next i).stale ≤ (r.next i).owed := by
  have stale := fits.stale
  change (if i.flush then r.owed - i.answer.toNat else if i.answer then r.stale - 1 else r.stale) ≤
    r.owed + i.ask.toNat - i.answer.toNat
  split
  · omega
  · cases answer : i.answer with
    | false => exact Nat.le_trans stale (Nat.le_add_right _ _)
    | true =>
      have some := ok.answers answer
      rw [if_pos rfl, Bool.toNat_true]
      omega

/-- A flush leaves room for what is on its way. -/
theorem Fits.next_flush (fits : Fits depth width limit r) (ok : Ok depth width limit r i) (flush : i.flush = true) :
    (r.next i).held + width * (r.next i).owed ≤ depth := by
  have room := fits.room
  have held : (r.next i).held = 0 := if_pos flush
  have grown : width * (r.next i).owed ≤ width * (r.owed + i.ask.toNat) := Nat.mul_le_mul_left width (Nat.sub_le _ _)
  rw [held, Nat.zero_add]
  refine Nat.le_trans grown ?_
  rw [Nat.mul_add]
  cases ask : i.ask with
  | false =>
    rw [Bool.toNat_false]
    omega
  | true =>
    have reserved := (ok.reserves ask).1
    rw [if_pos flush] at reserved
    rw [Bool.toNat_true]
    omega

/-- What an answer brings takes the room it gives up. -/
theorem Fits.next_kept (fits : Fits depth width limit r) (ok : Ok depth width limit r i) (kept : i.flush = false) :
    (r.next i).held + width * (r.next i).owed ≤ depth := by
  have room := fits.room
  have held : (r.next i).held ≤ r.held + i.put := by
    change (if i.flush then 0 else _) ≤ _
    rw [kept, if_neg Bool.false_ne_true]
    exact Nat.sub_le _ _
  have grown : width * (r.next i).owed ≤ width * (r.owed + i.ask.toNat) := Nat.mul_le_mul_left width (Nat.sub_le _ _)
  have asked : r.held + width * (r.owed + i.ask.toNat) ≤ depth := by
    rw [Nat.mul_add]
    cases ask : i.ask with
    | false =>
      rw [Bool.toNat_false]
      omega
    | true =>
      have reserved := (ok.reserves ask).1
      rw [if_neg (by rw [kept]; exact Bool.false_ne_true)] at reserved
      rw [Bool.toNat_true]
      omega
  cases ok.puts with
  | none nothing => omega
  | answer comes fresh few =>
    have given : width * (r.next i).owed + width = width * (r.owed + i.ask.toNat) := by
      have some := ok.answers comes
      have owed : r.owed + i.ask.toNat = (r.next i).owed + 1 := by
        change _ = r.owed + i.ask.toNat - i.answer.toNat + 1
        rw [comes, Bool.toNat_true]
        omega
      rw [owed, Nat.mul_succ]
    omega
  | own fits noAsk =>
    rw [noAsk kept, Bool.toNat_false, Nat.add_zero] at grown
    omega

theorem Fits.next (fits : Fits depth width limit r) (ok : Ok depth width limit r i) :
    Fits depth width limit (r.next i) := by
  refine ⟨?_, fits.next_owed ok, fits.next_stale ok⟩
  cases flush : i.flush with
  | true => exact fits.next_flush ok flush
  | false => exact fits.next_kept ok flush

end Room

end Clocked

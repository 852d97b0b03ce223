import YarvUc.Decode.Parse

/-!
# The front of the pipeline

What the front end owes to decode: the instruction of an address, or the access fault
in its place. `Front` says what a decoder that holds at most a halfword and an entry
stream must look like to have that instruction next; each cut keeps it, or yields the
instruction and has its successor next.
-/

namespace YarvUc

/-- The halfword of the image at an even address. -/
def halfAt (w : ℕ) (image : ℕ → BitVec 64) (a : Word) : Half where
  pc := a
  bits :=
    if a.getLsbD 1 then (imageWord w image a).extractLsb 31 16 else (imageWord w image a).extractLsb 15 0

/-- The instruction at an even address, or the fault of its first halfword that lies
outside the memory. -/
def fetchAt (w : ℕ) (image : ℕ → BitVec 64) (a : Word) : Fetched :=
  if outsideImem w a then .fault a
  else if (halfAt w image a).isSpan then
    if outsideImem w (a + 2#32) then .fault (a + 2#32) else (halfAt w image a).join (halfAt w image (a + 2#32))
  else (halfAt w image a).fetched

/-- The length of an instruction in bytes. -/
def lengthOf (compressed : Bool) : Word := if compressed then 2#32 else 4#32

/-- The decoder's halfword and the address its entries come from have `f` next. -/
inductive Front (w : ℕ) (image : ℕ → BitVec 64) (f : Word) : Option Half → Word → Prop
  | clear : Front w image f none f
  | held (even : f.getLsbD 0 = false) (upper : f.getLsbD 1 = true) (inside : outsideImem w f = false) :
      Front w image f (some (halfAt w image f)) (nextAddr w f)
  /-- Its low half was given up: the high half is a fault. -/
  | dropped (even : f.getLsbD 0 = false) (upper : f.getLsbD 1 = true) (inside : outsideImem w f = false)
      (span : (halfAt w image f).isSpan = true) (past : outsideImem w (f + 2#32) = true) :
      Front w image f none (nextAddr w f)

variable {w : ℕ} {image : ℕ → BitVec 64} {f : Word}

/-! ## Halfwords of one word -/

theorem getLsbD_zero_iff (a : Word) : a.getLsbD 0 = decide (a.toNat % 2 = 1) := by
  simpa using BitVec.getLsbD_eq_div a 0

theorem getLsbD_one_iff (a : Word) : a.getLsbD 1 = decide (a.toNat / 2 % 2 = 1) := BitVec.getLsbD_eq_div a 1

theorem nextAddr_upperHalf (even : f.getLsbD 0 = false) (upper : f.getLsbD 1 = true)
    (inside : outsideImem w f = false) : nextAddr w f = f + 2#32 := by
  rw [nextAddr, if_neg (inside_iff.mp inside)]
  rw [getLsbD_zero_iff, decide_eq_false_iff_not] at even
  rw [getLsbD_one_iff, decide_eq_true_eq] at upper
  apply BitVec.eq_of_toNat_eq
  simp only [BitVec.toNat_add, toNat_wordOf, BitVec.toNat_ofNat]
  omega

theorem nextAddr_lowerHalf (even : f.getLsbD 0 = false) (lower : f.getLsbD 1 = false)
    (inside : outsideImem w f = false) : nextAddr w f = f + 4#32 := by
  rw [nextAddr, if_neg (inside_iff.mp inside)]
  rw [getLsbD_zero_iff, decide_eq_false_iff_not] at even
  rw [getLsbD_one_iff, decide_eq_false_iff_not] at lower
  apply BitVec.eq_of_toNat_eq
  simp only [BitVec.toNat_add, toNat_wordOf, BitVec.toNat_ofNat]
  omega

theorem even_add_two (even : f.getLsbD 0 = false) : (f + 2#32).getLsbD 0 = false := by
  rw [getLsbD_zero_iff, decide_eq_false_iff_not] at even ⊢
  simp only [BitVec.toNat_add, BitVec.toNat_ofNat]
  omega

theorem upperHalf_add_two (f : Word) : (f + 2#32).getLsbD 1 = !f.getLsbD 1 := by
  rw [getLsbD_one_iff, getLsbD_one_iff, ← decide_not]
  congr 1
  simp only [BitVec.toNat_add, BitVec.toNat_ofNat]
  apply propext
  omega

/-- The two halves of a word: same memory word, same successor. -/
theorem toNat_add_two (lower : f.getLsbD 1 = false) : (f + 2#32).toNat = f.toNat + 2 := by
  rw [getLsbD_one_iff, decide_eq_false_iff_not] at lower
  rw [BitVec.toNat_add]
  simp only [BitVec.toNat_ofNat]
  omega

theorem outsideImem_add_two (word : 3 < w) (lower : f.getLsbD 1 = false) :
    outsideImem w (f + 2#32) = outsideImem w f := by
  rw [outsideImem_eq, outsideImem_eq, toNat_add_two lower, two_pow_eq_eight_mul word]
  rw [getLsbD_one_iff, decide_eq_false_iff_not] at lower
  congr 1
  apply propext
  omega

theorem imageWord_add_two (word : 3 < w) (lower : f.getLsbD 1 = false) :
    imageWord w image (f + 2#32) = imageWord w image f := by
  have sum := toNat_add_two lower
  have block : wordAddr w 8 (f + 2#32) = wordAddr w 8 f := by
    rw [wordAddr_block word, wordAddr_block word, sum]
    rw [getLsbD_one_iff, decide_eq_false_iff_not] at lower
    congr 1
    omega
  have half : (f + 2#32).getLsbD 2 = f.getLsbD 2 := by
    rw [getLsbD_two_iff, getLsbD_two_iff, sum]
    rw [getLsbD_one_iff, decide_eq_false_iff_not] at lower
    congr 1
    apply propext
    omega
  rw [wordAddr, wordAddr] at block
  rw [imageWord, imageWord, block, half]

theorem add_two_add_two (a : Word) : a + 2#32 + 2#32 = a + 4#32 := by rw [BitVec.add_assoc]; rfl

variable (image) in
/-- The upper half of a word, held behind its lower one. -/
theorem Front.behind (word : 3 < w) (even : f.getLsbD 0 = false) (lower : f.getLsbD 1 = false)
    (inside : outsideImem w f = false) :
    Front w image (f + 2#32) (some { pc := f + 2#32, bits := (imageWord w image f).extractLsb 31 16 })
      (nextAddr w f) := by
  have upper : (f + 2#32).getLsbD 1 = true := by rw [upperHalf_add_two, lower]; rfl
  have inside' : outsideImem w (f + 2#32) = false := by rw [outsideImem_add_two word lower, inside]
  have same : nextAddr w (f + 2#32) = nextAddr w f := by
    rw [nextAddr_upperHalf (even_add_two even) upper inside', nextAddr_lowerHalf even lower inside, add_two_add_two]
  have half : halfAt w image (f + 2#32) = { pc := f + 2#32, bits := (imageWord w image f).extractLsb 31 16 } := by
    rw [halfAt, upper, imageWord_add_two word lower, if_pos rfl]
  rw [← same, ← half]
  exact .held (even_add_two even) upper inside'

/-! ## Entries of the stream -/

theorem fault_entryAt (a : Word) : (entryAt w image a).fault = outsideImem w a := by
  rw [outsideImem_eq, entryAt]
  split <;> simp_all

theorem pc_entryAt (a : Word) : (entryAt w image a).pc = a := by
  unfold entryAt
  split <;> rfl

theorem instr_entryAt {a : Word} (inside : outsideImem w a = false) :
    (entryAt w image a).instr = imageWord w image a := by
  rw [entryAt, if_neg (inside_iff.mp inside)]

theorem lo_entryAt {a : Word} (inside : outsideImem w a = false) (lower : a.getLsbD 1 = false) :
    (entryAt w image a).lo = halfAt w image a := by
  rw [Entry.lo, halfAt, instr_entryAt inside, pc_entryAt, lower, if_neg (by simp)]

theorem hi_entryAt {a : Word} (inside : outsideImem w a = false) (upper : a.getLsbD 1 = true) :
    (entryAt w image a).hi = halfAt w image a := by
  rw [Entry.hi, Entry.odd, halfAt, instr_entryAt inside, pc_entryAt, upper]
  rfl

theorem hi_entryAt_lower {a : Word} (inside : outsideImem w a = false) (lower : a.getLsbD 1 = false) :
    (entryAt w image a).hi = { pc := a + 2#32, bits := (imageWord w image a).extractLsb 31 16 } := by
  rw [Entry.hi, Entry.odd, instr_entryAt inside, pc_entryAt, lower, if_neg (by simp)]

/-! ## The instruction of an address -/

theorem fetchAt_outside (outside : outsideImem w f = true) : fetchAt w image f = .fault f := by
  simp [fetchAt, outside]

theorem fetchAt_plain (inside : outsideImem w f = false) (plain : (halfAt w image f).isSpan = false) :
    fetchAt w image f = (halfAt w image f).fetched := by simp [fetchAt, inside, plain]

theorem fetchAt_straddle (inside : outsideImem w f = false) (span : (halfAt w image f).isSpan = true)
    (past : outsideImem w (f + 2#32) = true) : fetchAt w image f = .fault (f + 2#32) := by
  simp [fetchAt, inside, span, past]

theorem fetchAt_span (inside : outsideImem w f = false) (span : (halfAt w image f).isSpan = true)
    (inside' : outsideImem w (f + 2#32) = false) :
    fetchAt w image f = (halfAt w image f).join (halfAt w image (f + 2#32)) := by
  simp [fetchAt, inside, span, inside']

/-- What an instruction's cut leaves: the instruction at its address and its successor next. -/
structure Yields (w : ℕ) (image : ℕ → BitVec 64) (f : Word) (held : Option Half) (a : Word) (pc : Word)
    (compressed : Bool) : Prop where
  pc : pc = f
  front : Front w image (f + lengthOf compressed) held a

/-- With nothing held and a word to come, the entries come from the instruction itself. -/
theorem Front.clear_of {a : Word} (front : Front w image f none a)
    (ok : outsideImem w a = false) : a = f := by
  cases front with
  | clear => rfl
  | dropped even upper inside span past =>
    rw [nextAddr_upperHalf even upper inside, past] at ok
    cases ok

/-- A fault that is cut stands for the instruction. -/
theorem Front.fetchAt_fault {held : Option Half} {a : Word} (front : Front w image f held a)
    (span : ∀ h ∈ held, Half.isSpan h = true) (fault : outsideImem w a = true) : fetchAt w image f = .fault a := by
  cases front with
  | clear => exact fetchAt_outside fault
  | held even upper inside =>
    rw [nextAddr_upperHalf even upper inside] at fault ⊢
    exact fetchAt_straddle inside (span _ rfl) fault
  | dropped even upper inside low past =>
    rw [nextAddr_upperHalf even upper inside]
    exact fetchAt_straddle inside low past

/-- An instruction that ends in the lower half of the next entry leaves the upper half behind. -/
theorem Front.straddle (word : 3 < w) (even : f.getLsbD 0 = false) (upper : f.getLsbD 1 = true)
    (inside : outsideImem w f = false) (span : (halfAt w image f).isSpan = true)
    (inside' : outsideImem w (f + 2#32) = false) :
    fetchAt w image f = (halfAt w image f).join (entryAt w image (f + 2#32)).lo ∧
      Front w image (f + 4#32) (some { pc := f + 4#32, bits := (entryAt w image (f + 2#32)).hi.bits })
        (nextAddr w (f + 2#32)) := by
  have lower : (f + 2#32).getLsbD 1 = false := by rw [upperHalf_add_two, upper]; rfl
  have behind := Front.behind image word (even_add_two even) lower inside'
  rw [lo_entryAt inside' lower, hi_entryAt_lower inside' lower]
  rw [add_two_add_two] at behind
  exact ⟨fetchAt_span inside span inside', behind⟩

/-- A cut keeps the instruction next or yields it. -/
theorem Front.cut {held held' : Option Half} {a : Word} {head next : Option Entry} {out : List Fetched} {n : ℕ}
    (word : 3 < w) (even : f.getLsbD 0 = false) (front : Front w image f held a)
    (first : ∀ e ∈ head, e = entryAt w image a) (second : ∀ e ∈ next, e = entryAt w image (nextAddr w a))
    (cut : Cut held head next out held' n) :
    out = [] ∧ Front w image f held' (addrAfter w a n) ∨
      out = [fetchAt w image f] ∧ ∀ pc instr c, fetchAt w image f = .instr pc instr c →
        Yields w image f held' (addrAfter w a n) pc c := by
  cases cut with
  | idle => exact .inl ⟨rfl, front⟩
  | wait span => exact .inl ⟨rfl, front⟩
  | plain plain =>
    cases front with
    | held even upper inside =>
    rw [fetchAt_plain inside plain, addrAfter_zero, nextAddr_upperHalf even upper inside]
    refine .inr ⟨rfl, ?_⟩
    rintro _ _ _ ⟨⟩
    exact ⟨rfl, .clear⟩
  | @fault held e next low fault =>
    obtain rfl := first e rfl
    rw [fault_entryAt] at fault
    rw [front.fetchAt_fault low fault, pc_entryAt]
    exact .inr ⟨rfl, fun _ _ _ h => by cases h⟩
  | @join h e next span ok =>
    obtain rfl := first e rfl
    rw [fault_entryAt] at ok
    cases front with
    | held even upper inside =>
    rw [nextAddr_upperHalf even upper inside] at ok ⊢
    obtain ⟨fetch, behind⟩ := Front.straddle word even upper inside span ok
    rw [fetch, pc_entryAt, addrAfter_one, add_two_add_two]
    refine .inr ⟨rfl, ?_⟩
    rintro _ _ _ ⟨⟩
    exact ⟨rfl, behind⟩
  | @lower e next ok lower plain =>
    obtain rfl := first e rfl
    rw [fault_entryAt] at ok
    rw [Entry.odd, pc_entryAt] at lower
    obtain rfl := front.clear_of ok
    rw [lo_entryAt ok lower] at plain ⊢
    rw [fetchAt_plain ok plain, hi_entryAt_lower ok lower, addrAfter_one]
    refine .inr ⟨rfl, ?_⟩
    rintro _ _ _ ⟨⟩
    exact ⟨rfl, .behind image word even lower ok⟩
  | @full e next ok lower span =>
    obtain rfl := first e rfl
    rw [fault_entryAt] at ok
    rw [Entry.odd, pc_entryAt] at lower
    obtain rfl := front.clear_of ok
    have inside' : outsideImem w (a + 2#32) = false := by rw [outsideImem_add_two word lower, ok]
    have high : halfAt w image (a + 2#32) = (entryAt w image a).hi := by
      rw [hi_entryAt_lower ok lower, halfAt, upperHalf_add_two, lower, imageWord_add_two word lower]
      rfl
    rw [lo_entryAt ok lower] at span ⊢
    rw [fetchAt_span ok span inside', high, addrAfter_one, nextAddr_lowerHalf even lower ok]
    refine .inr ⟨rfl, ?_⟩
    rintro _ _ _ ⟨⟩
    exact ⟨rfl, .clear⟩
  | @upper e next ok upper plain =>
    obtain rfl := first e rfl
    rw [fault_entryAt] at ok
    rw [Entry.odd, pc_entryAt] at upper
    obtain rfl := front.clear_of ok
    rw [hi_entryAt ok upper] at plain ⊢
    rw [fetchAt_plain ok plain, addrAfter_one, nextAddr_upperHalf even upper ok]
    refine .inr ⟨rfl, ?_⟩
    rintro _ _ _ ⟨⟩
    exact ⟨rfl, .clear⟩
  | @stash e next ok upper span late =>
    obtain rfl := first e rfl
    rw [fault_entryAt] at ok
    rw [Entry.odd, pc_entryAt] at upper
    obtain rfl := front.clear_of ok
    rw [hi_entryAt ok upper, addrAfter_one]
    exact .inl ⟨rfl, .held even upper ok⟩
  | @target e e' ok upper span ok' =>
    obtain rfl := first e rfl
    obtain rfl := second e' rfl
    rw [fault_entryAt] at ok ok'
    rw [Entry.odd, pc_entryAt] at upper
    obtain rfl := front.clear_of ok
    rw [nextAddr_upperHalf even upper ok] at ok' ⊢
    rw [hi_entryAt ok upper] at span ⊢
    obtain ⟨fetch, behind⟩ := Front.straddle word even upper ok span ok'
    rw [fetch, pc_entryAt, add_two_add_two, show addrAfter w a 2 = nextAddr w (nextAddr w a) from rfl,
      nextAddr_upperHalf even upper ok]
    refine .inr ⟨rfl, ?_⟩
    rintro _ _ _ ⟨⟩
    exact ⟨rfl, behind⟩

/-- A low half held in front of its fault may be given up. -/
theorem Front.drop {h : Half} {a : Word} (front : Front w image f (some h) a) (span : h.isSpan = true)
    (fault : outsideImem w a = true) : Front w image f none a := by
  cases front with
  | held even upper inside =>
    refine .dropped even upper inside span ?_
    rwa [nextAddr_upperHalf even upper inside] at fault

theorem pc_fetchAt {a pc word : Word} {c : Bool} (instr : fetchAt w image a = .instr pc word c) : pc = a := by
  unfold fetchAt Half.join Half.fetched at instr
  split at instr
  · cases instr
  · split at instr
    · split at instr
      · cases instr
      · cases instr
        rfl
    · cases instr
      rfl

/-- The instruction at an address begins in the I-mem's last halfword and ends outside it. -/
def Straddles (w : ℕ) (image : ℕ → BitVec 64) (a : Word) : Prop :=
  outsideImem w a = false ∧ (halfAt w image a).isSpan = true ∧ outsideImem w (a + 2#32) = true

instance (w : ℕ) (image : ℕ → BitVec 64) (a : Word) : Decidable (Straddles w image a) :=
  inferInstanceAs (Decidable (_ ∧ _))

/-- A faulting fetch reports the first halfword outside the memory. -/
theorem fault_fetchAt {w : ℕ} {a t : Word} (fault : fetchAt w image a = .fault t) :
    outsideImem w t = true ∧ (t = a ∧ ¬ Straddles w image a ∨ t = a + 2#32 ∧ Straddles w image a) := by
  unfold fetchAt at fault
  split at fault
  · rename_i outside
    obtain rfl := Fetched.fault.inj fault
    exact ⟨outside, .inl ⟨rfl, by simp [Straddles, outside]⟩⟩
  · rename_i inside
    split at fault
    · rename_i span
      split at fault
      · rename_i past
        obtain rfl := Fetched.fault.inj fault
        exact ⟨past, .inr ⟨rfl, by simpa using inside, span, past⟩⟩
      · cases fault
    · cases fault

theorem add_two_ne (a : Word) : a + 2#32 ≠ a := by
  intro h
  have := congrArg BitVec.toNat h
  rw [BitVec.toNat_add] at this
  simp only [BitVec.toNat_ofNat] at this
  omega

theorem lengthOf_ne (a : Word) (c : Bool) : a + lengthOf c ≠ a := by
  intro h
  have := congrArg BitVec.toNat h
  rw [BitVec.toNat_add] at this
  cases c <;> simp only [lengthOf, Bool.false_eq_true, if_false, if_true, BitVec.toNat_ofNat] at this <;> omega

end YarvUc

import YarvUc.Fetch.Stream
import YarvUc.Rtl.Expand

/-!
# The parse of a halfword stream

What decode is for, without its registers: entries read as halfwords and faults,
halfwords paired into instructions by the length bits. `Cut` is one step of a
decoder that looks at two entries and keeps at most one halfword between steps;
every sequence of cuts follows the parse.
-/

namespace YarvUc

/-- A halfword and its address. -/
structure Half where
  pc : Word
  bits : BitVec 16
deriving DecidableEq

/-- The halfword begins a 32-bit instruction. -/
def Half.isSpan (h : Half) : Bool := h.bits.extractLsb 1 0 == 0b11#2

/-- One element of the stream: a halfword, or the fault at an unfetchable address. -/
inductive Item where
  | half (h : Half)
  | fault (a : Word)
deriving DecidableEq

/-- What the parse yields: an instruction at its address, or an access fault with
the address it reports. -/
inductive Fetched where
  | instr (pc : Word) (word : Word) (compressed : Bool)
  | fault (tval : Word)
deriving DecidableEq

/-- A 16-bit instruction. -/
def Half.fetched (h : Half) : Fetched := .instr h.pc (cExpand h.bits) true

/-- A 32-bit instruction, `l` above `h`. -/
def Half.join (h l : Half) : Fetched := .instr h.pc (l.bits ++ h.bits) false

/-- The parse. A trailing low half is not an instruction yet; a fault in the place of
the high half takes the low half with it. -/
def parse : List Item → List Fetched
  | [] => []
  | .fault a :: rest => .fault a :: parse rest
  | [.half h] => if h.isSpan then [] else [h.fetched]
  | .half h :: .fault a :: rest => if h.isSpan then .fault a :: parse rest else h.fetched :: .fault a :: parse rest
  | .half h :: .half l :: rest => if h.isSpan then h.join l :: parse rest else h.fetched :: parse (.half l :: rest)

theorem parse_plain {h : Half} (plain : h.isSpan = false) (rest : List Item) :
    parse (.half h :: rest) = h.fetched :: parse rest := by
  cases rest with
  | nil => simp [parse, plain]
  | cons x rest => cases x <;> simp [parse, plain]

theorem parse_join {h : Half} (span : h.isSpan = true) (l : Half) (rest : List Item) :
    parse (.half h :: .half l :: rest) = h.join l :: parse rest := by
  simp [parse, span]

theorem parse_fault (a : Word) (rest : List Item) : parse (.fault a :: rest) = .fault a :: parse rest := by
  simp [parse]

theorem parse_span_fault {h : Half} (span : h.isSpan = true) (a : Word) (rest : List Item) :
    parse (.half h :: .fault a :: rest) = .fault a :: parse rest := by
  simp [parse, span]

/-! ## Entries as items -/

namespace Entry

variable (e : Entry)

/-- The entry was entered at its upper half. -/
def odd : Bool := e.pc.getLsbD 1
def lo : Half := { pc := e.pc, bits := e.instr.extractLsb 15 0 }
/-- The upper half: at the entry's own PC when it was entered there. -/
def hi : Half := { pc := if e.odd then e.pc else e.pc + 2#32, bits := e.instr.extractLsb 31 16 }

def items : List Item :=
  if e.fault then [.fault e.pc] else if e.odd then [.half e.hi] else [.half e.lo, .half e.hi]

end Entry

def itemsOf (es : List Entry) : List Item := es.flatMap Entry.items

def heldItems (held : Option Half) : List Item := (held.map Item.half).toList

/-- One step of a decoder that holds at most a halfword and sees at most two entries:
the words it yields, the halfword it then holds, and how many entries it takes. -/
inductive Cut : Option Half → Option Entry → Option Entry → List Fetched → Option Half → Nat → Prop
  | idle {next} : Cut none none next [] none 0
  | wait {h next} (span : h.isSpan = true) : Cut (some h) none next [] (some h) 0
  | plain {h head next} (plain : h.isSpan = false) : Cut (some h) head next [h.fetched] none 0
  | fault {held e next} (span : ∀ h ∈ held, Half.isSpan h = true) (fault : e.fault = true) :
      Cut held (some e) next [.fault e.pc] none 1
  | join {h e next} (span : h.isSpan = true) (ok : e.fault = false) :
      Cut (some h) (some e) next [h.join e.lo] (some { pc := e.pc + 2#32, bits := e.hi.bits }) 1
  | lower {e next} (ok : e.fault = false) (even : e.odd = false) (plain : e.lo.isSpan = false) :
      Cut none (some e) next [e.lo.fetched] (some e.hi) 1
  | full {e next} (ok : e.fault = false) (even : e.odd = false) (span : e.lo.isSpan = true) :
      Cut none (some e) next [e.lo.join e.hi] none 1
  | upper {e next} (ok : e.fault = false) (odd : e.odd = true) (plain : e.hi.isSpan = false) :
      Cut none (some e) next [e.hi.fetched] none 1
  | stash {e next} (ok : e.fault = false) (odd : e.odd = true) (span : e.hi.isSpan = true)
      (late : ∀ f ∈ next, Entry.fault f = true) : Cut none (some e) next [] (some e.hi) 1
  | target {e f} (ok : e.fault = false) (odd : e.odd = true) (span : e.hi.isSpan = true) (ok' : f.fault = false) :
      Cut none (some e) (some f) [e.hi.join f.lo] (some { pc := f.pc + 2#32, bits := f.hi.bits }) 2

/-- The two entry ports show the front of `es`, as far as it goes. -/
structure Shows (head next : Option Entry) (es : List Entry) : Prop where
  head : ∀ e ∈ head, ∀ x ∈ es[0]?, x = e
  next : ∀ f ∈ next, ∀ x ∈ es[1]?, x = f

/-- Only a stream's first entry may be entered at its upper half, and not with a halfword held. -/
def Aligned (held : Option Half) : List Entry → Prop
  | [] => True
  | e :: es => (held.isSome = true → e.odd = false) ∧ ∀ f ∈ es, Entry.odd f = false

theorem items_even {e : Entry} (ok : e.fault = false) (even : e.odd = false) :
    e.items = [.half e.lo, .half e.hi] := by
  simp [Entry.items, ok, even]

theorem hi_even {e : Entry} (even : e.odd = false) : e.hi = { pc := e.pc + 2#32, bits := e.hi.bits } := by
  simp [Entry.hi, even]

theorem Aligned.tail {held held' : Option Half} {e : Entry} {es : List Entry} (h : Aligned held (e :: es)) :
    Aligned held' es := by
  cases es with
  | nil => trivial
  | cons f es => exact ⟨fun _ => h.2 f (by simp), fun g hg => h.2 g (by simp [hg])⟩

theorem Aligned.drop {held : Option Half} {es : List Entry} (h : Aligned held es) : Aligned none es := by
  cases es with
  | nil => trivial
  | cons e es => exact ⟨by simp, h.2⟩

theorem Shows.cons {e : Entry} {next : Option Entry} {es : List Entry} (shows : Shows (some e) next es)
    (pos : 0 < es.length) : ∃ rest, es = e :: rest := by
  cases es with
  | nil => simp at pos
  | cons f rest =>
    have : f = e := shows.head e rfl f (by simp)
    exact ⟨rest, by rw [this]⟩

theorem itemsOf_cons (e : Entry) (es : List Entry) : itemsOf (e :: es) = e.items ++ itemsOf es := rfl

/-- A cut yields the front of the parse and leaves the rest of it. -/
theorem Cut.parse {held head next out held' n} (cut : Cut held head next out held' n) {es : List Entry}
    (shows : Shows head next es) (aligned : Aligned held es) (room : n ≤ es.length) :
    Aligned held' (es.drop n) ∧
      parse (heldItems held ++ itemsOf es) = out ++ YarvUc.parse (heldItems held' ++ itemsOf (es.drop n)) := by
  cases cut with
  | idle => exact ⟨aligned, rfl⟩
  | wait span => exact ⟨aligned, rfl⟩
  | plain plain => exact ⟨aligned.drop, parse_plain plain _⟩
  | @fault held e next span fault =>
    obtain ⟨rest, rfl⟩ := shows.cons (by omega)
    refine ⟨aligned.tail, ?_⟩
    have hitems : e.items = [.fault e.pc] := by simp [Entry.items, fault]
    cases held with
    | none => simp [heldItems, itemsOf_cons, hitems, parse_fault]
    | some h => simp [heldItems, itemsOf_cons, hitems, parse_span_fault (span h rfl)]
  | @join h e next span ok =>
    obtain ⟨rest, rfl⟩ := shows.cons (by omega)
    have even := aligned.1 rfl
    refine ⟨aligned.tail, ?_⟩
    rw [← hi_even even]
    simp [heldItems, itemsOf_cons, items_even ok even, parse_join span]
  | @lower e next ok even plain =>
    obtain ⟨rest, rfl⟩ := shows.cons (by omega)
    refine ⟨aligned.tail, ?_⟩
    simp [heldItems, itemsOf_cons, items_even ok even, parse_plain plain]
  | @full e next ok even span =>
    obtain ⟨rest, rfl⟩ := shows.cons (by omega)
    refine ⟨aligned.tail, ?_⟩
    simp [heldItems, itemsOf_cons, items_even ok even, parse_join span]
  | @upper e next ok odd plain =>
    obtain ⟨rest, rfl⟩ := shows.cons (by omega)
    have hitems : e.items = [.half e.hi] := by simp [Entry.items, ok, odd]
    refine ⟨aligned.tail, ?_⟩
    simp [heldItems, itemsOf_cons, hitems, parse_plain plain]
  | @stash e next ok odd span late =>
    obtain ⟨rest, rfl⟩ := shows.cons (by omega)
    have hitems : e.items = [.half e.hi] := by simp [Entry.items, ok, odd]
    refine ⟨aligned.tail, ?_⟩
    simp [heldItems, itemsOf_cons, hitems]
  | @target e f ok odd span ok' =>
    obtain ⟨rest, rfl⟩ := shows.cons (by omega)
    obtain ⟨rest, rfl⟩ : ∃ r, rest = f :: r := by
      cases rest with
      | nil => simp at room
      | cons g r =>
        have : g = f := shows.next f rfl g (by simp)
        exact ⟨r, by rw [this]⟩
    have even : f.odd = false := aligned.2 f (by simp)
    have hitems : e.items = [.half e.hi] := by simp [Entry.items, ok, odd]
    have tail : Aligned none (f :: rest) := aligned.tail
    refine ⟨tail.tail, ?_⟩
    rw [← hi_even even]
    simp [heldItems, itemsOf_cons, hitems, items_even ok' even, parse_join span]

/-- A cut at a visible entry yields something, unless it stashes an upper half. -/
theorem Cut.productive {held e next out held' n} (cut : Cut held (some e) next out held' n) :
    out ≠ [] ∨ (n = 1 ∧ e.odd = true) := by
  cases cut with
  | stash ok odd => exact .inr ⟨rfl, odd⟩
  | _ => exact .inl (by simp)

/-- Dropping a low half in front of its fault changes nothing. -/
theorem parse_drop_span {h : Half} (span : h.isSpan = true) {e : Entry} (fault : e.fault = true)
    (es : List Entry) : parse (.half h :: itemsOf (e :: es)) = parse (itemsOf (e :: es)) := by
  have hitems : e.items = [.fault e.pc] := by simp [Entry.items, fault]
  simp [itemsOf_cons, hitems, parse_span_fault span, parse_fault]

end YarvUc

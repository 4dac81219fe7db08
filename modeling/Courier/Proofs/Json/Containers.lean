import Courier.Proofs.Json.Records

/-!
# Lists and objects that are read or refused

What becomes of a list or an object is settled by its parts:

* `Spells`: a text is read as a value wherever it stands in a list or an object;
* `Breaks`: a text is refused for one cause wherever it stands;
* `reads_allItems`, `reads_allMembers`: texts that are read, between brackets;
* `fails_allItems`, `fails_allMembers`: the first of them that is refused is the
  one reported.
-/

namespace Courier.Json

open Utf8 (bytes)

/-- Standing before `rest`, `text` is refused by `r` for `cause`, at some place. -/
def Fails {α : Type} (r : Reader α) (cause : Cause) (text rest : Bytes) : Prop :=
  ∀ index, ∃ place c, r ⟨text ++ rest, index⟩ = (.error ⟨cause, some place⟩, c)

namespace Fails

variable {α β : Type} {r : Reader α} {cause : Cause} {text more rest : Bytes} {a : α}

theorem first {f : α → Reader β} (fails : Fails r cause text (more ++ rest)) :
    Fails (r >>= f) cause (text ++ more) rest := by
  intro index
  obtain ⟨place, c, eq⟩ := fails index
  refine ⟨place, c, ?_⟩
  rw [Reads.bind_eq, List.append_assoc, eq]

theorem later {f : α → Reader β} (reads : Reads r text a (more ++ rest))
    (fails : Fails (f a) cause more rest) : Fails (r >>= f) cause (text ++ more) rest := by
  intro index
  obtain ⟨place, c, eq⟩ := fails (index + text.length)
  refine ⟨place, c, ?_⟩
  rw [Reads.bind_eq, List.append_assoc, reads index]
  exact eq

theorem look {f : α → Reader β} (reads : Reads r [] a (text ++ rest))
    (fails : Fails (f a) cause text rest) : Fails (r >>= f) cause text rest :=
  later reads fails

theorem step {f : α → Reader β} {x : UInt8} (reads : Reads r [x] a (text ++ rest))
    (fails : Fails (f a) cause text rest) : Fails (r >>= f) cause (x :: text) rest :=
  later reads fails

theorem whole {f : α → Reader β} (fails : Fails r cause text rest) :
    Fails (r >>= f) cause text rest := by
  have all : Fails (r >>= f) cause (text ++ []) rest := fails.first
  rwa [List.append_nil] at all

protected theorem map {f : α → β} (fails : Fails r cause text rest) :
    Fails (f <$> r) cause text rest := by
  rw [map_eq_pure_bind]
  exact fails.whole

theorem anchored (fails : Fails r cause text rest) :
    Fails (Reader.anchored r) cause text rest := by
  intro index
  obtain ⟨place, c, eq⟩ := fails index
  exact ⟨place, c, by rw [Reader.anchored, eq]; rfl⟩

theorem closing {body : Reader α} {close : Reader Unit}
    (fails : Fails body cause text (more ++ rest)) :
    Fails (Reader.closing body close) cause (text ++ more) rest := by
  intro index
  obtain ⟨place, c, eq⟩ := fails index
  exact ⟨place, (close c).2, by rw [Reader.closing, List.append_assoc, eq]⟩

end Fails

theorem readAll_of_fails {α : Type} {r : Reader α} {cause : Cause} {text : Bytes}
    (fails : Fails r cause text []) : ∃ place, readAll r text = .error ⟨cause, some place⟩ := by
  obtain ⟨place, c, eq⟩ := fails 0
  rw [List.append_nil] at eq
  exact ⟨place, by rw [readAll, Reads.bind_eq, eq]⟩

namespace Reader

/-- A text with a value in front: its first byte is neither blank nor the end of a list. -/
def Shows (text : Bytes) : Prop :=
  ∃ b more, text = b :: more ∧ isBlankByte b = false ∧ (b == 0x5D) = false

variable {α ι : Type} {r : Reader α} {cause : Cause}

/-- A text that is read as `a` wherever it ends. -/
structure Spells (r : Reader α) (text : Bytes) (a : α) : Prop where
  shows_ : Shows text
  reads : ∀ rest, NumberEnds rest → Reads r text a rest

/-- A text that is refused wherever it ends. -/
structure Breaks (r : Reader α) (cause : Cause) (text : Bytes) : Prop where
  shows_ : Shows text
  fails : ∀ rest, NumberEnds rest → Fails r cause text rest

theorem numberEnds_nil : NumberEnds [] := nofun

theorem Breaks.not_spells {text : Bytes} (breaks : Breaks r cause text) {a : α} :
    ¬ Spells r text a := by
  intro spells
  obtain ⟨place, c, failed⟩ := breaks.fails [] numberEnds_nil 0
  have read := spells.reads [] numberEnds_nil 0
  rw [failed] at read
  cases read

theorem numberEnds_comma (rest : Bytes) : NumberEnds (0x2C :: rest) := by
  rintro _ ⟨⟩
  decide

theorem numberEnds_bracket (rest : Bytes) : NumberEnds (0x5D :: rest) := by
  rintro _ ⟨⟩
  decide

theorem numberEnds_brace (rest : Bytes) : NumberEnds (0x7D :: rest) := by
  rintro _ ⟨⟩
  decide

def comma : Bool → Bytes
  | true => []
  | false => [0x2C]

/-! ## Lists -/

theorem reads_nextItem (first : Bool) {text : Bytes} (shows_ : Shows text) (rest : Bytes) :
    Reads (nextItem first) (comma first) true (text ++ rest) := by
  obtain ⟨b, more, rfl, blank, ending⟩ := shows_
  cases first with
  | true =>
    apply Reads.look (reads_peekToken blank _)
    simp only [ending, Bool.false_eq_true, ↓reduceIte]
    exact .pure _ _
  | false =>
    apply Reads.look (reads_peekToken (by decide) _)
    apply Reads.step (reads_eat _ _)
    apply Reads.look (reads_peekToken blank _)
    split
    · contradiction
    · next same =>
      obtain rfl := Option.some.inj same
      cases ending
    · exact .pure _ _

theorem reads_nextItem_none (first : Bool) (rest : Bytes) :
    Reads (nextItem first) [] false (0x5D :: rest) :=
  .look (reads_peekToken (by decide) _) (.pure _ _)

theorem reads_endList (rest : Bytes) : Reads endList [0x5D] () rest :=
  .look (reads_peekToken (by decide) _) (reads_eat _ _)

/-- Items as they stand before the closing bracket of their list. -/
def itemsText (text : ι → Bytes) : Bool → List ι → Bytes
  | _, [] => []
  | first, x :: xs => comma first ++ (text x ++ itemsText text false xs)

section
variable {text : ι → Bytes} {val : ι → α} {xs : List ι} {steps : Nat}

/-- The one that is refused comes later. -/
theorem broken_later {x : ι} (spells : Spells r (text x) (val x))
    (broken : ∃ y ∈ x :: xs, Breaks r cause (text y)) : ∃ y ∈ xs, Breaks r cause (text y) := by
  obtain ⟨y, member, breaks⟩ := broken
  obtain rfl | member := List.mem_cons.mp member
  · exact absurd spells breaks.not_spells
  · exact ⟨y, member, breaks⟩

/-- Behind an item comes a comma or the end of the list. -/
theorem numberEnds_items (text : ι → Bytes) (xs : List ι) (rest : Bytes) :
    NumberEnds (itemsText text false xs ++ 0x5D :: rest) := by
  cases xs with
  | nil => exact numberEnds_bracket rest
  | cons x xs => exact numberEnds_comma _

theorem reads_items (first : Bool) (each : ∀ x ∈ xs, Spells r (text x) (val x))
    (enough : xs.length < steps) (rest : Bytes) :
    Reads (items r first steps) (itemsText text first xs) (xs.map val) (0x5D :: rest) := by
  induction xs generalizing first steps with
  | nil =>
    obtain ⟨steps, rfl⟩ := Nat.exists_eq_add_of_lt enough
    exact .look (reads_nextItem_none first rest) (.pure _ _)
  | cons x xs ih =>
    rw [List.length_cons] at enough
    obtain ⟨steps, rfl⟩ : ∃ n, steps = n + 1 := ⟨steps - 1, by omega⟩
    obtain ⟨spells, each⟩ := List.forall_mem_cons.mp each
    refine .bind (by simpa using reads_nextItem first spells.shows_ _) ?_
    apply (spells.reads _ (numberEnds_items text xs rest)).bind
    exact (ih false each (by omega)).last (.pure _ _)

/-- The first of them that is refused is the one reported. -/
theorem fails_items (first : Bool)
    (each : ∀ x ∈ xs, Spells r (text x) (val x) ∨ Breaks r cause (text x))
    (broken : ∃ x ∈ xs, Breaks r cause (text x)) (enough : xs.length < steps) (rest : Bytes) :
    Fails (items r first steps) cause (itemsText text first xs) (0x5D :: rest) := by
  induction xs generalizing first steps with
  | nil =>
    obtain ⟨x, member, -⟩ := broken
    cases member
  | cons x xs ih =>
    rw [List.length_cons] at enough
    obtain ⟨steps, rfl⟩ : ∃ n, steps = n + 1 := ⟨steps - 1, by omega⟩
    obtain ⟨head, each⟩ := List.forall_mem_cons.mp each
    have ends := numberEnds_items text xs rest
    obtain spells | breaks := head
    · refine .later (by simpa using reads_nextItem first spells.shows_ _) ?_
      apply Fails.later (spells.reads _ ends)
      exact Fails.whole (ih false each (broken_later spells broken) (by omega))
    · refine .later (by simpa using reads_nextItem first breaks.shows_ _) ?_
      exact (breaks.fails _ ends).first

theorem length_le_itemsText (text : ι → Bytes) (xs : List ι) :
    xs.length ≤ (itemsText text false xs).length := by
  induction xs with
  | nil => exact Nat.le_refl _
  | cons x xs ih =>
    rw [itemsText, List.length_append, List.length_append, List.length_cons]
    simp only [comma, List.length_singleton]
    omega

theorem itemsText_enough (text : ι → Bytes) (xs : List ι) (rest : Bytes) :
    xs.length < (itemsText text true xs ++ 0x5D :: rest).length + 1 := by
  cases xs with
  | nil => exact Nat.succ_pos _
  | cons x xs =>
    have short := length_le_itemsText text xs
    rw [itemsText, List.length_append, List.length_append, List.length_append, List.length_cons,
      List.length_cons]
    omega

theorem reads_allItems (each : ∀ x ∈ xs, Spells r (text x) (val x)) (rest : Bytes) :
    Reads (allItems r) (itemsText text true xs) (xs.map val) (0x5D :: rest) :=
  .look (reads_remaining _) (reads_items true each (itemsText_enough text xs rest) rest)

theorem fails_allItems
    (each : ∀ x ∈ xs, Spells r (text x) (val x) ∨ Breaks r cause (text x))
    (broken : ∃ x ∈ xs, Breaks r cause (text x)) (rest : Bytes) :
    Fails (allItems r) cause (itemsText text true xs) (0x5D :: rest) :=
  .look (reads_remaining _) (fails_items true each broken (itemsText_enough text xs rest) rest)

end

/-! ## Objects -/

theorem reads_nextName (first : Bool) (s : String) (rest : Bytes) :
    Reads (nextName first) (comma first ++ bytes (printString s)) (some s) rest := by
  cases first with
  | true => exact reads_nextName_first s rest
  | false => exact reads_nextName_more s rest

/-- Members as they stand before the closing brace of their object. -/
def membersText (name : ι → String) (text : ι → Bytes) : Bool → List ι → Bytes
  | _, [] => []
  | first, x :: xs =>
    comma first ++ bytes (printString (name x)) ++
      0x3A :: (text x ++ membersText name text false xs)

section
variable {name : ι → String} {text : ι → Bytes} {val : ι → α} {xs : List ι} {steps : Nat}

theorem numberEnds_members (name : ι → String) (text : ι → Bytes) (xs : List ι) (rest : Bytes) :
    NumberEnds (membersText name text false xs ++ 0x7D :: rest) := by
  cases xs with
  | nil => exact numberEnds_brace rest
  | cons x xs => exact numberEnds_comma _

theorem reads_members (first : Bool) (each : ∀ x ∈ xs, Spells r (text x) (val x))
    (enough : xs.length < steps) (rest : Bytes) :
    Reads (members r first steps) (membersText name text first xs)
      (xs.map fun x => (name x, val x)) (0x7D :: rest) := by
  induction xs generalizing first steps with
  | nil =>
    obtain ⟨steps, rfl⟩ := Nat.exists_eq_add_of_lt enough
    exact .look (reads_nextName_none first rest) (.pure _ _)
  | cons x xs ih =>
    rw [List.length_cons] at enough
    obtain ⟨steps, rfl⟩ : ∃ n, steps = n + 1 := ⟨steps - 1, by omega⟩
    obtain ⟨spells, each⟩ := List.forall_mem_cons.mp each
    apply (reads_nextName first (name x) _).bind
    apply Reads.step (reads_colon _)
    apply (spells.reads _ (numberEnds_members name text xs rest)).bind
    exact (ih false each (by omega)).last (.pure _ _)

theorem fails_members (first : Bool)
    (each : ∀ x ∈ xs, Spells r (text x) (val x) ∨ Breaks r cause (text x))
    (broken : ∃ x ∈ xs, Breaks r cause (text x)) (enough : xs.length < steps) (rest : Bytes) :
    Fails (members r first steps) cause (membersText name text first xs) (0x7D :: rest) := by
  induction xs generalizing first steps with
  | nil =>
    obtain ⟨x, member, -⟩ := broken
    cases member
  | cons x xs ih =>
    rw [List.length_cons] at enough
    obtain ⟨steps, rfl⟩ : ∃ n, steps = n + 1 := ⟨steps - 1, by omega⟩
    obtain ⟨head, each⟩ := List.forall_mem_cons.mp each
    have ends := numberEnds_members name text xs rest
    apply Fails.later (reads_nextName first (name x) _)
    apply Fails.step (reads_colon _)
    obtain spells | breaks := head
    · apply Fails.later (spells.reads _ ends)
      exact Fails.whole (ih false each (broken_later spells broken) (by omega))
    · exact (breaks.fails _ ends).first

theorem length_le_membersText (name : ι → String) (text : ι → Bytes) (first : Bool)
    (xs : List ι) : xs.length ≤ (membersText name text first xs).length := by
  induction xs generalizing first with
  | nil => exact Nat.le_refl _
  | cons x xs ih =>
    have short := ih false
    simp only [membersText, List.length_append, List.length_cons]
    omega

theorem membersText_enough (name : ι → String) (text : ι → Bytes) (xs : List ι) (rest : Bytes) :
    xs.length < (membersText name text true xs ++ 0x7D :: rest).length + 1 := by
  have short := length_le_membersText name text true xs
  rw [List.length_append]
  omega

theorem reads_allMembers (each : ∀ x ∈ xs, Spells r (text x) (val x)) (rest : Bytes) :
    Reads (allMembers r) (membersText name text true xs) (xs.map fun x => (name x, val x))
      (0x7D :: rest) :=
  .look (reads_remaining _)
    (reads_members true each (membersText_enough name text xs rest) rest)

theorem fails_allMembers
    (each : ∀ x ∈ xs, Spells r (text x) (val x) ∨ Breaks r cause (text x))
    (broken : ∃ x ∈ xs, Breaks r cause (text x)) (rest : Bytes) :
    Fails (allMembers r) cause (membersText name text true xs) (0x7D :: rest) :=
  .look (reads_remaining _)
    (fails_members true each broken (membersText_enough name text xs rest) rest)

end

end Reader

end Courier.Json

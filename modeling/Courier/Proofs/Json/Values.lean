import Courier.Json.Reader.Value
import Courier.Proofs.Json.Containers

/-!
# Values printed and read

A value is printed however deep it is, and read if it is not too deep:

* `print_ne_nil`: every value has a text;
* `Plain`: values without floating-point numbers;
* `normal`: a value as it is read, with the members of its objects in order;
* `Plain.same_normal`: it is the same value, objects compared as maps;
* `Plain.reads`: within the levels it may open, a printed value is read;
* `Plain.fails`: a deeper one is refused, for its depth.
-/

namespace Courier

namespace Decimal

theorem positional_ne_nil (style : Style) {digits : List Char} (some_ : digits ≠ [])
    (exponent : Int) : positional style digits exponent ≠ [] := by
  unfold positional
  simp only
  split
  · simp [some_]
  · split <;> simp

theorem write_ne_nil (style : Style) (d : Numeral) : d.write style ≠ [] := by
  unfold Numeral.write
  simp only
  split
  · exact positional_ne_nil style Nat.toDigits_ne_nil _
  · simp [scientific]

end Decimal

namespace Json

open Utf8 (bytes)

theorem print_ne_nil (j : Json) : j.print ≠ [] := by
  cases j with
  | bool b => cases b <;> simp [print]
  | num n =>
    cases n with
    | int n => simp [print, Number.print, printInt, Nat.toDigits_ne_nil]
    | float x => simp [print, Number.print, Decimal.write, Decimal.write_ne_nil]
  | null | str | arr | obj => simp [print, printString]

/-- Integers of 64 bits, with or without sign, and objects that name each member once. -/
inductive Plain : Json → Prop where
  | null : Plain .null
  | bool (b : Bool) : Plain (.bool b)
  | int {n : Int} (low : -0x8000000000000000 ≤ n) (high : n ≤ 0xFFFFFFFFFFFFFFFF) :
    Plain (.num (.int n))
  | str (s : String) : Plain (.str s)
  | arr {items : List Json} (each : ∀ j ∈ items, Plain j) : Plain (.arr items)
  | obj {members : List (String × Json)} (distinct : (members.map (·.1)).Nodup)
    (each : ∀ m ∈ members, Plain m.2) : Plain (.obj members)

/-- The same value, where the members of an object may come in any order. -/
inductive Same : Json → Json → Prop where
  | null : Same .null .null
  | bool (b : Bool) : Same (.bool b) (.bool b)
  | num (n : Number) : Same (.num n) (.num n)
  | str (s : String) : Same (.str s) (.str s)
  | arr {xs ys : List Json} (length : xs.length = ys.length)
    (each : ∀ (i : Nat) (x y : Json), xs[i]? = some x → ys[i]? = some y → Same x y) :
    Same (.arr xs) (.arr ys)
  | obj {xs ys : List (String × Json)}
    (names : ∀ name, (xs.lookup name).isSome = (ys.lookup name).isSome)
    (each : ∀ (name : String) (x y : Json), xs.lookup name = some x → ys.lookup name = some y →
      Same x y) :
    Same (.obj xs) (.obj ys)

mutual

/-- How many lists and objects stand inside each other. -/
def depth : Json → Nat
  | .arr items => depthOfItems items + 1
  | .obj members => depthOfMembers members + 1
  | _ => 0

def depthOfItems : List Json → Nat
  | [] => 0
  | item :: rest => max item.depth (depthOfItems rest)

def depthOfMembers : List (String × Json) → Nat
  | [] => 0
  | (_, value) :: rest => max value.depth (depthOfMembers rest)

end

mutual

/-- The value with the members of its objects in the order of their names. -/
def normal : Json → Json
  | .arr items => .arr (normalItems items)
  | .obj members => ofMembers (normalMembers members)
  | j => j

def normalItems : List Json → List Json
  | [] => []
  | item :: rest => item.normal :: normalItems rest

def normalMembers : List (String × Json) → List (String × Json)
  | [] => []
  | (name, value) :: rest => (name, value.normal) :: normalMembers rest

end

theorem normalItems_eq (items : List Json) : normalItems items = items.map normal := by
  induction items with
  | nil => rfl
  | cons item rest ih => rw [normalItems, ih, List.map_cons]

theorem normalMembers_eq (members : List (String × Json)) :
    normalMembers members = members.map fun m => (m.1, m.2.normal) := by
  induction members with
  | nil => rfl
  | cons m rest ih =>
    obtain ⟨name, value⟩ := m
    rw [normalMembers, ih, List.map_cons]

theorem depthOfItems_le {items : List Json} {n : Nat} :
    depthOfItems items ≤ n ↔ ∀ j ∈ items, j.depth ≤ n := by
  induction items with
  | nil => simp [depthOfItems]
  | cons item rest ih => rw [depthOfItems, Nat.max_le, ih, List.forall_mem_cons]

theorem depthOfMembers_le {members : List (String × Json)} {n : Nat} :
    depthOfMembers members ≤ n ↔ ∀ m ∈ members, m.2.depth ≤ n := by
  induction members with
  | nil => simp [depthOfMembers]
  | cons m rest ih => rw [depthOfMembers, Nat.max_le, ih, List.forall_mem_cons]

theorem lt_depthOfItems {items : List Json} {n : Nat} :
    n < depthOfItems items ↔ ∃ j ∈ items, n < j.depth := by
  simp only [← Nat.not_le, depthOfItems_le, not_forall, exists_prop]

theorem lt_depthOfMembers {members : List (String × Json)} {n : Nat} :
    n < depthOfMembers members ↔ ∃ m ∈ members, n < m.2.depth := by
  simp only [← Nat.not_le, depthOfMembers_le, not_forall, exists_prop]

/-! ## Objects as maps -/

theorem lookup_insertMember (name other : String) (value : Json)
    (members : List (String × Json)) :
    (insertMember name value members).lookup other =
      if other = name then some value else members.lookup other := by
  induction members with
  | nil => grind [insertMember]
  | cons m rest ih => grind [insertMember]

theorem lookup_of_notMem {members : List (String × Json)} {name : String}
    (absent : name ∉ members.map (·.1)) : members.lookup name = none := by
  rw [List.lookup_eq_none_iff]
  intro m member
  simp only [bne_iff_ne, ne_eq]
  rintro rfl
  exact absent (List.mem_map_of_mem member)

/-- Distinct names keep their values, whatever was there before. -/
theorem lookup_foldl_insertMember {members : List (String × Json)}
    (distinct : (members.map (·.1)).Nodup) (sorted : List (String × Json)) (name : String) :
    (members.foldl (fun sorted (n, v) => insertMember n v sorted) sorted).lookup name =
      (members.lookup name).or (sorted.lookup name) := by
  induction members generalizing sorted with
  | nil => rfl
  | cons m rest ih =>
    obtain ⟨n, v⟩ := m
    obtain ⟨fresh, distinct⟩ := List.nodup_cons.mp distinct
    rw [List.foldl_cons, ih distinct, lookup_insertMember, List.lookup_cons]
    by_cases here : name = n
    · subst here
      simp [lookup_of_notMem fresh]
    · rw [if_neg here, beq_eq_false_iff_ne.mpr here]

theorem lookup_map_normal (members : List (String × Json)) (name : String) :
    (members.map fun m => (m.1, m.2.normal)).lookup name = (members.lookup name).map normal := by
  induction members with
  | nil => rfl
  | cons m rest ih =>
    rw [List.map_cons, List.lookup_cons, List.lookup_cons, ih]
    split <;> rfl

theorem Plain.same_normal {j : Json} (plain : j.Plain) : j.Same j.normal := by
  induction plain with
  | null => exact .null
  | bool b => exact .bool b
  | int => exact .num _
  | str s => exact .str s
  | @arr items _ ih =>
    rw [normal, normalItems_eq]
    refine .arr (List.length_map _).symm ?_
    intro i x y here there
    rw [List.getElem?_map, here] at there
    obtain rfl := Option.some.inj there
    exact ih x (List.mem_of_getElem? here)
  | @obj members distinct _ ih =>
    have found (name : String) :
        ((normalMembers members).foldl (fun sorted (n, v) => insertMember n v sorted) []).lookup
          name = (members.lookup name).map normal := by
      have distinct' : ((normalMembers members).map (·.1)).Nodup := by
        rw [normalMembers_eq, List.map_map]
        exact distinct
      rw [lookup_foldl_insertMember distinct', normalMembers_eq, lookup_map_normal]
      exact Option.or_none
    rw [normal, ofMembers]
    refine .obj ?_ ?_
    · intro name
      rw [found, Option.isSome_map]
    · intro name x y here there
      rw [found, here] at there
      obtain rfl := Option.some.inj there
      obtain ⟨before, after, rfl, -⟩ := List.lookup_eq_some_iff.mp here
      exact ih (name, x) (List.mem_append_right _ List.mem_cons_self)

/-! ## Values that are read or refused -/

open Reader

theorem bytes_printItems_cons (item : Json) (rest : List Json) :
    bytes (printItems (item :: rest)) =
      bytes item.print ++ itemsText (fun j => bytes j.print) false rest := by
  induction rest generalizing item with
  | nil => rw [printItems, itemsText, List.append_nil]
  | cons next rest ih =>
    rw [printItems, Utf8.bytes_append, Utf8.bytes_cons_ascii (by decide), ih, itemsText]
    · rfl
    · simp

theorem bytes_printItems (items : List Json) :
    bytes (printItems items) = itemsText (fun j => bytes j.print) true items := by
  cases items with
  | nil => rfl
  | cons item rest => exact bytes_printItems_cons item rest

theorem bytes_printMembers_cons (m : String × Json) (rest : List (String × Json)) :
    bytes (printMembers (m :: rest)) = bytes (printString m.1) ++
      0x3A :: (bytes m.2.print ++ membersText (·.1) (fun m => bytes m.2.print) false rest) := by
  induction rest generalizing m with
  | nil =>
    rw [printMembers, membersText, List.append_nil, Utf8.bytes_append,
      Utf8.bytes_cons_ascii (by decide)]
    rfl
  | cons next rest ih =>
    rw [printMembers, Utf8.bytes_append, Utf8.bytes_append, Utf8.bytes_cons_ascii (by decide),
      Utf8.bytes_cons_ascii (by decide), ih, membersText]
    · simp [comma]
    · simp

theorem bytes_printMembers (members : List (String × Json)) :
    bytes (printMembers members) =
      membersText (·.1) (fun m => bytes m.2.print) true members := by
  cases members with
  | nil => rfl
  | cons m rest => exact bytes_printMembers_cons m rest

theorem bytes_print_arr (items : List Json) :
    bytes (print (.arr items)) =
      0x5B :: (itemsText (fun j => bytes j.print) true items ++ [0x5D]) := by
  rw [print, List.cons_append, Utf8.bytes_cons_ascii (by decide), Utf8.bytes_append,
    bytes_printItems]
  rfl

theorem bytes_print_obj (members : List (String × Json)) :
    bytes (print (.obj members)) =
      0x7B :: (membersText (·.1) (fun m => bytes m.2.print) true members ++ [0x7D]) := by
  rw [print, List.cons_append, Utf8.bytes_cons_ascii (by decide), Utf8.bytes_append,
    bytes_printMembers]
  rfl

theorem reads_word (letters rest : Bytes) : Reads (word letters) letters () rest := by
  induction letters with
  | nil => exact .pure _ _
  | cons b letters ih =>
    apply Reads.step (reads_next b _)
    simp only [BEq.rfl, ↓reduceIte]
    exact ih

theorem bytes_printInt (n : Int) : bytes (printInt n) =
    (if n < 0 then [0x2D] else []) ++ bytes (Nat.toDigits 10 n.natAbs) := by
  rw [printInt, Utf8.bytes_append]
  split <;> rfl

section
variable {levels : Nat} {b : UInt8} {text rest : Bytes} {j : Json}

theorem reads_value_scalar (blank : isBlankByte b = false) (list : (b == 0x5B) = false)
    (object : (b == 0x7B) = false) (reads : Reads (scalar b) (b :: text) j rest) :
    Reads (value levels) (b :: text) j rest := by
  unfold value
  apply Reads.anchored
  apply Reads.look (reads_peekToken blank _)
  simp only [list, object, Bool.false_eq_true, ↓reduceIte]
  exact reads

theorem reads_value_list {items : List Json} (reads : Reads (allItems (value levels)) text items
    (0x5D :: rest)) :
    Reads (value (levels + 1)) (0x5B :: (text ++ [0x5D])) (.arr items) rest := by
  rw [value]
  apply Reads.anchored
  apply Reads.look (reads_peekToken (by decide) _)
  exact .step (reads_eat _ _) (.closing reads.map (reads_endList rest))

theorem reads_value_object {members : List (String × Json)}
    (reads : Reads (allMembers (value levels)) text members (0x7D :: rest)) :
    Reads (value (levels + 1)) (0x7B :: (text ++ [0x7D])) (ofMembers members) rest := by
  rw [value]
  apply Reads.anchored
  apply Reads.look (reads_peekToken (by decide) _)
  exact .step (reads_eat _ _) (.closing reads.map (reads_endObject rest))

theorem fails_value_zero (container : b = 0x5B ∨ b = 0x7B) :
    Fails (value 0) .tooDeep (b :: text) rest := by
  rw [value]
  apply Fails.anchored
  obtain rfl | rfl := container
  · exact .look (reads_peekToken (by decide) _) fun index => ⟨_, _, rfl⟩
  · exact .look (reads_peekToken (by decide) _) fun index => ⟨_, _, rfl⟩

theorem fails_value_list {cause : Cause}
    (fails : Fails (allItems (value levels)) cause text (0x5D :: rest)) :
    Fails (value (levels + 1)) cause (0x5B :: (text ++ [0x5D])) rest := by
  rw [value]
  apply Fails.anchored
  apply Fails.look (reads_peekToken (by decide) _)
  exact .step (reads_eat _ _) (.closing fails.map)

theorem fails_value_object {cause : Cause}
    (fails : Fails (allMembers (value levels)) cause text (0x7D :: rest)) :
    Fails (value (levels + 1)) cause (0x7B :: (text ++ [0x7D])) rest := by
  rw [value]
  apply Fails.anchored
  apply Fails.look (reads_peekToken (by decide) _)
  exact .step (reads_eat _ _) (.closing fails.map)

end

theorem digit_first {d : Nat} (small : d < 10) :
    isBlankByte (UInt8.ofNat (d + 0x30)) = false ∧ (UInt8.ofNat (d + 0x30) == 0x5B) = false ∧
      (UInt8.ofNat (d + 0x30) == 0x7B) = false := by
  decide +revert

theorem scalar_digit {d : Nat} (small : d < 10) :
    scalar (UInt8.ofNat (d + 0x30)) = .num <$> Reader.number true := by
  have others : (UInt8.ofNat (d + 0x30) == 0x6E) = false ∧
      (UInt8.ofNat (d + 0x30) == 0x74) = false ∧ (UInt8.ofNat (d + 0x30) == 0x66) = false ∧
      (UInt8.ofNat (d + 0x30) == 0x2D) = false := by
    decide +revert
  obtain ⟨n, t, f, minus⟩ := others
  obtain ⟨digit, -⟩ := digitOf_byte small
  simp only [scalar, n, t, f, minus, digit, Bool.false_eq_true, ↓reduceIte]

/-- An integer of 64 bits is read from its digits, with or without a sign. -/
theorem reads_value_int {n : Int} (low : -0x8000000000000000 ≤ n) (high : n ≤ 0xFFFFFFFFFFFFFFFF)
    (levels : Nat) {rest : Bytes} (ends : NumberEnds rest) :
    Reads (value levels) (bytes (printInt n)) (.num (.int n)) rest := by
  rw [bytes_printInt]
  by_cases negative : n < 0
  · rw [if_pos negative]
    apply reads_value_scalar (by decide) (by decide) (by decide)
    have number := reads_negative (n := n.natAbs) (by omega) (by omega) ends
    rw [show -(n.natAbs : Int) = n by omega] at number
    exact .step (reads_eat _ _) number.map
  · rw [if_neg negative, List.nil_append]
    have number := reads_number (n := n.natAbs) (by omega) ends
    rw [show (n.natAbs : Int) = n by omega] at number
    obtain ⟨d, ds, small, -, -, -, eq⟩ := bytes_toDigits n.natAbs
    obtain ⟨blank, list, object⟩ := digit_first small
    rw [eq] at number ⊢
    apply reads_value_scalar blank list object
    rw [scalar_digit small]
    exact number.map

theorem Plain.shows_ {j : Json} (plain : j.Plain) : Shows (bytes j.print) := by
  cases plain with
  | null => exact ⟨_, _, rfl, by decide, by decide⟩
  | bool b => cases b <;> exact ⟨_, _, rfl, by decide, by decide⟩
  | @int n =>
    show Shows (bytes (printInt n))
    rw [bytes_printInt]
    split
    · exact ⟨_, _, rfl, by decide, by decide⟩
    · obtain ⟨d, ds, small, -, -, -, eq⟩ := bytes_toDigits n.natAbs
      refine ⟨_, ds, eq, ?_, ?_⟩ <;> clear eq <;> decide +revert
  | str s => exact ⟨_, _, bytes_printString s, by decide, by decide⟩
  | arr => exact ⟨_, _, bytes_print_arr _, by decide, by decide⟩
  | obj => exact ⟨_, _, bytes_print_obj _, by decide, by decide⟩

/-- A value is read where as many levels may be opened as it has. -/
theorem Plain.reads {j : Json} (plain : j.Plain) {levels : Nat} (shallow : j.depth ≤ levels) :
    Spells (value levels) (bytes j.print) j.normal := by
  induction plain generalizing levels with
  | null =>
    refine ⟨Plain.null.shows_, fun rest _ => ?_⟩
    apply reads_value_scalar (by decide) (by decide) (by decide)
    exact .step (reads_eat _ _) ((reads_word _ _).last (.pure _ _))
  | bool b =>
    refine ⟨(Plain.bool b).shows_, fun rest _ => ?_⟩
    cases b with
    | true =>
      apply reads_value_scalar (by decide) (by decide) (by decide)
      exact .step (reads_eat _ _) ((reads_word _ _).last (.pure _ _))
    | false =>
      apply reads_value_scalar (by decide) (by decide) (by decide)
      exact .step (reads_eat _ _) ((reads_word _ _).last (.pure _ _))
  | int low high =>
    exact ⟨(Plain.int low high).shows_, fun rest ends => reads_value_int low high levels ends⟩
  | str s =>
    refine ⟨(Plain.str s).shows_, fun rest _ => ?_⟩
    show Reads (value levels) (bytes (printString s)) (.str s) rest
    rw [bytes_printString]
    apply reads_value_scalar (by decide) (by decide) (by decide)
    exact .step (reads_eat _ _) (reads_string s rest).map
  | @arr items each ih =>
    refine ⟨(Plain.arr each).shows_, fun rest _ => ?_⟩
    obtain ⟨levels, rfl⟩ : ∃ n, levels = n + 1 := ⟨levels - 1, by rw [depth] at shallow; omega⟩
    have shallow := depthOfItems_le.mp (Nat.le_of_succ_le_succ shallow)
    rw [bytes_print_arr, normal, normalItems_eq]
    apply reads_value_list
    exact reads_allItems (fun j member => ih j member (shallow j member)) rest
  | @obj members distinct each ih =>
    refine ⟨(Plain.obj distinct each).shows_, fun rest _ => ?_⟩
    obtain ⟨levels, rfl⟩ : ∃ n, levels = n + 1 := ⟨levels - 1, by rw [depth] at shallow; omega⟩
    have shallow := depthOfMembers_le.mp (Nat.le_of_succ_le_succ shallow)
    rw [bytes_print_obj, normal, normalMembers_eq]
    apply reads_value_object
    exact reads_allMembers (fun m member => ih m member (shallow m member)) rest

/-- A value with more levels than may be opened is refused. -/
theorem Plain.fails {j : Json} (plain : j.Plain) {levels : Nat} (deep : levels < j.depth) :
    Breaks (value levels) .tooDeep (bytes j.print) := by
  induction plain generalizing levels with
  | null | bool | int | str => cases deep
  | @arr items each ih =>
    refine ⟨(Plain.arr each).shows_, fun rest _ => ?_⟩
    rw [bytes_print_arr]
    cases levels with
    | zero => exact fails_value_zero (.inl rfl)
    | succ levels =>
      obtain ⟨j, member, deep⟩ := lt_depthOfItems.mp (Nat.lt_of_succ_lt_succ deep)
      apply fails_value_list
      -- An item is read, unless it is too deep.
      have all : ∀ j ∈ items, Spells (value levels) (bytes j.print) j.normal ∨
          Breaks (value levels) .tooDeep (bytes j.print) := by
        intro j member
        by_cases shallow : j.depth ≤ levels
        · exact .inl ((each j member).reads shallow)
        · exact .inr (ih j member (Nat.lt_of_not_le shallow))
      exact fails_allItems all ⟨j, member, ih j member deep⟩ rest
  | @obj members distinct each ih =>
    refine ⟨(Plain.obj distinct each).shows_, fun rest _ => ?_⟩
    rw [bytes_print_obj]
    cases levels with
    | zero => exact fails_value_zero (.inr rfl)
    | succ levels =>
      obtain ⟨m, member, deep⟩ := lt_depthOfMembers.mp (Nat.lt_of_succ_lt_succ deep)
      apply fails_value_object
      have all : ∀ m ∈ members, Spells (value levels) (bytes m.2.print) m.2.normal ∨
          Breaks (value levels) .tooDeep (bytes m.2.print) := by
        intro m member
        by_cases shallow : m.2.depth ≤ levels
        · exact .inl ((each m member).reads shallow)
        · exact .inr (ih m member (Nat.lt_of_not_le shallow))
      exact fails_allMembers all ⟨m, member, ih m member deep⟩ rest

end Json

end Courier

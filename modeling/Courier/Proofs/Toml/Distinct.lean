import Courier.Proofs.Settings.Tables
import Courier.Proofs.Text.Scan
import Courier.Toml.Document

/-!
# Documents set each key once

However a table comes to be, by headers, dotted keys or in braces, it holds no
key twice:

* `Node.Distinct`: this of tables under construction;
* `Kept`: what is done to a table keeps it so, and `Kept.within` does it deeper
  down;
* `yields_value`: the values of a document;
* `parse_distinct`: whole documents.
-/

namespace Courier.Toml

open Settings (Data)
open Scan (Yields)

/-! ## Tables under construction -/

/-- No table in the node holds a key twice. -/
inductive Node.Distinct : Node → Prop where
  | value {d : Data} (distinct : d.Distinct) : Distinct (.value d)
  | table {origin : Origin} {entries : Entries} (keys : (entries.map (·.1)).Nodup)
    (each : ∀ e ∈ entries, Distinct e.2) : Distinct (.table origin entries)
  | tables {items : List Entries} (each : ∀ entries ∈ items, Distinct (.table .declared entries)) :
    Distinct (.tables items)

namespace Node.Distinct

theorem keys {origin : Origin} {entries : Entries}
    (distinct : (Node.table origin entries).Distinct) : (entries.map (·.1)).Nodup := by
  cases distinct with
  | table keys each => exact keys

theorem each {origin : Origin} {entries : Entries} (distinct : (Node.table origin entries).Distinct)
    {e : String × Node} (member : e ∈ entries) : e.2.Distinct := by
  cases distinct with
  | table keys each => exact each e member

theorem item {items : List Entries} (distinct : (Node.tables items).Distinct) {entries : Entries}
    (member : entries ∈ items) : (Node.table .declared entries).Distinct := by
  cases distinct with
  | tables each => exact each entries member

end Node.Distinct

namespace Entries

/-- No key stands twice, here or deeper down. -/
def Distinct (entries : Entries) : Prop := (Node.table .declared entries).Distinct

theorem Distinct.of {origin : Origin} {entries : Entries}
    (distinct : (Node.table origin entries).Distinct) : Distinct entries :=
  .table distinct.keys fun _ => distinct.each

theorem Distinct.to {entries : Entries} (distinct : Distinct entries) (origin : Origin) :
    (Node.table origin entries).Distinct :=
  .table (Node.Distinct.keys distinct) fun _ => Node.Distinct.each distinct

theorem distinct_nil : Distinct [] := .table List.nodup_nil nofun

theorem distinct_cons {key : String} {node : Node} {rest : Entries} :
    Distinct ((key, node) :: rest) ↔ key ∉ rest.map (·.1) ∧ node.Distinct ∧ Distinct rest := by
  constructor
  · intro distinct
    obtain ⟨fresh, keys⟩ := List.nodup_cons.mp (Node.Distinct.keys distinct)
    have each {e : String × Node} (member : e ∈ (key, node) :: rest) : e.2.Distinct :=
      Node.Distinct.each distinct member
    exact ⟨fresh, each (.head _), .table keys fun e member => each (.tail _ member)⟩
  · rintro ⟨fresh, head, rest⟩
    refine .table (List.nodup_cons.mpr ⟨fresh, Node.Distinct.keys rest⟩) ?_
    exact List.forall_mem_cons.mpr ⟨head, fun _ => Node.Distinct.each rest⟩

/-- What is made of the node at a key, if there is one, keeps each key single. -/
def NodeKept (f : Option Node → Option Node) : Prop :=
  ∀ old new, (∀ node, old = some node → node.Distinct) → f old = some new → new.Distinct

/-- What is done to a table keeps each key single. -/
def Kept (f : Origin → Entries → Option Entries) : Prop :=
  ∀ origin entries entries', Distinct entries → f origin entries = some entries' → Distinct entries'

theorem keys_update {f : Option Node → Option Node} {key : String} {entries entries' : Entries}
    (eq : update f key entries = some entries') {k : String} (member : k ∈ entries'.map (·.1)) :
    k = key ∨ k ∈ entries.map (·.1) := by
  induction entries generalizing entries' with
  | nil =>
    obtain ⟨node, -, rfl⟩ := Option.map_eq_some_iff.mp eq
    exact .inl (List.mem_singleton.mp member)
  | cons entry rest ih =>
    rw [update] at eq
    split at eq
    · obtain ⟨node, -, rfl⟩ := Option.map_eq_some_iff.mp eq
      exact .inr member
    · obtain ⟨rest', later, rfl⟩ := Option.map_eq_some_iff.mp eq
      obtain same | member := List.mem_cons.mp member
      · exact .inr (List.mem_cons.mpr (.inl same))
      · exact (ih later member).imp_right (List.mem_cons_of_mem _)

theorem NodeKept.update {f : Option Node → Option Node} (kept : NodeKept f) (key : String) :
    Kept fun _ => Entries.update f key := by
  intro _ entries entries' distinct eq
  induction entries generalizing entries' with
  | nil =>
    obtain ⟨node, made, rfl⟩ := Option.map_eq_some_iff.mp eq
    exact distinct_cons.mpr ⟨nofun, kept none node nofun made, distinct_nil⟩
  | cons entry rest ih =>
    obtain ⟨k, old⟩ := entry
    obtain ⟨fresh, head, tail⟩ := distinct_cons.mp distinct
    simp only [Entries.update] at eq
    split at eq
    · obtain ⟨node, made, rfl⟩ := Option.map_eq_some_iff.mp eq
      have new : node.Distinct := by
        refine kept (some old) node ?_ made
        rintro _ ⟨⟩
        exact head
      exact distinct_cons.mpr ⟨fresh, new, tail⟩
    · next other =>
      obtain ⟨rest', later, rfl⟩ := Option.map_eq_some_iff.mp eq
      refine distinct_cons.mpr ⟨?_, head, ih _ tail later⟩
      intro member
      obtain same | old := keys_update later member
      · exact other (beq_iff_eq.mpr same)
      · exact fresh old

/-- What may be done to a table may be done to one deeper down. -/
theorem Kept.within {f : Origin → Entries → Option Entries} (kept : Kept f) (way : Origin)
    (path : List String) : Kept (Entries.within way f path) := by
  induction path with
  | nil => exact kept
  | cons key path ih =>
    intro origin entries entries' distinct eq
    rw [Entries.within] at eq
    refine NodeKept.update ?_ key origin entries entries' distinct eq
    intro old new before made
    beta_reduce at made
    -- On the way stands nothing yet, a value, a table, or tables of which the last is open.
    split at made
    · obtain ⟨inner, below, rfl⟩ := Option.map_eq_some_iff.mp made
      exact (ih _ _ inner distinct_nil below).to way
    · cases made
    · next origin inner =>
      have distinct := before _ rfl
      split at made
      · cases made
      · obtain ⟨inner', below, rfl⟩ := Option.map_eq_some_iff.mp made
        exact (ih _ _ inner' (.of distinct) below).to origin
    · next items =>
      have distinct := before _ rfl
      split at made
      · cases made
      · next inner last =>
        obtain ⟨inner', below, rfl⟩ := Option.map_eq_some_iff.mp made
        refine .tables fun entries member => ?_
        obtain earlier | new := List.mem_append.mp member
        · exact distinct.item (List.dropLast_subset _ earlier)
        · obtain rfl := List.mem_singleton.mp new
          exact ih _ _ entries (distinct.item (List.mem_of_getLast? last)) below

theorem kept_insertNew (key : String) {node : Node} (distinct : node.Distinct) :
    Kept fun _ => insertNew key node := by
  apply NodeKept.update
  intro old new _ made
  beta_reduce at made
  split at made
  · exact Option.some.inj made ▸ distinct
  · cases made

theorem kept_assign (path : List String) {value : Data} (distinct : value.Distinct) :
    Kept (assign path value) := by
  intro origin entries entries' before eq
  unfold assign at eq
  split at eq
  · cases eq
  · next key way _ =>
    refine Kept.within ?_ .dotted way.reverse origin entries entries' before eq
    intro last inner inner' before new
    beta_reduce at new
    split at new
    · exact kept_insertNew key (.value distinct) last inner inner' before new
    · cases new

/-- A header only opens a table. -/
theorem Distinct.declare {path : List String} {entries entries' : Entries}
    (before : Distinct entries) (eq : entries.declare path = some entries') :
    Distinct entries' := by
  unfold Entries.declare at eq
  split at eq
  · cases eq
  · next key way _ =>
    refine Kept.within ?_ .implied way.reverse .declared entries entries' before eq
    apply NodeKept.update
    intro old new before made
    beta_reduce at made
    split at made
    · exact Option.some.inj made ▸ distinct_nil
    · obtain rfl := Option.some.inj made
      exact (Entries.Distinct.of (before _ rfl)).to .declared
    · cases made

theorem Distinct.append {path : List String} {entries entries' : Entries}
    (before : Distinct entries) (eq : entries.append path = some entries') :
    Distinct entries' := by
  unfold Entries.append at eq
  split at eq
  · cases eq
  · next key way _ =>
    refine Kept.within ?_ .implied way.reverse .declared entries entries' before eq
    apply NodeKept.update
    intro old new before made
    beta_reduce at made
    split at made
    · obtain rfl := Option.some.inj made
      exact .tables (List.forall_mem_singleton.mpr distinct_nil)
    · next items =>
      obtain rfl := Option.some.inj made
      refine .tables fun entries member => ?_
      obtain old | new := List.mem_append.mp member
      · exact (before _ rfl).item old
      · exact List.mem_singleton.mp new ▸ distinct_nil
    · cases made

end Entries

/-! ## What a table under construction comes to -/

theorem Node.dataOfEntries_eq_map (entries : Entries) :
    Node.dataOfEntries entries = entries.map fun e => (e.1, e.2.data) := by
  induction entries with
  | nil => rw [dataOfEntries, List.map_nil]
  | cons entry rest ih => rw [dataOfEntries, ih, List.map_cons]

theorem Node.dataOfItems_eq_map (items : List Entries) :
    Node.dataOfItems items = items.map fun entries => .table (Node.dataOfEntries entries) := by
  induction items with
  | nil => rw [dataOfItems, List.map_nil]
  | cons entries rest ih => rw [dataOfItems, ih, List.map_cons]

theorem Node.Distinct.data {node : Node} (distinct : node.Distinct) : node.data.Distinct := by
  induction distinct with
  | value distinct => rwa [Node.data]
  | @table origin entries keys each ih =>
    rw [Node.data, dataOfEntries_eq_map]
    refine .table (by simpa [List.map_map, Function.comp_def] using keys) ?_
    intro e member
    obtain ⟨e, here, rfl⟩ := List.mem_map.mp member
    exact ih e here
  | @tables items each ih =>
    rw [Node.data, dataOfItems_eq_map]
    refine .list fun d member => ?_
    obtain ⟨entries, here, rfl⟩ := List.mem_map.mp member
    have distinct := ih entries here
    rwa [Node.data] at distinct

theorem Entries.Distinct.table {entries : Entries} (distinct : Distinct entries) :
    (Data.table entries.table).Distinct := by
  have data := Node.Distinct.data distinct
  rwa [Node.data] at data

theorem kept_of_foldlM {σ ι : Type} {P : σ → Prop} {f : σ → ι → Option σ} {xs : List ι}
    (step : ∀ x ∈ xs, ∀ s s', P s → f s x = some s' → P s') {s s' : σ} (before : P s)
    (eq : xs.foldlM f s = some s') : P s' := by
  induction xs generalizing s with
  | nil =>
    obtain rfl := Option.some.inj eq
    exact before
  | cons x xs ih =>
    rw [List.foldlM_cons] at eq
    obtain ⟨s₁, first, rest⟩ := Option.bind_eq_some_iff.mp eq
    have after := step x (.head _) s s₁ before first
    exact ih (fun x member => step x (.tail _ member)) after rest

theorem tableOfPairs_distinct {ps : List (List String × Data)} {table : Settings.Table}
    (each : ∀ p ∈ ps, p.2.Distinct) (eq : tableOfPairs ps = some table) :
    (Data.table table).Distinct := by
  obtain ⟨entries, made, rfl⟩ := Option.map_eq_some_iff.mp eq
  refine Entries.Distinct.table (kept_of_foldlM ?_ Entries.distinct_nil made)
  exact fun p member entries entries' => Entries.kept_assign p.1 (each p member) _ entries entries'

/-! ## Values -/

theorem yields_inRange (n : Int) : Yields (inRange n) Data.Distinct :=
  .after fun _ => .pure (.signed n)

theorem yields_based (opening : String) (base : Nat) :
    Yields (based opening base) Data.Distinct :=
  .after fun _ => .after fun _ => yields_inRange _

theorem yields_number : Yields number Data.Distinct := by
  have moment : Yields moment Data.Distinct := .after fun _ => .pure Data.distinct_empty
  have float : Yields float Data.Distinct :=
    .after fun _ => .after fun _ => .after fun _ => .after fun _ => .pure (.float _)
  have named : Yields named Data.Distinct := .after fun _ => .after fun _ => .pure (.float _)
  have integer : Yields integer Data.Distinct :=
    .after fun _ => .after fun _ => yields_inRange _
  exact moment.orElse <| float.orElse <| named.orElse <| (yields_based "0x" 16).orElse <|
    (yields_based "0o" 8).orElse <| (yields_based "0b" 2).orElse integer

section
variable {P : Data → Prop} {item : Scan Data}

theorem yields_items (each : Yields item P) (bound : Nat) :
    Yields (items item bound) fun ds => ∀ d ∈ ds, P d := by
  induction bound with
  | zero => exact .failure
  | succ bound ih =>
    rw [items]
    refine .after fun _ => .after fun ahead => ?_
    split
    · exact .after fun _ => .pure nofun
    · refine each.bind fun d first => .after fun _ => .after fun ahead => ?_
      split
      · exact .after fun _ => ih.bind fun ds more =>
          .pure (List.forall_mem_cons.mpr ⟨first, more⟩)
      · exact .after fun _ => .pure (List.forall_mem_singleton.mpr first)

theorem yields_pair (each : Yields item P) : Yields (pair item) fun p => P p.2 :=
  .after fun _ => .after fun _ => .after fun _ => each.bind fun _ holds =>
    .after fun _ => .pure holds

theorem yields_morePairs (each : Yields item P) (bound : Nat) :
    Yields (morePairs item bound) fun ps => ∀ p ∈ ps, P p.2 := by
  induction bound with
  | zero => exact .failure
  | succ bound ih =>
    rw [morePairs]
    refine .after fun ahead => ?_
    split
    · exact .after fun _ => (yields_pair each).bind fun p first => ih.bind fun ps more =>
        .pure (List.forall_mem_cons.mpr ⟨first, more⟩)
    · exact .after fun _ => .pure nofun

theorem yields_pairs (each : Yields item P) :
    Yields (pairs item) fun ps => ∀ p ∈ ps, P p.2 := by
  refine .after fun _ => .after fun ahead => ?_
  split
  · exact .after fun _ => .pure nofun
  · exact (yields_pair each).bind fun p first => .after fun _ =>
      (yields_morePairs each _).bind fun ps more => .pure (List.forall_mem_cons.mpr ⟨first, more⟩)

end

theorem yields_value (levels : Nat) : Yields (value levels) Data.Distinct := by
  induction levels using Nat.strongRecOn with
  | ind levels ih =>
    have text : Yields (Data.text <$> quoted) Data.Distinct :=
      .map (fun _ _ _ _ => trivial) fun s (_ : True) => .text s
    rw [value.eq_def]
    refine .after fun ahead => ?_
    -- The first character tells the kind of value.
    split
    · cases levels with
      | zero => exact .failure
      | succ levels =>
        have inner := ih levels (Nat.lt_succ_self _)
        exact .after fun _ => .after fun _ => (yields_items inner _).bind fun _ each =>
          .pure (.list each)
    · cases levels with
      | zero => exact .failure
      | succ levels =>
        have inner := ih levels (Nat.lt_succ_self _)
        refine .after fun _ => .bind ?_ fun t (distinct : (Data.table t).Distinct) => .pure distinct
        intro cs t rest eq
        obtain ⟨⟨ps, more⟩, here, there⟩ := Option.bind_eq_some_iff.mp eq
        obtain ⟨t', made, same⟩ := Option.bind_eq_some_iff.mp there
        obtain ⟨rfl, -⟩ := Prod.mk.inj (Option.some.inj same)
        exact tableOfPairs_distinct (yields_pairs inner cs ps more here) made
    · exact text
    · exact text
    · exact .after fun _ => .pure (.bool true)
    · exact .after fun _ => .pure (.bool false)
    · exact yields_number

/-! ## Documents -/

def Statement.Distinct : Statement → Prop
  | .header _ | .listHeader _ => True
  | .assignment _ value => value.Distinct

theorem yields_header : Yields header Statement.Distinct := by
  refine .after fun _ => .after fun ahead => ?_
  split
  · exact .after fun _ => .after fun _ => .after fun _ => .pure trivial
  · exact .after fun _ => .after fun _ => .pure trivial

theorem yields_assignment : Yields assignment Statement.Distinct :=
  .after fun _ => .after fun _ => .after fun _ => (yields_value maxDepth).bind fun _ distinct =>
    .pure distinct

theorem yields_line : Yields line fun ss => ∀ s ∈ ss, s.Distinct := by
  refine .after fun _ => .after fun ahead => ?_
  split
  · exact .pure nofun
  · exact .after fun _ => .pure nofun
  · exact .after fun _ => .pure nofun
  · exact yields_header.bind fun s distinct => .after fun _ =>
      .pure (List.forall_mem_singleton.mpr distinct)
  · exact yields_assignment.bind fun s distinct => .after fun _ =>
      .pure (List.forall_mem_singleton.mpr distinct)

theorem yields_statements : Yields statements fun ss => ∀ s ∈ ss, s.Distinct := by
  refine .after fun bound => (yields_line.manyWhile Option.isSome _).bind fun lines each => .pure ?_
  intro s member
  obtain ⟨line, here, member⟩ := List.mem_flatten.mp member
  exact each line here s member

theorem Draft.add_distinct {draft draft' : Draft} {s : Statement} (distinct : s.Distinct)
    (before : draft.entries.Distinct) (eq : draft.add s = some draft') :
    draft'.entries.Distinct := by
  cases s with
  | header path =>
    obtain ⟨entries, made, rfl⟩ := Option.map_eq_some_iff.mp eq
    exact before.declare made
  | listHeader path =>
    obtain ⟨entries, made, rfl⟩ := Option.map_eq_some_iff.mp eq
    exact before.append made
  | assignment path value =>
    obtain ⟨entries, made, rfl⟩ := Option.map_eq_some_iff.mp eq
    refine Entries.Kept.within ?_ .implied draft.current .declared _ entries before made
    exact fun origin inner inner' => Entries.kept_assign path distinct origin inner inner'

/-- **A document sets each key once**, in each of its tables. -/
theorem parse_distinct {text : String} {table : Settings.Table} (eq : parse text = some table) :
    (Data.table table).Distinct := by
  obtain ⟨ss, read, eq⟩ := Option.bind_eq_some_iff.mp eq
  obtain ⟨draft, added, eq⟩ := Option.bind_eq_some_iff.mp eq
  obtain rfl := Option.some.inj eq
  have each := yields_statements.whole read
  have distinct : draft.entries.Distinct := by
    refine kept_of_foldlM (P := fun draft : Draft => draft.entries.Distinct) ?_ ?_ added
    · exact fun s member draft draft' => Draft.add_distinct (each s member)
    · exact Entries.distinct_nil
  exact distinct.table

end Courier.Toml

import Courier.Settings.Layer
import Mathlib.Data.List.Nodup

/-!
# Tables that are laid over each other

What a table gives goes before what the tables below it give, key by key and
table by table:

* `Data.Distinct`: no table holds a key twice, however deep it is;
* `get?_overrideTable`: what is found at a key of two layers;
* `Clear`: the way along a path leads through tables only;
* `at?_override`: at the end of such a path stands what the upper layer has
  there, or else what the lower one has;
* `at?_nest`: what a layer with a single value has.
-/

namespace Courier.Settings

/-! ## Keys -/

/-- No table in the value holds a key twice. -/
inductive Data.Distinct : Data → Prop where
  | bool (b : Bool) : Distinct (.bool b)
  | signed (n : Int) : Distinct (.signed n)
  | unsigned (n : Nat) : Distinct (.unsigned n)
  | float (x : Float) : Distinct (.float x)
  | text (s : String) : Distinct (.text s)
  | list {items : List Data} (each : ∀ d ∈ items, Distinct d) : Distinct (.list items)
  | table {entries : Table} (keys : (entries.map (·.1)).Nodup)
    (each : ∀ e ∈ entries, Distinct e.2) : Distinct (.table entries)

theorem Table.mem_keys_set {table : Table} {key k : String} {value : Data} :
    k ∈ (table.set key value).map (·.1) ↔ k = key ∨ k ∈ table.map (·.1) := by
  induction table with
  | nil => simp [set]
  | cons entry rest ih => grind [set]

theorem Table.nodup_keys_set {table : Table} (distinct : (table.map (·.1)).Nodup) (key : String)
    (value : Data) : ((table.set key value).map (·.1)).Nodup := by
  induction table with
  | nil => exact List.nodup_singleton _
  | cons entry rest ih =>
    obtain ⟨fresh, distinct⟩ := List.nodup_cons.mp distinct
    rw [set]
    split
    · exact List.nodup_cons.mpr ⟨fresh, distinct⟩
    · next other =>
      refine List.nodup_cons.mpr ⟨?_, ih distinct⟩
      intro member
      obtain same | old := mem_keys_set.mp member
      · exact other (beq_iff_eq.mpr same)
      · exact fresh old

theorem Table.mem_set {table : Table} {key : String} {value : Data} {e : String × Data}
    (member : e ∈ table.set key value) : e ∈ table ∨ e.2 = value := by
  induction table with
  | nil => grind [set]
  | cons entry rest ih => grind [set]

theorem Table.get?_eq_none {table : Table} {key : String} (absent : key ∉ table.map (·.1)) :
    table.get? key = none := by
  induction table with
  | nil => rfl
  | cons entry rest ih => grind [get?]

theorem Table.mem_of_get? {table : Table} {key : String} {d : Data}
    (found : table.get? key = some d) : (key, d) ∈ table := by
  induction table with
  | nil => cases found
  | cons entry rest ih => grind [get?]

namespace Data

theorem Distinct.keys {table : Table} (distinct : Distinct (.table table)) :
    (table.map (·.1)).Nodup := by
  cases distinct with
  | table keys each => exact keys

theorem Distinct.each {table : Table} (distinct : Distinct (.table table)) {e : String × Data}
    (member : e ∈ table) : e.2.Distinct := by
  cases distinct with
  | table keys each => exact each e member

theorem Distinct.get? {table : Table} (distinct : Distinct (.table table)) {key : String}
    {d : Data} (found : Table.get? table key = some d) : d.Distinct :=
  distinct.each (Table.mem_of_get? found)

theorem Distinct.set {table : Table} (distinct : Distinct (.table table)) (key : String)
    {value : Data} (new : value.Distinct) : Distinct (.table (table.set key value)) := by
  refine .table (Table.nodup_keys_set distinct.keys key value) ?_
  intro e member
  obtain old | same := Table.mem_set member
  · exact distinct.each old
  · exact same ▸ new

theorem distinct_empty : Distinct (.table []) := .table List.nodup_nil nofun

theorem distinct_overrideTable {lower upper : Table} (below : Distinct (.table lower))
    (above : Distinct (.table upper))
    (each : ∀ e ∈ upper, ∀ old : Data, old.Distinct → (old.override e.2).Distinct) :
    Distinct (.table (overrideTable lower upper)) := by
  induction upper generalizing lower with
  | nil => rwa [overrideTable]
  | cons entry rest ih =>
    obtain ⟨key, new⟩ := entry
    have distinct : new.Distinct := above.each (.head _)
    have tail : Distinct (.table rest) :=
      .table (List.nodup_cons.mp above.keys).2 fun e member => above.each (.tail _ member)
    rw [overrideTable]
    refine ih (below.set key ?_) tail fun e member => each e (.tail _ member)
    cases found : Table.get? lower key with
    | none => exact distinct
    | some old => exact each _ (.head _) old (below.get? found)

theorem override_tables (lower upper : Table) :
    (Data.table lower).override (.table upper) = .table (overrideTable lower upper) := by
  rw [Data.override]

theorem Distinct.override {newer : Data} (above : newer.Distinct) {older : Data}
    (below : older.Distinct) : (older.override newer).Distinct := by
  -- The induction is on the upper value: a merge goes only as deep as it does.
  induction above generalizing older with
  | @table upper keys each ih =>
    cases below with
    | table keys' each' =>
      rw [override_tables]
      refine distinct_overrideTable (.table keys' each') (.table keys each) ?_
      exact fun e member old distinct => ih e member distinct
    | _ => exact .table keys each
  | bool | signed | unsigned | float | text => cases older <;> constructor
  | list each => cases older <;> exact .list each

end Data

/-! ## Two layers -/

/-- What two layers come to at a key. -/
def layered : Option Data → Option Data → Option Data
  | none, upper => upper
  | lower, none => lower
  | some older, some newer => some (older.override newer)

@[simp] theorem isSome_layered (lower upper : Option Data) :
    (layered lower upper).isSome = (lower.isSome || upper.isSome) := by
  cases lower <;> cases upper <;> rfl

theorem get?_overrideTable {lower upper : Table} (distinct : (upper.map (·.1)).Nodup)
    (key : String) :
    Table.get? (Data.overrideTable lower upper) key =
      layered (lower.get? key) (upper.get? key) := by
  induction upper generalizing lower with
  | nil =>
    rw [Data.overrideTable]
    cases lower.get? key <;> rfl
  | cons entry rest ih =>
    obtain ⟨k, new⟩ := entry
    obtain ⟨fresh, distinct⟩ := List.nodup_cons.mp distinct
    rw [Data.overrideTable, ih distinct, Table.get?_set]
    by_cases same : key = k
    · subst same
      have absent : Table.get? rest key = none := Table.get?_eq_none fresh
      have found : Table.get? ((key, new) :: rest) key = some new := by simp [Table.get?]
      rw [if_pos rfl, absent, found]
      cases lower.get? key <;> rfl
    · have passed : Table.get? ((k, new) :: rest) key = Table.get? rest key := by
        grind [Table.get?]
      rw [if_neg same, passed]

/-- The same, or two tables: those are no use where a single value is asked for. -/
def Alike (x y : Option Data) : Prop :=
  x = y ∨ ∃ a b, x = some (.table a) ∧ y = some (.table b)

namespace Alike

variable {x x' y y' z : Option Data}

theorem refl (x : Option Data) : Alike x x := .inl rfl

theorem trans (first : Alike x y) (second : Alike y z) : Alike x z := by
  obtain rfl | ⟨a, b, rfl, rfl⟩ := first
  · exact second
  · obtain rfl | ⟨_, c, _, rfl⟩ := second
    · exact .inr ⟨a, b, rfl, rfl⟩
    · exact .inr ⟨a, c, rfl, rfl⟩

protected theorem or (first : Alike x x') (second : Alike y y') : Alike (x.or y) (x'.or y') := by
  obtain rfl | ⟨a, b, rfl, rfl⟩ := first
  · cases x with
    | none => exact second
    | some d => exact refl _
  · exact .inr ⟨a, b, rfl, rfl⟩

/-- What overrides something else comes out as it is, or it is a table. -/
theorem override (older newer : Data) : Alike (some (older.override newer)) (some newer) := by
  cases newer with
  | table upper =>
    cases older with
    | table lower => exact .inr ⟨_, _, rfl, rfl⟩
    | _ => exact .inl rfl
  | _ => cases older <;> exact .inl rfl

end Alike

/-! ## Paths -/

namespace Data

/-- Nothing but tables stands on the way along a path. -/
def Clear : Data → List String → Prop
  | _, [] => True
  | d, key :: path =>
    ∃ table, d = .table table ∧ ∀ inner, Table.get? table key = some inner → inner.Clear path

theorem clear_override {path : List String} {a b : Data} (below : a.Clear path)
    (above : b.Clear path) (distinct : b.Distinct) : (a.override b).Clear path := by
  induction path generalizing a b with
  | nil => trivial
  | cons key path ih =>
    obtain ⟨lower, rfl, below⟩ := below
    obtain ⟨upper, rfl, above⟩ := above
    refine ⟨overrideTable lower upper, override_tables .., ?_⟩
    intro inner found
    rw [get?_overrideTable distinct.keys] at found
    cases old : Table.get? lower key with
    | none =>
      rw [old] at found
      exact above inner found
    | some older =>
      cases new : Table.get? upper key with
      | none =>
        rw [old, new] at found
        obtain rfl := Option.some.inj found
        exact below older old
      | some newer =>
        rw [old, new] at found
        obtain rfl := Option.some.inj found
        exact ih (below older old) (above newer new) (distinct.get? new)

/-- At the end of a path stands what the upper layer has there, or else what the lower one has. -/
theorem at?_override {path : List String} {a b : Data} (below : a.Clear path)
    (above : b.Clear path) (distinct : b.Distinct) :
    Alike ((a.override b).at? path) ((b.at? path).or (a.at? path)) := by
  induction path generalizing a b with
  | nil =>
    rw [at?, at?, at?]
    exact .override a b
  | cons key path ih =>
    obtain ⟨lower, rfl, below⟩ := below
    obtain ⟨upper, rfl, above⟩ := above
    rw [override_tables, at?, at?, at?, get?_overrideTable distinct.keys]
    -- A key that one layer only has leads on into that layer, one that both have into both.
    cases old : Table.get? lower key with
    | none =>
      rw [Option.bind_none, Option.or_none]
      exact .refl _
    | some older =>
      cases new : Table.get? upper key with
      | none => exact .refl _
      | some newer => exact ih (below older old) (above newer new) (distinct.get? new)

end Data

/-! ## Single values -/

section
variable {path : List String}

theorem distinct_nest (path : List String) {value : Data} (distinct : value.Distinct) :
    (nest path value).Distinct := by
  induction path with
  | nil => exact distinct
  | cons key path ih =>
    refine .table (List.nodup_singleton _) ?_
    intro e member
    obtain rfl := List.mem_singleton.mp member
    exact ih

theorem get?_singleton (key k : String) (d : Data) :
    Table.get? [(k, d)] key = if key = k then some d else none := by
  grind [Table.get?]

/-- A single value is found at its own path, and nowhere else where its path does not lead
through. -/
theorem at?_nest (value : Data) {other : List String}
    (apart : path <+: other ∨ other <+: path → path = other) :
    (nest path value).Clear other ∧
      (nest path value).at? other = if path = other then some value else none := by
  induction path generalizing other with
  | nil =>
    obtain rfl := apart (.inl List.nil_prefix)
    exact ⟨trivial, by rw [Data.at?, if_pos rfl]; rfl⟩
  | cons key path ih =>
    cases other with
    | nil => cases apart (.inr List.nil_prefix)
    | cons k other =>
      have below : nest (key :: path) value = .table [(key, nest path value)] := rfl
      rw [below, Data.at?, get?_singleton]
      by_cases same : k = key
      · subst same
        have apart : path <+: other ∨ other <+: path → path = other := by
          simpa [List.cons_prefix_cons] using apart
        obtain ⟨clear, found⟩ := ih apart
        refine ⟨⟨_, rfl, fun inner here => ?_⟩, by simpa using found⟩
        rw [get?_singleton, if_pos rfl] at here
        exact Option.some.inj here ▸ clear
      · refine ⟨⟨_, rfl, fun inner here => ?_⟩, ?_⟩
        · rw [get?_singleton, if_neg same] at here
          cases here
        · have other : ¬ (key :: path = k :: other) := fun eq => same (List.cons.inj eq).1.symm
          rw [if_neg same, if_neg other]
          rfl

end

end Courier.Settings

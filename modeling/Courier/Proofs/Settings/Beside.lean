import Courier.Proofs.Settings.Layering

/-!
# Settings side by side

Two sets of layers that differ in what stands at the end of one path come to
settings that differ there only:

* `Beside`: the way along a path leads through tables that are the same but for
  what lies on the way;
* `Beside.layered`: layers that are side by side come to values that are;
* `beside_environmentTable`: one variable more changes nothing but what it names.
-/

namespace Courier.Settings

/-- What stands at a key of a table. Nothing stands in what is no table. -/
def part : Option Data → String → Option Data
  | some (.table table), key => Table.get? table key
  | _, _ => none

def Open (x : Option Data) : Prop := ∀ d, x = some d → ∃ table, d = .table table

/-- The way along a path leads through tables that are the same but for what lies on the way. What
stands at its end makes no difference. -/
def Beside : List String → Option Data → Option Data → Prop
  | [], _, _ => True
  | key :: path, x, y =>
    Open x ∧ Open y ∧ (∀ other, other ≠ key → part x other = part y other) ∧
      Beside path (part x key) (part y key)

section
variable {x x' y y' : Option Data} {path : List String} {key : String}

theorem open_table (table : Table) : Open (some (.table table)) :=
  fun _ eq => ⟨table, (Option.some.inj eq).symm⟩

theorem Open.layered (below : Open x) (above : Open y) : Open (layered x y) := by
  match x, y with
  | none, y => simpa only [Settings.layered] using above
  | some older, none => exact below
  | some older, some newer =>
    obtain ⟨lower, rfl⟩ := below older rfl
    obtain ⟨upper, rfl⟩ := above newer rfl
    rw [Settings.layered, Data.override_tables]
    exact open_table _

theorem part_layered (below : Open x) (above : Open y) (distinct : ∀ d, y = some d → d.Distinct) :
    part (layered x y) key = layered (part x key) (part y key) := by
  match x, y with
  | none, y => rfl
  | some older, none =>
    obtain ⟨lower, rfl⟩ := below older rfl
    show Table.get? lower key = layered (Table.get? lower key) none
    cases Table.get? lower key <;> rfl
  | some older, some newer =>
    obtain ⟨lower, rfl⟩ := below older rfl
    obtain ⟨upper, rfl⟩ := above newer rfl
    rw [layered, Data.override_tables, part, part, part]
    exact get?_overrideTable (distinct _ rfl).keys key

theorem distinct_part (distinct : ∀ d, x = some d → d.Distinct) {d : Data}
    (found : part x key = some d) : d.Distinct := by
  unfold part at found
  split at found
  · exact (distinct _ rfl).get? found
  · cases found

theorem Beside.layered (below : Beside path x x') (above : Beside path y y')
    (distinct : ∀ d, y = some d → d.Distinct) (distinct' : ∀ d, y' = some d → d.Distinct) :
    Beside path (layered x y) (layered x' y') := by
  induction path generalizing x x' y y' with
  | nil => trivial
  | cons key path ih =>
    obtain ⟨openBelow, openBelow', sameBelow, below⟩ := below
    obtain ⟨openAbove, openAbove', sameAbove, above⟩ := above
    refine ⟨openBelow.layered openAbove, openBelow'.layered openAbove', ?_, ?_⟩
    · intro other apart
      rw [part_layered openBelow openAbove distinct, part_layered openBelow' openAbove' distinct',
        sameBelow other apart, sameAbove other apart]
    · rw [part_layered openBelow openAbove distinct, part_layered openBelow' openAbove' distinct']
      exact ih below above (fun d => distinct_part distinct) fun d => distinct_part distinct'

theorem beside_self (clear : ∀ d, x = some d → d.Clear path) : Beside path x x := by
  induction path generalizing x with
  | nil => trivial
  | cons key path ih =>
    refine ⟨?_, ?_, fun _ _ => rfl, ih ?_⟩
    · intro d eq
      obtain ⟨table, rfl, -⟩ := clear d eq
      exact ⟨table, rfl⟩
    · intro d eq
      obtain ⟨table, rfl, -⟩ := clear d eq
      exact ⟨table, rfl⟩
    · intro d found
      unfold part at found
      split at found
      · next table key =>
        obtain ⟨_, ⟨⟩, inner⟩ := clear _ rfl
        exact inner d found
      · cases found

theorem Beside.clear {d : Data} (beside : Beside path (some d) y) : d.Clear path := by
  induction path generalizing d y with
  | nil => trivial
  | cons key path ih =>
    obtain ⟨tables, -, -, beside⟩ := beside
    obtain ⟨table, rfl⟩ := tables d rfl
    refine ⟨table, rfl, fun inner found => ?_⟩
    have beside : Beside path (Table.get? table key) (part y key) := beside
    rw [found] at beside
    exact ih beside

/-- A single value at the end of the path is beside nothing at all. -/
theorem beside_nest (path : List String) (value : Data) :
    Beside path (some (nest path value)) none := by
  induction path with
  | nil => trivial
  | cons key path ih =>
    refine ⟨open_table _, nofun, fun other apart => ?_, ?_⟩
    · show Table.get? [(key, nest path value)] other = none
      rw [get?_singleton, if_neg apart]
    · show Beside path (Table.get? [(key, nest path value)] key) none
      rwa [get?_singleton, if_pos rfl]

end

/-! ## One variable more -/

/-- One variable more that names a path, and no other that names a part of the way along it or
something further along it, changes nothing else. -/
theorem beside_environmentTable {before after : Environment} {name key : String} (raw : String)
    {path : List String} (named : Variable.path? name = some (key :: path))
    (apart : Environment.Apart (before ++ after) (key :: path)) :
    Beside (key :: path) (some (.table (environmentTable (before ++ (name, raw) :: after))))
      (some (.table (environmentTable (before ++ after)))) := by
  have single (value : Data) {other : List String} {k : String}
      (apart : k :: other <+: key :: path ∨ key :: path <+: k :: other → k :: other = key :: path) :
      Beside (key :: path) (some (nest (k :: other) value)) (some (nest (k :: other) value)) := by
    refine beside_self fun d eq => ?_
    obtain rfl := Option.some.inj eq
    exact (at?_nest value apart).1
  induction after using List.reverseRecOn with
  | nil =>
    rw [List.append_nil] at apart
    have clear := (at?_environmentTable apart).1
    have below : Beside (key :: path) (some (.table (environmentTable before)))
        (some (.table (environmentTable before))) :=
      beside_self fun d eq => Option.some.inj eq ▸ clear
    have distinct := distinct_nest (key :: path) (Variable.read_distinct raw)
    rw [List.append_nil, environmentTable_named named, ← Data.override_tables]
    exact below.layered (beside_nest _ _) (fun d eq => Option.some.inj eq ▸ distinct) nofun
  | append_singleton after v ih =>
    obtain ⟨last, said⟩ := v
    rw [← List.append_assoc] at apart
    have beside := ih fun v member => apart v (List.mem_append_left _ member)
    have apart := apart (last, said) (List.mem_append_right _ (List.mem_singleton_self _))
    rw [← List.append_assoc, ← List.cons_append, ← List.append_assoc]
    match other : Variable.path? last with
    | none => rwa [environmentTable_unnamed other, environmentTable_unnamed other]
    | some [] => exact absurd other (Variable.path?_ne_nil last)
    | some (k :: rest) =>
      have distinct := distinct_nest (k :: rest) (Variable.read_distinct said)
      rw [environmentTable_named other, environmentTable_named other, ← Data.override_tables,
        ← Data.override_tables]
      exact beside.layered (single _ (apart _ other)) (fun d eq => Option.some.inj eq ▸ distinct)
        fun d eq => Option.some.inj eq ▸ distinct

theorem beside_stack {key : String} {path : List String}
    {lower lower' upper upper' top top' : Table}
    (lowest : Beside (key :: path) (some (.table lower)) (some (.table lower')))
    (higher : Beside (key :: path) (some (.table upper)) (some (.table upper')))
    (highest : Beside (key :: path) (some (.table top)) (some (.table top')))
    (each : ∀ table ∈ [lower, lower', upper, upper', top, top'], (Data.table table).Distinct) :
    Beside (key :: path) (some (.table (stack lower upper top)))
      (some (.table (stack lower' upper' top'))) := by
  simp only [List.forall_mem_cons] at each
  obtain ⟨below, below', above, above', last, last', -⟩ := each
  have empty : Beside (key :: path) (some (.table [])) (some (.table [])) :=
    beside_self fun d eq => Option.some.inj eq ▸ ⟨[], rfl, nofun⟩
  have one {table : Table} (distinct : (Data.table table).Distinct) :
      ∀ d, some (Data.table table) = some d → d.Distinct :=
    fun d eq => Option.some.inj eq ▸ distinct
  rw [stack_eq, stack_eq]
  exact ((empty.layered lowest (one below) (one below')).layered higher (one above)
    (one above')).layered highest (one last) (one last')

end Courier.Settings

import Courier.Proofs.Toml.Distinct
import Courier.Settings.Load
import Mathlib.Data.List.Induction

/-!
# Variables as a layer

The variables of an environment make one table, in which the last one that
names a key is found:

* `read_distinct`: tables in variables hold each key once;
* `value?`: what the last variable that names a path says;
* `Apart`: no variable names a part of the way along a path, or something
  further along it;
* `at?_environmentTable`: at the end of such a path stands what its last variable says;
* `get?_environmentTable`: a key is there if some variable starts with it.
-/

namespace Courier

theorem Text.parts_ne_nil (sep : Char) (s : String) : Text.parts sep s ≠ [] := by
  have split (cs : List Char) : Text.splitAt (· == sep) cs ≠ [] := by
    cases cs with
    | nil => exact List.cons_ne_nil _ _
    | cons c cs =>
      rw [Text.splitAt]
      split
      · exact List.cons_ne_nil _ _
      · split <;> exact List.cons_ne_nil _ _
  exact fun none => split _ (List.map_eq_nil_iff.mp none)

namespace Settings

open Scan (Yields)

/-! ## What a variable says -/

namespace Variable

theorem bare_distinct (text : List Char) : (bare text).Distinct := by
  unfold bare
  split
  · exact .float _
  · cases read : integer? text with
    | none => exact .text _
    | some d =>
      unfold integer? at read
      split at read
      split at read
      · cases read
      · split at read
        · split at read
          · exact Option.some.inj read ▸ .signed _
          · cases read
        · split at read
          · exact Option.some.inj read ▸ .unsigned _
          · cases read

theorem yields_delimited {α : Type} {P : α → Prop} {item : Scan α} (each : Yields item P)
    (close : Char) (bound : Nat) :
    Yields (delimited item close bound) fun as => ∀ a ∈ as, P a := by
  induction bound with
  | zero => exact .failure
  | succ bound ih =>
    rw [delimited]
    refine .after fun ahead => ?_
    split
    · exact .after fun _ => .pure nofun
    · refine each.bind fun a first => .after fun ahead => ?_
      split
      · exact .after fun _ => ih.bind fun as more =>
          .pure (List.forall_mem_cons.mpr ⟨first, more⟩)
      · exact .after fun _ => .pure (List.forall_mem_singleton.mpr first)

theorem yields_pair {P : Data → Prop} {value : Scan Data} (each : Yields value P) :
    Yields (pair value) fun p => P p.2 :=
  .after fun _ => .after fun _ => .after fun _ => .after fun _ => each.bind fun _ holds =>
    .pure holds

theorem foldl_set_distinct {ps : List (String × Data)} {table : Table}
    (each : ∀ p ∈ ps, p.2.Distinct) (distinct : (Data.table table).Distinct) :
    (Data.table (ps.foldl (fun (t : Table) (k, v) => t.set k v) table)).Distinct := by
  induction ps generalizing table with
  | nil => exact distinct
  | cons p ps ih =>
    obtain ⟨head, tail⟩ := List.forall_mem_cons.mp each
    exact ih tail (distinct.set p.1 head)

theorem yields_core {levels : Nat} (inner : Yields (value levels) Data.Distinct) :
    Yields (value.core levels) Data.Distinct := by
  have true : Yields (do Scan.word "true"; pure (.bool true)) Data.Distinct :=
    .after fun _ => .pure (.bool _)
  have false : Yields (do Scan.word "false"; pure (.bool false)) Data.Distinct :=
    .after fun _ => .pure (.bool _)
  rw [value.core]
  refine true.orElse (false.orElse (.after fun ahead => ?_))
  split
  · exact .after fun _ => .after fun _ => (yields_delimited (yields_pair inner) _ _).bind
      fun ps each => .pure (foldl_set_distinct each Data.distinct_empty)
  · exact .after fun _ => .after fun _ => (yields_delimited inner _ _).bind fun _ each =>
      .pure (.list each)
  · exact .map (fun _ _ _ _ => trivial) fun s (_ : True) => .text s
  · exact .after fun _ => .after fun _ => .after fun _ => .pure (.text _)
  · exact .after fun _ => .pure (bare_distinct _)

theorem yields_value (levels : Nat) : Yields (value levels) Data.Distinct := by
  induction levels with
  | zero =>
    rw [value]
    exact .failure
  | succ levels ih =>
    rw [value]
    exact .after fun _ => (yields_core ih).bind fun _ distinct => .after fun _ => .pure distinct

theorem path?_ne_nil (name : String) : path? name ≠ some [] := by
  intro eq
  unfold path? at eq
  dsimp only at eq
  split at eq
  · split at eq
    · cases eq
    · exact Text.parts_ne_nil _ _ (Option.some.inj eq)
  · cases eq

theorem read_distinct (raw : String) : (read raw).Distinct := by
  unfold read
  cases eq : Scan.whole (value (raw.length + 1)) raw.toList with
  | none => exact .text raw
  | some d => exact (yields_value _).whole eq

end Variable

/-! ## What all of them say -/

namespace Environment

/-- What the last variable that names a path says. -/
def value? (environment : Environment) (path : List String) : Option Data :=
  (environment.filterMap fun (name, raw) =>
    if Variable.path? name = some path then some (Variable.read raw) else none).getLast?

theorem value?_concat (environment : Environment) (name raw : String) (path : List String) :
    value? (environment ++ [(name, raw)]) path =
      if Variable.path? name = some path then some (Variable.read raw)
      else value? environment path := by
  unfold value?
  rw [List.filterMap_append]
  by_cases named : Variable.path? name = some path <;> simp [named]

/-- A variable that names a part of a path, or something further along it, names the path. -/
def Apart (environment : Environment) (path : List String) : Prop :=
  ∀ v ∈ environment, ∀ other, Variable.path? v.1 = some other →
    other <+: path ∨ path <+: other → other = path

end Environment

variable {environment : Environment} {name raw : String}

theorem nest_cons (key : String) (path : List String) (value : Data) :
    nest (key :: path) value = .table [(key, nest path value)] := rfl

theorem environmentTable_unnamed (unnamed : Variable.path? name = none) :
    environmentTable (environment ++ [(name, raw)]) = environmentTable environment := by
  simp only [environmentTable, List.foldl_append, List.foldl_cons, List.foldl_nil, unnamed]

/-- One more variable that names a path is one more layer. -/
theorem environmentTable_named {key : String} {path : List String}
    (named : Variable.path? name = some (key :: path)) :
    environmentTable (environment ++ [(name, raw)]) =
      Data.overrideTable (environmentTable environment) [(key, nest path (Variable.read raw))] := by
  simp only [environmentTable, List.foldl_append, List.foldl_cons, List.foldl_nil, named, nest_cons]

theorem environmentTable_distinct (environment : Environment) :
    (Data.table (environmentTable environment)).Distinct := by
  induction environment using List.reverseRecOn with
  | nil => exact Data.distinct_empty
  | append_singleton environment v ih =>
    obtain ⟨name, raw⟩ := v
    match named : Variable.path? name with
    | none => rwa [environmentTable_unnamed named]
    | some [] => exact absurd named (Variable.path?_ne_nil name)
    | some (key :: path) =>
      rw [environmentTable_named named, ← Data.override_tables]
      exact (distinct_nest (key :: path) (Variable.read_distinct raw)).override ih

/-- At the end of a path that variables name as a whole only stands what the last of them says. -/
theorem at?_environmentTable {key : String} {path : List String}
    (apart : environment.Apart (key :: path)) :
    (Data.table (environmentTable environment)).Clear (key :: path) ∧
      Alike ((Data.table (environmentTable environment)).at? (key :: path))
        (environment.value? (key :: path)) := by
  induction environment using List.reverseRecOn with
  | nil => exact ⟨⟨[], rfl, nofun⟩, .refl _⟩
  | append_singleton environment v ih =>
    obtain ⟨name, raw⟩ := v
    obtain ⟨clear, alike⟩ := ih fun v member => apart v (List.mem_append_left _ member)
    have last := apart (name, raw) (List.mem_append_right _ (List.mem_singleton_self _))
    rw [Environment.value?_concat]
    match named : Variable.path? name with
    | none =>
      rw [environmentTable_unnamed named, if_neg nofun]
      exact ⟨clear, alike⟩
    | some [] => exact absurd named (Variable.path?_ne_nil name)
    | some (k :: other) =>
      obtain ⟨clear', found⟩ := at?_nest (Variable.read raw) (last _ named)
      have distinct := distinct_nest (k :: other) (Variable.read_distinct raw)
      rw [environmentTable_named named, ← Data.override_tables, ← nest_cons]
      -- The last variable is one more layer, with a single value that is not on the way.
      refine ⟨Data.clear_override clear clear' distinct, ?_⟩
      refine (Data.at?_override clear clear' distinct).trans ?_
      rw [found]
      by_cases same : k :: other = key :: path
      · rw [if_pos same, if_pos (congrArg some same)]
        exact .refl _
      · rw [if_neg same, if_neg fun eq => same (Option.some.inj eq)]
        exact alike

/-- The variable that chooses the stage gives no setting. -/
theorem stage_of_named {name : String} {path : List String}
    (named : Variable.path? name = some path) : ("APP_ENV" == name) = false := by
  have unnamed : Variable.path? "APP_ENV" = none := by decide
  rw [beq_eq_false_iff_ne]
  rintro rfl
  simp [unnamed] at named

/-- Some variable names a path that starts with the key. -/
def Environment.Names (environment : Environment) (key : String) : Prop :=
  ∃ v ∈ environment, ∃ path, Variable.path? v.1 = some (key :: path)

theorem get?_environmentTable (environment : Environment) (key : String) :
    (Table.get? (environmentTable environment) key).isSome ↔ environment.Names key := by
  induction environment using List.reverseRecOn with
  | nil => exact ⟨nofun, nofun⟩
  | append_singleton environment v ih =>
    obtain ⟨name, raw⟩ := v
    have names : Environment.Names (environment ++ [(name, raw)]) key ↔
        Environment.Names environment key ∨
          ∃ path, Variable.path? name = some (key :: path) := by
      simp only [Environment.Names, List.mem_append, List.mem_singleton, or_and_right, exists_or,
        exists_eq_left]
    rw [names, ← ih]
    match named : Variable.path? name with
    | none => simp [environmentTable_unnamed named]
    | some [] => exact absurd named (Variable.path?_ne_nil name)
    | some (k :: path) =>
      have once : ([(k, nest path (Variable.read raw))].map (·.1)).Nodup := List.nodup_singleton _
      rw [environmentTable_named named, get?_overrideTable once, isSome_layered, get?_singleton]
      by_cases same : key = k
      · simp [same]
      · simp [same, Ne.symm same]

end Settings

end Courier

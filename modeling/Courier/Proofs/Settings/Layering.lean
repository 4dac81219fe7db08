import Courier.Proofs.Settings.Fields
import Courier.Proofs.Settings.Variables

/-!
# Layers of settings

Settings come from two files and from the environment, each on top of the one
before:

* `winner`: what the last layer says that gives a setting;
* `at?_stack`: this is what stands in its place when all layers are one;
* `layering_law`: loading succeeds if the application has a name, some layer has
  the part for the broker, and every winner is of its kind. Each setting is its
  winner then, or its default.
-/

namespace Courier.Settings

/-- What the last layer says that gives a setting: the environment goes before the file for the
stage, and that before the file of defaults. -/
def winner (lower upper : Table) (environment : Environment) (f : Field) : Option Data :=
  (environment.value? f.path).or
    (((Data.table upper).at? f.path).or ((Data.table lower).at? f.path))

theorem Parted.clear {table : Table} {part : String} (parted : Parted table part) (key : String) :
    (Data.table table).Clear [part, key] := by
  refine ⟨table, rfl, fun d here => ?_⟩
  obtain ⟨inner, rfl⟩ := parted d here
  exact ⟨inner, rfl, fun _ _ => trivial⟩

/-- Every setting stands in a table, or in a part of one. -/
theorem clear_path {table : Table} (kafka : Parted table "kafka")
    (telemetry : Parted table "telemetry") (f : Field) : (Data.table table).Clear f.path := by
  cases f with
  | appName | appEnv => exact ⟨table, rfl, fun _ _ => trivial⟩
  | logLevel | json => exact telemetry.clear _
  | _ => exact kafka.clear _

theorem parted_of_clear {table : Table} {part key : String}
    (clear : (Data.table table).Clear [part, key]) : Parted table part := by
  obtain ⟨_, ⟨⟩, inner⟩ := clear
  intro d here
  obtain ⟨t, rfl, -⟩ := inner d here
  exact ⟨t, rfl⟩

theorem fileTable_distinct {files : Files} {path : String} {table : Table}
    (read : fileTable files path = some table) : (Data.table table).Distinct := by
  unfold fileTable at read
  split at read
  · exact Option.some.inj read ▸ Data.distinct_empty
  · obtain ⟨text, -, parsed⟩ := Option.bind_eq_some_iff.mp read
    exact Toml.parse_distinct parsed

section
variable {files : Files} {environment : Environment} {directory stage : String}
  {lower upper : Table}

def stack (lower upper top : Table) : Table :=
  Data.overrideTable (Data.overrideTable (Data.overrideTable [] lower) upper) top

theorem merged_layers (below above top : Layer) :
    merged [below, above, top] = stack below.table above.table top.table := rfl

theorem loadFor_eq (defaults : fileTable files (directory ++ "/default.toml") = some lower)
    (staged : fileTable files (directory ++ "/" ++ stage ++ ".toml") = some upper) :
    loadFor files environment directory stage = ofLayers [
      ⟨.file (directory ++ "/default.toml"), lower⟩,
      ⟨.file (directory ++ "/" ++ stage ++ ".toml"), upper⟩,
      ⟨.environment, environmentTable environment⟩] := by
  have read : layers files environment directory stage = .ok [
      ⟨.file (directory ++ "/default.toml"), lower⟩,
      ⟨.file (directory ++ "/" ++ stage ++ ".toml"), upper⟩,
      ⟨.environment, environmentTable environment⟩] := by
    simp [layers, filePaths, defaults, staged]
  rw [loadFor, read]
  rfl

theorem ofLayers_eq_ok {all : List Layer} {s : Settings} :
    ofLayers all = .ok s ↔ ofTable (merged all) = .ok s := by
  rw [ofLayers]
  cases ofTable (merged all) with
  | ok s' => simp
  | error m => cases m <;> simp

theorem loadFor_eq_ok (defaults : fileTable files (directory ++ "/default.toml") = some lower)
    (staged : fileTable files (directory ++ "/" ++ stage ++ ".toml") = some upper) {s : Settings} :
    loadFor files environment directory stage = .ok s ↔
      ofTable (stack lower upper (environmentTable environment)) = .ok s := by
  rw [loadFor_eq defaults staged, ofLayers_eq_ok, merged_layers]

/-- Settings are loaded from files that can be read only. -/
theorem fileTables_of_loadFor {s : Settings}
    (loaded : loadFor files environment directory stage = .ok s) : ∃ lower upper,
      fileTable files (directory ++ "/default.toml") = some lower ∧
        fileTable files (directory ++ "/" ++ stage ++ ".toml") = some upper := by
  obtain ⟨read, sound, -⟩ := bind_eq_ok.mp loaded
  unfold layers at sound
  dsimp only at sound
  split at sound
  · next all =>
    cases defaults : fileTable files (directory ++ "/default.toml") with
    | none => simp [filePaths, defaults] at all
    | some lower =>
      cases staged : fileTable files (directory ++ "/" ++ stage ++ ".toml") with
      | none => simp [filePaths, defaults, staged] at all
      | some upper => exact ⟨lower, upper, rfl, rfl⟩
  · cases sound

theorem stack_eq (lower upper top : Table) :
    Data.table (stack lower upper top) =
      (((Data.table []).override (.table lower)).override (.table upper)).override
        (.table top) := by
  rw [Data.override_tables, Data.override_tables, Data.override_tables]
  rfl

/-- A setting stands where the last layer that gives it has it, or there is some table there. -/
theorem at?_stack {key : String} {path : List String} (below : (Data.table lower).Distinct)
    (above : (Data.table upper).Distinct) (lowest : (Data.table lower).Clear (key :: path))
    (higher : (Data.table upper).Clear (key :: path)) (apart : environment.Apart (key :: path)) :
    (Data.table (stack lower upper (environmentTable environment))).Clear (key :: path) ∧
      Alike ((Data.table (stack lower upper (environmentTable environment))).at? (key :: path))
        ((environment.value? (key :: path)).or
          (((Data.table upper).at? (key :: path)).or
            ((Data.table lower).at? (key :: path)))) := by
  have empty : (Data.table []).Clear (key :: path) := ⟨[], rfl, nofun⟩
  have clear := Data.clear_override empty lowest below
  have clear' := Data.clear_override clear higher above
  have distinct := environmentTable_distinct environment
  obtain ⟨last, said⟩ := at?_environmentTable apart
  rw [stack_eq]
  refine ⟨Data.clear_override clear' last distinct, ?_⟩
  refine (Data.at?_override clear' last distinct).trans (said.or ?_)
  refine (Data.at?_override clear higher above).trans (.or (.refl _) ?_)
  have bottom := Data.at?_override empty lowest below
  rwa [show (Data.table []).at? (key :: path) = none from rfl, Option.or_none] at bottom

theorem get?_stack (below : (Data.table lower).Distinct) (above : (Data.table upper).Distinct)
    (key : String) : (Table.get? (stack lower upper (environmentTable environment)) key).isSome ↔
      (lower.get? key).isSome ∨ (upper.get? key).isSome ∨
        Environment.Names environment key := by
  have distinct := environmentTable_distinct environment
  rw [stack, get?_overrideTable distinct.keys, get?_overrideTable above.keys,
    get?_overrideTable below.keys, isSome_layered, isSome_layered, isSome_layered,
    Bool.or_eq_true, get?_environmentTable]
  simp [Table.get?, or_assoc]

/-- The settings with given values. What is missing or of another kind is the default. -/
def ofValues (x : Field → Option Data) : Settings where
  appName := text "" (x .appName)
  appEnv := text "development" (x .appEnv)
  kafka := {
    brokers := text "" (x .brokers)
    username := text "" (x .username)
    password := text "" (x .password)
    mechanisms := text "" (x .mechanisms)
    protocol := text "" (x .protocol)
    caFile := (x .caFile).map fun d => text "" (some d)
    isDebug := flag (x .isDebug) }
  telemetry := { logLevel := text "info" (x .logLevel), json := flag (x .json) }
where
  text (default : String) : Option Data → String
    | some (.text s) => s
    | _ => default
  flag : Option Data → Bool
    | some (.bool b) => b
    | _ => false

theorem get_ofValues {x : Field → Option Data} (named : (x .appName).isSome)
    (fits : ∀ f d, x f = some d → f.Fits d) (f : Field) :
    (ofValues x).get f = (x f).or f.absent := by
  cases given : x f with
  | none =>
    cases f with
    | appName => simp [given] at named
    | _ => simp [get, ofValues, ofValues.text, ofValues.flag, given, Field.absent]
  | some d =>
    have fits := fits f d given
    cases f <;> obtain ⟨_, rfl⟩ := fits <;>
      simp [get, ofValues, ofValues.text, ofValues.flag, given]

theorem exists_get {x : Field → Option Data} : (∃ s : Settings, ∀ f, s.get f = (x f).or f.absent) ↔
    (x .appName).isSome ∧ ∀ f d, x f = some d → f.Fits d := by
  constructor
  · rintro ⟨s, holds⟩
    constructor
    · have name := holds .appName
      rw [Field.absent, Option.or_none] at name
      rw [← name]
      rfl
    · intro f d given
      apply get_fits (s := s)
      rw [holds f, given, Option.some_or]
  · rintro ⟨named, fits⟩
    exact ⟨ofValues x, get_ofValues named fits⟩

/-- What loading comes to, with what the three layers say. -/
structure LayeringLaw (outcome : Except LoadError Settings) (lower upper : Table)
    (environment : Environment) : Prop where
  /-- The application needs a name, and a part for the broker, which may be empty. -/
  loads : (∃ s, outcome = .ok s) ↔
    (winner lower upper environment .appName).isSome ∧
      ((lower.get? "kafka").isSome ∨ (upper.get? "kafka").isSome ∨
        Environment.Names environment "kafka") ∧
      ∀ f d, winner lower upper environment f = some d → f.Fits d
  get : ∀ s, outcome = .ok s → ∀ f, s.get f = (winner lower upper environment f).or f.absent

/-- **Each setting comes from the last layer that gives it**, or is the default, whatever stands
below it and whatever else is given. The files may be missing; if the parts for the broker and for
telemetry are given, they are tables, and what variables name is a single setting or no setting at
all. -/
theorem layering_law (defaults : fileTable files (directory ++ "/default.toml") = some lower)
    (staged : fileTable files (directory ++ "/" ++ stage ++ ".toml") = some upper)
    (tables : ∀ part ∈ ["kafka", "telemetry"], Parted lower part ∧ Parted upper part)
    (single : ∀ f : Field, Environment.Apart environment f.path) :
    LayeringLaw (loadFor files environment directory stage) lower upper environment := by
  have below := fileTable_distinct defaults
  have above := fileTable_distinct staged
  obtain ⟨⟨kafka, kafka'⟩, telemetry, telemetry'⟩ :
      (Parted lower "kafka" ∧ Parted upper "kafka") ∧
        Parted lower "telemetry" ∧ Parted upper "telemetry" := by
    simpa using tables
  have there (f : Field) :
      (Data.table (stack lower upper (environmentTable environment))).Clear f.path ∧
        Alike ((Data.table (stack lower upper (environmentTable environment))).at? f.path)
          (winner lower upper environment f) := by
    have lowest := clear_path kafka telemetry f
    have higher := clear_path kafka' telemetry' f
    have apart := single f
    unfold winner
    cases f <;> exact at?_stack below above lowest higher apart
  -- Up to tables in the place of tables, which no setting is, the winners stand in their places.
  have eq (s : Settings) : loadFor files environment directory stage = .ok s ↔
      ((lower.get? "kafka").isSome ∨ (upper.get? "kafka").isSome ∨
        Environment.Names environment "kafka") ∧
      ∀ f, s.get f = (winner lower upper environment f).or f.absent := by
    rw [loadFor_eq_ok defaults staged, ofTable_eq_ok (parted_of_clear (there .brokers).1)
      (parted_of_clear (there .json).1), get?_stack below above]
    simp only [get_eq_or (there _).2]
  constructor
  case loads =>
    simp only [eq, exists_and_left, exists_get]
    exact and_left_comm
  case get => exact fun s loaded => ((eq s).mp loaded).2

end

/-- Brokers of another kind are overridden, and there is a key that nobody knows. -/
def staging : Files :=
  ⟨[("conf/default.toml", some (Utf8.encode
      "app_name = \"demo\"\nowner = 3\n[kafka]\nbrokers = 1\nusername = \"a\"\n")),
    ("conf/staging.toml", some (Utf8.encode "[kafka]\nusername = \"b\"\n"))]⟩

def stagingVariables : Environment := [("MQ_KAFKA__BROKERS", "h")]

theorem path?_brokers : Variable.path? "MQ_KAFKA__BROKERS" = some ["kafka", "brokers"] := by decide

theorem apart_stagingVariables (f : Field) : stagingVariables.Apart f.path := by
  intro v member other named comparable
  obtain rfl := List.mem_singleton.mp member
  obtain rfl := Option.some.inj (path?_brokers.symm.trans named)
  revert comparable
  cases f <;> decide

theorem layering_law_staging : ∃ lower upper,
    fileTable staging ("conf" ++ "/default.toml") = some lower ∧
      fileTable staging ("conf" ++ "/" ++ "staging" ++ ".toml") = some upper ∧
      LayeringLaw (loadFor staging stagingVariables "conf" "staging") lower upper
        stagingVariables ∧
      loadFor staging stagingVariables "conf" "staging" =
        .ok { appName := "demo", kafka := { brokers := "h", username := "b" } } := by
  have said : Variable.read "h" = .text "h" := by
    rw [Variable.read, Variable.value, Variable.value.core]
    rfl
  have given : environmentTable stagingVariables =
      [("kafka", .table [("brokers", .text "h")])] := by
    simp only [environmentTable, stagingVariables, List.foldl_cons, List.foldl_nil, path?_brokers,
      said, nest_cons]
    rfl
  obtain ⟨lower, defaults, upper, staged, tables, taken⟩ :
      ∃ lower ∈ fileTable staging ("conf" ++ "/default.toml"),
        ∃ upper ∈ fileTable staging ("conf" ++ "/" ++ "staging" ++ ".toml"),
          (∀ part ∈ ["kafka", "telemetry"], Parted lower part ∧ Parted upper part) ∧
          (ofTable (stack lower upper [("kafka", .table [("brokers", .text "h")])])).toOption =
            some { appName := "demo", kafka := { brokers := "h", username := "b" } } := by
    decide +kernel
  refine ⟨lower, upper, defaults, staged,
    layering_law defaults staged tables apart_stagingVariables, ?_⟩
  rw [loadFor_eq_ok defaults staged, given]
  revert taken
  cases ofTable (stack lower upper _) with
  | error m =>
    intro taken
    cases taken
  | ok s => exact fun taken => congrArg _ (Option.some.inj taken)

end Courier.Settings

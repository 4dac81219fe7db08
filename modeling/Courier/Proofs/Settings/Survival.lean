import Courier.Proofs.Settings.Beside
import Courier.Proofs.Settings.Plain

/-!
# Texts that go through the environment

A setting that is a text can be given by a variable:

* `ofTable_put`: tables that differ in one text give settings that differ in it
  only, and fail for nothing else;
* `load_put`: so does one variable more;
* `survival_law`: a variable that is read as a text gives its setting, and
  changes no other; one that is read as anything else makes loading fail.
-/

namespace Courier.Settings

/-- Most settings are texts. -/
def Field.isText : Field → Bool
  | isDebug | json => false
  | _ => true

theorem Field.exists_path (f : Field) : ∃ key path, f.path = key :: path := by
  cases f <;> exact ⟨_, _, rfl⟩

/-- The settings with another text in the place of a setting. -/
def put (s : Settings) (f : Field) (x : String) : Settings :=
  match f with
  | .appName => { s with appName := x }
  | .appEnv => { s with appEnv := x }
  | .brokers => { s with kafka.brokers := x }
  | .username => { s with kafka.username := x }
  | .password => { s with kafka.password := x }
  | .mechanisms => { s with kafka.mechanisms := x }
  | .protocol => { s with kafka.protocol := x }
  | .caFile => { s with kafka.caFile := some x }
  | .logLevel => { s with telemetry.logLevel := x }
  | .isDebug | .json => s

theorem get_put_self {f : Field} (text : f.isText = true) (s : Settings) (x : String) :
    (s.put f x).get f = some (.text x) := by
  cases f <;> first | rfl | cases text

theorem get_put_other {f g : Field} (other : g ≠ f) (s : Settings) (x : String) :
    (s.put f x).get g = s.get g := by
  cases f <;> cases g <;> first | rfl | contradiction

theorem field_beside {α : Type} {read : List String → Data → Except Mismatch α} {default a : α}
    {path : List String} {table table' : Table} {key other : String}
    (beside : ∀ other, other ≠ key → table.get? other = table'.get? other)
    (taken : field read default path table' other = .ok a) (apart : other ≠ key) :
    field read default path table other = .ok a := by
  rw [field, beside other apart, ← field, taken]

theorem Kafka.ofData_put {f : Field} {key : String} {s : Settings} {table table' : Table} {d : Data}
    (place : f.path = ["kafka", key]) (text : f.isText = true)
    (taken : Kafka.ofData ["kafka"] (.table table') = .ok s.kafka)
    (beside : ∀ other, other ≠ key → table.get? other = table'.get? other)
    (there : table.get? key = some d) :
    Kafka.ofData ["kafka"] (.table table) = (fun x => (s.put f x).kafka) <$> asText f.path d := by
  simp only [Kafka.ofData, bind_eq_ok] at taken
  obtain ⟨_, brokers, _, caFile, _, isDebug, _, mechanisms, _, password, _, protocol, _, username,
    eq⟩ := taken
  rw [Kafka.ofData]
  cases f
  case appName | appEnv | logLevel | json => simp [Field.path] at place
  case isDebug => cases text
  all_goals
    obtain rfl := (List.cons.inj (List.cons.inj place).2).1
    simp (disch := decide) only [field_some there, field_beside beside brokers,
      field_beside beside caFile, field_beside beside isDebug, field_beside beside mechanisms,
      field_beside beside password, field_beside beside protocol, field_beside beside username,
      put, ← Except.ok.inj eq, asSomeText, Field.path, List.cons_append, List.nil_append]
    cases asText _ d <;> rfl

theorem Telemetry.ofData_put {s : Settings} {table : Table} (table' : Table) {d : Data}
    (taken : Telemetry.ofData ["telemetry"] (.table table') = .ok s.telemetry)
    (beside : ∀ other, other ≠ "log_level" → table.get? other = table'.get? other)
    (there : table.get? "log_level" = some d) :
    Telemetry.ofData ["telemetry"] (.table table) =
      (fun x => (s.put .logLevel x).telemetry) <$> asText (Field.path .logLevel) d := by
  simp only [Telemetry.ofData, bind_eq_ok] at taken
  obtain ⟨_, json, _, -, eq⟩ := taken
  rw [Telemetry.ofData, field_some there, field_beside beside json (by decide)]
  simp only [put, ← Except.ok.inj eq, Field.path, List.cons_append, List.nil_append]
  cases asText _ d <;> rfl

theorem exists_inner {table : Table} {name key : String} {d : Data}
    (tables : Open (part (some (.table table)) name))
    (there : (Data.table table).at? [name, key] = some d) :
    ∃ inner : Table, table.get? name = some (.table inner) ∧ inner.get? key = some d := by
  cases found : table.get? name with
  | none => simp [at?_part_none found] at there
  | some value =>
    obtain ⟨inner, rfl⟩ := tables value found
    exact ⟨inner, rfl, (at?_part found).symm.trans there⟩

theorem field_kafka_put {f : Field} {key : String} {table table' : Table} {s : Settings} {d : Data}
    (place : f.path = ["kafka", key]) (text : f.isText = true)
    (beside : Beside ["kafka", key] (some (.table table)) (some (.table table')))
    (there : (Data.table table).at? ["kafka", key] = some d)
    (taken : field (fun path d => some <$> Kafka.ofData path d) none [] table' "kafka" =
      .ok (some s.kafka)) :
    field (fun path d => some <$> Kafka.ofData path d) none [] table "kafka" =
      (fun x => some (s.put f x).kafka) <$> asText f.path d := by
  obtain ⟨-, -, -, tables, tables', same, -⟩ := beside
  obtain ⟨inner, found, there⟩ := exists_inner tables there
  cases found' : table'.get? "kafka" with
  | none => simp [field_none found'] at taken
  | some old =>
    obtain ⟨inner', rfl⟩ := tables' old found'
    rw [field_some found', map_eq_ok fun _ _ => Option.some.inj] at taken
    simp only [part, found, found'] at same
    rw [field_some found, List.nil_append, Kafka.ofData_put place text taken same there]
    cases asText _ d <;> rfl

theorem field_telemetry_put {table table' : Table} {s : Settings} {d : Data}
    (beside : Beside ["telemetry", "log_level"] (some (.table table)) (some (.table table')))
    (there : (Data.table table).at? ["telemetry", "log_level"] = some d)
    (taken : field Telemetry.ofData {} [] table' "telemetry" = .ok s.telemetry) :
    field Telemetry.ofData {} [] table "telemetry" =
      (fun x => (s.put .logLevel x).telemetry) <$> asText (Field.path .logLevel) d := by
  obtain ⟨-, -, -, tables, tables', same, -⟩ := beside
  obtain ⟨inner, found, there⟩ := exists_inner tables there
  rw [field_some found, List.nil_append]
  cases found' : table'.get? "telemetry" with
  | none =>
    -- No part at all is as good as an empty one.
    rw [field_none found'] at taken
    simp only [part, found, found'] at same
    exact Telemetry.ofData_put [] taken same there
  | some old =>
    obtain ⟨inner', rfl⟩ := tables' old found'
    rw [field_some found'] at taken
    simp only [part, found, found'] at same
    exact Telemetry.ofData_put inner' taken same there

theorem fields_of_ofTable {table : Table} {s : Settings} (taken : ofTable table = .ok s) :
    field asText "development" [] table "app_env" = .ok s.appEnv ∧
    field asSomeText none [] table "app_name" = .ok (some s.appName) ∧
    field (fun path d => some <$> Kafka.ofData path d) none [] table "kafka" =
      .ok (some s.kafka) ∧
    field Telemetry.ofData {} [] table "telemetry" = .ok s.telemetry := by
  simp only [ofTable, bind_eq_ok, require_eq_ok] at taken
  obtain ⟨_, appEnv, _, appName, _, kafka, _, telemetry, _, rfl, _, rfl, ⟨⟩⟩ := taken
  exact ⟨appEnv, appName, kafka, telemetry⟩

/-- Settings that differ in one text differ in nothing else, and fail for nothing else. -/
theorem ofTable_put {f : Field} (text : f.isText = true) {table table' : Table} {s : Settings}
    {d : Data} (beside : Beside f.path (some (.table table)) (some (.table table')))
    (there : (Data.table table).at? f.path = some d) (taken : ofTable table' = .ok s) :
    ofTable table = s.put f <$> asText f.path d := by
  obtain ⟨appEnv, appName, kafka, telemetry⟩ := fields_of_ofTable taken
  obtain ⟨key, path, place⟩ := f.exists_path
  have same : ∀ other, other ≠ key → Table.get? table other = Table.get? table' other := by
    rw [place] at beside
    exact beside.2.2.1
  cases f
  case isDebug | json => cases text
  case appEnv =>
    obtain rfl := (List.cons.inj place).1
    rw [Field.path, at?_key] at there
    simp (disch := decide) only [ofTable, field_some there, field_beside same appName,
      field_beside same kafka, field_beside same telemetry, Field.path, List.nil_append]
    cases asText _ d <;> rfl
  case appName =>
    obtain rfl := (List.cons.inj place).1
    rw [Field.path, at?_key] at there
    simp (disch := decide) only [ofTable, field_some there, field_beside same appEnv,
      field_beside same kafka, field_beside same telemetry, Field.path, List.nil_append, asSomeText]
    cases asText _ d <;> rfl
  case logLevel =>
    obtain rfl := (List.cons.inj place).1
    simp (disch := decide) only [ofTable, field_telemetry_put beside there telemetry,
      field_beside same appEnv, field_beside same appName, field_beside same kafka]
    cases asText _ d <;> rfl
  all_goals
    obtain rfl := (List.cons.inj place).1
    simp (disch := decide) only [ofTable, field_kafka_put rfl text beside there kafka,
      field_beside same appEnv, field_beside same appName, field_beside same telemetry]
    cases asText _ d <;> rfl

section
variable {files files' : Files} {before after : Environment} {name directory : String}
  (raw : String) {f : Field} {s : Settings} {path : List String}

/-- The tables of two sets of files are side by side. -/
def BesideFiles (path : List String) (files files' : Files) (places : List String) : Prop :=
  ∀ place ∈ places, ∀ table', fileTable files' place = some table' →
    ∃ table, fileTable files place = some table ∧
      Beside path (some (.table table)) (some (.table table'))

theorem value?_of_last (named : Variable.path? name = some path)
    (last : ∀ v ∈ after, Variable.path? v.1 ≠ some path) :
    Environment.value? (before ++ (name, raw) :: after) path = some (Variable.read raw) := by
  induction after using List.reverseRecOn with
  | nil => rw [Environment.value?_concat, if_pos named]
  | append_singleton after v ih =>
    have other := last v (List.mem_append_right _ (List.mem_singleton_self _))
    rw [← List.cons_append, ← List.append_assoc, Environment.value?_concat, if_neg other]
    exact ih fun v member => last v (List.mem_append_left _ member)

theorem apart_insert (named : Variable.path? name = some path)
    (apart : Environment.Apart (before ++ after) path) :
    Environment.Apart (before ++ (name, raw) :: after) path := by
  intro v member other said comparable
  obtain member | rfl | member := by
    simpa only [List.mem_append, List.mem_cons] using member
  · exact apart v (List.mem_append_left _ member) other said comparable
  · exact (Option.some.inj (named.symm.trans said)).symm
  · exact apart v (List.mem_append_right _ member) other said comparable

/-- The stage is chosen by a variable that names no setting. -/
theorem stage_insert (named : Variable.path? name = some path) :
    stage (before ++ (name, raw) :: after) = stage (before ++ after) := by
  simp only [stage, List.lookup_append, List.lookup_cons, stage_of_named named]

/-- Up to tables in the place of tables, a single value is what it is. -/
theorem Alike.eq_of_single {d d' : Data} (alike : Alike (some d) (some d'))
    (single : ∀ table, d' ≠ .table table) : d = d' := by
  obtain same | ⟨_, table, -, found⟩ := alike
  · exact Option.some.inj same
  · exact absurd (Option.some.inj found) (single table)

theorem Alike.symm {x y : Option Data} (alike : Alike x y) : Alike y x :=
  alike.imp Eq.symm fun ⟨a, b, left, right⟩ => ⟨b, a, right, left⟩

theorem describe_of_alike {d d' : Data} (alike : Alike (some d) (some d')) :
    d.describe = d'.describe := by
  obtain same | ⟨a, b, left, right⟩ := alike
  · rw [Option.some.inj same]
  · rw [Option.some.inj left, Option.some.inj right]
    rfl

theorem asText_of_ne {d : Data} (other : ∀ x, d ≠ .text x) :
    asText path d = .error (.wrongType path d "a string") := by
  cases d with
  | text x => exact absurd rfl (other x)
  | _ => rfl

/-- With one variable more, all layers come to the same but for what stands at the end of its path,
and there it stands. -/
theorem stack_insert {key : String} {lower lower' upper upper' : Table}
    (named : Variable.path? name = some (key :: path))
    (apart : Environment.Apart (before ++ after) (key :: path))
    (last : ∀ v ∈ after, Variable.path? v.1 ≠ some (key :: path))
    (lowest : Beside (key :: path) (some (.table lower)) (some (.table lower')))
    (higher : Beside (key :: path) (some (.table upper)) (some (.table upper')))
    (each : ∀ table ∈ [lower, lower', upper, upper'], (Data.table table).Distinct) :
    Beside (key :: path)
        (some (.table (stack lower upper (environmentTable (before ++ (name, raw) :: after)))))
        (some (.table (stack lower' upper' (environmentTable (before ++ after))))) ∧
      Alike ((Data.table (stack lower upper
        (environmentTable (before ++ (name, raw) :: after)))).at? (key :: path))
        (some (Variable.read raw)) := by
  have highest := beside_environmentTable raw named apart
  constructor
  · refine beside_stack lowest higher highest ?_
    have distinct := environmentTable_distinct (before ++ (name, raw) :: after)
    have distinct' := environmentTable_distinct (before ++ after)
    simp only [List.forall_mem_cons] at each ⊢
    exact ⟨each.1, each.2.1, each.2.2.1, each.2.2.2.1, distinct, distinct', nofun⟩
  · simp only [List.forall_mem_cons] at each
    have stacked := (at?_stack each.1 each.2.2.1 lowest.clear higher.clear
      (apart_insert raw named apart)).2
    rwa [value?_of_last raw named last] at stacked

theorem sourceOf_insert {key : String} (below above : Layer)
    (named : Variable.path? name = some (key :: path))
    (apart : Environment.Apart (before ++ after) (key :: path))
    (last : ∀ v ∈ after, Variable.path? v.1 ≠ some (key :: path)) :
    sourceOf [below, above, ⟨.environment, environmentTable (before ++ (name, raw) :: after)⟩]
      (key :: path) = some .environment := by
  have said := (at?_environmentTable (apart_insert raw named apart)).2
  rw [value?_of_last raw named last] at said
  have there : ((Data.table (environmentTable (before ++ (name, raw) :: after))).at?
      (key :: path)).isSome := by
    obtain same | ⟨_, _, found, -⟩ := said
    · rw [same]
      rfl
    · rw [found]
      rfl
  simp [sourceOf, there]

variable (before after) in
/-- One variable more that gives a text is one text more, and the environment is to blame if it
gives anything else. -/
theorem load_put (text : f.isText = true) (named : Variable.path? name = some f.path)
    (beside : BesideFiles f.path files files'
      (filePaths directory (stage (before ++ after))))
    (apart : Environment.Apart (before ++ after) f.path)
    (last : ∀ v ∈ after, Variable.path? v.1 ≠ some f.path)
    (loaded : load files' (before ++ after) directory = .ok s) :
    ∃ d, Alike (some d) (some (Variable.read raw)) ∧
      load files (before ++ (name, raw) :: after) directory =
        match asText f.path d with
        | .ok x => .ok (s.put f x)
        | .error m => .error (.mismatch m (some .environment)) := by
  -- Both loads stack the same layers, but for what stands at the path itself.
  obtain ⟨lower', upper', defaults', staged'⟩ := fileTables_of_loadFor loaded
  obtain ⟨lower, defaults, lowest⟩ := beside _ (.head _) lower' defaults'
  obtain ⟨upper, staged, higher⟩ := beside _ (.tail _ (.head _)) upper' staged'
  have taken := (loadFor_eq_ok defaults' staged').mp loaded
  have each : ∀ table ∈ [lower, lower', upper, upper'], (Data.table table).Distinct := by
    simp only [List.forall_mem_cons]
    exact ⟨fileTable_distinct defaults, fileTable_distinct defaults', fileTable_distinct staged,
      fileTable_distinct staged', nofun⟩
  obtain ⟨key, path, place⟩ := f.exists_path
  have source (below above : Layer) :=
    sourceOf_insert raw below above (place ▸ named) (place ▸ apart) (place ▸ last)
  obtain ⟨besides, said⟩ := stack_insert raw (place ▸ named) (place ▸ apart)
    (place ▸ last) (place ▸ lowest) (place ▸ higher) each
  rw [← place] at besides said source
  obtain ⟨d, there⟩ : ∃ d, (Data.table (stack lower upper
      (environmentTable (before ++ (name, raw) :: after)))).at? f.path = some d := by
    obtain same | ⟨_, _, found, -⟩ := said
    · exact ⟨_, same⟩
    · exact ⟨_, found⟩
  refine ⟨d, there ▸ said, ?_⟩
  rw [load, stage_insert raw named, loadFor_eq defaults staged, ofLayers, merged_layers,
    ofTable_put text besides there taken]
  cases d with
  | text x => rfl
  | _ => exact congrArg (fun source => Except.error (LoadError.mismatch _ source)) (source _ _)

theorem message_wrongType (path : List String) (found : Data) (expected : String)
    (source : Source) :
    (LoadError.mismatch (.wrongType path found expected) (some source)).message =
      "Failed to load config: " ++ ("invalid type: found " ++ found.describe ++ ", expected " ++
        expected ++ source.describe path) := rfl

/-- What comes of a text that a variable gives for a setting. -/
structure SurvivalLaw (f : Field) (raw : String) (s : Settings)
    (outcome : Except LoadError Settings) : Prop where
  /-- What is read as a text becomes the setting, and nothing else changes. -/
  survives : ∀ x, Variable.read raw = .text x →
    ∃ t, outcome = .ok t ∧ t.get f = some (.text x) ∧ ∀ g, g ≠ f → t.get g = s.get g
  /-- What is read as anything else is refused, and the failure says what was found. -/
  refused : (∀ x, Variable.read raw ≠ .text x) →
    ∃ e, outcome = .error e ∧ e.message = "Failed to load config: " ++ ("invalid type: found " ++
      (Variable.read raw).describe ++ ", expected a string" ++ Source.environment.describe f.path)
  unaltered : (∃ t, outcome = .ok t ∧ t.get f = some (.text raw)) ↔ Variable.read raw = .text raw
  plain : Variable.Plain raw → ∃ t, outcome = .ok t ∧ t.get f = some (.text raw)
  /-- Digits are not what they are meant for. -/
  digits : raw ≠ "" → (∀ c ∈ raw.toList, Text.isDigit 10 c = true) →
    Text.digitsValue 10 raw.toList < 0x10000000000000000 → ∃ e, outcome = .error e

variable (before after) in
/-- **A text survives the environment if it is read as a text.** The setting that a variable gives
is then what it says, and all others are what they are without it, whatever the files give in its
place. A plain text is read as it is, but whatever looks like a flag, a number or a list is taken
for one, and loading fails. -/
theorem survival_law (text : f.isText = true) (named : Variable.path? name = some f.path)
    (beside : BesideFiles f.path files files' (filePaths directory (stage (before ++ after))))
    (apart : Environment.Apart (before ++ after) f.path)
    (last : ∀ v ∈ after, Variable.path? v.1 ≠ some f.path)
    (loaded : load files' (before ++ after) directory = .ok s) :
    SurvivalLaw f raw s (load files (before ++ (name, raw) :: after) directory) := by
  obtain ⟨d, alike, outcome⟩ := load_put before after raw text named beside apart last loaded
  have survives : ∀ x, Variable.read raw = .text x →
      load files (before ++ (name, raw) :: after) directory = .ok (s.put f x) := by
    intro x said
    rw [said] at alike
    rw [outcome, alike.eq_of_single nofun]
    rfl
  have refused : (∀ x, Variable.read raw ≠ .text x) →
      load files (before ++ (name, raw) :: after) directory =
        .error (.mismatch (.wrongType f.path d "a string") (some .environment)) := by
    intro other
    rw [outcome, asText_of_ne]
    rintro x rfl
    exact other x (alike.symm.eq_of_single nofun)
  constructor
  case survives =>
    exact fun x said => ⟨_, survives x said, get_put_self text s x, fun g other =>
      get_put_other other s x⟩
  case refused =>
    intro other
    refine ⟨_, refused other, ?_⟩
    have expected (found : String) :
        found ++ ", expected " ++ "a string" = found ++ ", expected a string" :=
      String.append_assoc.trans (congrArg (found ++ ·) (by decide))
    rw [← describe_of_alike alike, message_wrongType, expected]
  case unaltered =>
    constructor
    · rintro ⟨t, loaded, kept⟩
      by_cases said : ∃ x, Variable.read raw = .text x
      · obtain ⟨x, said⟩ := said
        obtain rfl := Except.ok.inj ((survives x said).symm.trans loaded)
        rw [said, Option.some.inj ((get_put_self text s x).symm.trans kept)]
      · exact nomatch (refused (not_exists.mp said)).symm.trans loaded
    · exact fun said => ⟨_, survives raw said, get_put_self text s raw⟩
  case plain => exact fun plain => ⟨_, survives raw plain.read, get_put_self text s raw⟩
  case digits =>
    intro some_ digits small
    refine ⟨_, refused fun x said => ?_⟩
    have number := Variable.read_digits (String.toList_eq_nil_iff.not.mpr some_) digits small
    exact nomatch number.symm.trans said

end

/-- A password that happens to be a number, in a file where it is a text. -/
def numbered : Files :=
  ⟨[("conf/default.toml", some (Utf8.encode
      "app_name = \"demo\"\n[kafka]\nbrokers = \"h:1\"\npassword = \"12345\"\n"))]⟩

def numberedSettings : Settings where
  appName := "demo"
  kafka := { brokers := "h:1", password := "12345" }

theorem load_numbered : load numbered [] "conf" = .ok numberedSettings :=
  eq_ok_of_toOption (by decide +kernel)

theorem besideFiles_self {path : List String} {files : Files} {places : List String}
    (tables : ∀ place ∈ places, ∀ table, fileTable files place = some table →
      (Data.table table).Clear path) : BesideFiles path files files places :=
  fun place member table found =>
    ⟨table, found, beside_self fun _ eq => Option.some.inj eq ▸ tables place member table found⟩

theorem besideFiles_numbered : BesideFiles (Field.path .password) numbered numbered
    (filePaths "conf" (stage [])) := by
  have parted : ∀ place ∈ filePaths "conf" (stage []), ∀ table ∈ fileTable numbered place,
      Parted table "kafka" := by
    decide +kernel
  exact besideFiles_self fun place member table found => (parted place member table found).clear _

theorem path?_password : Variable.path? "MQ_KAFKA__PASSWORD" = some (Field.path .password) := by
  decide

theorem survival_law_password : load numbered [] "conf" = .ok numberedSettings ∧
    SurvivalLaw .password "hunter2" numberedSettings
      (load numbered [("MQ_KAFKA__PASSWORD", "hunter2")] "conf") :=
  ⟨load_numbered, survival_law [] [] "hunter2" rfl path?_password besideFiles_numbered nofun nofun
    load_numbered⟩

theorem load_digits {raw : String} (some_ : raw.toList ≠ [])
    (digits : ∀ c ∈ raw.toList, Text.isDigit 10 c = true)
    (small : Text.digitsValue 10 raw.toList < 0x10000000000000000) :
    load numbered [("MQ_KAFKA__PASSWORD", raw)] "conf" =
      .error (.mismatch (.wrongType (Field.path .password)
        (.unsigned (Text.digitsValue 10 raw.toList)) "a string") (some .environment)) := by
  obtain ⟨d, alike, outcome⟩ := load_put [] [] raw (f := .password) rfl path?_password
    besideFiles_numbered nofun nofun load_numbered
  rw [Variable.read_digits some_ digits small] at alike
  rw [alike.eq_of_single nofun] at outcome
  exact outcome

/-- The part for the broker in the order of its settings, without their names. -/
def listed : Files :=
  ⟨[("conf/default.toml", some (Utf8.encode
      "app_name = \"demo\"\nkafka = [\"h:1\", \"user\", \"secret\"]\n"))]⟩

def listedSettings : Settings where
  appName := "demo"
  kafka := { brokers := "h:1", username := "user", password := "secret" }

def unlistedSettings : Settings where
  appName := "demo"
  kafka := { password := "secret" }

theorem load_listed : load listed [] "conf" = .ok listedSettings :=
  eq_ok_of_toOption (by decide +kernel)

theorem load_unlisted :
    load listed [("MQ_KAFKA__PASSWORD", "secret")] "conf" = .ok unlistedSettings := by
  have said : Variable.read "secret" = .text "secret" := Variable.Plain.read (by decide)
  have given : environmentTable [("MQ_KAFKA__PASSWORD", "secret")] =
      [("kafka", .table [("password", .text "secret")])] := by
    simp only [environmentTable, List.foldl_cons, List.foldl_nil, path?_password, said, Field.path,
      nest_cons]
    rfl
  obtain ⟨lower, defaults, upper, staged, taken⟩ :
      ∃ lower ∈ fileTable listed ("conf" ++ "/default.toml"),
        ∃ upper ∈ fileTable listed ("conf" ++ "/" ++ "development" ++ ".toml"),
          (ofTable
            (stack lower upper [("kafka", .table [("password", .text "secret")])])).toOption =
            some unlistedSettings := by
    decide +kernel
  refine (loadFor_eq_ok defaults staged).mpr ?_
  rw [given]
  exact eq_ok_of_toOption taken

/-- A password that is a text in a file is none in the environment. Where the file gives a list,
the variable leaves nothing of it. -/
theorem survival_refuted :
    (∃ (files : Files) (s : Settings) (name raw : String),
      load files [] "conf" = .ok s ∧ s.get .password = some (.text raw) ∧
        Variable.path? name = some (Field.path .password) ∧
        ∃ e, load files [(name, raw)] "conf" = .error e) ∧
    ∃ (files : Files) (s t : Settings) (name raw : String),
      load files [] "conf" = .ok s ∧ s.get .password = some (.text raw) ∧
        Variable.path? name = some (Field.path .password) ∧
        load files [(name, raw)] "conf" = .ok t ∧ t.get .brokers ≠ s.get .brokers := by
  constructor
  · exact ⟨numbered, numberedSettings, "MQ_KAFKA__PASSWORD", "12345", load_numbered, rfl,
      path?_password, _, load_digits (by decide) (List.all_eq_true.mp (by decide)) (by decide)⟩
  · exact ⟨listed, listedSettings, unlistedSettings, "MQ_KAFKA__PASSWORD", "secret", load_listed,
      rfl, path?_password, load_unlisted, fun same => nomatch Data.text.inj (Option.some.inj same)⟩

end Courier.Settings

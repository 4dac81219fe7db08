import Courier.Proofs.Settings.Tables
import Courier.Settings.Basic
import Mathlib.Tactic.Tauto

/-!
# The settings one by one

* `Field`: each setting, with its place, its kind and its default;
* `get`: settings, as they stand in a table;
* `ofTable_eq_ok`: settings are taken from a table if there is a part for the
  broker, and if each setting that is there is of its kind.
-/

namespace Courier.Settings

inductive Field where
  | appName | appEnv
  | brokers | username | password | mechanisms | protocol | caFile | isDebug
  | logLevel | json

namespace Field

def path : Field → List String
  | appName => ["app_name"]
  | appEnv => ["app_env"]
  | brokers => ["kafka", "brokers"]
  | username => ["kafka", "username"]
  | password => ["kafka", "password"]
  | mechanisms => ["kafka", "mechanisms"]
  | protocol => ["kafka", "protocol"]
  | caFile => ["kafka", "ca_file"]
  | isDebug => ["kafka", "is_debug"]
  | logLevel => ["telemetry", "log_level"]
  | json => ["telemetry", "json"]

def Fits : Field → Data → Prop
  | isDebug, d | json, d => ∃ b, d = .bool b
  | _, d => ∃ s, d = .text s

/-- What a setting is where nobody gives it; some are nothing then. -/
def absent : Field → Option Data
  | appName | caFile => none
  | appEnv => some (.text "development")
  | logLevel => some (.text "info")
  | isDebug | json => some (.bool false)
  | brokers | username | password | mechanisms | protocol => some (.text "")

end Field

def get (s : Settings) : Field → Option Data
  | .appName => some (.text s.appName)
  | .appEnv => some (.text s.appEnv)
  | .brokers => some (.text s.kafka.brokers)
  | .username => some (.text s.kafka.username)
  | .password => some (.text s.kafka.password)
  | .mechanisms => some (.text s.kafka.mechanisms)
  | .protocol => some (.text s.kafka.protocol)
  | .caFile => s.kafka.caFile.map .text
  | .isDebug => some (.bool s.kafka.isDebug)
  | .logLevel => some (.text s.telemetry.logLevel)
  | .json => some (.bool s.telemetry.json)

theorem get_fits {s : Settings} {f : Field} {d : Data} (found : s.get f = some d) : f.Fits d := by
  cases f with
  | isDebug | json => exact ⟨_, (Option.some.inj found).symm⟩
  | caFile =>
    obtain ⟨file, -, rfl⟩ := Option.map_eq_some_iff.mp found
    exact ⟨file, rfl⟩
  | _ => exact ⟨_, (Option.some.inj found).symm⟩

theorem not_fits_table (f : Field) (table : Table) : ¬ f.Fits (.table table) := by
  cases f <;> rintro ⟨_, ⟨⟩⟩

/-- Which table stands in the place of a setting makes no difference. -/
theorem get_eq_or {s : Settings} {f : Field} {x y : Option Data} (alike : Alike x y) :
    s.get f = x.or f.absent ↔ s.get f = y.or f.absent := by
  obtain rfl | ⟨a, b, rfl, rfl⟩ := alike
  · exact Iff.rfl
  · constructor <;> intro found <;> exact absurd (get_fits found) (not_fits_table f _)

/-! ## Taken from one table -/

theorem bind_eq_ok {ε α β : Type} {x : Except ε α} {f : α → Except ε β} {b : β} :
    x >>= f = .ok b ↔ ∃ a, x = .ok a ∧ f a = .ok b := by
  cases x with
  | error e => exact ⟨nofun, fun ⟨_, eq, _⟩ => nomatch eq⟩
  | ok a => exact ⟨fun eq => ⟨a, rfl, eq⟩, fun ⟨_, same, eq⟩ => Except.ok.inj same ▸ eq⟩

theorem map_eq_ok {ε α β : Type} {x : Except ε α} {f : α → β} (inj : Function.Injective f) {a : α} :
    f <$> x = .ok (f a) ↔ x = .ok a := by
  cases x with
  | error e => exact ⟨nofun, nofun⟩
  | ok b => exact ⟨fun eq => congrArg _ (inj (Except.ok.inj eq)), fun eq => eq ▸ rfl⟩

theorem eq_ok_of_toOption {ε α : Type} {x : Except ε α} {a : α} (eq : x.toOption = some a) :
    x = .ok a := by
  cases x with
  | error e => cases eq
  | ok b => exact congrArg _ (Option.some.inj eq)

section
variable {path : List String} {table : Table} {key : String}

theorem asText_eq_ok {d : Data} {s : String} : asText path d = .ok s ↔ d = .text s := by
  cases d <;> simp [asText]

theorem asFlag_eq_ok {d : Data} {b : Bool} : asFlag path d = .ok b ↔ d = .bool b := by
  cases d <;> simp [asFlag]

theorem asSomeText_eq_ok {d : Data} {o : Option String} :
    asSomeText path d = .ok o ↔ some d = o.map .text := by
  cases d <;> cases o <;> simp [asSomeText, asText]

/-- A part that is given is of its kind, and is itself or else the default. -/
theorem field_eq_ok {α : Type} {read : List String → Data → Except Mismatch α} {wrap : α → Data}
    (inj : ∀ a b, wrap a = wrap b → a = b)
    (reads : ∀ {path d a}, read path d = .ok a ↔ d = wrap a) {default a : α} :
    field read default path table key = .ok a ↔
      (table.get? key).or (some (wrap default)) = some (wrap a) := by
  unfold field
  cases table.get? key with
  | none => exact ⟨fun eq => Except.ok.inj eq ▸ rfl, fun eq => inj _ _ (Option.some.inj eq) ▸ rfl⟩
  | some d => exact reads.trans ⟨fun eq => eq ▸ rfl, fun eq => Option.some.inj eq⟩

theorem field_asText_eq_ok {s default : String} :
    field asText default path table key = .ok s ↔
      (table.get? key).or (some (.text default)) = some (.text s) :=
  field_eq_ok (fun _ _ => Data.text.inj) asText_eq_ok

theorem field_asFlag_eq_ok {b default : Bool} :
    field asFlag default path table key = .ok b ↔
      (table.get? key).or (some (.bool default)) = some (.bool b) :=
  field_eq_ok (fun _ _ => Data.bool.inj) asFlag_eq_ok

theorem field_asSomeText_eq_ok {o : Option String} :
    field asSomeText none path table key = .ok o ↔ table.get? key = o.map .text := by
  unfold field
  cases table.get? key with
  | none => cases o <;> simp
  | some d => exact asSomeText_eq_ok

theorem field_none {α : Type} {read : List String → Data → Except Mismatch α} {default : α}
    (missing : table.get? key = none) : field read default path table key = .ok default := by
  rw [field, missing]

theorem field_some {α : Type} {read : List String → Data → Except Mismatch α} {default : α}
    {d : Data} (there : table.get? key = some d) :
    field read default path table key = read (path ++ [key]) d := by
  rw [field, there]

/-- The part says what stands at its keys. -/
def Kafka.SaidBy (k : Kafka) (look : String → Option Data) : Prop :=
  (look "brokers").or (some (.text "")) = some (.text k.brokers) ∧
  look "ca_file" = k.caFile.map .text ∧
  (look "is_debug").or (some (.bool false)) = some (.bool k.isDebug) ∧
  (look "mechanisms").or (some (.text "")) = some (.text k.mechanisms) ∧
  (look "password").or (some (.text "")) = some (.text k.password) ∧
  (look "protocol").or (some (.text "")) = some (.text k.protocol) ∧
  (look "username").or (some (.text "")) = some (.text k.username)

def Telemetry.SaidBy (t : Telemetry) (look : String → Option Data) : Prop :=
  (look "json").or (some (.bool false)) = some (.bool t.json) ∧
  (look "log_level").or (some (.text "info")) = some (.text t.logLevel)

theorem Kafka.ofData_eq_ok {k : Kafka} :
    Kafka.ofData path (.table table) = .ok k ↔ k.SaidBy table.get? := by
  simp only [Kafka.ofData, bind_eq_ok, field_asText_eq_ok, field_asFlag_eq_ok,
    field_asSomeText_eq_ok]
  constructor
  · rintro ⟨_, brokers, _, caFile, _, isDebug, _, mechanisms, _, password, _, protocol, _, username,
      ⟨⟩⟩
    exact ⟨brokers, caFile, isDebug, mechanisms, password, protocol, username⟩
  · rintro ⟨brokers, caFile, isDebug, mechanisms, password, protocol, username⟩
    exact ⟨_, brokers, _, caFile, _, isDebug, _, mechanisms, _, password, _, protocol, _, username,
      rfl⟩

theorem Telemetry.ofData_eq_ok {t : Telemetry} :
    Telemetry.ofData path (.table table) = .ok t ↔ t.SaidBy table.get? := by
  simp only [Telemetry.ofData, bind_eq_ok, field_asText_eq_ok, field_asFlag_eq_ok]
  constructor
  · rintro ⟨_, json, _, logLevel, ⟨⟩⟩
    exact ⟨json, logLevel⟩
  · rintro ⟨json, logLevel⟩
    exact ⟨_, json, _, logLevel, rfl⟩

theorem require_eq_ok {α : Type} {name : String} {o : Option α} {a : α} :
    require name o = .ok a ↔ o = some a := by
  cases o <;> simp [require]

end

section
variable {table inner : Table} {key part : String}

theorem at?_key : (Data.table table).at? [key] = table.get? key := by
  rw [Data.at?]
  cases table.get? key <;> simp [Data.at?]

theorem at?_part (there : table.get? part = some (.table inner)) :
    (Data.table table).at? [part, key] = inner.get? key := by
  rw [Data.at?, there]
  exact at?_key

theorem at?_part_none (missing : table.get? part = none) :
    (Data.table table).at? [part, key] = none := by
  rw [Data.at?, missing]
  rfl

/-- A part, if it is there, is a table. -/
def Parted (table : Table) (part : String) : Prop :=
  ∀ d, table.get? part = some d → ∃ inner, d = .table inner

instance (table : Table) (part : String) : Decidable (Parted table part) :=
  match there : table.get? part with
  | none => .isTrue fun _ here => nomatch there.symm.trans here
  | some (.table inner) =>
    .isTrue fun _ here => ⟨inner, (Option.some.inj (there.symm.trans here)).symm⟩
  | some (.bool _) | some (.signed _) | some (.unsigned _) | some (.float _) | some (.text _)
  | some (.list _) => .isFalse fun parted => nomatch (parted _ there)

theorem field_kafka_eq_ok (parted : Parted table "kafka") {k : Kafka} :
    field (fun path d => some <$> Kafka.ofData path d) none [] table "kafka" = .ok (some k) ↔
      (table.get? "kafka").isSome ∧
        k.SaidBy fun key => (Data.table table).at? ["kafka", key] := by
  cases there : table.get? "kafka" with
  | none => simp [field_none there]
  | some d =>
    obtain ⟨inner, rfl⟩ := parted d there
    simp only [field_some there, at?_part there, Option.isSome_some, true_and]
    exact (map_eq_ok fun _ _ => Option.some.inj).trans Kafka.ofData_eq_ok

theorem field_telemetry_eq_ok (parted : Parted table "telemetry") {t : Telemetry} :
    field Telemetry.ofData {} [] table "telemetry" = .ok t ↔
      t.SaidBy fun key => (Data.table table).at? ["telemetry", key] := by
  cases there : table.get? "telemetry" with
  | none =>
    obtain ⟨logLevel, json⟩ := t
    simp [field_none there, at?_part_none there, Telemetry.SaidBy, and_comm]
  | some d =>
    obtain ⟨inner, rfl⟩ := parted d there
    simp only [field_some there, at?_part there]
    exact Telemetry.ofData_eq_ok

end

/-- The parts of a table are taken one by one. -/
theorem ofTable_eq_ok_iff_parts {table : Table} {s : Settings} : ofTable table = .ok s ↔
    (table.get? "app_env").or (some (.text "development")) = some (.text s.appEnv) ∧
    table.get? "app_name" = some (.text s.appName) ∧
    field (fun path d => some <$> Kafka.ofData path d) none [] table "kafka" =
      .ok (some s.kafka) ∧
    field Telemetry.ofData {} [] table "telemetry" = .ok s.telemetry := by
  simp only [ofTable, bind_eq_ok, field_asText_eq_ok, field_asSomeText_eq_ok, require_eq_ok]
  constructor
  · rintro ⟨_, appEnv, _, appName, _, kafka, _, telemetry, _, rfl, _, rfl, ⟨⟩⟩
    exact ⟨appEnv, appName, kafka, telemetry⟩
  · rintro ⟨appEnv, appName, kafka, telemetry⟩
    exact ⟨_, appEnv, some s.appName, appName, _, kafka, _, telemetry, _, rfl, _, rfl, rfl⟩

/-- Settings are taken from a table if there is a part for the broker, and each setting that is
there is of its kind. -/
theorem ofTable_eq_ok {table : Table} {s : Settings} (kafka : Parted table "kafka")
    (telemetry : Parted table "telemetry") : ofTable table = .ok s ↔
      (table.get? "kafka").isSome ∧
        ∀ f : Field, s.get f = ((Data.table table).at? f.path).or f.absent := by
  have all {P : Field → Prop} : (∀ f, P f) ↔ P .appName ∧ P .appEnv ∧
      (P .brokers ∧ P .caFile ∧ P .isDebug ∧ P .mechanisms ∧ P .password ∧ P .protocol ∧
        P .username) ∧ P .json ∧ P .logLevel := by
    constructor
    · intro holds
      exact ⟨holds _, holds _, ⟨holds _, holds _, holds _, holds _, holds _, holds _, holds _⟩,
        holds _, holds _⟩
    · rintro ⟨_, _, ⟨_, _, _, _, _, _, _⟩, _, _⟩ f
      cases f <;> assumption
  rw [ofTable_eq_ok_iff_parts, field_kafka_eq_ok kafka, field_telemetry_eq_ok telemetry, all]
  simp only [Kafka.SaidBy, Telemetry.SaidBy, get, Field.path, Field.absent, at?_key,
    Option.or_none, eq_comm]
  tauto

end Courier.Settings

import Courier.Proofs.Settings.Layering

/-!
# What settings know about their stage

The stage is chosen by a variable of its own, and settings do not learn of it:

* `stage_law`: unless a layer says otherwise, settings say that they are for
  development, whatever stage they were loaded for;
* `production_unknown`: settings that were loaded for production deny it.
-/

namespace Courier.Settings

variable {files : Files} {environment : Environment} {directory : String} {s : Settings}

/-- A key that variables do not name as a whole is a table, if it is there. -/
theorem parted_environmentTable {key : String}
    (unnamed : ∀ v ∈ environment, Variable.path? v.1 ≠ some [key]) :
    Parted (environmentTable environment) key := by
  induction environment using List.reverseRecOn with
  | nil => nofun
  | append_singleton environment v ih =>
    obtain ⟨name, raw⟩ := v
    have parted := ih fun v member => unnamed v (List.mem_append_left _ member)
    have last := unnamed (name, raw) (List.mem_append_right _ (List.mem_singleton_self _))
    match named : Variable.path? name with
    | none => rwa [environmentTable_unnamed named]
    | some [] => exact absurd named (Variable.path?_ne_nil name)
    | some (k :: path) =>
      have single : Parted [(k, nest path (Variable.read raw))] key := by
        intro d found
        rw [get?_singleton] at found
        split at found
        · next same =>
          cases path with
          | nil => exact absurd (same ▸ named) last
          | cons step path => exact ⟨_, (Option.some.inj found).symm⟩
        · cases found
      have distinct := distinct_nest (k :: path) (Variable.read_distinct raw)
      have clear := Data.clear_override (parted.clear "") (single.clear "") distinct
      rw [environmentTable_named named]
      exact parted_of_clear (Data.override_tables .. ▸ clear)

/-- What settings know that were loaded for a stage. -/
structure StageLaw (s : Settings) (stage : String) : Prop where
  appEnv : s.appEnv = "development"
  /-- They are right about their stage if it is the one for development. -/
  right : s.appEnv = stage ↔ stage = "development"
  production : s.isProduction = false
  development : s.isDevelopment = true

/-- **Settings do not know what stage they were loaded for.** Unless a file or a variable says what
they are for, they are for development. -/
theorem stage_law (loaded : load files environment directory = .ok s)
    (unset : ∀ path ∈ filePaths directory (stage environment), ∀ table,
      fileTable files path = some table → table.get? "app_env" = none)
    (unnamed : ∀ v ∈ environment, Variable.path? v.1 ≠ some ["app_env"]) :
    StageLaw s (stage environment) := by
  obtain ⟨lower, upper, defaults, staged⟩ := fileTables_of_loadFor loaded
  have below := unset _ (.head _) lower defaults
  have above := unset _ (.tail _ (.head _)) upper staged
  have taken := (ofTable_eq_ok_iff_parts.mp ((loadFor_eq_ok defaults staged).mp loaded)).1
  -- Variables that only name something within the key make a table of it, which is no text.
  have appEnv : s.appEnv = "development" := by
    rw [stack, get?_overrideTable (environmentTable_distinct environment).keys,
      get?_overrideTable (fileTable_distinct staged).keys,
      get?_overrideTable (fileTable_distinct defaults).keys, below, above] at taken
    cases named : Table.get? (environmentTable environment) "app_env" with
    | none =>
      rw [named] at taken
      exact (Data.text.inj (Option.some.inj taken)).symm
    | some d =>
      obtain ⟨inner, rfl⟩ := parted_environmentTable unnamed d named
      rw [named] at taken
      cases taken
  constructor
  case appEnv => exact appEnv
  case right => rw [appEnv, eq_comm]
  case production => simp [isProduction, appEnv]
  case development => simp [isDevelopment, appEnv]

/-- A file for production that sets what is different there. -/
def deployed : Files :=
  ⟨[("conf/default.toml", some (Utf8.encode "app_name = \"demo\"\n[kafka]\nbrokers = \"h:1\"\n")),
    ("conf/production.toml", some (Utf8.encode "[telemetry]\njson = true\n"))]⟩

def inProduction : Environment := [("APP_ENV", "production")]

def deployedSettings : Settings where
  appName := "demo"
  kafka := { brokers := "h:1" }
  telemetry := { json := true }

theorem load_deployed : load deployed inProduction "conf" = .ok deployedSettings :=
  eq_ok_of_toOption (by decide +kernel)

theorem unset_deployed : ∀ path ∈ filePaths "conf" (stage inProduction), ∀ table,
    fileTable deployed path = some table → table.get? "app_env" = none := by
  have all : ∀ path ∈ filePaths "conf" (stage inProduction), ∀ table ∈ fileTable deployed path,
      (table.get? "app_env").isNone := by
    decide +kernel
  exact fun path member table read => Option.isNone_iff_eq_none.mp (all path member table read)

theorem unnamed_inProduction :
    ∀ v ∈ inProduction, Variable.path? v.1 ≠ some ["app_env"] := by
  decide

theorem stage_law_deployed : load deployed inProduction "conf" = .ok deployedSettings ∧
    StageLaw deployedSettings (stage inProduction) :=
  ⟨load_deployed, stage_law load_deployed unset_deployed unnamed_inProduction⟩

/-- The file for production was a layer, and the settings deny that they are for production. -/
theorem production_unknown : ∃ (files : Files) (environment : Environment) (s : Settings),
    load files environment "conf" = .ok s ∧
      (∀ path ∈ filePaths "conf" (stage environment), ∀ table,
        fileTable files path = some table → table.get? "app_env" = none) ∧
      (∀ v ∈ environment, Variable.path? v.1 ≠ some ["app_env"]) ∧
      stage environment = "production" ∧ s.appEnv ≠ stage environment ∧
      s.isProduction = false ∧ s.isDevelopment = true :=
  ⟨deployed, inProduction, deployedSettings, load_deployed, unset_deployed, unnamed_inProduction,
    by decide, by decide, by decide, by decide⟩

end Courier.Settings

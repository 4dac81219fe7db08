import Courier.Broker.Client
import Courier.Json.Printer
import Courier.Log.Filter
import Courier.Queue.Api
import Courier.Settings.EnvFile

/-! The demonstration program, up to the point where it would need a broker: it loads its
settings, says that it starts, and fails to connect. -/
namespace Courier.Demo

open Settings (Environment)

def target : String := "mq_demo"

inductive Form where
  | text
  | json
  deriving DecidableEq, Repr

def document (l : Log.Line) : Json := Json.ofMembers [
  ("level", .str (Text.upperAscii l.level.name)),
  ("target", .str target),
  ("fields", Json.ofMembers
    (("message", .str l.message) :: l.fields.map fun f => (f.key, .str f.value)))]

/-- A line for people to read; the values of fields are written as they are. -/
def text (l : Log.Line) : String :=
  Text.upperAscii l.level.name ++ " " ++ target ++ ": " ++ l.message ++
    String.join (l.fields.map fun f => " " ++ f.render)

inductive Failure where
  | load (e : Settings.LoadError)
  | connect (e : Error)

def Failure.report : Failure → String
  | .load e => "Error: failed to load config\n\nCaused by:\n    0: " ++ e.message ++
      "\n    1: " ++ e.reason ++ "\n"
  | .connect e => "Error: " ++ e.message ++ "\n"

def ignoring (directive : String) : String :=
  "ignoring `" ++ directive ++ "`: invalid filter directive\n"

structure Outcome where
  form : Form := .text
  lines : List Log.Line := []
  ignored : List String := []
  failure : Failure

def Outcome.stdout (o : Outcome) : List String :=
  o.lines.map fun l =>
    match o.form with
    | .text => text l
    | .json => (document l).compact

def Outcome.stderr (o : Outcome) : String :=
  String.join (o.ignored.map ignoring) ++ o.failure.report

/-- A run that ends in a failure ends with one. -/
def Outcome.code (_ : Outcome) : Nat := 1

/-- The environment with the variables of the file beside the program. -/
def environment (files : Files) (start : Environment) : Environment :=
  match files.readText ".env" with
  | .ok text => Settings.EnvFile.add start text
  | .error _ => start

def settingsDirectory (environment : Environment) : String :=
  (environment.lookup "MQ_CONFIG_DIR").getD "demo/config"

/-- The filter in the environment, or, if there is none in order, the one of the settings with
its directives that cannot be used. -/
def filter (environment : Environment) (level : String) : Log.Filter × List String :=
  match (environment.lookup "RUST_LOG").bind Log.Filter.ofText? with
  | some f => (f, [])
  | none => Log.Filter.ofTextLenient level

def starting (s : Settings) : Log.Line :=
  ⟨.info, "Starting demo", [⟨"app_name", s.appName⟩, ⟨"app_env", s.appEnv⟩]⟩

def config (s : Settings) : Broker.Config :=
  { Broker.Config.ofSettings s.kafka with clientId := some s.appName, hasLogger := true }

def connectFailure (files : Files) (config : Broker.Config) : Error :=
  match config.validate files with
  | .error e => e
  | .ok connection => Queue.probeError (Broker.Client.probeFailure connection)

def run (files : Files) (start : Environment) : Outcome :=
  let environment := environment files start
  match Settings.load files environment (settingsDirectory environment) with
  | .error e => { failure := .load e }
  | .ok s =>
    let (filter, ignored) := filter environment s.telemetry.logLevel
    let line := starting s
    { form := if s.isProduction || s.telemetry.json then .json else .text
      lines := if filter.allows target line.level then [line] else []
      ignored
      failure := .connect (connectFailure files (config s)) }

def settingsPaths (start : Environment) (files : Files) : List String :=
  let environment := environment files start
  Settings.filePaths (settingsDirectory environment) (Settings.stage environment)

def certificatePaths (start : Environment) (files : Files) : List String :=
  let environment := environment files start
  match Settings.load files environment (settingsDirectory environment) with
  | .ok s => (config s).caPath.toList
  | .error _ => []

end Courier.Demo

import Courier.Settings.Layer
import Courier.Text.Shown

/-! The settings of an application, taken from a table of data without any conversion. -/
namespace Courier

structure Settings.Kafka where
  brokers : String := ""
  username : String := ""
  password : String := ""
  mechanisms : String := ""
  protocol : String := ""
  caFile : Option String := none
  isDebug : Bool := false
  deriving DecidableEq, Repr

structure Settings.Telemetry where
  logLevel : String := "info"
  json : Bool := false
  deriving DecidableEq, Repr

structure Settings where
  appName : String
  appEnv : String := "development"
  kafka : Settings.Kafka
  telemetry : Settings.Telemetry := {}
  deriving DecidableEq, Repr

namespace Settings

def isProduction (s : Settings) : Bool := s.appEnv == "production"

def isDevelopment (s : Settings) : Bool := s.appEnv == "development"

open Text in
/-- The settings as diagnostics show them, without the password. -/
def Kafka.render (k : Kafka) : String :=
  shownRecord "KafkaSettings" [
    ("brokers", quoted k.brokers), ("username", quoted k.username),
    ("password", shownSecret k.password),
    ("mechanisms", quoted k.mechanisms), ("protocol", quoted k.protocol),
    ("ca_file", shownOption (k.caFile.map quoted)), ("is_debug", shownBool k.isDebug)]

open Text in
def Telemetry.render (t : Telemetry) : String :=
  shownRecord "TelemetryConfig" [("log_level", quoted t.logLevel), ("json", shownBool t.json)]

open Text in
def render (s : Settings) : String :=
  shownRecord "AppConfig" [
    ("app_name", quoted s.appName), ("app_env", quoted s.appEnv), ("kafka", s.kafka.render),
    ("telemetry", s.telemetry.render)]

inductive Mismatch where
  | wrongType (path : List String) (found : Data) (expected : String)
  | missing (name : String)

namespace Mismatch

def reason : Mismatch → String
  | .wrongType _ found expected =>
    "invalid type: found " ++ found.describe ++ ", expected " ++ expected
  | .missing name => "missing field `" ++ name ++ "`"

def path : Mismatch → List String
  | .wrongType path _ _ => path
  | .missing _ => []

end Mismatch

/-! Each part is looked for in the table in the order of its keys, so that of two mismatches the
one with the smaller key is found. Other keys are ignored. -/

def asText (path : List String) : Data → Except Mismatch String
  | .text s => .ok s
  | d => .error (.wrongType path d "a string")

def asFlag (path : List String) : Data → Except Mismatch Bool
  | .bool b => .ok b
  | d => .error (.wrongType path d "a boolean")

def asSomeText (path : List String) (d : Data) : Except Mismatch (Option String) :=
  some <$> asText path d

/-- The part at a key, or `absent`. -/
def field (read : List String → Data → Except Mismatch α) (absent : α) (path : List String)
    (table : Table) (key : String) : Except Mismatch α :=
  match table.get? key with
  | none => .ok absent
  | some d => read (path ++ [key]) d

/-- The part that is item `n` of a list, or `absent`. -/
def item (read : List String → Data → Except Mismatch α) (absent : α) (path : List String)
    (items : List Data) (n : Nat) : Except Mismatch α :=
  match items[n]? with
  | none => .ok absent
  | some d => read (path ++ [toString n]) d

/-- A list has the parts in the order of the record. -/
def Kafka.ofData (path : List String) : Data → Except Mismatch Kafka
  | .table table => do
    let brokers ← field asText "" path table "brokers"
    let caFile ← field asSomeText none path table "ca_file"
    let isDebug ← field asFlag false path table "is_debug"
    let mechanisms ← field asText "" path table "mechanisms"
    let password ← field asText "" path table "password"
    let protocol ← field asText "" path table "protocol"
    let username ← field asText "" path table "username"
    pure { brokers, username, password, mechanisms, protocol, caFile, isDebug }
  | .list items => do
    let brokers ← item asText "" path items 0
    let username ← item asText "" path items 1
    let password ← item asText "" path items 2
    let mechanisms ← item asText "" path items 3
    let protocol ← item asText "" path items 4
    let caFile ← item asSomeText none path items 5
    let isDebug ← item asFlag false path items 6
    pure { brokers, username, password, mechanisms, protocol, caFile, isDebug }
  | d => .error (.wrongType path d "struct KafkaSettings")

def Telemetry.ofData (path : List String) : Data → Except Mismatch Telemetry
  | .table table => do
    let json ← field asFlag false path table "json"
    let logLevel ← field asText "info" path table "log_level"
    pure { logLevel, json }
  | .list items => do
    let logLevel ← item asText "info" path items 0
    let json ← item asFlag false path items 1
    pure { logLevel, json }
  | d => .error (.wrongType path d "struct TelemetryConfig")

def require (name : String) : Option α → Except Mismatch α
  | some a => .ok a
  | none => .error (.missing name)

/-- The settings in a table. What is missing is found out after everything there is right. -/
def ofTable (table : Table) : Except Mismatch Settings := do
  let appEnv ← field asText "development" [] table "app_env"
  let appName ← field asSomeText none [] table "app_name"
  let kafka ← field (fun path d => some <$> Kafka.ofData path d) none [] table "kafka"
  let telemetry ← field Telemetry.ofData {} [] table "telemetry"
  let appName ← require "app_name" appName
  let kafka ← require "kafka" kafka
  pure { appName, appEnv, kafka, telemetry }

end Settings

end Courier

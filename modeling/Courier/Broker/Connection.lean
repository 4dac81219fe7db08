import Courier.Broker.Security
import Courier.Files
import Courier.Settings.Basic

/-! The configuration of a connection and the connection it describes.

* `Config.validateWith` checks a configuration once, setting after setting, whatever can be read;
* `Connection.clientEntries` and its two extensions are what the clients are made from. -/
namespace Courier.Broker

/-- What a user configures, all of it as given. -/
structure Config where
  brokers : String := ""
  username : String := ""
  password : String := ""
  mechanisms : String := ""
  protocol : String := ""
  caFile : Option String := none
  isDebug : Bool := false
  clientId : Option String := none
  hasLogger : Bool := false
  deriving DecidableEq, Repr

/-- A configuration that was found in order. -/
structure Connection where
  brokers : List String
  username : String
  password : String
  mechanism : Mechanism
  protocol : Protocol
  caPem : Option String
  isDebug : Bool
  clientId : Option String
  hasLogger : Bool
  deriving DecidableEq, Repr

namespace Config

def ofSettings (s : Settings.Kafka) : Config where
  brokers := s.brokers
  username := s.username
  password := s.password
  mechanisms := s.mechanisms
  protocol := s.protocol
  caFile := s.caFile
  isDebug := s.isDebug

/-- What a configuration can be refused for, in the order in which it is checked. -/
inductive Flaw where
  | empty (setting : String)
  | unsupported (e : Error)
  | unreadable (reason : String)
  | noCertificate (path : String)

def Flaw.toError : Flaw → Error
  | .empty setting => ⟨.configuration, "kafka config '" ++ setting ++ "' is empty"⟩
  | .unsupported e => e
  | .unreadable reason => ⟨.configuration, "failed to read kafka CA certificate: " ++ reason⟩
  | .noCertificate path => ⟨.configuration, "kafka CA file contains no PEM certificate: " ++ path⟩

/-- The non-blank parts between commas, without the blanks around them. -/
def brokerList (brokers : String) : List String :=
  ((Text.parts ',' brokers).map Text.trim).filter (!·.isEmpty)

def certificateMark : List Char := "-----BEGIN CERTIFICATE-----".toList

/-- `mark` stands somewhere in `text`. -/
def contains (mark : List Char) : List Char → Bool
  | [] => mark.isEmpty
  | c :: text => mark.isPrefixOf (c :: text) || contains mark text

/-- The path of the certificate file. A blank path is none. -/
def caPath (config : Config) : Option String :=
  (config.caFile.map Text.trim).filter (!·.isEmpty)

/-- What comes of reading a path: the text that is found there, or the reason why there is none. -/
abbrev Reader := String → Except String String

/-- The certificate, if one is configured. -/
def caPem (read : Reader) (config : Config) : Except Flaw (Option String) :=
  match config.caPath with
  | none => .ok none
  | some path =>
    match read path with
    | .error reason => .error (.unreadable reason)
    | .ok pem =>
      if contains certificateMark pem.toList then .ok (some pem) else .error (.noCertificate path)

/-- Nothing comes of a setting that is in order. -/
def ensure (inOrder : Bool) (flaw : Flaw) : Except Flaw Unit :=
  if inOrder then .ok () else .error flaw

def required (setting given : String) : Except Flaw Unit :=
  ensure (!given.isEmpty) (.empty setting)

def named (setting : String) (ofText : String → Except Error α) (given : String) :
    Except Flaw α := do
  ensure (!Text.blank given) (.empty setting)
  (ofText given).mapError .unsupported

/-- The connection, or the first flaw. No file is read unless all settings are in order, and
with a certificate the connection is encrypted. -/
def check (read : Reader) (config : Config) : Except Flaw Connection := do
  ensure (!(brokerList config.brokers).isEmpty) (.empty "brokers")
  required "username" config.username
  required "password" config.password
  let mechanism ← named "mechanisms" Mechanism.ofText config.mechanisms
  let protocol ← named "protocol" Protocol.ofText config.protocol
  let caPem ← config.caPem read
  return {
    brokers := brokerList config.brokers
    username := config.username
    password := config.password
    mechanism
    protocol := if caPem.isSome then protocol.withTls else protocol
    caPem
    isDebug := config.isDebug
    clientId := config.clientId
    hasLogger := config.hasLogger }

def validateWith (read : Reader) (config : Config) : Except Error Connection :=
  (config.check read).mapError Flaw.toError

def validate (files : Files) (config : Config) : Except Error Connection :=
  config.validateWith fun path => (files.readText path).mapError Files.ReadError.message

open Text in
/-- The configuration for diagnostics; its password is not shown. -/
def render (c : Config) : String :=
  shownRecord "KafkaConfig" [
    ("brokers", quoted c.brokers), ("username", quoted c.username),
    ("password", shownSecret c.password), ("mechanisms", quoted c.mechanisms),
    ("protocol", quoted c.protocol), ("ca_file", shownOption (c.caFile.map quoted)),
    ("is_debug", shownBool c.isDebug), ("client_id", shownOption (c.clientId.map quoted)),
    ("logger", shownBool c.hasLogger)]

end Config

namespace Connection

def renderBridge (hasLogger : Bool) : String :=
  Text.shownRecord "TransportLogBridge" [("logger", Text.shownBool hasLogger)]

open Text in
def render (c : Connection) : String :=
  shownRecord "BrokerConnection" [
    ("brokers", shownList (c.brokers.map quoted)), ("username", quoted c.username),
    ("password", shownSecret c.password), ("mechanism", c.mechanism.render),
    ("protocol", c.protocol.render), ("ca_pem", shownOption (c.caPem.map quoted)),
    ("is_debug", shownBool c.isDebug), ("client_id", shownOption (c.clientId.map quoted)),
    ("bridge", renderBridge c.hasLogger)]

abbrev Entry := String × String

def saslEntries (c : Connection) : List Entry :=
  if c.protocol.usesSasl then
    [("sasl.mechanism", c.mechanism.name), ("sasl.username", c.username),
      ("sasl.password", c.password)]
  else []

/-- The chain of certificates is checked, the name of the host is not. -/
def caEntries (c : Connection) : List Entry :=
  match c.caPem with
  | some pem => [("ssl.ca.pem", pem), ("ssl.endpoint.identification.algorithm", "none")]
  | none => []

/-- The entries that all clients of a connection share. -/
def clientEntries (c : Connection) : List Entry :=
  [("bootstrap.servers", ",".intercalate c.brokers), ("security.protocol", c.protocol.name),
    ("socket.timeout.ms", "10000"), ("allow.auto.create.topics", "true")] ++
  (c.clientId.map fun id => ("client.id", id)).toList ++ c.saslEntries ++ c.caEntries

def producerEntries (c : Connection) : List Entry :=
  c.clientEntries ++ [("linger.ms", "0"), ("acks", "-1"), ("request.timeout.ms", "30000")]

def consumerEntries (c : Connection) (group : String) : List Entry :=
  c.clientEntries ++ [
    ("group.id", group), ("enable.auto.commit", "false"), ("auto.offset.reset", "earliest"),
    ("enable.partition.eof", "false"), ("fetch.min.bytes", "10000"),
    ("fetch.max.bytes", "10000000"), ("session.timeout.ms", "45000"),
    ("topic.metadata.refresh.interval.ms", "60000")]

end Connection

end Courier.Broker

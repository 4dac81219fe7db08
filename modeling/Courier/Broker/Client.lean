import Courier.Broker.Connection
import Courier.Broker.Diagnostics
import Courier.Broker.Pattern
import Courier.Message

/-! Clients of a broker as long as none can be reached: what they refuse on the spot, and what is
left waiting.

The client library is built with neither TLS nor any authentication but plain passwords. -/
namespace Courier.Broker.Client

inductive Role where
  | probe
  | producer
  | consumer
  deriving DecidableEq, Repr

def Role.name : Role → String
  | .probe => "probe client"
  | .producer => "producer"
  | .consumer => "consumer"

inductive Refusal where
  | nulCharacter
  | noTls (protocol : String)
  | noMechanism (name : String)
  | noGroup
  deriving DecidableEq, Repr

def Refusal.message : Refusal → String
  | .nulCharacter => "FFI nul error"
  | .noTls protocol =>
    "Client config error: Unsupported value " ++ Text.quoted protocol ++
      " for configuration property \"security.protocol\": OpenSSL not available at build time " ++
      "security.protocol " ++ protocol
  | .noMechanism name =>
    "Client creation error: No provider for SASL mechanism " ++ name ++
      ": recompile librdkafka with libsasl2 or openssl support. Current build options: PLAIN"
  | .noGroup => "Client creation error: rdkafka consumer queue not available"

def value (entries : List Connection.Entry) (name : String) : String :=
  (entries.lookup name).getD ""

/-- The blanks that are dropped at the start of an entry's value. -/
def isBlank (c : Char) : Bool := c == ' ' || ('\t' ≤ c && c ≤ '\r')

def refusal? (role : Role) (entries : List Connection.Entry) : Option Refusal :=
  let protocol := value entries "security.protocol"
  let mechanism := value entries "sasl.mechanism"
  if entries.any fun (_, v) => v.toList.contains '\x00' then some .nulCharacter
  else if protocol == Protocol.ssl.name || protocol == Protocol.saslSsl.name then
    some (.noTls protocol)
  else if protocol == Protocol.saslPlaintext.name && mechanism != Mechanism.plain.name then
    some (.noMechanism mechanism)
  else if role == .consumer && (value entries "group.id").toList.all isBlank then some .noGroup
  else none

def create (role : Role) (entries : List Connection.Entry) : Except Error Unit :=
  match refusal? role entries with
  | some r => .error ⟨.configuration, "Failed to create Kafka " ++ role.name ++ ": " ++ r.message⟩
  | none => .ok ()

inductive Outcome where
  | done
  | refused (e : Error)
  /-- It waits for a broker. -/
  | pending

def unreachable : Error :=
  ⟨.connectivity, "failed to connect to Kafka: " ++
    (ClientError.metadata .brokerTransportFailure).message⟩

/-- A probe fails, either at once or when its time is up. -/
def probeFailure (c : Connection) : Error :=
  match create .probe c.clientEntries with
  | .error e => e
  | .ok () => unreachable

def openWriter (c : Connection) : Except Error Unit := create .producer c.producerEntries

/-- The longest name of a topic in bytes. -/
def maxTopicLength : Nat := 512

/-- The most bytes a message may take, those that go with every message among them. -/
def maxMessageSize : Nat := 1000000

def messageOverhead : Nat := 36

def messageSize (r : Record) : Nat :=
  (r.key.map List.length).getD 0 + r.value.length + messageOverhead

def sendFailure (code : Code) : Error :=
  ⟨.delivery, "failed to send message to Kafka: " ++ (ClientError.production code).message⟩

def write (r : Record) : Outcome :=
  if maxTopicLength < r.topic.name.utf8ByteSize then .refused (sendFailure .invalidArgument)
  else if maxMessageSize < messageSize r then .refused (sendFailure .messageSizeTooLarge)
  else .pending

/-- Nothing is queued that would have to be sent first. -/
def closeWriter : Outcome := .done

structure Reader where
  topic : Topic
  group : String

def openReader (c : Connection) (topic : Topic) (group : String) : Except Error Reader :=
  match create .consumer (c.consumerEntries group) with
  | .error e => .error e
  | .ok () =>
    if Pattern.isValid topic.name then .ok ⟨topic, group⟩
    else .error ⟨.connectivity, "Failed to subscribe to topic: " ++
      (ClientError.subscription Code.invalidArgument.description).message⟩

/-- The offset committed for a message is the next one, in 64 bits; none is below zero. -/
def commit (m : Message) : Outcome :=
  if (m.offset + 1).bmod 0x10000000000000000 < 0 then
    .refused ⟨.commit, "failed to commit message: " ++
      (ClientError.setPartitionOffset .invalidArgument).message⟩
  else .pending

/-- No partition is assigned that could be rewound. -/
def withhold (m : Message) : Error :=
  let reason := if m.offset < 0 then "Local: Unrepresentable offset" else "Local: Unknown partition"
  ⟨.fetch, "failed to rewind to withheld message: " ++ (ClientError.seek reason).message⟩

/-- A fetch fails as soon as the client has noticed that no broker answers. -/
def fetch : Error := ⟨.fetch, (ClientError.consumption .brokerTransportFailure).message⟩

end Courier.Broker.Client

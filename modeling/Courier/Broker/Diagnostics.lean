import Courier.Log
import Courier.Text.Shown

/-! What the broker's client library reports about itself, and the log lines made of it.

Without a logger nothing is written. -/
namespace Courier.Broker

inductive Code where
  | allBrokersDown
  | brokerTransportFailure
  | messageTimedOut
  | unknownTopicOrPartition
  | authentication
  | invalidArgument
  | messageSizeTooLarge
  deriving DecidableEq, Repr

namespace Code

def name : Code → String
  | allBrokersDown => "AllBrokersDown"
  | brokerTransportFailure => "BrokerTransportFailure"
  | messageTimedOut => "MessageTimedOut"
  | unknownTopicOrPartition => "UnknownTopicOrPartition"
  | authentication => "Authentication"
  | invalidArgument => "InvalidArgument"
  | messageSizeTooLarge => "MessageSizeTooLarge"

def description : Code → String
  | allBrokersDown => "Local: All broker connections are down"
  | brokerTransportFailure => "Local: Broker transport failure"
  | messageTimedOut => "Local: Message timed out"
  | unknownTopicOrPartition => "Broker: Unknown topic or partition"
  | authentication => "Local: Authentication failure"
  | invalidArgument => "Local: Invalid argument or configuration"
  | messageSizeTooLarge => "Broker: Message size too large"

def render (c : Code) : String := c.name ++ " (" ++ c.description ++ ")"

def all : List Code :=
  [allBrokersDown, brokerTransportFailure, messageTimedOut, unknownTopicOrPartition,
    authentication, invalidArgument, messageSizeTooLarge]

end Code

inductive ClientError where
  | global (c : Code)
  | production (c : Code)
  | consumption (c : Code)
  | consumerCommit (c : Code)
  | metadata (c : Code)
  | setPartitionOffset (c : Code)
  | partitionEof (partition : Int)
  | seek (reason : String)
  | subscription (reason : String)
  | noMessage
  | canceled

def ClientError.message : ClientError → String
  | .global c => "Global error: " ++ c.render
  | .production c => "Message production error: " ++ c.render
  | .consumption c => "Message consumption error: " ++ c.render
  | .consumerCommit c => "Consumer commit error: " ++ c.render
  | .metadata c => "Meta data fetch error: " ++ c.render
  | .setPartitionOffset c => "Set partition offset error: " ++ c.render
  | .partitionEof partition => "Partition EOF: " ++ toString partition
  | .seek reason => "Seek error: " ++ reason
  | .subscription reason => "Subscription error: " ++ reason
  | .noMessage => "No message received within the given poll interval"
  | .canceled => "KafkaError (Client dropped)"

inductive Position where
  | offset (n : Int)
  | beginning
  | last
  | stored
  | invalid

def Position.render : Position → String
  | .offset n => "Offset(" ++ toString n ++ ")"
  | .beginning => "Beginning"
  | .last => "End"
  | .stored => "Stored"
  | .invalid => "Invalid"

inductive Severity where
  | emerg
  | alert
  | critical
  | error
  | warning
  | notice
  | info
  | debug
  deriving DecidableEq, Repr

def Severity.name : Severity → String
  | .emerg => "emerg"
  | .alert => "alert"
  | .critical => "critical"
  | .error => "error"
  | .warning => "warning"
  | .notice => "notice"
  | .info => "info"
  | .debug => "debug"

def Severity.all : List Severity :=
  [.emerg, .alert, .critical, .error, .warning, .notice, .info, .debug]

/-- There are two outlets only, for errors and for everything else. -/
def Severity.level (s : Severity) : Log.Level :=
  match s with
  | .emerg | .alert | .critical | .error => .error
  | _ => .info

inductive Report where
  | info (text : String)
  | error (text : String)
  | log (severity : Severity) (facility text : String)
  | clientError (e : ClientError) (reason : String)
  | committed (failure : Option ClientError) (place : Option (String × Int × Position))

def renderOffsets : Option (String × Int × Position) → String
  | none => "\x7b\x7d"
  | some (topic, partition, position) =>
    "\x7b(" ++ Text.quoted topic ++ ", " ++ toString partition ++ "): " ++ position.render ++ "\x7d"

/-- The line a report is logged as; a commit that succeeded is not worth one. -/
def Report.line : Report → Option Log.Line
  | .info text => some ⟨.info, text, []⟩
  | .error text => some ⟨.error, text, []⟩
  | .log severity facility text =>
    some ⟨severity.level, "librdkafka [" ++ facility ++ "] " ++ text, []⟩
  | .clientError e reason => some ⟨.error, "librdkafka error: " ++ e.message ++ ": " ++ reason, []⟩
  | .committed none _ => none
  | .committed (some e) place =>
    some ⟨.error, "failed to commit offsets " ++ renderOffsets place ++ ": " ++ e.message, []⟩

def Report.lines (hasLogger : Bool) (r : Report) : List Log.Line :=
  if hasLogger then r.line.toList else []

end Courier.Broker

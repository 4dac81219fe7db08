import Courier.Error

/-! The counters of a queue, and what can be set up once in a process only. -/
namespace Courier

/-- What is counted, for each topic on its own. -/
inductive Metric where
  | published
  | publishFailures
  | consumed
  | committed
  | commitFailures
  | fetchErrors
  deriving DecidableEq, Repr

namespace Metric

def all : List Metric :=
  [published, publishFailures, consumed, committed, commitFailures, fetchErrors]

def name : Metric → String
  | published => "mq_messages_published_total"
  | publishFailures => "mq_publish_failures_total"
  | consumed => "mq_messages_consumed_total"
  | committed => "mq_messages_committed_total"
  | commitFailures => "mq_commit_failures_total"
  | fetchErrors => "mq_fetch_errors_total"

def description : Metric → String
  | published => "Messages written to the broker"
  | publishFailures => "Publish attempts rejected by the writer"
  | consumed => "Messages fetched by subscription loops"
  | committed => "Offsets committed after handling"
  | commitFailures => "Offset commits that failed"
  | fetchErrors => "Transient fetch errors"

end Metric

namespace Telemetry

structure Setup where
  recorder : Bool := false
  subscriber : Bool := false

def recorderTaken : Error :=
  ⟨.internal, "Failed to install Prometheus recorder: failed to install exporter as global " ++
    "recorder: attempted to set a recorder after the metrics system was already initialized"⟩

def subscriberTaken : Error :=
  ⟨.internal, "Failed to init tracing: a global default trace dispatcher has already been set"⟩

/-- The second attempt fails. -/
def initMetrics (s : Setup) : Except Error Unit × Setup :=
  (if s.recorder then .error recorderTaken else .ok (), { s with recorder := true })

/-- The second attempt fails, whatever the form of the lines. -/
def initTracing (s : Setup) : Except Error Unit × Setup :=
  (if s.subscriber then .error subscriberTaken else .ok (), { s with subscriber := true })

end Telemetry

end Courier

import Courier.Broker.Script
import Courier.Main
import Courier.Proofs.Broker.Entries
import Courier.Proofs.Broker.Secrecy
import Courier.Proofs.Queue.Accounting
import Courier.Proofs.Queue.Bounds
import Courier.Proofs.Queue.Cancellation
import Courier.Proofs.Queue.Closing
import Courier.Proofs.Queue.Crew
import Courier.Proofs.Queue.Decoding
import Courier.Proofs.Queue.Departure
import Courier.Proofs.Queue.Exchange
import Courier.Proofs.Queue.Farewell
import Courier.Proofs.Queue.Faults
import Courier.Proofs.Queue.Finality
import Courier.Proofs.Queue.Nesting
import Courier.Proofs.Queue.Parity
import Courier.Proofs.Queue.Passive
import Courier.Proofs.Queue.Publication
import Courier.Proofs.Queue.Schedule
import Courier.Proofs.Queue.Separation
import Courier.Proofs.Queue.Streams
import Courier.Proofs.Queue.Succession
import Courier.Proofs.Queue.Wire
import Courier.Proofs.Settings.Concealment
import Courier.Proofs.Settings.Stage
import Courier.Rehearsal.Bench
import Courier.Rehearsal.Conduct
import Courier.Rehearsal.Handoff
import Courier.Rehearsal.Session

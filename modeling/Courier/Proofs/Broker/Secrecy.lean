import Courier.Proofs.Broker.Entries
import Courier.Proofs.Queue.Journal

/-!
# Where the password of a broker goes

Two configurations that differ in their passwords alone come to the same:

* `validateWith_withPassword`: both are refused alike, or their connections differ in the password
  alone;
* `entries_withPassword`: what clients are made from differs in one entry, and only with a login;
* `connect_withPassword`, `NotedAs`: a queue is opened in the same way, and the same is noted of it;
* `secrecy_law`: nobody but a client with a login learns which of two passwords it was.
-/

namespace Courier.Broker

def Connection.withPassword (c : Connection) (password : String) : Connection := { c with password }

namespace Config

def withPassword (config : Config) (password : String) : Config := { config with password }

section
variable {read : Reader} {config : Config} {p q : String}

/-- A password is checked for being there, and handed on. -/
theorem check_withPassword (given : p ≠ "") (other : q ≠ "") :
    (config.withPassword q).check read =
      (·.withPassword q) <$> (config.withPassword p).check read := by
  have first : required "password" p = .ok () := required_eq_ok.mpr given
  have second : required "password" q = .ok () := required_eq_ok.mpr other
  simp only [check, withPassword, first, second, map_bind, map_pure]
  rfl

theorem validateWith_withPassword (given : p ≠ "") (other : q ≠ "") :
    (config.withPassword q).validateWith read =
      ((config.withPassword p).validateWith read).map (·.withPassword q) := by
  rw [validateWith, validateWith, check_withPassword given other]
  cases (config.withPassword p).check read <;> rfl

theorem password_eq {c : Connection}
    (accepted : (config.withPassword p).validateWith read = .ok c) :
    c.password = p :=
  (validateWith_eq_ok.mp accepted).password

end

end Config

namespace Connection

def Entry.withPassword (e : Entry) (password : String) : Entry :=
  if e.1 = "sasl.password" then (e.1, password) else e

theorem saslEntries_withPassword (c : Connection) (q : String) :
    (c.withPassword q).saslEntries = c.saslEntries.map (·.withPassword q) := by
  unfold saslEntries
  cases login : c.protocol.usesSasl <;> simp [withPassword, login, Entry.withPassword]

theorem caEntries_withPassword (c : Connection) (q : String) :
    (c.withPassword q).caEntries = c.caEntries.map (·.withPassword q) := by
  unfold caEntries
  cases pem : c.caPem <;> simp [withPassword, pem, Entry.withPassword]

theorem clientEntries_withPassword (c : Connection) (q : String) :
    (c.withPassword q).clientEntries = c.clientEntries.map (·.withPassword q) := by
  unfold clientEntries
  rw [saslEntries_withPassword, caEntries_withPassword]
  cases named : c.clientId <;> simp [withPassword, named, Entry.withPassword]

/-- Of the entries of any client only the password is another. -/
theorem entries_withPassword (c : Connection) (role : Role) (q : String) :
    (c.withPassword q).entries role = (c.entries role).map (·.withPassword q) := by
  have base := clientEntries_withPassword c q
  cases role with
  | any => exact base
  | producer => simp [entries, producerEntries, base, Entry.withPassword]
  | consumer group => simp [entries, consumerEntries, base, Entry.withPassword]

theorem password_of_mem {c : Connection} {role : Role} {e : Entry} (member : e ∈ c.entries role)
    (key : e.1 = "sasl.password") : e.2 = c.password := by
  have unchanged : (c.entries role).map (·.withPassword c.password) = (c.entries role).map id := by
    rw [← entries_withPassword, List.map_id]
    rfl
  have same : e.withPassword c.password = e := List.map_inj_left.mp unchanged e member
  rw [Entry.withPassword, if_pos key] at same
  rw [← same]

end Connection

end Courier.Broker

namespace Courier.Queue.World

open Broker (Transport Connection Config)

variable {T α : Type} [Transport T]

def connectedLine (c : Connection) : Log.Line :=
  ⟨.info, "Kafka message queue connected",
    [⟨"brokers", ",".intercalate c.brokers⟩, ⟨"protocol", c.protocol.name⟩]⟩

/-- Over any broker, all that is noted when a queue is opened is the line, and nothing is when it is
not opened. -/
def NotedAs (files : Files) (config : Config) (line : Log.Line) : Prop :=
  ∀ {T α : Type} [Transport T] (w : World T α),
    (w.connect files config).2.notes = w.notes ++
      match (w.connect files config).1 with
      | .ok _ => [.line line]
      | .error _ => []

theorem notedAs_of_refused {files : Files} {config : Config} {e : Error}
    (refused : config.validate files = .error e) (line : Log.Line) : NotedAs files config line := by
  intro T α _ w
  rw [connect, refused]
  exact (List.append_nil _).symm

theorem notedAs_connectedLine {files : Files} {config : Config} {c : Connection}
    (accepted : config.validate files = .ok c) : NotedAs files config (connectedLine c) := by
  intro T α _ w
  unfold connect
  simp only [accepted]
  rcases Transport.probe w.broker with ⟨probed, broker⟩
  cases probed with
  | error e => exact (List.append_nil _).symm
  | ok =>
    rcases Transport.openWriter broker with ⟨result, broker'⟩
    cases result with
    | error e => exact (List.append_nil _).symm
    | ok writer => exact notes_note ..

/-- A queue is opened in the same way with one password and with another. -/
theorem connect_withPassword (w : World T α) (files : Files) (config : Config) {p q : String}
    (given : p ≠ "") (other : q ≠ "") :
    w.connect files (config.withPassword q) =
      ((w.connect files (config.withPassword p)).1.map fun (n, c) => (n, c.withPassword q),
        (w.connect files (config.withPassword p)).2) := by
  have validated : (config.withPassword q).validate files =
      ((config.withPassword p).validate files).map (·.withPassword q) :=
    Config.validateWith_withPassword given other
  unfold connect
  rw [validated]
  cases (config.withPassword p).validate files with
  | error e => rfl
  | ok c =>
    simp only [Except.map]
    rcases Transport.probe w.broker with ⟨probed, broker⟩
    cases probed with
    | error e => rfl
    | ok =>
      rcases Transport.openWriter broker with ⟨result, broker'⟩
      cases result <;> rfl

end Courier.Queue.World

namespace Courier.Broker.Config

open Queue (World)

/-- An entry of a client and the same entry of another, with two passwords. -/
structure SameButPassword (p q : String) (e e' : Connection.Entry) : Prop where
  key : e'.1 = e.1
  password : e.1 = "sasl.password" → e.2 = p ∧ e'.2 = q
  value : e.1 ≠ "sasl.password" → e'.2 = e.2

/-- What there is to be seen of two connections, with two passwords. -/
structure ConnectionSecrecy (p q : String) (c d : Connection) : Prop where
  same : d = c.withPassword q
  /-- The bridge to the logger is part of it. -/
  rendered : d.render = c.render
  /-- Entry by entry, clients are made from the same, -/
  entries : ∀ role, List.Forall₂ (SameButPassword p q) (c.entries role) (d.entries role)
  /-- and there is a password among them if there is a login. -/
  login : ∀ role, "sasl.password" ∈ (c.entries role).map Prod.fst ↔ c.protocol.usesSasl = true

/-- What there is to be seen of two configurations, with two passwords. -/
structure SecrecyLaw (files : Files) (config : Config) (p q : String) : Prop where
  rendered : (config.withPassword q).render = (config.withPassword p).render
  refused : ∀ e, (config.withPassword p).validate files = .error e ↔
    (config.withPassword q).validate files = .error e
  accepted : ∀ c, (config.withPassword p).validate files = .ok c →
    ∃ d, (config.withPassword q).validate files = .ok d ∧ ConnectionSecrecy p q c d
  /-- Over one broker a queue is opened in the same way. -/
  opened {T α : Type} [Transport T] (w : World T α) :
    (w.connect files (config.withPassword q)).2 = (w.connect files (config.withPassword p)).2 ∧
      (w.connect files (config.withPassword q)).1 =
        (w.connect files (config.withPassword p)).1.map fun (n, c) => (n, c.withPassword q)
  /-- Over any brokers, the same line is noted when it is. -/
  noted : ∃ line, World.NotedAs files (config.withPassword p) line ∧
    World.NotedAs files (config.withPassword q) line

variable {files : Files} {config : Config} {p q : String}

theorem connection_secrecy {c : Connection} (password : c.password = p) :
    ConnectionSecrecy p q c (c.withPassword q) := by
  constructor
  case same => rfl
  case rendered => rfl
  case entries =>
    intro role
    rw [Connection.entries_withPassword, List.forall₂_map_right_iff, List.forall₂_same]
    intro e member
    by_cases key : e.1 = "sasl.password"
    · rw [Connection.Entry.withPassword, if_pos key]
      have value := (Connection.password_of_mem member key).trans password
      exact ⟨rfl, fun _ => ⟨value, rfl⟩, absurd key⟩
    · rw [Connection.Entry.withPassword, if_neg key]
      exact ⟨rfl, fun same => absurd same key, fun _ => rfl⟩
  case login =>
    intro role
    exact Connection.mem_sasl_keys (by decide)

/-- **The password goes nowhere but to clients with a login.** With one password and with another,
a configuration is refused for the same reason or accepted, and nothing that is shown, noted or
handed to a client tells which of them it was but the password among the entries. -/
theorem secrecy_law (files : Files) (config : Config) (given : p ≠ "") (other : q ≠ "") :
    SecrecyLaw files config p q := by
  have validated : (config.withPassword q).validate files =
      ((config.withPassword p).validate files).map (·.withPassword q) :=
    validateWith_withPassword given other
  constructor
  case rendered => rfl
  case refused =>
    intro e
    rw [validated]
    cases (config.withPassword p).validate files <;> simp [Except.map]
  case accepted =>
    intro c accepted
    refine ⟨c.withPassword q, ?_, connection_secrecy (password_eq accepted)⟩
    rw [validated, accepted]
    rfl
  case opened =>
    intro T α _ w
    rw [World.connect_withPassword w files config given other]
    exact ⟨rfl, rfl⟩
  case noted =>
    cases accepted : (config.withPassword p).validate files with
    | error e =>
      have alike : (config.withPassword q).validate files = .error e := by
        rw [validated, accepted]
        rfl
      have line : Log.Line := ⟨.info, "", []⟩
      exact ⟨line, World.notedAs_of_refused accepted line, World.notedAs_of_refused alike line⟩
    | ok c =>
      have alike : (config.withPassword q).validate files = .ok (c.withPassword q) := by
        rw [validated, accepted]
        rfl
      exact ⟨World.connectedLine c, World.notedAs_connectedLine accepted,
        World.notedAs_connectedLine alike⟩

/-- A login over a connection that is encrypted with a certificate. -/
theorem secrecy_law_guarded :
    let files : Files := ⟨[("ca.pem", some "-----BEGIN CERTIFICATE-----".toUTF8.toList)]⟩
    SecrecyLaw files guarded "secret" "hidden" ∧
      ((guarded.withPassword "secret").validate files).isOk = true :=
  ⟨secrecy_law _ guarded (by decide) (by decide), by decide +kernel⟩

end Courier.Broker.Config

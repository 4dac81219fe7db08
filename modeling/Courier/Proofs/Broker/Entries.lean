import Courier.Proofs.Broker.Validation

/-!
# The entries that clients are made from

What a client is made from follows from the configuration that was accepted:

* `keys_entries`: the keys of a list of entries, one group after the other, and so
  `keys_nodup`: no key is there twice;
* `mem_sasl_keys`, `mem_ca_keys`: when there are entries for a login, and for a certificate;
* `Accepts.usesSasl`, `Accepts.caPem_some`, `Accepts.caPem_none`: what these are in terms of the
  configuration;
* `entries_law`: nothing is lost of the security that was asked for.
-/

namespace Courier.Broker

open Config (Accepts)

theorem Protocol.name_of_usesTls {p : Protocol} (encrypted : p.usesTls = true) :
    p.name ∈ ["ssl", "sasl_ssl"] := by
  cases p with
  | plaintext | saslPlaintext => cases encrypted
  | ssl | saslSsl => decide

namespace Connection

inductive Role where
  | any
  | producer
  | consumer (group : String)

def entries (c : Connection) : Role → List Entry
  | .any => c.clientEntries
  | .producer => c.producerEntries
  | .consumer group => c.consumerEntries group

/-! ## Keys -/

def baseKeys : List String :=
  ["bootstrap.servers", "security.protocol", "socket.timeout.ms", "allow.auto.create.topics"]

def saslKeys : List String := ["sasl.mechanism", "sasl.username", "sasl.password"]

def caKeys : List String := ["ssl.ca.pem", "ssl.endpoint.identification.algorithm"]

/-- The keys that only the clients of a role have. -/
def Role.keys : Role → List String
  | any => []
  | producer => ["linger.ms", "acks", "request.timeout.ms"]
  | consumer _ =>
    ["group.id", "enable.auto.commit", "auto.offset.reset", "enable.partition.eof",
      "fetch.min.bytes", "fetch.max.bytes", "session.timeout.ms",
      "topic.metadata.refresh.interval.ms"]

variable {read : Config.Reader} {config : Config} {c : Connection} {role : Role} {key : String}

theorem keys_clientEntries (c : Connection) :
    c.clientEntries.map Prod.fst =
      baseKeys ++ (if c.clientId.isSome then ["client.id"] else []) ++
        (if c.protocol.usesSasl then saslKeys else []) ++
        (if c.caPem.isSome then caKeys else []) := by
  simp only [clientEntries, saslEntries, caEntries, List.map_append]
  cases c.clientId <;> cases c.caPem <;> cases c.protocol.usesSasl <;> rfl

theorem keys_entries (c : Connection) (role : Role) :
    (c.entries role).map Prod.fst = c.clientEntries.map Prod.fst ++ role.keys := by
  cases role with
  | any => exact (List.append_nil _).symm
  | producer | consumer => exact List.map_append

theorem ite_sublist {p : Prop} [Decidable p] (l : List String) :
    (if p then l else []).Sublist l := by
  split
  · exact .refl l
  · exact List.nil_sublist l

theorem keys_nodup (c : Connection) (role : Role) : ((c.entries role).map Prod.fst).Nodup := by
  have all : (baseKeys ++ ["client.id"] ++ saslKeys ++ caKeys ++ role.keys).Nodup := by
    cases role <;> simp [baseKeys, saslKeys, caKeys, Role.keys]
  rw [keys_entries, keys_clientEntries]
  refine all.sublist (.append (.append (.append (.append (.refl _) ?_) ?_) ?_) (.refl _)) <;>
    exact ite_sublist _

theorem clientEntries_prefix (c : Connection) (role : Role) :
    c.clientEntries <+: c.entries role := by
  cases role with
  | any => exact List.prefix_rfl
  | producer | consumer => exact List.prefix_append ..

/-- Clients have a login if their protocol has one. -/
theorem mem_sasl_keys (among : key ∈ saslKeys) :
    key ∈ (c.entries role).map Prod.fst ↔ c.protocol.usesSasl = true := by
  rw [keys_entries, keys_clientEntries]
  simp only [saslKeys, List.mem_cons, List.not_mem_nil, or_false] at among
  obtain rfl | rfl | rfl := among <;> cases role <;>
    simp [baseKeys, saslKeys, caKeys, Role.keys]

theorem mem_ca_keys (among : key ∈ caKeys) :
    key ∈ (c.entries role).map Prod.fst ↔ c.caPem.isSome = true := by
  rw [keys_entries, keys_clientEntries]
  simp only [caKeys, List.mem_cons, List.not_mem_nil, or_false] at among
  obtain rfl | rfl := among <;> cases role <;>
    simp [baseKeys, saslKeys, caKeys, Role.keys]

theorem mem_entries {e : Entry} (member : e ∈ c.clientEntries) (role : Role) :
    e ∈ c.entries role :=
  (c.clientEntries_prefix role).subset member

theorem mem_servers (c : Connection) (role : Role) :
    ("bootstrap.servers", ",".intercalate c.brokers) ∈ c.entries role :=
  mem_entries (by simp [clientEntries]) role

theorem mem_protocol (c : Connection) (role : Role) :
    ("security.protocol", c.protocol.name) ∈ c.entries role :=
  mem_entries (by simp [clientEntries]) role

theorem mem_login (login : c.protocol.usesSasl = true) (role : Role) :
    ("sasl.mechanism", c.mechanism.name) ∈ c.entries role ∧
      ("sasl.username", c.username) ∈ c.entries role ∧
      ("sasl.password", c.password) ∈ c.entries role := by
  refine ⟨mem_entries ?_ role, mem_entries ?_ role, mem_entries ?_ role⟩ <;>
    simp [clientEntries, saslEntries, login]

theorem mem_certificate {pem : String} (some_ : c.caPem = some pem) (role : Role) :
    ("ssl.ca.pem", pem) ∈ c.entries role ∧
      ("ssl.endpoint.identification.algorithm", "none") ∈ c.entries role := by
  refine ⟨mem_entries ?_ role, mem_entries ?_ role⟩ <;> simp [clientEntries, caEntries, some_]

end Connection

namespace Config

variable {read : Reader} {config : Config} {c : Connection}

/-! ## Connections of configurations -/

def NamesSasl (config : Config) : Prop :=
  normalized config.protocol ∈ ["SASL_PLAINTEXT", "SASL_SSL"]

instance : Decidable config.NamesSasl :=
  inferInstanceAs (Decidable (normalized config.protocol ∈ ["SASL_PLAINTEXT", "SASL_SSL"]))

theorem Accepts.usesSasl (accepts : Accepts read config c) :
    c.protocol.usesSasl = true ↔ config.NamesSasl := by
  obtain ⟨p, named, upgraded⟩ := accepts.protocol
  have kept : c.protocol.usesSasl = p.usesSasl := by
    rw [upgraded]
    split
    · exact p.withTls_usesSasl
    · rfl
  rw [kept, NamesSasl, named]
  cases p <;> decide

theorem Accepts.caPem_some {file : String} (accepts : Accepts read config c)
    (gives : config.GivesCa file) :
    ∃ pem, c.caPem = some pem ∧ read (Text.trim file) = .ok pem := by
  have met := accepted_iff.mp ⟨c, validateWith_eq_ok.mpr accepts⟩ .certificate
  obtain ⟨pem, content, mark⟩ := met file gives
  have found := caPem_of_gives gives content mark
  exact ⟨pem, Except.ok.inj (accepts.caPem.symm.trans found), content⟩

theorem Accepts.caPem_none (accepts : Accepts read config c)
    (none : ∀ file, ¬config.GivesCa file) : c.caPem = .none :=
  Except.ok.inj (accepts.caPem.symm.trans (caPem_of_none none))

theorem Accepts.caPem_isSome (accepts : Accepts read config c) :
    c.caPem.isSome = true ↔ ∃ file, config.GivesCa file := by
  by_cases gives : ∃ file, config.GivesCa file
  · obtain ⟨pem, some_, -⟩ := accepts.caPem_some gives.choose_spec
    simp [some_, gives]
  · simp [accepts.caPem_none (not_exists.mp gives), gives]

/-- With a certificate the connection is encrypted. -/
theorem Accepts.protocol_encrypted {file : String} (accepts : Accepts read config c)
    (gives : config.GivesCa file) : c.protocol.usesTls = true := by
  obtain ⟨p, -, upgraded⟩ := accepts.protocol
  rw [upgraded, if_pos (accepts.caPem_isSome.mpr ⟨file, gives⟩)]
  exact p.withTls_usesTls

theorem lower_upper (c : Char) : c.toUpper.toLower = c.toLower := by
  have letters : ∀ n < 123, 97 ≤ n →
      (Char.ofNat n).toUpper.toLower = (Char.ofNat n).toLower := by decide
  by_cases small : 'a'.val ≤ c.val ∧ c.val ≤ 'z'.val
  · rw [← Char.ofNat_toNat c]
    exact letters c.toNat (Nat.lt_succ_of_le small.2) small.1
  · exact congrArg Char.toLower (dif_neg small)

theorem lowerAscii_upperAscii (s : String) :
    Text.lowerAscii (Text.upperAscii s) = Text.lowerAscii s := by
  rw [Text.lowerAscii, Text.upperAscii, String.toList_ofList, List.map_map]
  exact congrArg String.ofList (List.map_congr_left fun c _ => lower_upper c)

/-- Without one the protocol is the one that is asked for. -/
theorem Accepts.protocol_kept (accepts : Accepts read config c)
    (none : ∀ file, ¬config.GivesCa file) :
    c.protocol.name = Text.lowerAscii (Text.trim config.protocol) := by
  obtain ⟨p, named, upgraded⟩ := accepts.protocol
  rw [upgraded, accepts.caPem_none none, ← lowerAscii_upperAscii]
  change p.name = Text.lowerAscii (normalized config.protocol)
  rw [named]
  cases p <;> decide

/-! ## Entries of configurations -/

/-- What clients for a role are made from, after a configuration was accepted. -/
structure EntriesLaw (read : Reader) (config : Config) (c : Connection)
    (role : Connection.Role) : Prop where
  /-- No key is there twice, -/
  distinct : ((c.entries role).map Prod.fst).Nodup
  /-- and what all clients share comes first. -/
  shared : c.clientEntries <+: c.entries role
  /-- The servers come apart into the brokers. -/
  servers : ∃ servers, ("bootstrap.servers", servers) ∈ c.entries role ∧
    Text.parts ',' servers = c.brokers
  /-- There is a login if the protocol that was asked for has one, whatever the certificate, -/
  login : ∀ key ∈ Connection.saslKeys,
    key ∈ (c.entries role).map Prod.fst ↔ config.NamesSasl
  /-- and it is what was configured. -/
  credentials : config.NamesSasl →
    ("sasl.mechanism", normalized config.mechanisms) ∈ c.entries role ∧
      ("sasl.username", config.username) ∈ c.entries role ∧
      ("sasl.password", config.password) ∈ c.entries role
  /-- There is a certificate if a file was given for it. -/
  certificate : ∀ key ∈ Connection.caKeys,
    key ∈ (c.entries role).map Prod.fst ↔ ∃ file, config.GivesCa file
  /-- Then it is the content of the file, the names of hosts are not checked, and the connection
  is encrypted. -/
  encrypted (file : String) : config.GivesCa file →
    (∃ pem, read (Text.trim file) = .ok pem ∧ ("ssl.ca.pem", pem) ∈ c.entries role) ∧
      ("ssl.endpoint.identification.algorithm", "none") ∈ c.entries role ∧
      ∃ protocol ∈ ["ssl", "sasl_ssl"], ("security.protocol", protocol) ∈ c.entries role
  /-- Without one the protocol is the one that was asked for. -/
  asGiven : (∀ file, ¬config.GivesCa file) →
    ("security.protocol", Text.lowerAscii (Text.trim config.protocol)) ∈ c.entries role

/-- The entries that clients are made from agree with the configuration that was accepted: nothing
is said twice, and neither a login nor encryption is lost. -/
theorem entries_law (accepted : config.validateWith read = .ok c) (role : Connection.Role) :
    EntriesLaw read config c role := by
  have accepts := validateWith_eq_ok.mp accepted
  constructor
  case distinct => exact c.keys_nodup role
  case shared => exact c.clientEntries_prefix role
  case servers =>
    refine ⟨_, c.mem_servers role, ?_⟩
    rw [accepts.brokers]
    exact parts_brokerList accepts.reachable
  case login =>
    intro key among
    rw [Connection.mem_sasl_keys among, accepts.usesSasl]
  case credentials =>
    intro names
    rw [accepts.mechanism, ← accepts.username, ← accepts.password]
    exact Connection.mem_login (accepts.usesSasl.mpr names) role
  case certificate =>
    intro key among
    rw [Connection.mem_ca_keys among, accepts.caPem_isSome]
  case encrypted =>
    intro file gives
    obtain ⟨pem, some_, content⟩ := accepts.caPem_some gives
    obtain ⟨there, unchecked⟩ := Connection.mem_certificate some_ role
    refine ⟨⟨pem, content, there⟩, unchecked, c.protocol.name, ?_, c.mem_protocol role⟩
    exact Protocol.name_of_usesTls (accepts.protocol_encrypted gives)
  case asGiven =>
    intro none
    rw [← accepts.protocol_kept none]
    exact c.mem_protocol role

def oneFile : Reader
  | "ca.pem" => .ok "-----BEGIN CERTIFICATE-----\nMIIB"
  | _ => .error "No such file or directory (os error 2)"

def guarded : Config where
  brokers := " one:9092,, two:9092 ,"
  username := "courier"
  password := "secret"
  mechanisms := "scram-sha-512"
  protocol := " Sasl_Plaintext "
  caFile := some " ca.pem "
  clientId := some "desk"

/-- The login is kept, and the connection is encrypted. -/
theorem entries_law_guarded :
    ∃ c, guarded.validateWith oneFile = .ok c ∧ c.protocol = .saslSsl ∧ guarded.NamesSasl ∧
      guarded.GivesCa " ca.pem " ∧ EntriesLaw oneFile guarded c (.consumer "audit") :=
  ⟨_, rfl, rfl, by decide, ⟨rfl, by decide⟩, entries_law rfl (.consumer "audit")⟩

end Config

end Courier.Broker

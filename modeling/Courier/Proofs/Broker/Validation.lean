import Courier.Proofs.Settings.Fields
import Courier.Proofs.Text.Parts
import Courier.Queue.Api

/-!
# Configurations that are accepted

A configuration is checked for six things, one after the other, and is refused for the first that
is not in order, whatever can be read:

* `Accepts`: all there is to say of a configuration that is accepted;
* `brokerList_intercalate`: brokers that are put together again are the same brokers;
* `Condition`, `Meets`: what a configuration is checked for, and when it is in order;
* `First`, `flaw`: the first condition that is not met, and what is said of it;
* `check_decides`: step by step, all conditions are met, or the first that is not is reported;
* `validation_law`: what is accepted and what is refused, and why.
-/

namespace Courier.Broker

open Settings (bind_eq_ok)

/-! ## Names -/

theorem Mechanism.ofText_eq_ok {s : String} {m : Mechanism} :
    ofText s = .ok m ↔ normalized s = m.name := by
  constructor
  · intro eq
    unfold ofText at eq
    split at eq
    · next here => exact Except.ok.inj eq ▸ here
    · next here => exact Except.ok.inj eq ▸ here
    · next here => exact Except.ok.inj eq ▸ here
    · next here => exact Except.ok.inj eq ▸ here
    · cases eq
  · intro same
    rw [ofText, same]
    cases m <;> rfl

theorem Mechanism.ofText_unsupported {s : String} (other : ∀ m : Mechanism, normalized s ≠ m.name) :
    ofText s = .error (unsupported "mechanisms" (normalized s)) := by
  unfold ofText
  split
  · next here => exact absurd here (other .plain)
  · next here => exact absurd here (other .scramSha256)
  · next here => exact absurd here (other .scramSha512)
  · next here => exact absurd here (other .oauthBearer)
  · rfl

theorem Protocol.ofText_eq_ok {s : String} {p : Protocol} :
    ofText s = .ok p ↔ normalized s = Text.upperAscii p.name := by
  constructor
  · intro eq
    unfold ofText at eq
    split at eq
    · next here => obtain rfl := Except.ok.inj eq; exact here
    · next here => obtain rfl := Except.ok.inj eq; exact here
    · next here => obtain rfl := Except.ok.inj eq; exact here
    · next here => obtain rfl := Except.ok.inj eq; exact here
    · cases eq
  · intro same
    rw [ofText, same]
    cases p <;> rfl

theorem Protocol.ofText_unsupported {s : String}
    (other : ∀ p : Protocol, normalized s ≠ Text.upperAscii p.name) :
    ofText s = .error (unsupported "protocol" (normalized s)) := by
  unfold ofText
  split
  · next here => exact absurd here (other .plaintext)
  · next here => exact absurd here (other .ssl)
  · next here => exact absurd here (other .saslPlaintext)
  · next here => exact absurd here (other .saslSsl)
  · rfl

namespace Config

variable {read : Reader} {config : Config} {c : Connection}

/-! ## Checks -/

theorem ensure_eq_ok {inOrder : Bool} {flaw : Flaw} {u : Unit} :
    ensure inOrder flaw = .ok u ↔ inOrder = true := by
  cases inOrder <;> simp [ensure]

theorem ensure_eq_error {inOrder : Bool} {flaw : Flaw} (out : inOrder ≠ true) :
    ensure inOrder flaw = .error flaw := by
  rw [ensure, if_neg out]

theorem required_eq_ok {setting given : String} {u : Unit} :
    required setting given = .ok u ↔ given ≠ "" := by
  simp [required, ensure_eq_ok]

theorem required_eq_error {setting given : String} (none : ¬given ≠ "") :
    required setting given = .error (.empty setting) :=
  ensure_eq_error (by simpa using none)

section

variable {α : Type} {setting given : String} {ofText : String → Except Error α}

theorem named_eq_ok {a : α} :
    named setting ofText given = .ok a ↔ Text.blank given = false ∧ ofText given = .ok a := by
  cases empty : Text.blank given <;> cases eq : ofText given <;>
    simp [named, ensure, empty, eq, Except.mapError, bind, Except.bind]

def misnamed (setting given : String) : Flaw :=
  if Text.blank given then .empty setting
  else .unsupported (unsupported setting (normalized given))

theorem named_eq_error (other : ofText given = .error (unsupported setting (normalized given))) :
    named setting ofText given = .error (misnamed setting given) := by
  cases empty : Text.blank given <;>
    simp [named, misnamed, ensure, empty, other, Except.mapError, bind, Except.bind]

end

theorem normalized_of_blank {s : String} (blank : Text.blank s = true) : normalized s = "" := by
  rw [normalized, String.isEmpty_iff.mp blank]
  rfl

theorem contains_iff {mark text : List Char} : contains mark text = true ↔ mark <:+: text := by
  induction text with
  | nil => simp [contains]
  | cons c text ih =>
    rw [contains, Bool.or_eq_true, List.isPrefixOf_iff_prefix, ih, List.infix_cons_iff]

/-! ## Brokers -/

theorem brokerList_eq (brokers : String) :
    brokerList brokers =
      ((Text.parts ',' brokers).filter (!Text.blank ·)).map Text.trim := by
  rw [brokerList, List.filter_map]
  rfl

theorem of_mem_brokerList {brokers broker : String} (among : broker ∈ brokerList brokers) :
    broker ≠ "" ∧ ',' ∉ broker.toList ∧ Text.Trimmed broker := by
  obtain ⟨within, some_⟩ := List.mem_filter.mp among
  obtain ⟨part, there, rfl⟩ := List.mem_map.mp within
  refine ⟨by simpa using some_, ?_, Text.trimmed_trim part⟩
  exact fun comma => Text.not_mem_of_parts there (Text.mem_of_trim comma)

theorem parts_brokerList {brokers : String} (some_ : brokerList brokers ≠ []) :
    Text.parts ',' (",".intercalate (brokerList brokers)) = brokerList brokers :=
  Text.parts_intercalate some_ fun _ among => (of_mem_brokerList among).2.1

/-- Brokers that are put together again are the same brokers. -/
theorem brokerList_intercalate (brokers : String) :
    brokerList (",".intercalate (brokerList brokers)) = brokerList brokers := by
  obtain none | some_ := Decidable.em (brokerList brokers = [])
  · rw [none]
    rfl
  have asIs : (brokerList brokers).map Text.trim = brokerList brokers :=
    (List.map_congr_left fun _ among => Text.trim_of_trimmed (of_mem_brokerList among).2.2).trans
      (List.map_id _)
  rw [brokerList, parts_brokerList some_, asIs, List.filter_eq_self]
  intro broker among
  simpa using (of_mem_brokerList among).1

/-! ## What is accepted -/

/-- What there is to say of a configuration that is accepted, and of its connection. -/
structure Accepts (read : Reader) (config : Config) (c : Connection) : Prop where
  brokers : c.brokers = brokerList config.brokers
  reachable : brokerList config.brokers ≠ []
  username : c.username = config.username
  password : c.password = config.password
  usernameGiven : config.username ≠ ""
  passwordGiven : config.password ≠ ""
  mechanism : normalized config.mechanisms = c.mechanism.name
  caPem : config.caPem read = .ok c.caPem
  protocol : ∃ p : Protocol, normalized config.protocol = Text.upperAscii p.name ∧
    c.protocol = if c.caPem.isSome then p.withTls else p
  isDebug : c.isDebug = config.isDebug
  clientId : c.clientId = config.clientId
  hasLogger : c.hasLogger = config.hasLogger

theorem mechanism_eq_ok {m : Mechanism} :
    Config.named "mechanisms" Mechanism.ofText config.mechanisms = .ok m ↔
      normalized config.mechanisms = m.name := by
  rw [named_eq_ok, Mechanism.ofText_eq_ok, and_iff_right_iff_imp]
  intro same
  rw [Bool.eq_false_iff]
  intro empty
  rw [normalized_of_blank empty] at same
  cases m <;> simp [Mechanism.name] at same

theorem protocol_eq_ok {p : Protocol} :
    Config.named "protocol" Protocol.ofText config.protocol = .ok p ↔
      normalized config.protocol = Text.upperAscii p.name := by
  rw [named_eq_ok, Protocol.ofText_eq_ok, and_iff_right_iff_imp]
  intro same
  rw [Bool.eq_false_iff]
  intro empty
  rw [normalized_of_blank empty] at same
  cases p <;> exact absurd same (by decide)

theorem check_eq_ok : config.check read = .ok c ↔ Accepts read config c := by
  simp only [check, bind_eq_ok, ensure_eq_ok, required_eq_ok, mechanism_eq_ok, protocol_eq_ok]
  constructor
  · rintro ⟨_, reachable, _, username, _, password, m, mechanism, p, protocol, pem, caPem, ⟨⟩⟩
    exact ⟨rfl, by simpa using reachable, rfl, rfl, username, password, mechanism, caPem,
      ⟨p, protocol, rfl⟩, rfl, rfl, rfl⟩
  · intro accepts
    obtain ⟨p, protocol, upgraded⟩ := accepts.protocol
    refine ⟨(), by simpa using accepts.reachable, (),
      accepts.usernameGiven, (), accepts.passwordGiven, _, accepts.mechanism, p, protocol, _,
      accepts.caPem, ?_⟩
    rw [← accepts.brokers, ← accepts.username, ← accepts.password, ← upgraded, ← accepts.isDebug,
      ← accepts.clientId, ← accepts.hasLogger]
    rfl

theorem validateWith_eq_ok : config.validateWith read = .ok c ↔ Accepts read config c := by
  rw [← check_eq_ok, validateWith]
  cases config.check read <;> simp [Except.mapError]

/-- The brokers may as well be given as they were found. -/
theorem Accepts.again (accepts : Accepts read config c) :
    Accepts read { config with brokers := ",".intercalate c.brokers } c := by
  have same : brokerList (",".intercalate c.brokers) = brokerList config.brokers := by
    rw [accepts.brokers, brokerList_intercalate]
  exact { accepts with
    brokers := accepts.brokers.trans same.symm
    reachable := same ▸ accepts.reachable }

end Config

/-! ## What is refused -/

inductive Condition where
  | brokers
  | username
  | password
  | mechanisms
  | protocol
  | certificate

namespace Condition

def rank : Condition → Nat
  | brokers => 0
  | username => 1
  | password => 2
  | mechanisms => 3
  | protocol => 4
  | certificate => 5

theorem rank_inj {x y : Condition} (same : x.rank = y.rank) : x = y := by
  cases x <;> cases y <;> first | rfl | cases same

theorem rank_lt_certificate {x : Condition} : x.rank < certificate.rank ↔ x ≠ certificate := by
  cases x <;> simp [rank]

end Condition

namespace Config

variable {read read' : Reader} {config : Config} {c : Connection} {x y : Condition}

/-- A file is given for the certificate. A blank path is none. -/
def GivesCa (config : Config) (file : String) : Prop :=
  config.caFile = some file ∧ Text.blank file = false

def Meets (read : Reader) (config : Config) : Condition → Prop
  | .brokers => ∃ part ∈ Text.parts ',' config.brokers, Text.blank part = false
  | .username => config.username ≠ ""
  | .password => config.password ≠ ""
  | .mechanisms =>
    normalized config.mechanisms ∈ ["PLAIN", "SCRAM-SHA-256", "SCRAM-SHA-512", "OAUTHBEARER"]
  | .protocol => normalized config.protocol ∈ ["PLAINTEXT", "SSL", "SASL_PLAINTEXT", "SASL_SSL"]
  | .certificate => ∀ file, config.GivesCa file →
    ∃ pem, read (Text.trim file) = .ok pem ∧
      "-----BEGIN CERTIFICATE-----".toList <:+: pem.toList

def flaw (read : Reader) (config : Config) : Condition → Flaw
  | .brokers => .empty "brokers"
  | .username => .empty "username"
  | .password => .empty "password"
  | .mechanisms => misnamed "mechanisms" config.mechanisms
  | .protocol => misnamed "protocol" config.protocol
  | .certificate =>
    let path := Text.trim (config.caFile.getD "")
    match read path with
    | .error reason => .unreadable reason
    | .ok _ => .noCertificate path

def MeetsBefore (read : Reader) (config : Config) (n : Nat) : Prop :=
  ∀ x : Condition, x.rank < n → config.Meets read x

def First (read : Reader) (config : Config) (x : Condition) : Prop :=
  ¬config.Meets read x ∧ config.MeetsBefore read x.rank

theorem MeetsBefore.next (before : config.MeetsBefore read x.rank) (met : config.Meets read x) :
    config.MeetsBefore read (x.rank + 1) := by
  intro y within
  obtain earlier | same := Nat.lt_succ_iff_lt_or_eq.mp within
  · exact before y earlier
  · exact Condition.rank_inj same ▸ met

theorem First.unique (first : config.First read x) (other : config.First read y) : x = y := by
  obtain before | same | after := Nat.lt_trichotomy x.rank y.rank
  · exact absurd (other.2 x before) first.1
  · exact Condition.rank_inj same
  · exact absurd (first.2 y after) other.1

/-- A file is read for the certificate only. -/
theorem meets_congr (other : x ≠ .certificate) : config.Meets read x ↔ config.Meets read' x := by
  cases x <;> first | exact Iff.rfl | exact absurd rfl other

theorem First.congr (first : config.First read x) (other : x ≠ .certificate) :
    config.First read' x := by
  refine ⟨fun met => first.1 ((meets_congr other).mpr met), fun y before => ?_⟩
  have elsewhere : y ≠ .certificate :=
    Condition.rank_lt_certificate.mp (before.trans (Condition.rank_lt_certificate.mpr other))
  exact (meets_congr elsewhere).mp (first.2 y before)

theorem flaw_congr (other : x ≠ .certificate) : config.flaw read x = config.flaw read' x := by
  cases x <;> first | rfl | exact absurd rfl other

/-! ## The conditions one by one -/

theorem meets_brokers : config.Meets read .brokers ↔ brokerList config.brokers ≠ [] := by
  simp [Meets, brokerList_eq]

theorem meets_mechanisms :
    config.Meets read .mechanisms ↔ ∃ m : Mechanism, normalized config.mechanisms = m.name := by
  constructor
  · intro met
    simp only [Meets, List.mem_cons, List.not_mem_nil, or_false] at met
    obtain eq | eq | eq | eq := met
    · exact ⟨.plain, eq⟩
    · exact ⟨.scramSha256, eq⟩
    · exact ⟨.scramSha512, eq⟩
    · exact ⟨.oauthBearer, eq⟩
  · rintro ⟨m, eq⟩
    rw [Meets, eq]
    cases m <;> simp [Mechanism.name]

theorem meets_protocol :
    config.Meets read .protocol ↔
      ∃ p : Protocol, normalized config.protocol = Text.upperAscii p.name := by
  constructor
  · intro met
    simp only [Meets, List.mem_cons, List.not_mem_nil, or_false] at met
    obtain eq | eq | eq | eq := met
    · exact ⟨.plaintext, eq⟩
    · exact ⟨.ssl, eq⟩
    · exact ⟨.saslPlaintext, eq⟩
    · exact ⟨.saslSsl, eq⟩
  · rintro ⟨p, eq⟩
    rw [Meets, eq]
    cases p <;> decide

theorem caPath_of_gives {file : String} (gives : config.GivesCa file) :
    config.caPath = some (Text.trim file) := by
  have some_ : (Text.trim file).isEmpty = false := gives.2
  simp [caPath, gives.1, some_]

theorem caPath_of_none (none : ∀ file, ¬config.GivesCa file) : config.caPath = .none := by
  cases given : config.caFile with
  | none => simp [caPath, given]
  | some file =>
    have empty : Text.trim file = "" := by
      simpa [GivesCa, given, Text.blank] using none file
    simp [caPath, given, empty]

theorem caPem_of_gives {file pem : String} (gives : config.GivesCa file)
    (content : read (Text.trim file) = .ok pem)
    (mark : "-----BEGIN CERTIFICATE-----".toList <:+: pem.toList) :
    config.caPem read = .ok (some pem) := by
  simp only [caPem, caPath_of_gives gives, content]
  exact if_pos (contains_iff.mpr mark)

theorem caPem_of_none (none : ∀ file, ¬config.GivesCa file) :
    config.caPem read = .ok .none := by
  rw [caPem, caPath_of_none none]

theorem caPem_of_meets (met : config.Meets read .certificate) :
    ∃ pem, config.caPem read = .ok pem := by
  by_cases gives : ∃ file, config.GivesCa file
  · obtain ⟨file, gives⟩ := gives
    obtain ⟨pem, content, mark⟩ := met file gives
    exact ⟨some pem, caPem_of_gives gives content mark⟩
  · exact ⟨none, caPem_of_none (not_exists.mp gives)⟩

theorem caPem_eq_error (unmet : ¬config.Meets read .certificate) :
    config.caPem read = .error (config.flaw read .certificate) := by
  simp only [Meets, not_forall] at unmet
  obtain ⟨file, gives, lacking⟩ := unmet
  simp only [caPem, flaw, caPath_of_gives gives, gives.1, Option.getD_some]
  cases content : read (Text.trim file) with
  | error reason => rfl
  | ok pem => exact if_neg fun mark => lacking ⟨pem, content, contains_iff.mp mark⟩

/-! ## The conditions together -/

/-- A check passes if a condition is met, and says what is wrong if it is not. -/
structure Checks {α : Type} (read : Reader) (config : Config) (x : Condition)
    (r : Except Flaw α) : Prop where
  passes : config.Meets read x → ∃ a, r = .ok a
  fails : ¬config.Meets read x → r = .error (config.flaw read x)

theorem checks_brokers :
    Checks read config .brokers
      (ensure (!(brokerList config.brokers).isEmpty) (.empty "brokers")) where
  passes met := ⟨(), ensure_eq_ok.mpr (by simpa using meets_brokers.mp met)⟩
  fails unmet := ensure_eq_error (by simpa [meets_brokers] using unmet)

theorem checks_required {setting given : String} (meets : config.Meets read x ↔ given ≠ "")
    (said : config.flaw read x = .empty setting) :
    Checks read config x (required setting given) where
  passes met := ⟨(), required_eq_ok.mpr (meets.mp met)⟩
  fails unmet := said ▸ required_eq_error (fun some_ => unmet (meets.mpr some_))

theorem checks_mechanisms :
    Checks read config .mechanisms
      (Config.named "mechanisms" Mechanism.ofText config.mechanisms) where
  passes met := (meets_mechanisms.mp met).imp fun _ => mechanism_eq_ok.mpr
  fails unmet := named_eq_error <| Mechanism.ofText_unsupported fun m same =>
    unmet (meets_mechanisms.mpr ⟨m, same⟩)

theorem checks_protocol :
    Checks read config .protocol (Config.named "protocol" Protocol.ofText config.protocol) where
  passes met := (meets_protocol.mp met).imp fun _ => protocol_eq_ok.mpr
  fails unmet := named_eq_error <| Protocol.ofText_unsupported fun p same =>
    unmet (meets_protocol.mpr ⟨p, same⟩)

theorem checks_certificate : Checks read config .certificate (config.caPem read) where
  passes := caPem_of_meets
  fails := caPem_eq_error

/-- All conditions are met, or something is said of the first that is not. -/
def Decides (read : Reader) (config : Config) (r : Except Flaw Connection) : Prop :=
  (∃ c, r = .ok c ∧ ∀ x, config.Meets read x) ∨
    ∃ x, config.First read x ∧ r = .error (config.flaw read x)

theorem Checks.next {α : Type} {r : Except Flaw α} {rest : α → Except Flaw Connection}
    (checks : Checks read config x r) (before : config.MeetsBefore read x.rank)
    (decides : config.MeetsBefore read (x.rank + 1) → ∀ a, Decides read config (rest a)) :
    Decides read config (r >>= rest) := by
  by_cases met : config.Meets read x
  · obtain ⟨a, passed⟩ := checks.passes met
    rw [passed]
    exact decides (before.next met) a
  · rw [checks.fails met]
    exact .inr ⟨x, ⟨met, before⟩, rfl⟩

theorem check_decides (read : Reader) (config : Config) :
    Decides read config (config.check read) :=
  checks_brokers.next (fun _ none => nomatch none) fun before _ =>
  (checks_required (x := .username) Iff.rfl rfl).next before fun before _ =>
  (checks_required (x := .password) Iff.rfl rfl).next before fun before _ =>
  checks_mechanisms.next before fun before _ =>
  checks_protocol.next before fun before _ =>
  checks_certificate.next before fun before _ =>
  .inl ⟨_, rfl, fun x => before x (by cases x <;> decide)⟩

theorem validateWith_eq_error {e : Error} :
    config.validateWith read = .error e ↔
      ∃ x, config.First read x ∧ e = (config.flaw read x).toError := by
  rw [validateWith]
  obtain ⟨c, accepted, met⟩ | ⟨x, first, refused⟩ := check_decides read config
  · rw [accepted]
    refine ⟨nofun, ?_⟩
    rintro ⟨x, first, -⟩
    exact absurd (met x) first.1
  · rw [refused]
    constructor
    · intro eq
      exact ⟨x, first, (Except.error.inj eq).symm⟩
    · rintro ⟨y, other, rfl⟩
      rw [first.unique other]
      rfl

theorem accepted_iff : (∃ c, config.validateWith read = .ok c) ↔ ∀ x, config.Meets read x := by
  rw [validateWith]
  obtain ⟨c, accepted, met⟩ | ⟨x, first, refused⟩ := check_decides read config
  · rw [accepted]
    exact ⟨fun _ => met, fun _ => ⟨c, rfl⟩⟩
  · rw [refused]
    exact ⟨nofun, fun met => absurd (met x) first.1⟩

theorem kind_flaw : (config.flaw read x).toError.kind = .configuration := by
  cases x with
  | brokers | username | password => rfl
  | mechanisms | protocol =>
    rw [flaw, misnamed]
    split <;> rfl
  | certificate =>
    rw [flaw]
    split <;> rfl

/-- A condition that is not met is found without the file, unless it is the certificate. -/
theorem unread (unmet : ¬config.Meets read x) (other : x ≠ .certificate) :
    config.validateWith read = config.validateWith read' := by
  obtain ⟨c, -, met⟩ | ⟨y, first, refused⟩ := check_decides read config
  · exact absurd (met x) unmet
  have early : y.rank ≤ x.rank := le_of_not_gt fun after => unmet (first.2 x after)
  have elsewhere : y ≠ .certificate :=
    Condition.rank_lt_certificate.mp (early.trans_lt (Condition.rank_lt_certificate.mpr other))
  rw [validateWith, refused, flaw_congr elsewhere]
  exact (validateWith_eq_error.mpr ⟨y, first.congr elsewhere, rfl⟩).symm

theorem validateWith_congr
    (same : ∀ file, config.GivesCa file → read (Text.trim file) = read' (Text.trim file)) :
    config.validateWith read = config.validateWith read' := by
  have pem : config.caPem read = config.caPem read' := by
    by_cases gives : ∃ file, config.GivesCa file
    · obtain ⟨file, gives⟩ := gives
      simp only [caPem, caPath_of_gives gives, same file gives]
    · rw [caPem_of_none (not_exists.mp gives), caPem_of_none (not_exists.mp gives)]
  rw [validateWith, validateWith, check, check, pem]

/-! ## Configurations as a whole -/

/-- What becomes of a configuration, whatever can be read. -/
structure ValidationLaw (read : Reader) (config : Config) : Prop where
  /-- It is accepted if it meets all conditions. -/
  accepted : (∃ c, config.validateWith read = .ok c) ↔ ∀ x, config.Meets read x
  /-- It is refused for the first condition that it does not meet, -/
  refused (e : Error) : config.validateWith read = .error e ↔
    ∃ x, config.First read x ∧ e = (config.flaw read x).toError
  /-- always as a matter of configuration. -/
  kind (e : Error) : config.validateWith read = .error e → e.kind = .configuration
  /-- What can be read makes no difference if one of the other conditions is not met, -/
  unread (read' : Reader) (x : Condition) : ¬config.Meets read x → x ≠ .certificate →
    config.validateWith read' = config.validateWith read
  /-- and only what is read at the path of the certificate does if they are. -/
  readAt (read' : Reader) :
    (∀ file, config.GivesCa file → read' (Text.trim file) = read (Text.trim file)) →
    config.validateWith read' = config.validateWith read
  /-- The brokers are the parts that are not blank, without the blanks around them, -/
  brokers (c : Connection) : config.validateWith read = .ok c →
    c.brokers = ((Text.parts ',' config.brokers).filter (!Text.blank ·)).map Text.trim
  /-- and in none of them is there anything more to take apart or to drop. -/
  clean (c : Connection) : config.validateWith read = .ok c →
    ∀ broker ∈ c.brokers, broker ≠ "" ∧ ',' ∉ broker.toList ∧ Text.Trimmed broker
  /-- Put together again, they make the same connection. -/
  again (c : Connection) : config.validateWith read = .ok c →
    { config with brokers := ",".intercalate c.brokers }.validateWith read = .ok c
  /-- With a configuration that is refused no queue is opened, and no broker is asked. -/
  connect {T α : Type} [Transport T] (w : Queue.World T α) (files : Files) (e : Error) :
    config.validate files = .error e → w.connect files config = (.error e, w)

/-- A configuration is accepted if it meets six conditions, and refused for the first that it does
not meet otherwise; the brokers of a connection stay what they are when they are checked again. -/
theorem validation_law (read : Reader) (config : Config) : ValidationLaw read config where
  accepted := accepted_iff
  refused _ := validateWith_eq_error
  kind e refused := by
    obtain ⟨x, -, rfl⟩ := validateWith_eq_error.mp refused
    exact kind_flaw
  unread _ _ unmet other := (unread unmet other).symm
  readAt _ same := validateWith_congr same
  brokers c accepted := by
    rw [(validateWith_eq_ok.mp accepted).brokers, brokerList_eq]
  clean c accepted broker among := by
    rw [(validateWith_eq_ok.mp accepted).brokers] at among
    exact of_mem_brokerList among
  again c accepted := validateWith_eq_ok.mpr (validateWith_eq_ok.mp accepted).again
  connect w files e refused := by
    rw [Queue.World.connect, refused]

/-- Names are taken in either case, and blanks and empty parts are passed over. -/
example :
    { brokers := " a:1 ,, b:2,", username := "u", password := "p", mechanisms := "scram-sha-256",
      protocol := " Sasl_Plaintext", caFile := some " " : Config }.validateWith
        (fun _ => .error "no such file") =
      .ok { brokers := ["a:1", "b:2"], username := "u", password := "p", mechanism := .scramSha256,
            protocol := .saslPlaintext, caPem := none, isDebug := false, clientId := none,
            hasLogger := false } := by
  decide

end Config

end Courier.Broker

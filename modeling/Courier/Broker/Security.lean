import Courier.Error
import Courier.Text.Blank

/-! How a connection to the brokers is secured, and the names under which it is configured. -/
namespace Courier.Broker

inductive Protocol where
  | plaintext
  | ssl
  | saslPlaintext
  | saslSsl
  deriving DecidableEq, Repr

inductive Mechanism where
  | plain
  | scramSha256
  | scramSha512
  | oauthBearer
  deriving DecidableEq, Repr

def unsupported (setting given : String) : Error :=
  ⟨.configuration, "kafka config '" ++ setting ++ "' is not supported: " ++ given⟩

/-- Settings are compared without the blanks around them and in upper case. -/
def normalized (s : String) : String := Text.upperAscii (Text.trim s)

namespace Protocol

def all : List Protocol := [plaintext, ssl, saslPlaintext, saslSsl]

def name : Protocol → String
  | plaintext => "plaintext"
  | ssl => "ssl"
  | saslPlaintext => "sasl_plaintext"
  | saslSsl => "sasl_ssl"

def render : Protocol → String
  | plaintext => "Plaintext"
  | ssl => "Ssl"
  | saslPlaintext => "SaslPlaintext"
  | saslSsl => "SaslSsl"

def usesSasl : Protocol → Bool
  | plaintext | ssl => false
  | saslPlaintext | saslSsl => true

def usesTls : Protocol → Bool
  | plaintext | saslPlaintext => false
  | ssl | saslSsl => true

/-- The encrypted protocol with the same authentication. -/
def withTls : Protocol → Protocol
  | plaintext | ssl => ssl
  | saslPlaintext | saslSsl => saslSsl

def ofText (s : String) : Except Error Protocol :=
  match normalized s with
  | "PLAINTEXT" => .ok plaintext
  | "SSL" => .ok ssl
  | "SASL_PLAINTEXT" => .ok saslPlaintext
  | "SASL_SSL" => .ok saslSsl
  | other => .error (unsupported "protocol" other)

theorem withTls_usesTls (p : Protocol) : p.withTls.usesTls = true := by cases p <;> rfl

theorem withTls_usesSasl (p : Protocol) : p.withTls.usesSasl = p.usesSasl := by cases p <;> rfl

end Protocol

/-- What is used when nothing else is asked for. -/
instance : Inhabited Protocol := ⟨.plaintext⟩

namespace Mechanism

def name : Mechanism → String
  | plain => "PLAIN"
  | scramSha256 => "SCRAM-SHA-256"
  | scramSha512 => "SCRAM-SHA-512"
  | oauthBearer => "OAUTHBEARER"

def render : Mechanism → String
  | plain => "Plain"
  | scramSha256 => "ScramSha256"
  | scramSha512 => "ScramSha512"
  | oauthBearer => "OAuthBearer"

def ofText (s : String) : Except Error Mechanism :=
  match normalized s with
  | "PLAIN" => .ok plain
  | "SCRAM-SHA-256" => .ok scramSha256
  | "SCRAM-SHA-512" => .ok scramSha512
  | "OAUTHBEARER" => .ok oauthBearer
  | other => .error (unsupported "mechanisms" other)

end Mechanism

end Courier.Broker

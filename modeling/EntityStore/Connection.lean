import EntityStore.Text.Basic

/-!
How a PostgreSQL server is reached: its address, an account, and what is asked of encryption and of
the server's certificate. In the connection string every text stands in quotes, so that none can
end early.
-/
namespace EntityStore

inductive SslMode where
  | disable
  | prefer
  | require
  /-- The certificate is verified. -/
  | verifyCa
  /-- The certificate is verified, and the name of the host too. -/
  | verifyFull
deriving DecidableEq, Repr

namespace SslMode

def name : SslMode → String
  | disable => "Disable"
  | prefer => "Prefer"
  | require => "Require"
  | verifyCa => "VerifyCa"
  | verifyFull => "VerifyFull"

def all : List SslMode :=
  [disable, prefer, require, verifyCa, verifyFull]

def ofName? (s : String) : Option SslMode :=
  all.find? fun m => m.name == s

/-- The word for the mode in a connection string, which has none for verification. -/
def keyword : SslMode → String
  | disable => "disable"
  | prefer => "prefer"
  | require | verifyCa | verifyFull => "require"

def verifies : SslMode → Bool
  | verifyCa | verifyFull => true
  | disable | prefer | require => false

end SslMode

structure ConnectionSettings where
  host : String := "localhost"
  port : Nat := 5432
  database : String := "postgres"
  username : String := "postgres"
  password : String := ""
  sslMode : SslMode := .prefer
  /-- Takes a certificate without verification, in the modes that do not ask for it. -/
  acceptInvalidCerts : Bool := false
  /-- A file with the certificate of an authority to trust. -/
  caCertPath : Option String := none
  /-- How many connections are kept at most. -/
  poolSize : Nat := 16
deriving DecidableEq, Repr

namespace ConnectionSettings

/-- A backslash stands before every backslash and every quote. -/
def escapeValue : List Char → List Char
  | [] => []
  | c :: rest =>
    if c = '\\' ∨ c = '\x27' then '\\' :: c :: escapeValue rest else c :: escapeValue rest

def quoteValue (s : String) : String :=
  String.ofList ('\x27' :: (escapeValue s.toList ++ ['\x27']))

def pairs (c : ConnectionSettings) : List (String × String) :=
  [("host", quoteValue c.host),
    ("port", toString c.port),
    ("dbname", quoteValue c.database),
    ("user", quoteValue c.username),
    ("password", quoteValue c.password),
    ("sslmode", c.sslMode.keyword),
    ("connect_timeout", "10")]

def connectionString (c : ConnectionSettings) : String :=
  Text.join " " (c.pairs.map fun p => p.1 ++ "=" ++ p.2)

def display (c : ConnectionSettings) : String :=
  c.username ++ "@" ++ c.host ++ ":" ++ toString c.port ++ "/" ++ c.database

/-- A pool keeps at least one connection. -/
def maxConnections (c : ConnectionSettings) : Nat :=
  max c.poolSize 1

def certificateFile? (c : ConnectionSettings) : Option String :=
  if c.sslMode = .disable then none
  else if c.acceptInvalidCerts && !c.sslMode.verifies then none
  else c.caCertPath

end ConnectionSettings

end EntityStore

import EntityStore.Codec.Charset
import EntityStore.Connection
import EntityStore.Toml.Document

/-!
The settings of the program and their documents: the dialect, the server, the file of the models,
and the character set that the database gets. They are written without the password. When no
connection is given it is the standard one, but one that is given names at least a host, a port, a
database and a user.
-/
namespace EntityStore

structure Settings where
  dialect : Dialect := .postgres
  connection : ConnectionSettings := {}
  /-- The file of the models. -/
  models : Option String := none
  sync : CharsetSettings := {}
deriving DecidableEq, Repr

namespace ConnectionSettings

def toJson (c : ConnectionSettings) : Json :=
  .obj [
    ("accept_invalid_certs", .bool c.acceptInvalidCerts),
    ("ca_cert_path", Json.ofOption .str c.caCertPath),
    ("database", .str c.database),
    ("host", .str c.host),
    ("pool_size", .ofNat c.poolSize),
    ("port", .ofNat c.port),
    ("ssl_mode", .str c.sslMode.name),
    ("username", .str c.username)]

def ofDocument? (format : Format) (v : Json) : Option ConnectionSettings := do
  let r ← v.fields? format ["host", "port", "database", "username", "password", "ssl_mode",
    "accept_invalid_certs", "ca_cert_path", "pool_size"]
  let standard : ConnectionSettings := {}
  some {
    host := ← r.required? ["host"] Json.string?
    port := ← r.required? ["port"] (Json.natUpTo? Text.maxUInt16)
    database := ← r.required? ["database"] Json.string?
    username := ← r.required? ["username"] Json.string?
    password := ← r.defaulted? ["password"] standard.password Json.string?
    sslMode := ← r.defaulted? ["ssl_mode"] standard.sslMode (Json.named? format SslMode.ofName?)
    acceptInvalidCerts :=
      ← r.defaulted? ["accept_invalid_certs"] standard.acceptInvalidCerts Json.boolean?
    caCertPath := ← r.optional? ["ca_cert_path"] Json.string?
    poolSize := ← r.defaulted? ["pool_size"] standard.poolSize Json.uint64? }

def ofJson? : Json → Option ConnectionSettings :=
  ofDocument? .json

end ConnectionSettings

namespace Settings

def toJson (s : Settings) : Json :=
  .obj [
    ("connection", s.connection.toJson),
    ("dialect", .str s.dialect.name),
    ("models", Json.ofOption .str s.models),
    ("sync", s.sync.toJson)]

def ofDocument? (format : Format) (v : Json) : Option Settings := do
  let r ← v.fields? format ["dialect", "connection", "models", "sync"]
  let standard : Settings := {}
  some {
    dialect := ← r.defaulted? ["dialect"] standard.dialect (Json.named? format Dialect.ofName?)
    connection :=
      ← r.defaulted? ["connection"] standard.connection (ConnectionSettings.ofDocument? format)
    models := ← r.optional? ["models"] Json.string?
    sync := ← r.defaulted? ["sync"] standard.sync (CharsetSettings.ofDocument? format) }

def ofJson? : Json → Option Settings :=
  ofDocument? .json

def parse? (text : String) : Option Settings := do
  ofDocument? .toml (← Toml.parse? text)

def line (key value : String) : String :=
  key ++ " = " ++ value ++ "\n"

def textLine (key value : String) : String :=
  line key (Toml.quoted value)

def optionalLine (key : String) : Option String → String
  | some value => textLine key value
  | none => ""

def connectionText (c : ConnectionSettings) : String :=
  "[connection]\n" ++
    textLine "host" c.host ++
    line "port" (toString c.port) ++
    textLine "database" c.database ++
    textLine "username" c.username ++
    textLine "ssl_mode" c.sslMode.name ++
    line "accept_invalid_certs" (toString c.acceptInvalidCerts) ++
    optionalLine "ca_cert_path" c.caCertPath ++
    line "pool_size" (toString c.poolSize)

def syncText (o : CharsetSettings) : String :=
  "[sync]\n" ++
    optionalLine "database" o.database ++
    textLine "charset" o.charset ++
    textLine "collation" o.collation

def text (s : Settings) : String :=
  textLine "dialect" s.dialect.name ++
    optionalLine "models" s.models ++ "\n" ++
    connectionText s.connection ++ "\n" ++
    syncText s.sync

end Settings

end EntityStore

import EntityStore.Codec.Charset
import EntityStore.Codec.Field
import EntityStore.Codec.Query
import EntityStore.Codec.Settings
import EntityStore.Command
import EntityStore.CommandLine
import EntityStore.Connection
import EntityStore.Decimal
import EntityStore.Dialect
import EntityStore.Failure
import EntityStore.Field
import EntityStore.Invocation
import EntityStore.Json.Basic
import EntityStore.Json.Parser
import EntityStore.Json.Printer
import EntityStore.Json.Shape
import EntityStore.Json.Token
import EntityStore.Key
import EntityStore.Main
import EntityStore.ModelFile
import EntityStore.Predicate
import EntityStore.Proofs.Checks
import EntityStore.Proofs.Codec.Field
import EntityStore.Proofs.Codec.ModelFile
import EntityStore.Proofs.Codec.Query
import EntityStore.Proofs.Codec.Schema
import EntityStore.Proofs.Condition.Pruning
import EntityStore.Proofs.Directory
import EntityStore.Proofs.Json.Basic
import EntityStore.Proofs.Json.Canonical
import EntityStore.Proofs.Json.Depth
import EntityStore.Proofs.Json.Exact
import EntityStore.Proofs.Json.Parser
import EntityStore.Proofs.Json.Scan
import EntityStore.Proofs.Json.Shape
import EntityStore.Proofs.Json.Token
import EntityStore.Proofs.Reading.Clean
import EntityStore.Proofs.Reading.Command
import EntityStore.Proofs.Reading.Definition
import EntityStore.Proofs.Reading.Expression
import EntityStore.Proofs.Reading.Formula
import EntityStore.Proofs.Reading.Identifier
import EntityStore.Proofs.Reading.Lexeme
import EntityStore.Proofs.Reading.Literal
import EntityStore.Proofs.Reading.Mention
import EntityStore.Proofs.Reading.Page
import EntityStore.Proofs.Reading.Placeholder
import EntityStore.Proofs.Reading.Predicate
import EntityStore.Proofs.Reading.Selection
import EntityStore.Proofs.Reading.Table
import EntityStore.Proofs.Reading.Token
import EntityStore.Proofs.Reading.Written
import EntityStore.Proofs.Registration
import EntityStore.Proofs.Selection.Aliases
import EntityStore.Proofs.Selection.Capture
import EntityStore.Proofs.Selection.Cleaning
import EntityStore.Proofs.Selection.ColumnNames
import EntityStore.Proofs.Selection.Directives
import EntityStore.Proofs.Selection.KeptJoins
import EntityStore.Proofs.Selection.Paging
import EntityStore.Proofs.Selection.RootKey
import EntityStore.Proofs.Selection.Scope
import EntityStore.Proofs.Selection.Sources
import EntityStore.Proofs.Selection.Stored
import EntityStore.Proofs.Selection.Values
import EntityStore.Proofs.Selection.Visits
import EntityStore.Proofs.Server.ConnectionText
import EntityStore.Proofs.Server.Place
import EntityStore.Proofs.Session.Alignment
import EntityStore.Proofs.Session.Definitions
import EntityStore.Proofs.Session.Failures
import EntityStore.Proofs.Session.Headings
import EntityStore.Proofs.Session.Operation
import EntityStore.Proofs.Session.Reports
import EntityStore.Proofs.Session.Script
import EntityStore.Proofs.Session.Sends
import EntityStore.Proofs.Session.Sync
import EntityStore.Proofs.Session.Tables
import EntityStore.Proofs.Session.Trace
import EntityStore.Proofs.Storage.Columns
import EntityStore.Proofs.Storage.LinkColumns
import EntityStore.Proofs.Storage.Placement
import EntityStore.Proofs.Storage.TableColumns
import EntityStore.Proofs.Storage.TableNames
import EntityStore.Proofs.Storage.Tables
import EntityStore.Proofs.Store.Accepts
import EntityStore.Proofs.Store.Admits
import EntityStore.Proofs.Store.Attach
import EntityStore.Proofs.Store.Bulk
import EntityStore.Proofs.Store.Cleanup
import EntityStore.Proofs.Store.Comparand
import EntityStore.Proofs.Store.Creation
import EntityStore.Proofs.Store.Elements
import EntityStore.Proofs.Store.Failures
import EntityStore.Proofs.Store.Headings
import EntityStore.Proofs.Store.Insert
import EntityStore.Proofs.Store.KeyIdentity
import EntityStore.Proofs.Store.KeyText
import EntityStore.Proofs.Store.Linking
import EntityStore.Proofs.Store.Owner
import EntityStore.Proofs.Store.Read
import EntityStore.Proofs.Store.Reading
import EntityStore.Proofs.Store.Refusals
import EntityStore.Proofs.Store.Removal
import EntityStore.Proofs.Store.Remove
import EntityStore.Proofs.Store.Rows
import EntityStore.Proofs.Store.Spread
import EntityStore.Proofs.Store.Write
import EntityStore.Proofs.Stored.Element
import EntityStore.Proofs.Stored.Embedded
import EntityStore.Proofs.Stored.Object
import EntityStore.Proofs.Stored.RawText
import EntityStore.Proofs.Text.Numeral
import EntityStore.Proofs.Text.Spelling
import EntityStore.Query
import EntityStore.Schema
import EntityStore.Selection
import EntityStore.Server.Cell
import EntityStore.Server.Pool
import EntityStore.Server.Report
import EntityStore.Session
import EntityStore.Statement
import EntityStore.Store.Read
import EntityStore.Store.Remove
import EntityStore.Store.Sync
import EntityStore.Store.Write
import EntityStore.Stored
import EntityStore.Table
import EntityStore.Text.Basic
import EntityStore.Text.LetterCase
import EntityStore.Text.Quoted
import EntityStore.Toml.Document
import EntityStore.Toml.Scalar

import Sysml.Text.Blank
import Sysml.Text.DecimalDigit
import Sysml.Text.Printable
import Sysml.Text.Column
import Sysml.Text.Lower
import Sysml.Text.Lines
import Sysml.Text.Quoted
import Sysml.Digest.Sha1
import Sysml.Digest.Uuid
import Sysml.Digest.Crc32
import Sysml.Decimal.Shortest
import Sysml.Decimal.Layout
import Sysml.Entries
import Sysml.Value
import Sysml.Value.Text
import Sysml.Value.Slots
import Sysml.Json.Printer
import Sysml.Json.Reader
import Sysml.Key
import Sysml.Span
import Sysml.Symbol.Kind
import Sysml.Symbol
import Sysml.QualifiedName
import Sysml.Notation.Keyword
import Sysml.Notation.Token
import Sysml.Diagnostic
import Sysml.Notation.Comment
import Sysml.Notation.Cursor
import Sysml.Notation.Statement
import Sysml.Notation.Reader
import Sysml.Files.Fault
import Sysml.Text.Utf8
import Sysml.Failure
import Sysml.Scope.Index
import Sysml.Scope.Resolution
import Sysml.Workspace
import Sysml.Workspace.Checks
import Sysml.Workspace.Pins
import Sysml.Session
import Sysml.Report
import Sysml.Document
import Sysml.Document.Export
import Sysml.Document.Import
import Sysml.Notation.Quoting
import Sysml.Document.Companion
import Sysml.Document.SourceText
import Sysml.Yaml.Place
import Sysml.Yaml.Scalar
import Sysml.Yaml.Token
import Sysml.Archive.Bits
import Sysml.Archive.Deflate
import Sysml.Archive.Bzip2
import Sysml.Archive.Lzma
import Sysml.Archive
import Sysml.Archive.Reader
import Sysml.Files.Path
import Sysml.CommandLine.Arguments
import Sysml.CommandLine.Terminal
import Sysml.Files.Tree
import Sysml.Files.Discovery
import Sysml.Format.Mapping
import Sysml.Format.JsonLd
import Sysml.Xml.Tree
import Sysml.Xml.Printer
import Sysml.Xml.NameClass
import Sysml.Text.CodePage
import Sysml.Xml.Charset
import Sysml.Xml.Markup
import Sysml.Xml.Expansion
import Sysml.Xml.DocumentType
import Sysml.Xml.Content
import Sysml.Xml.Reader
import Sysml.Format.Xmi
import Sysml.Format.Kpar
import Sysml.Text.Alphanumeric
import Sysml.Text.Base64
import Sysml.Yaml.Page
import Sysml.Value.Moment
import Sysml.Yaml.Tag
import Sysml.Yaml.Printer
import Sysml.Decimal.Reader
import Sysml.Yaml.Anchor
import Sysml.Yaml.Merge
import Sysml.Yaml.Node
import Sysml.Yaml.Reader
import Sysml.Format.Yaml
import Sysml.Format
import Sysml.Session.Loading
import Sysml.Toml.Lines
import Sysml.Toml.Printer
import Sysml.Toml.Reader
import Sysml.Toml.Scalar
import Sysml.Settings
import Sysml.CommandLine.Run
import Sysml.Main
import Sysml.Proofs.Outcome
import Sysml.Proofs.Scope.Simulation
import Sysml.Proofs.Scope.Memo
import Sysml.Proofs.Scope.History
import Sysml.Proofs.Document.Drafting
import Sysml.Proofs.Document.Closed
import Sysml.Proofs.Workspace.Tidy
import Sysml.Proofs.Session.Export
import Sysml.Proofs.Notation.Passage
import Sysml.Proofs.Workspace.Findings
import Sysml.Proofs.Document.Adding
import Sysml.Proofs.Document.Complete
import Sysml.Proofs.Session.Complete
import Sysml.Proofs.Session.Importing
import Sysml.Proofs.Session.RoundTrip
import Sysml.Proofs.Session.ForeignIds
import Sysml.Proofs.Document.Portable
import Sysml.Proofs.Document.Gathering
import Sysml.Proofs.Document.Typed
import Sysml.Proofs.Document.TakingIn
import Sysml.Proofs.Document.Mirrored
import Sysml.Proofs.Document.Carried
import Sysml.Proofs.Document.Foreign
import Sysml.Proofs.Workspace.Ending
import Sysml.Proofs.Session.ForeignEnds
import Sysml.Proofs.Notation.Facing
import Sysml.Proofs.Notation.Title
import Sysml.Proofs.Notation.Outline
import Sysml.Proofs.Scope.Soundness
import Sysml.Proofs.Scope.Exploring
import Sysml.Proofs.Scope.Completeness
import Sysml.Proofs.Notation.Layout
import Sysml.Proofs.Document.Forest
import Sysml.Proofs.Document.Outlined
import Sysml.Proofs.Document.Decompiled
import Sysml.Proofs.Document.Rejoined
import Sysml.Proofs.Document.Grounded
import Sysml.Proofs.Document.Restored
import Sysml.Proofs.Session.Reopening
import Sysml.Proofs.Session.Retelling
import Sysml.Proofs.Notation.Sequel
import Sysml.Proofs.Format.Mapped
import Sysml.Proofs.Archive
import Sysml.Proofs.Format.Interchanged
import Sysml.Proofs.Format.Packed
import Sysml.Proofs.Format.Graph
import Sysml.Proofs.Format.Reported
import Sysml.Proofs.Scope.Redefining
import Sysml.Proofs.Session.Analyzing
import Sysml.Proofs.Session.Refused
import Sysml.Proofs.Session.Again
import Sysml.Proofs.Session.Freshness
import Sysml.Proofs.Session.Depths
import Sysml.Proofs.Session.Reloading
import Sysml.Proofs.Workspace.Identified
import Sysml.Proofs.Session.Repeating
import Sysml.Proofs.Session.Nesting
import Sysml.Proofs.Session.Cycles
import Sysml.Proofs.Notation.Enclosed
import Sysml.Proofs.Session.Pinned
import Sysml.Proofs.Session.Direct
import Sysml.Proofs.Session.Redefinitions
import Sysml.Proofs.Format.Derived
import Sysml.Proofs.Session.Reordered
import Sysml.Proofs.Notation.Tiling
import Sysml.Proofs.Document.Documentation
import Sysml.Proofs.Document.Bounded
import Sysml.Proofs.Notation.Moves
import Sysml.Proofs.Notation.Rounds

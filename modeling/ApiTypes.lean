import ApiTypes.Command.Run
import ApiTypes.Compile.Text
import ApiTypes.Config
import ApiTypes.Diff.Report
import ApiTypes.Document.Build
import ApiTypes.Files.Disk
import ApiTypes.Files.Memory
import ApiTypes.Layout.Format
import ApiTypes.Main
import ApiTypes.Output.Extract
import ApiTypes.Route.Source
import ApiTypes.Style.Source
import ApiTypes.Text.Capital
import ApiTypes.Toml.Document
import ApiTypes.TypeScript.Printer
import ApiTypes.Yaml.Convert
import ApiTypes.Proofs.Compile.Layer
import ApiTypes.Proofs.Compile.Names
import ApiTypes.Proofs.TypeScript.Occurs
import ApiTypes.Proofs.Compile.Closed
import ApiTypes.Proofs.TypeScript.Inhabits
import ApiTypes.Proofs.Compile.Values
import ApiTypes.Proofs.Compile.Sound
import ApiTypes.Proofs.Compile.Unrolled
import ApiTypes.Proofs.Compile.Documents
import ApiTypes.Proofs.Reference.Definitions
import ApiTypes.Proofs.Text.NonEmptyLines
import ApiTypes.Proofs.TypeScript.Fragments
import ApiTypes.Proofs.Compile.Separate
import ApiTypes.Proofs.Compile.Beginning
import ApiTypes.Proofs.Output.Banner
import ApiTypes.Proofs.Output.Names
import ApiTypes.Proofs.Json.Pointer
import ApiTypes.Proofs.Json.Respelled
import ApiTypes.Proofs.Compile.InStep
import ApiTypes.Proofs.Reference.Addresses
import ApiTypes.Proofs.Reference.Names
import ApiTypes.Proofs.Reference.Interchange
import ApiTypes.Proofs.Compile.Walk
import ApiTypes.Proofs.Compile.Watched
import ApiTypes.Proofs.Compile.Scope
import ApiTypes.Proofs.Compile.Record
import ApiTypes.Proofs.Compile.Declared
import ApiTypes.Proofs.Reference.Linked
import ApiTypes.Proofs.Command.Following
import ApiTypes.Proofs.Files.Growth
import ApiTypes.Proofs.Files.View
import ApiTypes.Proofs.Files.Saving
import ApiTypes.Proofs.Layout.Format
import ApiTypes.Proofs.Command.Prepared
import ApiTypes.Proofs.Command.Runs
import ApiTypes.Proofs.Command.Check
import ApiTypes.Proofs.Files.Absolute
import ApiTypes.Proofs.TypeScript.Comments
import ApiTypes.Proofs.TypeScript.Literals
import ApiTypes.Proofs.TypeScript.Tokens
import ApiTypes.Proofs.TypeScript.Grammar
import ApiTypes.Proofs.TypeScript.RoundTrip
import ApiTypes.Proofs.TypeScript.Lined
import ApiTypes.Proofs.Layout.Restyle
import ApiTypes.Proofs.Document.Faithful
import ApiTypes.Proofs.Compile.Shape
import ApiTypes.Proofs.Compile.Termination
import ApiTypes.Proofs.Route.Order
import ApiTypes.Proofs.Files.Interleaving
import ApiTypes.Proofs.Files.Faults
import ApiTypes.Proofs.Output.Extract
import ApiTypes.Proofs.Reference.Targets
import ApiTypes.Proofs.Compile.Blocks
import ApiTypes.Proofs.Compile.Repeats
import ApiTypes.Proofs.Document.Extended
import ApiTypes.Proofs.Route.Appended
import ApiTypes.Proofs.Naming.Numbering
import ApiTypes.Proofs.Compile.Causes
import ApiTypes.Proofs.Yaml.Conversion
import ApiTypes.Proofs.Yaml.Entries
import ApiTypes.Proofs.Naming.Collisions
import ApiTypes.Proofs.Document.Titles
import ApiTypes.Proofs.Document.WithoutHead
import ApiTypes.Proofs.Json.Drafts
import ApiTypes.Proofs.Route.Rereading
import ApiTypes.Proofs.Compile.Unreachable
import ApiTypes.Proofs.Layout.NormalForm
import ApiTypes.Proofs.Layout.Sections
import ApiTypes.Proofs.Files.Sequence
import ApiTypes.Proofs.Route.Parts
import ApiTypes.Proofs.Reference.Registration
import ApiTypes.Proofs.Compile.Ledger
import ApiTypes.Proofs.Compile.Descriptions
import ApiTypes.Proofs.Compile.Forming
import ApiTypes.Proofs.Layout.Requoting
import ApiTypes.Proofs.TypeScript.CommentText
import ApiTypes.Proofs.Naming.Words
import ApiTypes.Proofs.Reference.Keys

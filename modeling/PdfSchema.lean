import PdfSchema.Document.Encoding
import PdfSchema.Main
import PdfSchema.Proofs.KeyedList
import PdfSchema.Proofs.Text.Numeral
import PdfSchema.Proofs.Text.Split
import PdfSchema.Proofs.Text.Trim
import PdfSchema.Proofs.Text.Words
import PdfSchema.Proofs.Document.Place
import PdfSchema.Proofs.Document.ContainerGraph
import PdfSchema.Proofs.Document.Keys
import PdfSchema.Proofs.Document.Reordering
import PdfSchema.Proofs.Document.ReferenceChain
import PdfSchema.Proofs.Document.Encoding
import PdfSchema.Proofs.Document.Members
import PdfSchema.Proofs.Document.ObjectTable
import PdfSchema.Proofs.Document.ObjectId
import PdfSchema.Proofs.Json.Reordering
import PdfSchema.Proofs.Match.Visit
import PdfSchema.Proofs.Match.Stop
import PdfSchema.Proofs.Match.Loop
import PdfSchema.Proofs.Match.Traversal
import PdfSchema.Proofs.Match.Cycle
import PdfSchema.Proofs.Match.Coverage
import PdfSchema.Proofs.Match.Trail
import PdfSchema.Proofs.Match.Revisit
import PdfSchema.Proofs.Match.Lookup
import PdfSchema.Proofs.Match.Layout
import PdfSchema.Proofs.Match.Parent
import PdfSchema.Proofs.Match.Entry
import PdfSchema.Proofs.Match.Depth
import PdfSchema.Proofs.Match.Path
import PdfSchema.Proofs.Match.Justification
import PdfSchema.Proofs.Match.Defects
import PdfSchema.Proofs.Match.DepthLimit
import PdfSchema.Proofs.Match.Precedence
import PdfSchema.Proofs.Match.Required
import PdfSchema.Proofs.Match.Unfolding
import PdfSchema.Proofs.Match.Reordering
import PdfSchema.Proofs.Schema.Ingestion
import PdfSchema.Proofs.Schema.Reachability
import PdfSchema.Proofs.Schema.Search
import PdfSchema.Proofs.Schema.Soundness
import PdfSchema.Proofs.Schema.Linking
import PdfSchema.Proofs.Schema.Merging
import PdfSchema.Proofs.Schema.Extension
import PdfSchema.Proofs.Schema.FileOrder
import PdfSchema.Proofs.Schema.Values
import PdfSchema.Proofs.Schema.TableRows
import PdfSchema.Proofs.Schema.NameValues
import PdfSchema.Proofs.Schema.ValueLists
import PdfSchema.Proofs.Schema.Defaults
import PdfSchema.Proofs.Schema.ArrayDefaults
import PdfSchema.Proofs.Schema.TrimmedCells
import PdfSchema.Proofs.Schema.ObjectKeys
import PdfSchema.Proofs.Schema.DefaultMembership
import PdfSchema.Proofs.Schema.Export
import PdfSchema.Proofs.Token.Spelling
import PdfSchema.Proofs.Token.Shape
import PdfSchema.Proofs.Token.Context
import PdfSchema.Proofs.Token.Reading
import PdfSchema.Proofs.Token.Sign
import PdfSchema.Proofs.Token.Word
import PdfSchema.Proofs.Token.Boundary
import PdfSchema.Proofs.Token.Integer
import PdfSchema.Proofs.Term.WellNested
import PdfSchema.Proofs.Term.GroupTree
import PdfSchema.Proofs.Term.Rendering
import PdfSchema.Proofs.Term.Joining
import PdfSchema.Proofs.Function.Expression
import PdfSchema.Proofs.Function.Parentheses
import PdfSchema.Proofs.Row.Place
import PdfSchema.Proofs.Row.Shape
import PdfSchema.Proofs.Row.TopLevel
import PdfSchema.Proofs.Row.Cell
import PdfSchema.Proofs.Row.Reading
import PdfSchema.Proofs.Row.Wrapper
import PdfSchema.Proofs.Row.NameValue
import PdfSchema.Proofs.Row.Value
import PdfSchema.Proofs.Row.ValueList
import PdfSchema.Proofs.Row.IntegerList
import PdfSchema.Proofs.Row.Literal
import PdfSchema.Proofs.FileTree.Path
import PdfSchema.Proofs.FileTree.Unique
import PdfSchema.Proofs.Report.Findings
import PdfSchema.Proofs.CommandLine.Delivery

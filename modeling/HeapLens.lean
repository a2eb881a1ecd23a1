import HeapLens.CommandLine.Execution
import HeapLens.CommandLine.Help
import HeapLens.CommandLine.Invocation
import HeapLens.Constants.Cache
import HeapLens.Constants.Constant
import HeapLens.Constants.Table
import HeapLens.Constants.ValueType
import HeapLens.Decimal.Double
import HeapLens.Decimal.Magnitude
import HeapLens.Decimal.Shortest
import HeapLens.Error
import HeapLens.Expr.Basic
import HeapLens.Expr.Eval
import HeapLens.Expr.Parser
import HeapLens.Expr.Token
import HeapLens.Heap.Classify
import HeapLens.Heap.Immediate
import HeapLens.Json.Basic
import HeapLens.Json.Reader
import HeapLens.Json.Writer
import HeapLens.Layout.Basic
import HeapLens.Layout.Registry
import HeapLens.Layout.Standard
import HeapLens.Main
import HeapLens.Ordered
import HeapLens.Print.Context
import HeapLens.Print.Sink
import HeapLens.Print.Tree
import HeapLens.Proofs.Heap.Encodings
import HeapLens.Proofs.Print.Coverage
import HeapLens.Proofs.Print.Depth
import HeapLens.Proofs.Print.Drawing
import HeapLens.Proofs.Print.Failure
import HeapLens.Proofs.Print.Outline
import HeapLens.Proofs.Print.Sharing
import HeapLens.Proofs.Run
import HeapLens.Proofs.Session.Batch
import HeapLens.Proofs.Snapshot.Target
import HeapLens.Proofs.View.Children
import HeapLens.Proofs.View.Effects
import HeapLens.Proofs.View.OneRead
import HeapLens.Proofs.View.Replace
import HeapLens.Proofs.View.Reread
import HeapLens.Proofs.View.Slot
import HeapLens.Proofs.View.Stable
import HeapLens.Proofs.Word.Bits
import HeapLens.Proofs.Word.Flonum
import HeapLens.Run
import HeapLens.Session
import HeapLens.Shell.Arguments
import HeapLens.Shell.Prompt
import HeapLens.Shell.Usage
import HeapLens.Shell.Words
import HeapLens.Snapshot.Basic
import HeapLens.Snapshot.Document
import HeapLens.Snapshot.Memory
import HeapLens.Snapshot.Target
import HeapLens.Target.Basic
import HeapLens.Target.CString
import HeapLens.Target.Value
import HeapLens.Text.Blank
import HeapLens.Text.Escape
import HeapLens.Text.Letters
import HeapLens.Text.Numeral
import HeapLens.Text.Utf8
import HeapLens.View.Basic
import HeapLens.View.Number
import HeapLens.View.Reading
import HeapLens.View.Sequence
import HeapLens.View.Table
import HeapLens.View.Text
import HeapLens.Word.Bytes
import HeapLens.Word.Flags
import HeapLens.Word.Flonum
import HeapLens.Proofs.Heap.Classification
import HeapLens.Proofs.View.TypeTag
import HeapLens.Proofs.Expr.Grammar
import HeapLens.Proofs.Expr.Printing
import HeapLens.Proofs.Constants.History
import HeapLens.Proofs.Snapshot.Addressed
import HeapLens.Proofs.View.Asks
import HeapLens.Proofs.View.Extents
import HeapLens.Proofs.View.ReadBounds
import HeapLens.Proofs.Json.RoundTrip
import HeapLens.Proofs.Snapshot.RoundTrip
import HeapLens.Proofs.Constants.Tags
import HeapLens.Proofs.Shell.Prompt
import HeapLens.Proofs.Print.Lines
import HeapLens.Proofs.Word.Bytes
import HeapLens.Proofs.View.Held
import HeapLens.Proofs.View.Contents
import HeapLens.Proofs.View.Placement
import HeapLens.Proofs.Decimal.Magnitude
import HeapLens.Proofs.Word.Digits
import HeapLens.Proofs.View.Magnitude
import HeapLens.Proofs.Target.ByteMap
import HeapLens.Proofs.View.Slots
import HeapLens.Proofs.Target.CString
import HeapLens.Proofs.Target.Conversion
import HeapLens.Proofs.Expr.Chains
import HeapLens.Proofs.Text.Utf8
import HeapLens.Proofs.Text.Escape
import HeapLens.Proofs.View.Preview
import HeapLens.Proofs.View.SymbolName
import HeapLens.Proofs.View.NullTable
import HeapLens.Proofs.Snapshot.Loading
import HeapLens.Proofs.View.SecondRead
import HeapLens.Proofs.Shell.Arguments
import HeapLens.Proofs.Shell.Splitting
import HeapLens.Proofs.Layout.Pointers

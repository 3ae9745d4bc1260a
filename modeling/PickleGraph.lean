import PickleGraph.Bytes
import PickleGraph.Catalog
import PickleGraph.Checksum
import PickleGraph.Command.Invocation
import PickleGraph.Command.Run
import PickleGraph.Command.Word
import PickleGraph.Compression.Basic
import PickleGraph.Compression.Bzip2
import PickleGraph.Compression.Deflate
import PickleGraph.Compression.Filter
import PickleGraph.Compression.Lzma
import PickleGraph.Compression.PrefixCode
import PickleGraph.Compression.RangeCode
import PickleGraph.Compression.Xz
import PickleGraph.Construction.Callable
import PickleGraph.Construction.Complex
import PickleGraph.Construction.Instance
import PickleGraph.Construction.Octets
import PickleGraph.Construction.Parameters
import PickleGraph.Construction.State
import PickleGraph.Decoding
import PickleGraph.Display.Line
import PickleGraph.Display.Report
import PickleGraph.Dtype.Basic
import PickleGraph.Dtype.Code
import PickleGraph.Dtype.Compound
import PickleGraph.Dtype.Description
import PickleGraph.Dtype.Layout
import PickleGraph.Dtype.OfRecord
import PickleGraph.Dtype.OfValue
import PickleGraph.Failure
import PickleGraph.FileTree
import PickleGraph.Files
import PickleGraph.Literal.Basic
import PickleGraph.Literal.Quoted
import PickleGraph.Literal.Token
import PickleGraph.Machine.Basic
import PickleGraph.Machine.Execution
import PickleGraph.Machine.Instruction
import PickleGraph.Machine.Run
import PickleGraph.Main
import PickleGraph.NdArray
import PickleGraph.NdArray.OfRecord
import PickleGraph.Number.Binary64
import PickleGraph.Number.Decimal
import PickleGraph.Number.Integer
import PickleGraph.Opcode
import PickleGraph.Payload.Elements
import PickleGraph.Payload.Header
import PickleGraph.Proofs.Actions
import PickleGraph.Proofs.Array.Agreement
import PickleGraph.Proofs.Array.BufferSize
import PickleGraph.Proofs.Array.Header
import PickleGraph.Proofs.Array.Layout
import PickleGraph.Proofs.Array.Reading
import PickleGraph.Proofs.Array.Rebuilding
import PickleGraph.Proofs.Bytes
import PickleGraph.Proofs.Construction.Confinement
import PickleGraph.Proofs.Construction.Positions
import PickleGraph.Proofs.Construction.State
import PickleGraph.Proofs.Cut.Decoding
import PickleGraph.Proofs.Cut.Machine
import PickleGraph.Proofs.Cut.Reader
import PickleGraph.Proofs.Cut.Stream
import PickleGraph.Proofs.Decoding.Argument
import PickleGraph.Proofs.Decoding.Confinement
import PickleGraph.Proofs.Decoding.Contract
import PickleGraph.Proofs.Decoding.Failure
import PickleGraph.Proofs.Decoding.Parallel
import PickleGraph.Proofs.Decoding.Payload
import PickleGraph.Proofs.Decoding.Unframed
import PickleGraph.Proofs.Defect.Decode
import PickleGraph.Proofs.Defect.Machine
import PickleGraph.Proofs.Defect.Reader
import PickleGraph.Proofs.Dtype.Code
import PickleGraph.Proofs.Dtype.Layout
import PickleGraph.Proofs.Dtype.Rebuilding
import PickleGraph.Proofs.Dtype.State
import PickleGraph.Proofs.Framing.Machine
import PickleGraph.Proofs.Framing.Matching
import PickleGraph.Proofs.Framing.Pending
import PickleGraph.Proofs.Framing.Reader
import PickleGraph.Proofs.Framing.Requests
import PickleGraph.Proofs.Framing.Stream
import PickleGraph.Proofs.Graph.Basic
import PickleGraph.Proofs.Graph.Ledger
import PickleGraph.Proofs.Graph.Sharing
import PickleGraph.Proofs.Heap.Confinement
import PickleGraph.Proofs.Heap.Growth
import PickleGraph.Proofs.Heap.Making
import PickleGraph.Proofs.Heap.Nesting
import PickleGraph.Proofs.Heap.Object
import PickleGraph.Proofs.Machine.Advance
import PickleGraph.Proofs.Machine.Batches
import PickleGraph.Proofs.Machine.Confined
import PickleGraph.Proofs.Machine.Confinement
import PickleGraph.Proofs.Machine.Construction
import PickleGraph.Proofs.Machine.Demand
import PickleGraph.Proofs.Machine.Depth
import PickleGraph.Proofs.Machine.Effect
import PickleGraph.Proofs.Machine.Governed
import PickleGraph.Proofs.Machine.Intact
import PickleGraph.Proofs.Machine.Locality
import PickleGraph.Proofs.Machine.Passage
import PickleGraph.Proofs.Machine.Placeholder
import PickleGraph.Proofs.Machine.Stationary
import PickleGraph.Proofs.Machine.Steps
import PickleGraph.Proofs.Machine.Unharmed
import PickleGraph.Proofs.Names.Code
import PickleGraph.Proofs.Names.Construction
import PickleGraph.Proofs.Names.Description
import PickleGraph.Proofs.Names.Dtype
import PickleGraph.Proofs.Names.Heap
import PickleGraph.Proofs.Names.Machine
import PickleGraph.Proofs.Names.Origin
import PickleGraph.Proofs.Names.Payload
import PickleGraph.Proofs.Names.Spelling
import PickleGraph.Proofs.Names.Stream
import PickleGraph.Proofs.Number.Integer
import PickleGraph.Proofs.Objects.Code
import PickleGraph.Proofs.Objects.Inside
import PickleGraph.Proofs.Objects.Item
import PickleGraph.Proofs.Payload.Escape
import PickleGraph.Proofs.Payload.Header
import PickleGraph.Proofs.Payload.Pickle
import PickleGraph.Proofs.Payload.Placeholder
import PickleGraph.Proofs.Payload.Refusal
import PickleGraph.Proofs.Payload.Report
import PickleGraph.Proofs.Payload.Taken
import PickleGraph.Proofs.Plain.Basic
import PickleGraph.Proofs.Plain.RoundTrip
import PickleGraph.Proofs.Plain.Scalar
import PickleGraph.Proofs.Reader
import PickleGraph.Proofs.Registry.Extension
import PickleGraph.Proofs.Registry.Governed
import PickleGraph.Proofs.Registry.History
import PickleGraph.Proofs.Registry.Links
import PickleGraph.Proofs.Registry.Relink
import PickleGraph.Proofs.Registry.Tables
import PickleGraph.Proofs.Relocation.Array
import PickleGraph.Proofs.Relocation.Construction
import PickleGraph.Proofs.Relocation.Description
import PickleGraph.Proofs.Relocation.Dtype
import PickleGraph.Proofs.Relocation.Heap
import PickleGraph.Proofs.Relocation.Items
import PickleGraph.Proofs.Relocation.Machine
import PickleGraph.Proofs.Relocation.Payload
import PickleGraph.Proofs.Relocation.Reader
import PickleGraph.Proofs.Relocation.Stream
import PickleGraph.Proofs.Relocation.Value
import PickleGraph.Proofs.Storage.Beside
import PickleGraph.Proofs.Storage.Delivery
import PickleGraph.Proofs.Storage.Detection
import PickleGraph.Proofs.Storage.Lifetime
import PickleGraph.Proofs.Storage.Places
import PickleGraph.Proofs.Text.Ascii
import PickleGraph.Proofs.Text.Escape
import PickleGraph.Proofs.Text.Utf8
import PickleGraph.Proofs.Trace.Loads
import PickleGraph.Proofs.Value.Key
import PickleGraph.Reader
import PickleGraph.Registry
import PickleGraph.Registry.Workshop
import PickleGraph.Storage.Basic
import PickleGraph.Storage.Codec
import PickleGraph.Storage.Content
import PickleGraph.Storage.PackedFile
import PickleGraph.Storage.Session
import PickleGraph.Strategy
import PickleGraph.Text.Basic
import PickleGraph.Text.Charset
import PickleGraph.Text.Escape
import PickleGraph.Text.Printable
import PickleGraph.Text.Quoted
import PickleGraph.Text.Utf8
import PickleGraph.Value
import PickleGraph.Value.Access
import PickleGraph.Value.Description
import PickleGraph.Value.Key
import PickleGraph.Value.Number
import PickleGraph.Value.Truth
import PickleGraph.Proofs.Display.Bare
import PickleGraph.Proofs.Display.Line
import PickleGraph.Proofs.Display.Report
import PickleGraph.Proofs.Machine.Octets
import PickleGraph.Proofs.Array.Notation
import PickleGraph.Proofs.Machine.Renumbering
import PickleGraph.Proofs.Machine.Slots

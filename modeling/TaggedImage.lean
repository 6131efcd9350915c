import TaggedImage.ByteOrder
import TaggedImage.Word
import TaggedImage.Stream.Memory
import TaggedImage.Stream.Reader
import TaggedImage.Stream.Cached
import TaggedImage.Fault
import TaggedImage.KnownTag
import TaggedImage.Compression
import TaggedImage.Limits
import TaggedImage.Catalog
import TaggedImage.Header
import TaggedImage.Text.Quoted
import TaggedImage.Text.Basic
import TaggedImage.Decimal.Binary
import TaggedImage.Value.Text
import TaggedImage.Directory
import TaggedImage.Layout
import TaggedImage.Layout.Resolve
import TaggedImage.Codec
import TaggedImage.Browser.Units
import TaggedImage.Appender
import TaggedImage.Text.Json
import TaggedImage.Report
import TaggedImage.Main
import TaggedImage.Proofs.Overlay
import TaggedImage.Proofs.Parsing
import TaggedImage.Proofs.MemoryContent
import TaggedImage.Proofs.Walk
import TaggedImage.Proofs.Resume
import TaggedImage.Proofs.Transparency
import TaggedImage.Proofs.Confinement
import TaggedImage.Proofs.Session
import TaggedImage.Proofs.Accesses
import TaggedImage.Proofs.Positions
import TaggedImage.Proofs.ValueCodec
import TaggedImage.Proofs.HeaderCodec
import TaggedImage.Proofs.Appending
import TaggedImage.Proofs.TableReading
import TaggedImage.Proofs.RoundTrip
import TaggedImage.Proofs.Alike
import TaggedImage.Proofs.Calls
import TaggedImage.Proofs.Stopping
import TaggedImage.Proofs.Place
import TaggedImage.Proofs.Listing
import TaggedImage.Proofs.Sources
import TaggedImage.Proofs.Independence
import TaggedImage.Proofs.Acceptance
import TaggedImage.Proofs.Jumps
import TaggedImage.Proofs.Reporting
import TaggedImage.Proofs.Runs
import TaggedImage.Proofs.MemoryRuns
import TaggedImage.Proofs.Closing
import TaggedImage.Proofs.Attempts
import TaggedImage.Proofs.Arithmetic
import TaggedImage.Proofs.Geometry
import TaggedImage.Proofs.Partition
import TaggedImage.Proofs.Resolving
import TaggedImage.Proofs.Units
import TaggedImage.Proofs.ImageSize
import TaggedImage.Proofs.LazyValues
import TaggedImage.Proofs.Decoding
import TaggedImage.Proofs.ValueBytes
import TaggedImage.Proofs.Strictness
import TaggedImage.Proofs.SampleLayout
import TaggedImage.Proofs.TableLengths
import TaggedImage.Proofs.UnsignedReads
import TaggedImage.Proofs.FieldOrder
import TaggedImage.Proofs.Growth
import TaggedImage.Proofs.Transfers
import TaggedImage.Proofs.Fetching
import TaggedImage.Proofs.Strings
import TaggedImage.Proofs.StripFit
import TaggedImage.Proofs.TileEdges
import TaggedImage.Proofs.Factors

import PackedIndex.Main
import PackedIndex.Proofs.Bytes
import PackedIndex.Proofs.Layout
import PackedIndex.Proofs.Cursor
import PackedIndex.Proofs.Content
import PackedIndex.Proofs.Image
import PackedIndex.Proofs.Paged
import PackedIndex.Proofs.Filling
import PackedIndex.Proofs.Progress
import PackedIndex.Proofs.Volume
import PackedIndex.Proofs.Finished
import PackedIndex.Proofs.Run
import PackedIndex.Proofs.Build
import PackedIndex.Proofs.Header
import PackedIndex.Proofs.HeaderBytes
import PackedIndex.Proofs.Reading
import PackedIndex.Proofs.Search
import PackedIndex.Proofs.Lookup
import PackedIndex.Proofs.KeyOrder
import PackedIndex.Proofs.RoundTrip
import PackedIndex.Proofs.Publication
import PackedIndex.Proofs.InStep
import PackedIndex.Proofs.Lifecycle
import PackedIndex.Proofs.Guarded
import PackedIndex.Proofs.Damaged
import PackedIndex.Proofs.Kept
import PackedIndex.Proofs.Resized
import PackedIndex.Proofs.Misled
import PackedIndex.Proofs.Geometry
import PackedIndex.Proofs.Padding
import PackedIndex.Proofs.Admission
import PackedIndex.Proofs.Utf8
import PackedIndex.Proofs.Lines
import PackedIndex.Proofs.Batch
import PackedIndex.Proofs.Description
import PackedIndex.Proofs.Loading
import PackedIndex.Proofs.Tiling
import PackedIndex.Proofs.Tree
import PackedIndex.Proofs.Counter
import PackedIndex.Proofs.GuardedWriter
import PackedIndex.Proofs.Traced
import PackedIndex.Proofs.WriteOnce
import PackedIndex.Proofs.Checksum
import PackedIndex.Proofs.Altered
import PackedIndex.Proofs.RecordBytes
import PackedIndex.Proofs.LineByLine
import PackedIndex.Proofs.FirstFault
import PackedIndex.Proofs.Rank
import PackedIndex.Proofs.AttributeBytes
import PackedIndex.Proofs.KeyPadding

import PackStream.Bytes
import PackStream.Number.Binary64
import PackStream.Number.Shortest
import PackStream.Text.Hex
import PackStream.Text.Utf8
import PackStream.Wire.Size
import PackStream.Wire.Marker
import PackStream.Wire.Options
import PackStream.Value.Basic
import PackStream.Value.Equality
import PackStream.Value.Ordered
import PackStream.Value.Text
import PackStream.Value.Narrowing
import PackStream.Event
import PackStream.Encoding.Error
import PackStream.Encoding.Sink
import PackStream.Encoding.Script
import PackStream.Encoding.Encoder
import PackStream.Encoding.Bytes
import PackStream.Decoding.Error
import PackStream.Decoding.Cursor
import PackStream.Decoding.Reader
import PackStream.Decoding.Bytes
import PackStream.Datum.Basic
import PackStream.Datum.Key
import PackStream.Datum.Collector
import PackStream.Datum.Conversion
import PackStream.Proofs.Text.ByteOrder
import PackStream.Proofs.Value.Entries
import PackStream.Proofs.Value.Nodes
import PackStream.Proofs.Value.StructFree
import PackStream.Proofs.Wire.Marker
import PackStream.Proofs.Wire.Header
import PackStream.Proofs.Wire.Integer
import PackStream.Proofs.Wire.Grammar
import PackStream.Proofs.Decoding.Language
import PackStream.Proofs.Decoding.Acceptance
import PackStream.Proofs.Encoding.Run
import PackStream.Proofs.Encoding.Reference
import PackStream.Proofs.Encoding.Form
import PackStream.Proofs.Encoding.Shortest
import PackStream.Proofs.Layout.Basic
import PackStream.Proofs.Layout.Unambiguous
import PackStream.Proofs.Layout.Canonical
import PackStream.Proofs.RoundTrip
import PackStream.Proofs.Reencoding
import PackStream.Proofs.Encoding.Traversal
import PackStream.Proofs.Encoding.Offence
import PackStream.Proofs.Encoding.Session
import PackStream.Proofs.Encoding.Cut
import PackStream.Proofs.Decoding.Parts
import PackStream.Proofs.Decoding.Continuation
import PackStream.Proofs.Encoding.Congruence
import PackStream.Proofs.Encoding.Refinement
import PackStream.Proofs.Truncation
import PackStream.Proofs.Decoding.Work
import PackStream.Proofs.Decoding.Refusal
import PackStream.Proofs.Datum.Denotation
import PackStream.Proofs.Datum.Offence
import PackStream.Proofs.Datum.Calls
import PackStream.Proofs.Datum.Recovery
import PackStream.Proofs.Datum.Closure
import PackStream.Proofs.Datum.Writing
import PackStream.Proofs.Formats
import PackStream.Proofs.Encoding.Depth
import PackStream.Proofs.Decoding.Shortage
import PackStream.Proofs.Decoding.KeyRefusal
import PackStream.Proofs.Determinism
import PackStream.Proofs.Datum.UnusableKey
import PackStream.Proofs.Datum.Pairing
import PackStream.Proofs.Arrival
import PackStream.Proofs.Encoding.Warnings
import PackStream.Proofs.Encoding.Header
import PackStream.Proofs.Encoding.Integer
import PackStream.Proofs.Value.Narrowing
import PackStream.Proofs.Decoding.Report
import PackStream.Proofs.Diagnostics
import PackStream.Proofs.Number.Widening
import PackStream.Proofs.Narrowing

import Conformance.Binary.Arithmetic
import Conformance.Binary.Basic
import Conformance.Binary.Format
import Conformance.Binary.Narrowing
import Conformance.Binary.Order
import Conformance.Binary.Power
import Conformance.Binary.Rounding
import Conformance.Bytes
import Conformance.Comparison.Deviation
import Conformance.Comparison.Method
import Conformance.Comparison.Options
import Conformance.Comparison.Rule
import Conformance.Comparison.Session
import Conformance.Comparison.Summary
import Conformance.Comparison.Verdict
import Conformance.Comparison.WordDistance
import Conformance.Count
import Conformance.Decimal.Basic
import Conformance.Decimal.Reading
import Conformance.Decimal.Shortest
import Conformance.Decimal.Style
import Conformance.Geometry.Dim3
import Conformance.Geometry.Grid
import Conformance.Geometry.ImageShape
import Conformance.Image.Addressing
import Conformance.Image.Color
import Conformance.Image.Fault
import Conformance.Image.Format
import Conformance.Image.Raster
import Conformance.Image.Reduction
import Conformance.Image.Sampler
import Conformance.Image.Sampling
import Conformance.Image.Texel
import Conformance.Json.Codec
import Conformance.Json.Document
import Conformance.Json.Number
import Conformance.Json.Reader
import Conformance.Json.Schema
import Conformance.Json.Text
import Conformance.Log
import Conformance.Proofs.Binary.Exactness
import Conformance.Proofs.Binary.Magnitude
import Conformance.Proofs.Binary.Pattern
import Conformance.Proofs.Blocks
import Conformance.Proofs.Bytes
import Conformance.Proofs.Comparison.Error
import Conformance.Proofs.Comparison.Lanes
import Conformance.Proofs.Comparison.Run
import Conformance.Proofs.Geometry.Box
import Conformance.Proofs.Geometry.Grid
import Conformance.Proofs.Geometry.Workgroups
import Conformance.Proofs.Image.Accesses
import Conformance.Proofs.Image.ChannelWord
import Conformance.Proofs.Image.Layout
import Conformance.Proofs.Image.Quantization
import Conformance.Proofs.Image.Sampling
import Conformance.Proofs.Image.TexelColor
import Conformance.Proofs.Image.TexelRoundTrip
import Conformance.Proofs.Validation.Buffer
import Conformance.Proofs.Validation.Packed
import Conformance.Proofs.Value.Lanes
import Conformance.Proofs.Value.RoundTrip
import Conformance.Text.Blank
import Conformance.Text.Hex
import Conformance.Text.Label
import Conformance.Transfer
import Conformance.Validation
import Conformance.Value.Basic
import Conformance.Value.Buffer
import Conformance.Value.Lanes
import Conformance.Value.Text
import Conformance.Value.Type
import Conformance.Word
import Conformance.Proofs.Value.Buffer
import Conformance.Proofs.Value.Payload
import Conformance.Proofs.Binary.Monotonicity
import Conformance.Proofs.Comparison.Distance
import Conformance.Proofs.Comparison.Provenance
import Conformance.Proofs.Comparison.Largest
import Conformance.Proofs.Binary.Number
import Conformance.Proofs.Comparison.Limits
import Conformance.Proofs.Comparison.Stream
import Conformance.Proofs.Comparison.Tolerance
import Conformance.Proofs.Comparison.Loosening
import Conformance.Proofs.Validation.Identity
import Conformance.Proofs.Binary.Floor
import Conformance.Proofs.Image.NearestRead
import Conformance.Proofs.Image.Saturation
import Conformance.Proofs.Image.StoredTexel
import Conformance.Proofs.Validation.Reads
import Conformance.Proofs.Comparison.Tokens
import Conformance.Proofs.Comparison.Options
import Conformance.Proofs.Decimal.Significant
import Conformance.Proofs.Decimal.Written
import Conformance.Proofs.Text.Hex
import Conformance.Proofs.Binary.Text
import Conformance.Proofs.Value.PlainText
import Conformance.Proofs.Value.DetailText
import Conformance.Proofs.Binary.Nearest
import Conformance.Proofs.Comparison.Ulps
import Conformance.Proofs.Binary.WholePart
import Conformance.Proofs.Image.Addressing
import Conformance.Proofs.Image.IndexRange
import Conformance.Proofs.Word
import Conformance.Proofs.Binary.HalfFields
import Conformance.Proofs.Binary.Narrowing
import Conformance.Proofs.Binary.Results
import Conformance.Proofs.Image.Repetition
import Conformance.Proofs.Image.Layers
import Conformance.Proofs.Image.Blending
import Conformance.Proofs.Image.LinearRead
import Conformance.Proofs.Image.TexelCenters
import Conformance.Proofs.Comparison.Exact
import Conformance.Proofs.Image.NormalizedCode
import Conformance.Proofs.Image.NormalizedTexel
import Conformance.Proofs.Image.Reduction
import Conformance.Proofs.Image.Interpolation
import Conformance.Proofs.Image.Locality
import Conformance.Proofs.Binary.Key
import Conformance.Proofs.Comparison.Flushing
import Conformance.Comparison.InPlace
import Conformance.Proofs.Comparison.Atomicity
import Conformance.Proofs.Validation.Totality
import Conformance.Proofs.Geometry.Waves
import Conformance.Proofs.Geometry.Volume
import Conformance.Proofs.Image.TightLayout
import Conformance.Proofs.Comparison.Powers

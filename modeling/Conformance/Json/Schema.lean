import Conformance.Comparison.Options
import Conformance.Geometry.Grid
import Conformance.Image.Color
import Conformance.Image.Sampler
import Conformance.Json.Codec

namespace Conformance.Codec

def dim3 : Codec Dim3 where
  read j := do
    let [x, y, z] ← j.fields? ["x", "y", "z"] | none
    return ⟨← uint64.read x, ← uint64.read y, ← uint64.read z⟩
  write p := .ofMembers [("x", uint64.write p.x), ("y", uint64.write p.y), ("z", uint64.write p.z)]

def grid : Codec Grid where
  read j := do
    let [rank, extent, workgroup] ← j.fields? ["n_dim", "grid_size", "workgroup_size"] | none
    return ⟨← uint32.read rank, ← dim3.read extent, ← dim3.read workgroup⟩
  write g := .ofMembers [("n_dim", uint32.write g.rank), ("grid_size", dim3.write g.extent),
    ("workgroup_size", dim3.write g.workgroup)]

def imageKindLabel : ImageKind → String
  | .line => "D1"
  | .plane => "D2"
  | .volume => "D3"
  | .lineArray => "D1Array"
  | .planeArray => "D2Array"
  | .lineBuffer => "D1Buffer"
  | .planeDepth => "D2Depth"
  | .planeArrayDepth => "D2ArrayDepth"

def imageKind : Codec ImageKind := label ImageKind.all imageKindLabel

def imageSize : Codec ImageSize where
  read j := do
    let [width, height, depth, layers] ← j.fields? ["width", "height", "depth", "array_size"] | none
    return ⟨← uint32.read width, ← uint32.read height, ← uint32.read depth, ← uint32.read layers⟩
  write s := .ofMembers [("width", uint32.write s.width), ("height", uint32.write s.height),
    ("depth", uint32.write s.depth), ("array_size", uint32.write s.layers)]

def imageShape : Codec ImageShape where
  read j := do
    let [kind, size] ← j.fields? ["kind", "size"] | none
    return ⟨← imageKind.read kind, ← imageSize.read size⟩
  write s := .ofMembers [("kind", imageKind.write s.kind), ("size", imageSize.write s.size)]

def valueType : Codec ValueType := label ValueType.all fun ty => Text.label ty.name

/-- Half precision stands as the number of its pattern. -/
def halfBits : Codec Half := whole 0 UInt16.size (fun n => .ofBits .half n.toNat) fun x => x.toBits

def method : Codec Comparison.Method := label Comparison.Method.all Comparison.Method.name

def orElse {α : Type} (c : Codec α) (default : α) : Option Json → Option α
  | some j => c.read j
  | none => some default

def options : Codec Comparison.Options where
  read j := do
    let names := ["method", "precision", "flush_denorms", "min_limit", "max_limit"]
    let [m, precision, flush, minimum, maximum] ← j.given? names | none
    let default : Comparison.Options := {}
    let limit := optional (binary .double)
    return ⟨← method.orElse default.method m, ← limit.orElse default.precision precision,
      ← bool.orElse default.flush flush, ← limit.orElse default.minimum minimum,
      ← limit.orElse default.maximum maximum⟩
  write o :=
    let limit := optional (binary .double)
    .ofMembers [("method", method.write o.method), ("precision", limit.write o.precision),
      ("flush_denorms", bool.write o.flush), ("min_limit", limit.write o.minimum),
      ("max_limit", limit.write o.maximum)]

def channelOrder : Codec ChannelOrder := label ChannelOrder.all fun o => Text.label o.name

def channelType : Codec ChannelType := label ChannelType.all fun t => Text.label t.name

def addressingMode : Codec AddressingMode := label AddressingMode.all fun m => Text.label m.name

def filterMode : Codec FilterMode := label FilterMode.all fun m => Text.label m.name

def coordinateMode : Codec CoordinateMode := label CoordinateMode.all fun m => Text.label m.name

def sampler : Codec Sampler where
  read j := do
    let [addressing, filter, coords] ← j.fields? ["addressing", "filter", "coords"] | none
    return ⟨← addressingMode.read addressing, ← filterMode.read filter,
      ← coordinateMode.read coords⟩
  write s := .ofMembers [("addressing", addressingMode.write s.addressing),
    ("filter", filterMode.write s.filter), ("coords", coordinateMode.write s.coordinates)]

def rgba : Codec (Rgba Single) where
  read j := do
    let [r, g, b, a] ← (← j.fields? ["r", "g", "b", "a"]).mapM (binary .single).read | none
    return ⟨r, g, b, a⟩
  write c :=
    let channel := (binary .single).write
    .ofMembers [("r", channel c.r), ("g", channel c.g), ("b", channel c.b), ("a", channel c.a)]

def channels {α : Type} (c : Codec α) : Codec (Rgba α) where
  read
    | .array items => do
      let [r, g, b, a] ← items.mapM c.read | none
      return ⟨r, g, b, a⟩
    | _ => none
  write color := .array (color.toList.map c.write)

def color : Codec Color where
  read j := do
    match ← j.variant? with
    | ("Float", j) => return .float (← rgba.read j)
    | ("Signed", j) => return .signed (← (channels int32).read j)
    | ("Unsigned", j) => return .unsigned (← (channels uint32).read j)
    | _ => none
  write c :=
    let carried :=
      match c with
      | .float c => rgba.write c
      | .signed c => (channels int32).write c
      | .unsigned c => (channels uint32).write c
    .ofMembers [(c.kind.name, carried)]

end Conformance.Codec

import Baselines.Json.Decode
import Baselines.Name

/-!
# Names as JSON

The identity of a baseline as a JSON object, and back.
-/

namespace Baselines.Name

def toJson (n : Name) : Json :=
  .obj [("test_name", .str n.test),
    ("options", .arr (n.options.map fun o => .arr [.str o.1, .str o.2])),
    ("variant", .ofOption (fun v => .int v) n.variant),
    ("stage", .ofOption (fun s => .str s.label) n.stage),
    ("extension", .str n.extension)]

def decodeStage : Json.Decoder Stage :=
  Json.Decode.choice ([Stage.normal, .minified].map fun s => (s.label, s))

def decode : Json.Decoder Name :=
  let text := Json.Decode.text
  Json.Decode.record "FixtureName"
    [⟨"test_name", false, fun j n => (text j).map fun t => { n with test := t }⟩,
      ⟨"options", false, fun j n =>
        (Json.Decode.list (Json.Decode.pair text text) j).map fun os => { n with options := os }⟩,
      ⟨"variant", true, fun j n =>
        (Json.Decode.option (Json.Decode.natBelow variantBound "u32") j).map fun v =>
          { n with variant := v }⟩,
      ⟨"stage", true, fun j n =>
        (Json.Decode.option decodeStage j).map fun s => { n with stage := s }⟩,
      ⟨"extension", false, fun j n => (text j).map fun t => { n with extension := t }⟩]
    { test := [], options := [], variant := none, stage := none, extension := [] }

end Baselines.Name

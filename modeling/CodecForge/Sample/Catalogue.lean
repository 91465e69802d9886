import CodecForge.Sample.Basic

/-!
# The catalogue of samples

Structures of every kind that a codec is generated for: with public and private fields, with
constructors and factories that can fail or need a dependency, with embedded bases, assigned field
by field, with one canonical value, and as subtypes of a base.
-/

namespace CodecForge.Sample

open CodecForge.Wire

/-- The record of a numbered entity. -/
def entity (id revision : Value) : Value := .record [("id", id), ("revision", revision)]

/-- The argument of the given name. -/
def argument (args : List (String × Value)) (name : String) : Value :=
  (args.lookup name).getD .unit

/-- The whole number that a value is. -/
def wholeNumber : Value → Int
  | .integer n => n
  | _ => 0

/-- Makes a disc of the parts of its base and its radius. -/
def makeDisc (args : List (String × Value)) : Except String Value :=
  .ok (.record [("base", entity (argument args "id") (argument args "revision")),
    ("radius", argument args "radius")])

/-- Makes a port, whose number has 16 bits. -/
def makePort (args : List (String × Value)) : Except String Value :=
  let number := wholeNumber (argument args "number")
  if 0 ≤ number && number < 65536 then .ok (.record [("number", .integer number)])
  else .error s!"port {number} out of range"

/-- Makes a gate, whose level may not be above the scale. -/
def makeGate (args : List (String × Value)) : Except String Value :=
  let level := wholeNumber (argument args "level")
  let scale := wholeNumber ((argument args "units").field "scale")
  if level > scale then .error s!"level {level} above {scale}"
  else .ok (.record [("open", argument args "open"), ("level", .integer level)])

/-- Structures that are parts of others and that dependencies are. -/
def parts : List Specimen := [
  { source := "pub struct Entity { pub id: u32, revision: i32 }" },
  { source := "pub struct Header { pub seq: u32, checksum: u8 }" },
  { source := "pub struct Units { pub scale: i32 }" },
  { source := "pub struct Arena { pub name: String }" },
  { source := "pub struct Ctx { pub site: String }" }]

/-- Structures whose values are made by a function. -/
def made : List Specimen := [
  { source := "pub struct Point { pub x: i32, pub y: i32 }" },
  { source := "#[autocodec(name = \"vault::Secret\")]" ++
      "pub struct Secret { key: u64, flag: bool, note: String }" },
  { source := "#[autocodec(constructor(name = \"labelled\", params(label, x, y)))]" ++
      "pub struct Marker { x: i32, y: i32, label: String }" },
  { source := "#[autocodec(accessors = \"station, celsius, is_valid\")]" ++
      "#[autocodec(factory(name = \"create\", params(station, celsius, valid)))]" ++
      "pub struct Reading { station: String, celsius: i32, valid: bool }" },
  { source := "#[autocodec(constructor(name = \"new\", params(id, revision, radius)))]" ++
      "pub struct Disc { #[autocodec(parent(pub id: u32, revision: i32))] pub base: Entity,
        pub radius: i32 }"
    make := makeDisc },
  { source := "#[autocodec(constructor(name = \"new\"," ++
      " params(raw, dependency(units: Units))))]" ++
      "pub struct Scaled { raw: i32, units: Units }" },
  { source := "pub struct Slot { index: i32, #[autocodec(dependency)] arena: Arena }" },
  { source := "#[autocodec(name = \"geo::Linked\", dependency = \"Units\")]" ++
      "pub struct Linked { pub n: i32, tail: Option<i16> }" },
  { source := "#[autocodec(constructor(name = \"try_new\", params(number)," ++
      " returns = \"Result<Self, PortError>\"))]" ++
      "pub struct Port { number: i32 }"
    make := makePort },
  { source := "#[autocodec(factory(name = \"at_level\"," ++
      " params(level, open, dependency(units: Units)), returns = \"Result<Self, GateError>\"))]" ++
      "pub struct Gate { open: bool, level: i64 }"
    make := makeGate },
  { source := "pub struct Route { pub name: String, pub origin: Point, waypoints: Vec<Point>,
        closed: [bool; 2], weights: [i32; 3], labels: [String; 2], note: Option<String> }" },
  { source := "#[autocodec(name = \"forest::Tree\")]" ++
      "pub struct Tree { label: String, kids: Vec<Tree>, left: Option<Box<Tree>> }" },
  { source := "pub struct Grid \x7b cells: [[i32; 2]; 2], r#type: u16, pair: (u8, String),
        marks: BTreeMap<String, Vec<bool>>, ratio: f64, gap: (), flags: [bool; 0],
        port: Port \x7d"
    hidden := ["gap", "flags"] }]

/-- Structures whose public fields are assigned, with their default values. -/
def assigned : List Specimen := [
  { source := "#[autocodec(strategy = \"public_fields\")]" ++
      "pub struct Settings { pub name: String, pub retries: i32, pub verbose: bool,
        pub tags: Vec<String>, pub mask: [i32; 2], cache_hits: u64,
        pub marker: PhantomData<u8> }"
    default := .record [("name", .text ""), ("retries", .integer 0), ("verbose", .bool false),
      ("tags", .list []), ("mask", .list [.integer 0, .integer 0]), ("cache_hits", .integer 0),
      ("marker", .unit)] },
  { source := "#[autocodec(strategy = \"public_fields\")]" ++
      "pub struct Packet { #[autocodec(parent(pub seq: u32, checksum: u8))] pub header: Header,
        pub payload: Vec<u8> }"
    default := .record [("header", .record [("seq", .integer 0), ("checksum", .integer 0)]),
      ("payload", .list [])] },
  { source := "#[autocodec(strategy = \"public_fields\", name = \"cfg::Tuned\"," ++
      " dependency = \"Arena\")]" ++
      "pub struct Tuned { pub gain: f32, level: i32, pub on: [bool; 3] }"
    default := .record [("gain", .float 0x3fc00000), ("level", .integer (-7)),
      ("on", .list [.bool true, .bool true, .bool true])] },
  { source := "#[autocodec(strategy = \"public_fields\")] pub struct Opaque { inner: u64 }"
    default := .record [("inner", .integer 0)] }]

/-- Structures with one canonical value, which is shown with whether it is that value. -/
def canonical : List Specimen := [
  { source := "#[autocodec(strategy = \"singleton\", instance = \"ROOT\")] pub struct Root;"
    canonical := .record [("same", .bool true)] },
  { source := "#[autocodec(strategy = \"singleton\", instance = \"Defaults::SHARED\")]" ++
      "pub struct Defaults { level: i32, name: String }"
    canonical := .record [("same", .bool true), ("level", .integer 3),
      ("name", .text "defaults")] }]

/-- Structures that are subtypes of bases. -/
def subtypes : List Specimen := [
  { source := "pub struct Square { pub side: i32 }" },
  { source := "#[autocodec(name = \"shapes::Rect\")]" ++
      "pub struct Rect { pub width: i32, pub height: i32, pub label: String }" },
  { source := "#[autocodec(name = \"shapes::Rect\")] pub struct Twin { pub n: u8 }" },
  { source := "#[autocodec(name = \"costarring\")] pub struct Star { pub n: u8 }" },
  { source := "#[autocodec(name = \"liquid\")] pub struct Liquid { pub n: u16 }" },
  { source := "pub struct Widget { id: u32, #[autocodec(dependency)] ctx: Ctx }" },
  { source := "#[autocodec(name = \"gear::Gizmo\")]" ++
      "pub struct Gizmo { id: u32, #[autocodec(dependency)] units: Units }" }]

/-- Every sample. -/
def all : List Specimen := parts ++ made ++ assigned ++ canonical ++ subtypes

/-- A base with the name that its codec reports, which may be given, and with its dependency. -/
structure Base where
  name : String
  qualifiedName : Option String := none
  dependency : Option String := none

/-- The bases. -/
def bases : List Base := [
  { name := "Shape" },
  { name := "Tile", qualifiedName := some "tiles::Tile" },
  { name := "Gadget", dependency := some "Ctx" }]

end CodecForge.Sample

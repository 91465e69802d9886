import CodecForge.Code.CodecUnit
import CodecForge.Source.Grammar.Field

/-!
# The tokens of a codec

How the bodies and the unit of a codec are written.  The paths of the runtime library and the code
for values that the codec does not write itself are parameters: a `Marshaller` gives the latter.
-/

namespace CodecForge.Code

open CodecForge.Source CodecForge.Plan

/-- The code for values that are left to the codec of their type. -/
structure Marshaller where
  /-- Writes the value that a name refers to. -/
  encode : Ty → Ident → Tokens
  /-- Binds a name to the next value. -/
  decode : Ty → Ident → Tokens

/-- Names that are looked up in the runtime library at `runtime`. -/
def inRuntime (runtime : Path) (names : String) : Tokens :=
  runtime.tokens ++ Token.words (":: " ++ names)

/-- Identifiers with points between them. -/
def dotted (path : List Ident) : Tokens := sepBy (Token.op ".") (path.map fun i => [i.token])

/-- A text as a literal. -/
def textLiteral (s : String) : Token := .literal (Text.quote s)

namespace Marshaller

/-- Leaves a value to the marshalling of the runtime library. -/
def ofRuntime (runtime : Path) : Marshaller where
  encode type binding :=
    Token.words "<" ++ type.tokens ++ Token.words "as" ++
      inRuntime runtime "Marshal > :: encode" ++
      [Token.parens ([binding.token] ++ Token.words ", writer")] ++ Token.words "? ;"
  decode type binding :=
    Token.words "let" ++ [binding.token] ++ Token.words ":" ++ type.tokens ++
      Token.words "= <" ++ type.tokens ++ Token.words "as" ++
      inRuntime runtime "Marshal > :: decode" ++ [Token.parens (Token.words "reader")] ++
      Token.words "? ;"

/-- Leaves a value to two functions. -/
def ofFunctions (encoder decoder : Ident) : Marshaller where
  encode _ binding :=
    [encoder.token, Token.parens ([binding.token] ++ Token.words ", writer")] ++ Token.words "? ;"
  decode type binding :=
    Token.words "let" ++ [binding.token] ++ Token.words ":" ++ type.tokens ++
      Token.words "=" ++ [decoder.token, Token.parens (Token.words "reader")] ++ Token.words "? ;"

end Marshaller

/-! ### Bodies -/

/-- The suffix of the functions that write and read a scalar. -/
def scalarName : Scalar → String
  | .bool => "bool"
  | .int32 => "i32"

/-- The statement that writes the scalar that a name refers to. -/
def writeScalar (s : Scalar) (name : Token) : Tokens :=
  Token.words s!"writer . write_{scalarName s}" ++ [Token.parens (Token.words "*" ++ [name])] ++
    Token.words ";"

/-- The expression that reads a scalar. -/
def readScalar (s : Scalar) : Tokens :=
  Token.words s!"reader . read_{scalarName s}" ++ [Token.parens []] ++ Token.words "?"

/-- The scalar that an array is filled with before its elements are read. -/
def scalarZero : Scalar → Token
  | .bool => .ident "false"
  | .int32 => .literal "0i32"

/-- The tokens of a statement that writes. -/
def writeTokens (m : Marshaller) (transfer : Transfer) (type : Ty) (binding : Ident) : Tokens :=
  match transfer with
  | .scalar s => writeScalar s binding.token
  | .elements s _ =>
    Token.words "for __element in" ++ [binding.token] ++ Token.words ". iter" ++
      [Token.parens [], Token.braces (writeScalar s (.ident "__element"))]
  | .marshalled => m.encode type binding

/-- The tokens of a statement that reads. -/
def readTokens (m : Marshaller) (transfer : Transfer) (type : Ty) (binding : Ident) : Tokens :=
  match transfer with
  | .scalar s =>
    Token.words "let" ++ [binding.token] ++ Token.words s!": {scalarName s} =" ++ readScalar s ++
      Token.words ";"
  | .elements s len =>
    Token.words "let mut" ++ [binding.token] ++ Token.words ":" ++ type.tokens ++
      Token.words "=" ++ [Token.brackets ([scalarZero s] ++ Token.words ";" ++ len.tokens)] ++
      Token.words "; for __slot in" ++ [binding.token] ++ Token.words ". iter_mut" ++
      [Token.parens [], Token.braces (Token.words "* __slot =" ++ readScalar s ++ Token.words ";")]
  | .marshalled => m.decode type binding

/-- The head of a statement that borrows a value of the type. -/
def borrowHead (binding : Ident) (type : Ty) : Tokens :=
  Token.words "let" ++ [binding.token] ++ Token.words ": &" ++ type.tokens ++ Token.words "="

/-- The tokens of a statement of an encoder. -/
def EncodeStep.tokens (m : Marshaller) : EncodeStep → Tokens
  | .call binding method =>
    Token.words "let" ++ [binding.token] ++ Token.words "= value ." ++
      [method.token, Token.parens []] ++ Token.words ";"
  | .borrow binding type =>
    borrowHead binding type ++ Token.words ":: core :: borrow :: Borrow :: borrow" ++
      [Token.parens (Token.words "&" ++ [binding.token])] ++ Token.words ";"
  | .borrowField binding type path =>
    borrowHead binding type ++ Token.words "& value ." ++ dotted path ++ Token.words ";"
  | .borrowSlot binding type slot =>
    borrowHead binding type ++ Token.words "self ." ++ [slot.token] ++ Token.words ". get" ++
      [Token.parens (Token.words "value")] ++ Token.words ";"
  | .write transfer type binding => writeTokens m transfer type binding

/-- The call of the codec for the name of its type. -/
def ownName (runtime : Path) : Tokens :=
  inRuntime runtime "ObjectCodec :: encoded_type_name" ++ [Token.parens (Token.words "self")]

/-- The tokens of a statement of a decoder. -/
def DecodeStep.tokens (runtime : Path) (m : Marshaller) : DecodeStep → Tokens
  | .read transfer type binding => readTokens m transfer type binding
  | .takeDependency =>
    let missing := inRuntime runtime "SerializationError :: missing_dependency" ++
      [Token.parens (ownName runtime)]
    Token.words "let __dependency = dependency . ok_or_else" ++
      [Token.parens (Token.words "||" ++ [Token.braces missing])] ++ Token.words "? ;"
  | .startDefault type =>
    Token.words "#" ++
      [Token.brackets (Token.words "allow" ++ [Token.parens (Token.words "unused_mut")])] ++
      Token.words "let mut __instance :" ++ type.tokens ++
      Token.words "= :: core :: default :: Default :: default" ++ [Token.parens []] ++
      Token.words ";"
  | .assign path binding =>
    Token.words "__instance ." ++ dotted path ++ Token.words "=" ++ [binding.token] ++
      Token.words ";"

/-- The tokens of an argument. -/
def Argument.tokens : Argument → Tokens
  | .dependency =>
    Token.words ":: core :: clone :: Clone :: clone" ++
      [Token.parens (Token.words "__dependency")]
  | .bound binding => [binding.token]
  | .absent => []

/-- A value as a success. -/
def success (value : Tokens) : Tokens :=
  Token.words ":: core :: result :: Result :: Ok" ++ [Token.parens value]

/-- The call that makes a value. -/
def makeTokens (type : Path) (maker : Maker) (args : List (Ident × Argument)) : Tokens :=
  match maker with
  | .structLiteral =>
    let part (arg : Ident × Argument) := [arg.1.token] ++ Token.words ":" ++ arg.2.tokens
    type.tokens ++ [Token.braces (commas (args.map part) false)]
  | .associated name =>
    Token.words "<" ++ type.tokens ++ Token.words "> ::" ++
      [name.token, Token.parens (commas (args.map (·.2.tokens)) false)]

/-- The tokens of the expression that a decoder ends in. -/
def Outcome.tokens (runtime : Path) : Outcome → Tokens
  | .make type maker args fallible =>
    let made := makeTokens type maker args
    if fallible then
      let wrapped := inRuntime runtime "SerializationError :: instantiator" ++
        [Token.parens (ownName runtime ++ Token.words ", cause")]
      made ++ Token.words ". map_err" ++
        [Token.parens (Token.words "| cause |" ++ [Token.braces wrapped])]
    else success made
  | .assigned => success (Token.words "__instance")
  | .canonical instancePath => success (Token.words "&" ++ instancePath.tokens)

/-- The dependency as a value of any type. -/
def erasedDependency : Tokens :=
  Token.words "dependency . map" ++
    [Token.parens (Token.words "| dependency | dependency as & dyn :: core :: any :: Any")]

/-- The tokens of the body of an encoder. -/
def EncodeBody.tokens (runtime : Path) (m : Marshaller) : EncodeBody → Tokens
  | .steps parts => parts.flatMap (EncodeStep.tokens m)
  | .registry base =>
    Token.words "self . registry . serialize :: < dyn" ++ base.tokens ++ Token.words ">" ++
      [Token.parens (inRuntime runtime "AsAny :: as_any" ++
        [Token.parens (Token.words "& * * value")] ++ Token.words ", writer ," ++
        erasedDependency ++ Token.words ",")] ++ Token.words "? ;"

/-- The tokens of the body of a decoder. -/
def DecodeBody.tokens (runtime : Path) (m : Marshaller) : DecodeBody → Tokens
  | .steps parts outcome =>
    parts.flatMap (DecodeStep.tokens runtime m) ++ outcome.tokens runtime
  | .registry base =>
    Token.words "self . registry . deserialize :: < dyn" ++ base.tokens ++ Token.words ">" ++
      [Token.parens (Token.words "reader ," ++ erasedDependency ++ Token.words ",")]

/-! ### The unit -/

/-- The tokens of the type that a codec encodes. -/
def Encoded.tokens : Encoded → Tokens
  | .itself type => type.tokens
  | .boxed base => Token.words ":: std :: boxed :: Box < dyn" ++ base.tokens ++ Token.words ">"
  | .shared type => Token.words "& 'static" ++ type.tokens

/-- What names and surrounds the codec of a type. -/
structure Frame where
  runtime : Path
  marshaller : Marshaller
  /-- The path of the type. -/
  type : Path
  codec : Ident
  visibility : Visibility
  /-- The documentation of the codec. -/
  summary : String
  /-- The tokens of the name that the codec reports. -/
  reportedName : Tokens

/-- An attribute with its inside. -/
def attr (inside : Tokens) : Tokens := Token.words "#" ++ [Token.brackets inside]

/-- The attribute that derives the given traits. -/
def derives (traits : String) : Tokens :=
  attr (Token.words "derive" ++ [Token.parens (Token.words traits)])

/-- The attribute that allows what a warning is about. -/
def allowing (warning : String) : Tokens :=
  attr (Token.words "allow" ++ [Token.parens (Token.words warning)])

/-- A line of documentation as an attribute. -/
def docLine (line : String) : Tokens :=
  attr (Token.words "doc =" ++ [.literal ("r\"" ++ line ++ "\"")])

namespace Frame

variable (fr : Frame)

/-- Names in the runtime library. -/
def rt (names : String) : Tokens := inRuntime fr.runtime names

/-- The documentation and the derived traits of the codec, and the head of its structure. -/
def structHead (traits : String) : Tokens :=
  attr (Token.words "doc =" ++ [textLiteral fr.summary]) ++ derives traits ++
    fr.visibility.tokens ++ Token.words "struct" ++ [fr.codec.token]

/-- An implementation block of the codec. -/
def implBlock (inside : Tokens) : Tokens :=
  Token.words "impl" ++ [fr.codec.token, Token.braces inside]

/-- The definition of a codec without state. -/
def statelessTokens : Tokens :=
  fr.structHead "Debug , Clone , Copy , Default" ++ Token.words ";" ++
    fr.implBlock (Token.words "pub const fn new" ++ [Token.parens []] ++ Token.words "-> Self" ++
      [Token.braces (Token.words "Self")])

/-- The type of a slot. -/
def slotField (s : Slot) : Tokens :=
  [s.name.token] ++ Token.words ":" ++ fr.rt "FieldOffset <" ++ fr.type.tokens ++
    Token.words "," ++ s.type.tokens ++ Token.words "> ,"

/-- The check that the declared type of a slot is that of the field. -/
def slotWitness (s : Slot) : Token :=
  Token.braces (allowing "dead_code" ++ Token.words "fn __declared_field_type" ++
    [Token.parens (Token.words "value : &" ++ fr.type.tokens)] ++ Token.words "-> * const" ++
    s.type.tokens ++
    [Token.braces (Token.words ":: core :: ptr :: addr_of !" ++
      [Token.parens (Token.words "value ." ++ dotted s.path)])])

/-- The value of a slot: the offset of its field, which is checked. -/
def slotInit (s : Slot) : Tokens :=
  let offset := fr.rt "FieldOffset :: <" ++ fr.type.tokens ++ Token.words "," ++ s.type.tokens ++
    Token.words "> :: new" ++
    [Token.parens (Token.words ":: core :: mem :: offset_of !" ++
      [Token.parens (fr.type.tokens ++ Token.words "," ++ dotted s.path)] ++ Token.words "," ++
      [textLiteral s.declaring] ++ Token.words "," ++ [textLiteral s.field] ++ Token.words ",")]
  let message := [Token.literal "\"invalid offset for field \""] ++ Token.words "," ++
    [textLiteral s.declaring] ++ Token.words "," ++ [.literal "\"::\""] ++ Token.words "," ++
    [textLiteral s.field] ++ Token.words ","
  let arms := Token.words ":: core :: result :: Result :: Ok" ++
    [Token.parens (Token.words "offset")] ++ Token.words "=> offset ," ++
    Token.words ":: core :: result :: Result :: Err" ++ [Token.parens (Token.words "_")] ++
    Token.words "=> :: core :: panic !" ++
    [Token.parens (Token.words ":: core :: concat !" ++ [Token.parens message])] ++
    Token.words ","
  [s.name.token] ++ Token.words ": match unsafe" ++ [Token.braces offset, Token.braces arms] ++
    Token.words ","

/-- The definition of a codec that holds offsets. -/
def offsetsTokens (slots : List Slot) : Tokens :=
  let make := slots.map fr.slotWitness ++ Token.words "Self" ++
    [Token.braces (slots.flatMap fr.slotInit)]
  fr.structHead "Debug , Clone , Copy" ++ [Token.braces (slots.flatMap fr.slotField)] ++
    fr.implBlock (docLine " # Panics" ++ docLine "" ++
      docLine " Panics if a field offset fails validation." ++
      Token.words "pub const fn new" ++ [Token.parens []] ++ Token.words "-> Self" ++
      [Token.braces make]) ++
    Token.words "impl :: core :: default :: Default for" ++ [fr.codec.token,
      Token.braces (Token.words "fn default" ++ [Token.parens []] ++ Token.words "-> Self" ++
        [Token.braces (Token.words "Self :: new" ++ [Token.parens []])])]

/-- The definition of a codec that holds a registry. -/
def registryTokens : Tokens :=
  let shared := Token.words ":: std :: sync :: Arc <" ++ fr.rt "CodecRegistry >"
  fr.structHead "Debug , Clone" ++
    [Token.braces (Token.words "registry :" ++ shared ++ Token.words ",")] ++
    fr.implBlock (Token.words "pub fn new" ++
      [Token.parens (Token.words "registry :" ++ shared)] ++ Token.words "-> Self" ++
      [Token.braces (Token.words "Self" ++ [Token.braces (Token.words "registry")])] ++
      Token.words "pub fn registry" ++ [Token.parens (Token.words "& self")] ++
      Token.words "-> &" ++ shared ++ [Token.braces (Token.words "& self . registry")])

/-- The definition of a codec. -/
def stateTokens : CodecState → Tokens
  | .stateless => fr.statelessTokens
  | .offsets slots => fr.offsetsTokens slots
  | .registry => fr.registryTokens

/-- The parameter for the output. -/
def writerParam : Tokens := Token.words "writer : & mut" ++ fr.rt "CodecWriter"

/-- The parameter for the input. -/
def readerParam : Tokens := Token.words "reader : & mut" ++ fr.rt "CodecReader < '_ >"

/-- The result of an encoder. -/
def encodeResult : Tokens :=
  Token.words "->" ++ fr.rt "Result <" ++ [Token.parens []] ++ Token.words ">"

/-- The implementation that makes a type a part of other types. -/
def nestingTokens : Tokens :=
  let constant := Token.words "const CODEC :" ++ [fr.codec.token] ++ Token.words "=" ++
    [fr.codec.token] ++ Token.words ":: new" ++ [Token.parens []] ++ Token.words ";"
  let none := Token.words ":: core :: option :: Option :: None"
  Token.words "impl" ++ fr.rt "Marshal for" ++ fr.type.tokens ++ [Token.braces (
    Token.words "fn encode" ++ [Token.parens (Token.words "& self ," ++ fr.writerParam)] ++
    fr.encodeResult ++
    [Token.braces (constant ++ fr.rt "ObjectCodec :: serialize" ++
      [Token.parens (Token.words "& CODEC , self ," ++ none ++ Token.words ", writer")])] ++
    Token.words "fn decode" ++ [Token.parens fr.readerParam] ++ Token.words "->" ++
    fr.rt "Result < Self >" ++
    [Token.braces (constant ++ fr.rt "ObjectCodec :: deserialize" ++
      [Token.parens (Token.words "& CODEC , reader ," ++ none)])])]

/-- The tokens of the dependency; where there is none, a type stands for that. -/
def dependencyTokens (u : CodecUnit) : Tokens :=
  match u.dependency with
  | some t => t.tokens
  | none => fr.rt "NoDependency"

/-- The tokens of the encoder. -/
def encodeTokens (u : CodecUnit) : Tokens := u.encode.tokens fr.runtime fr.marshaller

/-- The tokens of the decoder. -/
def decodeTokens (u : CodecUnit) : Tokens := u.decode.tokens fr.runtime fr.marshaller

/-- The tokens of a codec. -/
def tokens (u : CodecUnit) : Tokens :=
  let encoded := u.encoded.tokens
  let dependency := fr.dependencyTokens u
  let dependencyParam := Token.words "dependency : :: core :: option :: Option < &" ++
    dependency ++ Token.words ">"
  let encoder := allowing "unused_variables" ++ Token.words "fn serialize" ++
    [Token.parens (Token.words "& self , value : &" ++ encoded ++ Token.words "," ++
      dependencyParam ++ Token.words "," ++ fr.writerParam ++ Token.words ",")] ++
    fr.encodeResult ++ [Token.braces (fr.encodeTokens u ++ success [Token.parens []])]
  let decoder := allowing "unused_variables" ++ Token.words "fn deserialize" ++
    [Token.parens (Token.words "& self ," ++ fr.readerParam ++ Token.words "," ++
      dependencyParam ++ Token.words ",")] ++
    Token.words "->" ++ fr.rt "Result <" ++ encoded ++ Token.words ">" ++
    [Token.braces (fr.decodeTokens u)]
  fr.stateTokens u.state ++
    Token.words "impl" ++ fr.rt "ObjectCodec for" ++ [fr.codec.token, Token.braces (
      Token.words "type Encoded =" ++ encoded ++ Token.words "; type Dependency =" ++
      dependency ++ Token.words "; fn encoded_type_name" ++
      [Token.parens (Token.words "& self")] ++ Token.words "-> & 'static str" ++
      [Token.braces fr.reportedName] ++ encoder ++ decoder)] ++
    (if u.isNestable then fr.nestingTokens else [])

end Frame

end CodecForge.Code

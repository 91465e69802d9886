import CodecForge.Source.Grammar.Field

/-!
# Reading items

The readers of items, kept as their spelling: functions, constants, declared types, traits,
implementations, modules and what they hold.  A few forms that only name something without
defining it, or that state more than the others, are kept as they are written, blanks between
marks included; `readSpelled` reads those.
-/

namespace CodecForge.Source

namespace Grammar

open CodecForge.Source.Parser

variable (g : Grammar)

/-- A name, or `_` in its place. -/
def readNameOrBlank : Speller := do
  require (← peek fun ts => beginsIdent ts || beginsWord "_" ts)
  return [(← anyWord).token]

/-- Reads a spelling; where `p` has none to give, the tokens stay as they are. -/
def readSpelled (p : Parser (Option Tokens)) : Speller := do
  let before ← get
  match ← p with
  | some tokens => return tokens
  | none => return before.take (before.length - (← get).length)

/-! ### Functions -/

/-- The receiver of a method. -/
def readReceiver : Speller := do
  if ← peek (beginsOp "&") then
    seq [op "&", when beginsLifetime (return [.lifetime (← lifetime)]), word? "mut", word "self"]
  else seq [word? "mut", word "self", when (beginsOp ":") (seq [op ":", g.typeTokens .allowed])]

/-- A receiver comes next. -/
def beginsReceiver (ts : Tokens) : Bool :=
  let ts := if beginsOp "&" ts && !beginsOp "&&" ts then
      let ts := ts.drop 1
      if beginsLifetime ts then ts.drop 1 else ts
    else ts
  let ts := if beginsWord "mut" ts then ts.drop 1 else ts
  beginsWord "self" ts && !beginsOp "::" (ts.drop 1)

/-- What a parameter of a function stands for. -/
inductive ParamKind where
  | receiver
  | typed
  | variadic
  deriving DecidableEq, Repr

/-- A parameter of a function.  A type with arguments may stand alone: its name is `_` then. -/
def readParam : Parser (ParamKind × Tokens) := do
  let attributes ← g.readOuterAttributes
  if ← peek beginsReceiver then return (.receiver, attributes ++ (← g.readReceiver))
  else if ← peek (beginsOp "...") then return (.variadic, attributes ++ (← op "..."))
  else if ← peek fun ts => beginsIdent ts && beginsOp "<" (ts.drop 1) then
    return (.typed, attributes ++ .ident "_" :: Token.op ":" ++ (← g.typeTokens .allowed))
  else
    let name ← seq [g.single, op ":"]
    if ← peek (beginsOp "...") then return (.variadic, attributes ++ name ++ (← op "..."))
    else return (.typed, attributes ++ name ++ (← g.typeTokens .allowed))

/-- The parameters of a function: only the first may be a receiver, and only the last variadic. -/
def readParams : Speller := do
  let (params, trailing) ← listed g.readParam
  require ((params.drop 1).all (·.1 ≠ .receiver) && params.dropLast.all (·.1 ≠ .variadic))
  return commas (params.map Prod.snd) trailing

/-- A function comes next, with the words before `fn` in their order; `safe` may be one of them
if `foreign`. -/
def beginsFunction (foreign : Bool) (ts : Tokens) : Bool :=
  let skip (w : String) (ts : Tokens) := if beginsWord w ts then ts.drop 1 else ts
  let ts := skip "async" (skip "const" ts)
  let ts := if foreign && beginsWord "safe" ts then ts.drop 1 else skip "unsafe" ts
  beginsWord "fn" <| if beginsWord "extern" ts then
      ts.drop (if readAbi.isText (ts.drop 1) then 2 else 1)
    else ts

/-- The head of a function, up to its body. -/
def readFunctionHead (foreign : Bool) : Speller := do
  let guarded (ts : Tokens) := foreign && beginsWord "safe" ts
  let front ← seq [word? "const", word? "async", do
    if ← peek guarded then word "safe" else word? "unsafe", readAbi, word "fn",
    return [(← ident).token]]
  let (_, generics) ← g.readGenerics
  seq [return front ++ generics, grouped .paren g.readParams, g.readResult .allowed, g.readWhere]

/-! ### Constants and types -/

/-- A constant, with its value or without.  It has no spelling of its own with generic parameters or
a `where` clause, nor without a value unless that is `optional`. -/
def readConst (optional : Bool) : Parser (Option Tokens) := do
  let head ← seq [word "const", readNameOrBlank]
  let generic ← peek (beginsOp "<")
  let _ ← g.readGenerics
  let type ← seq [op ":", g.typeTokens .allowed]
  let value ← when (beginsOp "=") (seq [op "=", g.expr .joined])
  let bounded ← peek (beginsWord "where")
  let _ ← g.readWhere
  let last ← op ";"
  if generic || bounded || (value.isEmpty && !optional) then return none
  else return some (head ++ type ++ value ++ last)

/-- A `static` item.  Without a type or a value it has no spelling of its own. -/
def readStatic : Parser (Option Tokens) := do
  let head ← seq [word "static", word? "mut", return [(← ident).token]]
  let type ← if ← peek (beginsOp "=") then pure [] else seq [op ":", g.typeTokens .allowed]
  let value ← when (beginsOp "=") (seq [op "=", g.expr .joined])
  let last ← op ";"
  if type.isEmpty || value.isEmpty then return none
  else return some (head ++ type ++ value ++ last)

/-- Bounds up to a point where `stop` holds, as their spelling. -/
def readBoundsUpTo (stop : Tokens → Bool) : Speller := do
  let (bounds, trailing) ← separated stop "+" g.readBound
  return sepBy (Token.op "+") bounds ++ (if trailing then Token.op "+" else [])

/-- A name for a type, from its keyword to its semicolon. -/
structure TypeAlias where
  tokens : Tokens
  /-- A colon stands behind the name. -/
  isBounded : Bool
  /-- It says which type it is. -/
  isDefined : Bool

/-- A name for a type.  Its `where` clause stands before the type if `early`, behind it if
`late`. -/
def readTypeAlias (early late : Bool) : Parser TypeAlias := do
  let head ← seq [word "type", return [(← ident).token]]
  let (_, generics) ← g.readGenerics
  let isBounded ← peek (beginsOp ":")
  let stop (ts : Tokens) := beginsWord "where" ts || beginsOp "=" ts || beginsOp ";" ts
  let bounds ← readColonBounds (!stop ·) (g.readBoundsUpTo stop)
  let hasEarly ← peek fun ts => early && beginsWord "where" ts
  let before ← if hasEarly then g.readWhere else pure []
  let value ← when (beginsOp "=") (seq [op "=", g.typeTokens .allowed])
  let behind ← if late && !hasEarly then g.readWhere else pure []
  let last ← op ";"
  return ⟨head ++ generics ++ bounds ++ before ++ value ++ behind ++ last, isBounded,
    !value.isEmpty⟩

/-- A declared type: a structure, an enumeration or a union. -/
def readTypeItem : Speller := do
  let form ← anyWord
  let name ← ident
  let (_, generics) ← g.readGenerics
  let (_, body) ← g.readTypeBody form.text
  return form.token :: name.token :: generics ++ body

/-! ### Macro calls and imports -/

/-- A macro call among items; a semicolon ends it unless it has braces.  If `named`, a name may
stand before the brackets. -/
def readCallItem (named : Bool) : Speller := do
  let (rooted, names) ← readPlainPath
  let path := (PathOf.ofNames rooted (names.map Ident.text)).tokens
  let bang ← op "!"
  let name ← when (fun ts => named && (beginsIdent ts || beginsWord "try" ts))
    (return [(← anyWord).token])
  let braced ← peek (beginsGroup .brace)
  let call ← anyGroup
  return path ++ bang ++ name ++ call ++ (← if braced then pure [] else op ";")

/-- What a `use` item names. -/
def readUseTree : Nat → Speller
  | 0 => failure
  | fuel + 1 => do
    if ← peek (beginsOp "*") then op "*"
    else if ← peek (beginsGroup .brace) then
      grouped .brace (commaList (seq [op? "::", readUseTree fuel]))
    else
      require (← peek fun ts =>
        beginsIdent ts || ["self", "super", "crate", "try"].any (beginsWord · ts))
      let name ← anyWord
      if ← peek (beginsOp "::") then return name.token :: (← seq [op "::", readUseTree fuel])
      else return name.token :: (← when (beginsWord "as") (seq [word "as", readNameOrBlank]))

/-- A `use` item. -/
def readUse : Speller := seq [word "use", op? "::", do readUseTree ((← get).length + 1), op ";"]

/-- An `extern crate` item. -/
def readExternCrate : Speller := seq [word "extern", word "crate", do
  if ← peek (beginsWord "self") then word "self" else return [(← ident).token],
  when (beginsWord "as") (seq [word "as", readNameOrBlank]), op ";"]

/-! ### Traits, implementations and foreign blocks -/

/-- A function, a constant, a type or a macro call that belongs to a trait if `inTrait`, and to an
implementation otherwise.  In a trait it has no spelling of its own behind a visibility or
`default`, in an implementation if it defines nothing. -/
def readAssociated (inTrait : Bool) : Speller := readSpelled do
  let attributes ← g.readOuterAttributes
  let visibility := (← readVisibility).tokens
  let front := visibility ++ (← when (fun ts =>
    beginsWord "default" ts && (inTrait || !beginsOp "!" (ts.drop 1))) (word "default"))
  let spelled (tokens : Tokens) : Option Tokens :=
    if inTrait && !front.isEmpty then none else some (attributes ++ front ++ tokens)
  if ← peek (beginsFunction false) then
    let head ← g.readFunctionHead false
    let bodiless ← peek (beginsOp ";")
    let body ← if bodiless then op ";" else g.block
    if bodiless && !inTrait then return none else return spelled (head ++ body)
  else if ← peek (beginsWord "const") then return (← g.readConst inTrait).bind spelled
  else if ← peek (beginsWord "type") then
    let item ← g.readTypeAlias false true
    if inTrait || (item.isDefined && !item.isBounded) then return spelled item.tokens
    else return none
  else
    require front.isEmpty
    return spelled (← readCallItem false)

/-- What the braces of a trait or an implementation hold. -/
def readAssociatedItems (inTrait : Bool) : Speller := seq [g.readInnerAttributes,
  return (← many (!·.isEmpty) (g.readAssociated inTrait)).flatten]

/-- The bounds of a trait, up to a `where` clause or the braces. -/
def readTraitBounds : Parser (List Bound × Bool) := do
  if (← op? ":").isEmpty then return ([], false)
  else
    let stop (ts : Tokens) := beginsWord "where" ts || beginsGroup .brace ts
    separated stop "+" (g.readBoundParts g.readArg)

/-- The tokens of a trait's bounds with the colon before them, and with a `+` behind them if
`trailing`. -/
def traitBoundsTokens (bounds : List Bound) (trailing : Bool) : Tokens :=
  if bounds.isEmpty then [] else
    Token.op ":" ++ sepBy (Token.op "+") (bounds.map Bound.tokens) ++
      (if trailing then Token.op "+" else [])

/-- A trait, or a name for bounds. -/
def readTrait : Speller := do
  let front ← seq [word? "unsafe", word? "auto", word "trait"]
  let name ← ident
  let (_, generics) ← g.readGenerics
  let head := front ++ name.token :: generics
  if front.length = 1 && (← peek (beginsOp "=")) then
    let stop (ts : Tokens) := beginsWord "where" ts || beginsOp ";" ts
    seq [return head, op "=", g.readBoundsUpTo stop, g.readWhere, op ";"]
  else
    let (bounds, trailing) ← g.readTraitBounds
    seq [return head ++ traitBoundsTokens bounds trailing, g.readWhere,
      grouped .brace (g.readAssociatedItems true)]

/-- Generic parameters of an implementation come next, not a qualified path. -/
def beginsGenerics (ts : Tokens) : Bool :=
  let inner := ts.drop 1
  let behind := inner.drop 1
  beginsOp "<" ts && (beginsOp ">" inner || beginsOp "#" inner || beginsWord "const" inner ||
    ((beginsLifetime inner || beginsIdent inner) &&
      ((beginsOp ":" behind && !beginsOp "::" behind) || beginsOp "," behind ||
        beginsOp ">" behind || beginsOp "=" behind)))

/-- An implementation.  It has no spelling of its own if it is `visible`, constant, or for a trait
that is no path. -/
def readImplementation (visible : Bool) : Parser (Option Tokens) := do
  let front ← seq [word? "default", word? "unsafe", word "impl"]
  let generics ← if ← peek beginsGenerics then (do return (← g.readGenerics).2) else pure []
  let constant ← when (fun ts => beginsWord "const" ts ||
    (beginsOp "?" ts && beginsWord "const" (ts.drop 1))) (seq [op? "?", word "const"])
  let negation ← when (fun ts => beginsOp "!" ts && !beginsGroup .brace (ts.drop 1)) (op "!")
  let first ← g.type .allowed
  let target ← when (beginsWord "for") (seq [word "for", g.typeTokens .allowed])
  let rest ← seq [g.readWhere, grouped .brace (g.readAssociatedItems false)]
  let isPath := match first with
    | .path _ => true
    | _ => false
  if visible || !constant.isEmpty || (!target.isEmpty && !isPath) then return none
  else return some (front ++ generics ++ negation ++ first.tokens ++ target ++ rest)

/-- A function, a variable, a type or a macro call of a foreign block.  With a body, a value or the
word `safe` it has no spelling of its own. -/
def readForeignItem : Speller := readSpelled do
  let attributes ← g.readOuterAttributes
  let visibility := (← readVisibility).tokens
  let spelled (tokens : Tokens) : Option Tokens := some (attributes ++ visibility ++ tokens)
  let guarded (ts : Tokens) := beginsWord "unsafe" ts || beginsWord "safe" ts
  if ← peek (beginsFunction true) then
    let head ← g.readFunctionHead true
    if ← peek (beginsGroup .brace) then
      let _ ← g.block
      return none
    else
      let last ← op ";"
      return if head.any fun | .ident "safe" => true | _ => false then none
        else spelled (head ++ last)
  else if ← peek fun ts => beginsWord "static" (if guarded ts then ts.drop 1 else ts) then
    let guard ← when guarded (return [← token])
    let head ← seq [word "static", word? "mut", return [(← ident).token], op ":",
      g.typeTokens .allowed]
    let value ← when (beginsOp "=") (seq [op "=", g.expr .joined])
    let last ← op ";"
    if guard.isEmpty && value.isEmpty then return spelled (head ++ last) else return none
  else if ← peek (beginsWord "type") then
    let item ← g.readTypeAlias true true
    if item.isBounded || item.isDefined then return none else return spelled item.tokens
  else
    require visibility.isEmpty
    return spelled (← readCallItem false)

/-- A block of foreign items. -/
def readForeignBlock : Speller := seq [word? "unsafe", readAbi, grouped .brace (seq [
  g.readInnerAttributes, return (← many (!·.isEmpty) g.readForeignItem).flatten])]

/-! ### Items -/

/-- A module, with its items or without. -/
def readModule : Speller := seq [word? "unsafe", word "mod", return [(← ident).token], do
  if ← peek (beginsOp ";") then op ";"
  else grouped .brace (seq [g.readInnerAttributes,
    return (← many (!·.isEmpty) g.item).flatten])]

/-- A macro that is declared with the word `macro`. -/
def readMacro : Speller := seq [word "macro", return [(← ident).token],
  when (beginsGroup .paren) anyGroup, grouped .brace remainder]

/-- An item. -/
def readItem : Speller := readSpelled do
  let attributes ← g.readOuterAttributes
  let visibility := (← readVisibility).tokens
  let front := attributes ++ visibility
  let spelled (p : Speller) : Parser (Option Tokens) := return some (front ++ (← p))
  let ts ← get
  let unguarded := if beginsWord "unsafe" ts then ts.drop 1 else ts
  if beginsFunction false ts then
    let head ← g.readFunctionHead false
    if ← peek (beginsOp ";") then
      let _ ← op ";"
      return none
    else spelled (return head ++ (← g.block))
  else if beginsWord "extern" ts && beginsWord "crate" (ts.drop 1) then spelled readExternCrate
  else if beginsWord "extern" unguarded then spelled g.readForeignBlock
  else if beginsWord "use" ts then spelled readUse
  else if beginsWord "static" ts then return (← g.readStatic).map (front ++ ·)
  else if beginsWord "const" ts then return (← g.readConst false).map (front ++ ·)
  else if beginsWord "mod" unguarded then spelled g.readModule
  else if beginsWord "type" ts then
    let item ← g.readTypeAlias true false
    return if item.isDefined && !item.isBounded then some (front ++ item.tokens) else none
  else if beginsWord "struct" ts || beginsWord "enum" ts ||
      (beginsWord "union" ts && beginsIdent (ts.drop 1)) then spelled g.readTypeItem
  else if beginsWord "trait" unguarded ||
      (beginsWord "auto" unguarded && beginsWord "trait" (unguarded.drop 1)) then
    spelled g.readTrait
  else if beginsWord "impl" unguarded ||
      (beginsWord "default" ts && !beginsOp "!" (ts.drop 1)) then
    return (← g.readImplementation !visibility.isEmpty).map (front ++ ·)
  else if beginsWord "macro" ts then
    let _ ← readMacro
    return none
  else
    require visibility.isEmpty
    spelled (readCallItem true)

end Grammar

end CodecForge.Source

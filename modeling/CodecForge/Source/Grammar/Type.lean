import CodecForge.Source.Grammar.Attribute

/-!
# Reading types

The readers of types and of what they are made of: paths with their arguments, bounds, signatures
of functions and generic parameters.  `Grammar.readType` reads a type given the readers `g` for
what lies one level deeper.
-/

namespace CodecForge.Source

namespace Grammar

open CodecForge.Source.Parser

variable (g : Grammar)

/-- A type as its spelling. -/
def typeTokens (sums : Sums) : Speller := return (← g.type sums).tokens

/-! ### Paths -/

/-- A constant among generic arguments: a literal, a block or a name. -/
def readConstArg : Speller := do
  if ← peek beginsLiteral then literal
  else if ← peek beginsIdent then return [(← ident).token]
  else g.block

/-- The result of a signature. -/
def readResult (sums : Sums) : Speller := when (beginsOp "->") (seq [op "->", g.typeTokens sums])

/-- A parameter list of types in parentheses with its result. -/
def readSignature : Speller :=
  seq [grouped .paren (commaList (g.typeTokens .allowed)), g.readResult .refused]

/-- A colon with bounds behind it, if any; a colon alone leaves no trace. -/
def readColonBounds (test : Tokens → Bool) (bounds : Speller) : Speller := do
  if ← peek (beginsOp ":") then
    let colon ← op ":"
    if ← peek test then return colon ++ (← bounds) else return []
  else return []

/-- The lifetimes of `for<…>`, each with its bounds. -/
def readBinder : Speller := do
  let one : Speller := do
    let name ← lifetime
    return .lifetime name :: (← readColonBounds beginsLifetime do
      let (parts, trailing) ← separated (fun ts => !beginsLifetime ts) "+"
        (return [.lifetime (← lifetime)])
      return sepBy (Token.op "+") parts ++ (if trailing then Token.op "+" else []))
  let keyword ← word "for"
  let opening ← op "<"
  let (parts, trailing) ← separated (beginsOp ">") "," one
  return keyword ++ opening ++ commas parts trailing ++ (← op ">")

/-- Reads the arguments between angle brackets with the reader `arg`. -/
def readAngled (arg : Parser (GenericArg Ty)) (turbofish : Bool) : Parser (Arguments Ty) := do
  let _ ← op "<"
  let (args, trailing) ← separated (beginsOp ">") "," arg
  let _ ← op ">"
  return .angled turbofish args trailing

/-- One segment of a path.  In an expression only `::<` opens arguments, since `<` compares. -/
def readSegment (arg : Parser (GenericArg Ty)) (inExpr : Bool) : Parser (Segment Ty) := do
  let bare (ts : Tokens) :=
    beginsWord "super" ts || beginsWord "self" ts || beginsWord "crate" ts || beginsWord "try" ts
  if ← peek bare then return ⟨← anyWord, .absent⟩
  else
    let name ← if ← peek (beginsWord "Self") then anyWord else ident
    let less (ts : Tokens) := beginsOp "<" ts && !beginsOp "<=" ts && !beginsOp "<<=" ts
    if !inExpr && (← peek less) then return ⟨name, ← readAngled arg false⟩
    else if (← peek (beginsOp "::")) && (← peekAfter 2 (beginsOp "<")) then
      let _ ← op "::"
      return ⟨name, ← readAngled arg true⟩
    else return ⟨name, .absent⟩

/-- The further segments of a path; `::` before a parenthesis belongs to a signature. -/
def readSegments (arg : Parser (GenericArg Ty)) (inExpr : Bool) : Parser (List (Segment Ty)) := do
  let goesOn (ts : Tokens) := beginsOp "::" ts && !beginsGroup .paren (ts.drop 2)
  let first ← readSegment arg inExpr
  let others ← many goesOn (do
    let _ ← op "::"
    readSegment arg inExpr)
  return first :: others

/-- A path. -/
def readPathWith (arg : Parser (GenericArg Ty)) (inExpr : Bool) : Parser Path := do
  let rooted ← peek (beginsOp "::")
  let _ ← op? "::"
  return ⟨rooted, ← readSegments arg inExpr⟩

/-- A bound of a type: its spelling, and the last name of the trait path if it is a trait. -/
structure Bound where
  tokens : Tokens
  trait : Option Ident

/-- A bound: a lifetime, or a trait path, in parentheses or not, with `?` and `for<…>` before it
and with a signature behind it. -/
def readBoundParts (arg : Parser (GenericArg Ty)) : Parser Bound := do
  let trait : Parser Bound := do
    let binder ← when (beginsWord "for") readBinder
    let question ← op? "?"
    let binder ← if binder.isEmpty then when (beginsWord "for") readBinder else pure binder
    let path ← readPathWith arg false
    let last := path.segments.getLast?
    let plain := (last.map fun s => s.args.isEmpty).getD false
    let signature ← if plain && (← peek fun ts => beginsGroup .paren ts ||
        (beginsOp "::" ts && beginsGroup .paren (ts.drop 2))) then do
      let _ ← op? "::"
      g.readSignature
    else pure []
    return ⟨question ++ binder ++ path.tokens ++ signature, last.map Segment.ident⟩
  if ← peek beginsLifetime then return ⟨[.lifetime (← lifetime)], none⟩
  else if ← peek (beginsGroup .paren) then
    let bound ← group .paren trait
    return { bound with tokens := [Token.parens bound.tokens] }
  else trait

/-- A bound as its spelling. -/
def readBoundWith (arg : Parser (GenericArg Ty)) : Speller :=
  return (← g.readBoundParts arg).tokens

/-- What may begin a further bound after `+`. -/
def beginsBound (ts : Tokens) : Bool :=
  beginsAnyWord ts || beginsOp "::" ts || beginsOp "?" ts || beginsLifetime ts ||
    beginsGroup .paren ts

/-- Bounds with `+` between them, at least one, and the `+` that may stand at the end. -/
def readBoundList (bound : Speller) (sums : Sums) : Parser (List Tokens × Tokens) := do
  let first ← bound
  match sums with
  | .refused => return ([first], [])
  | .allowed =>
    let more (ts : Tokens) := beginsOp "+" ts && beginsBound (ts.drop 1)
    let others ← many more (do
      let _ ← op "+"
      bound)
    return (first :: others, ← op? "+")

/-- Bounds with `+` between them as their spelling. -/
def readBoundsWith (bound : Speller) (sums : Sums) : Speller := do
  let (bounds, last) ← readBoundList bound sums
  return sepBy (Token.op "+") bounds ++ last

/-- Bounds one of which is a trait. -/
def readTraitsWith (bound : Speller) (sums : Sums) : Speller := do
  let (bounds, last) ← readBoundList bound sums
  require (bounds.any fun b => !(beginsLifetime b || beginsWord "use" b))
  return sepBy (Token.op "+") bounds ++ last

/-- A type that is one plain name with or without arguments. -/
def soleName? : Ty → Option (Segment Ty)
  | .path ⟨false, [s]⟩ =>
    match s.args with
    | .signature _ => none
    | _ => some s
  | _ => none

/-- The bounds of an associated item between angle brackets; they may be absent. -/
def readConstraint (bound : Speller) : Speller := do
  let stop (ts : Tokens) := beginsOp "," ts || beginsOp ">" ts
  if ← peek stop then return []
  else
    let first ← bound
    let others ← many (fun ts => beginsOp "+" ts && !stop (ts.drop 1)) (seq [op "+", bound])
    return first ++ others.flatten ++ (← op? "+")

/-- One argument between angle brackets, at most `fuel` levels of bounds deep. -/
def readArgFor : Nat → Parser (GenericArg Ty)
  | 0 => failure
  | fuel + 1 => do
    if (← peek beginsLifetime) && !(← peekAfter 1 (beginsOp "+")) then return .lifetime (← lifetime)
    else if ← peek fun ts => beginsLiteral ts || beginsGroup .brace ts then
      return .other (← g.readConstArg)
    else
      let t ← g.type .allowed
      match soleName? t with
      | none => return .type t
      | some name =>
        if ← peek (beginsOp "=") then
          let equals ← op "="
          let value ← if ← peek fun ts => beginsLiteral ts || beginsGroup .brace ts then
            g.readConstArg
          else g.typeTokens .allowed
          return .other (segmentTokens name ++ equals ++ value)
        else if ← peek (beginsOp ":") then
          let colon ← op ":"
          return .other (segmentTokens name ++ colon ++
            (← readConstraint (g.readBoundWith (readArgFor fuel))))
        else return .type t

/-- One argument between angle brackets. -/
def readArg : Parser (GenericArg Ty) := do
  g.readArgFor ((← get).length + 1)

/-- A bound. -/
def readBound : Speller := g.readBoundWith g.readArg

/-- Bounds with `+` between them. -/
def readBounds (sums : Sums) : Speller := readBoundsWith g.readBound sums

/-- What an `impl` captures: lifetimes and names between angle brackets. -/
def readCapture : Speller := do
  let one : Parser (Bool × Tokens) := do
    if ← peek beginsLifetime then return (true, [.lifetime (← lifetime)])
    else
      require (← peek fun ts => beginsIdent ts || beginsWord "Self" ts)
      return (false, [(← anyWord).token])
  let opening ← seq [word "use", op "<"]
  let (params, trailing) ← separated (beginsOp ">") "," one
  return opening ++ angledTokens params trailing ++ (← op ">")

/-- A bound of an `impl`, or what it captures. -/
def readImplBound : Speller := do
  if ← peek (beginsWord "use") then readCapture else g.readBound

/-- A path in a type. -/
def readPath : Parser Path := readPathWith g.readArg false

/-- A path or a qualified path, in a type or in an expression. -/
def readQualifiedPath (inExpr : Bool) : Parser Ty := do
  if ← peek (beginsOp "<") then
    let _ ← op "<"
    let self ← g.type .allowed
    let trait ← if ← peek (beginsWord "as") then
        (do
          let _ ← word "as"
          return some (← g.readPath))
      else pure none
    let _ ← op ">"
    let _ ← op "::"
    let first ← readSegment g.readArg inExpr
    let others ← many (beginsOp "::") (do
      let _ ← op "::"
      readSegment g.readArg inExpr)
    return .qualified self trait (first :: others)
  else return .path (← readPathWith g.readArg inExpr)

/-! ### Types -/

/-- The foreign interface that a function belongs to. -/
def readAbi : Speller := when (beginsWord "extern") (seq [word "extern", when isText literal])
where
  /-- A literal text comes next. -/
  isText : Tokens → Bool
    | .literal text :: _ => text.toList.head? = some '"' || text.toList.head? = some 'r'
    | _ => false

/-- A function type. -/
def readFunctionType : Speller := do
  let named (ts : Tokens) := (beginsIdent ts || beginsWord "_" ts || beginsWord "self" ts) &&
    beginsOp ":" (ts.drop 1) && !beginsOp "::" (ts.drop 1)
  let name : Speller := when named (do return [(← anyWord).token] ++ (← op ":"))
  let param : Speller := seq [g.readOuterAttributes, name, do
    if ← peek (beginsOp "...") then
      let dots ← op "..."
      require (← peek fun ts => ts.isEmpty || (beginsOp "," ts && ts.length = 1))
      return dots
    else g.typeTokens .allowed]
  seq [word? "unsafe", readAbi, word "fn", grouped .paren (commaList param), g.readResult .refused]

/-- The sum of bounds that begins with `first`, whose `+` comes next. -/
def readSum (first : Tokens) : Speller := do
  let more (ts : Tokens) := beginsOp "+" ts && beginsBound (ts.drop 1)
  let others ← many more (seq [op "+", g.readBound])
  return first ++ others.flatten ++ (← op? "+")

/-- A type in parentheses: the empty tuple, a tuple, a bound, or a type with brackets around it. -/
def readParenthesised (sums : Sums) : Parser Ty := do
  let inside ← group .paren remainder
  if inside.isEmpty then return .tuple [] false
  else if beginsLifetime inside then
    let bounds ← (all (g.readBounds .allowed) inside : Option Tokens)
    return .paren (.other .traitObject bounds)
  else if beginsOp "?" inside then
    let bound ← (all g.readBound inside : Option Tokens)
    return .other .traitObject (← g.readSum [Token.parens bound])
  else
    let (elems, trailing) ← (all (listed (g.type .allowed)) inside : Option (List Ty × Bool))
    match elems with
    | [inner] =>
      if trailing then return .tuple elems true
      else if sums = .allowed && (← peek (beginsOp "+")) && bracketable inner then
        return .other .traitObject (← g.readSum [Token.parens inner.tokens])
      else return .paren inner
    | _ => return .tuple elems trailing
where
  /-- A bound that may stand in parentheses at the head of a sum. -/
  bracketable : Ty → Bool
    | .path _ => true
    | _ => false

/-- A type that begins with a path: the path, a macro call, or a sum of bounds. -/
def readNamed (sums : Sums) (binder : Tokens) : Parser Ty := do
  let t ← g.readQualifiedPath false
  match t with
  | .path p =>
    let modStyle := p.segments.all fun s => match s.args with
      | .absent => true
      | _ => false
    if modStyle && (← peek fun ts => beginsOp "!" ts && !beginsOp "!=" ts) then
      return .other .invocation (p.tokens ++ (← op "!") ++ (← anyGroup))
    else if !binder.isEmpty || (sums = .allowed && (← peek (beginsOp "+"))) then
      let first := binder ++ p.tokens
      match sums with
      | .allowed => return .other .traitObject (← g.readSum first)
      | .refused => return .other .traitObject first
    else return t
  | _ => return t

/-- A type. -/
def readType (sums : Sums) : Parser Ty := do
  let binder ← when (beginsWord "for") readBinder
  let functional (ts : Tokens) :=
    beginsWord "fn" ts || beginsWord "unsafe" ts || beginsWord "extern" ts
  let named (ts : Tokens) :=
    beginsIdent ts || beginsWord "super" ts || beginsWord "self" ts || beginsWord "Self" ts ||
      beginsWord "crate" ts || beginsOp "::" ts || beginsOp "<" ts
  if !binder.isEmpty && !(← peek fun ts => functional ts ||
      (named ts && !beginsOp "::" ts && !beginsOp "<" ts)) then failure
  else if ← peek (beginsGroup .paren) then g.readParenthesised sums
  else if ← peek functional then return .other .function (binder ++ (← g.readFunctionType))
  else if ← peek named then g.readNamed sums binder
  else if ← peek (beginsWord "dyn") then
    let keyword ← word "dyn"
    let star ← op? "*"
    let bounds ← readTraitsWith g.readBound sums
    return .other (if star.isEmpty then .traitObject else .verbatim) (keyword ++ star ++ bounds)
  else if ← peek (beginsGroup .bracket) then
    let inside : Parser Ty := do
      let elem ← g.type .allowed
      if ← peek (beginsOp ";") then
        let _ ← op ";"
        return .array elem ⟨← g.expr .joined⟩
      else return .other .slice [Token.brackets elem.tokens]
    group .bracket inside
  else if ← peek (beginsOp "*") then
    let star ← op "*"
    let kind ← if ← peek (beginsWord "const") then word "const" else word "mut"
    return .other .pointer (star ++ kind ++ (← g.typeTokens .refused))
  else if ← peek (beginsOp "&") then
    let parts := [op "&", when beginsLifetime (return [.lifetime (← lifetime)]), word? "mut",
      g.typeTokens .refused]
    return .other .reference (← seq parts)
  else if ← peek fun ts => beginsOp "!" ts && !beginsOp "=" ts then
    return .other .never (← op "!")
  else if ← peek (beginsWord "impl") then
    let keyword ← word "impl"
    let bounds ← readTraitsWith g.readImplBound sums
    return .other .implTrait (keyword ++ bounds)
  else if ← peek (beginsWord "_") then return .other .inferred (← word "_")
  else if ← peek beginsLifetime then
    let bounds ← readTraitsWith g.readBound .allowed
    return .other .traitObject bounds
  else failure

/-! ### Generic parameters -/

/-- One generic parameter: whether it is a lifetime, and its spelling. -/
def readGenericParam : Parser (Bool × Tokens) := do
  let attributes ← g.readOuterAttributes
  if ← peek beginsLifetime then
    let name ← lifetime
    let bounds ← readColonBounds beginsLifetime
      (readBoundsWith (return [.lifetime (← lifetime)]) .allowed)
    return (true, attributes ++ .lifetime name :: bounds)
  else if ← peek (beginsWord "const") then
    let parts ← seq [word "const", return [(← ident).token], op ":", g.typeTokens .allowed,
      when (beginsOp "=") (seq [op "=", g.readConstArg])]
    return (false, attributes ++ parts)
  else
    let name ← ident
    let bounds ← readColonBounds beginsBound (g.readBounds .allowed)
    let value ← when (beginsOp "=") (seq [op "=", g.typeTokens .allowed])
    return (false, attributes ++ name.token :: bounds ++ value)

/-- Generic parameters between angle brackets, if any: how many, and their spelling.  Empty
brackets leave no trace, and lifetimes come before all other parameters. -/
def readGenerics : Parser (Nat × Tokens) := do
  if ← peek (beginsOp "<") then
    let opening ← op "<"
    let (params, trailing) ← separated (beginsOp ">") "," g.readGenericParam
    let closing ← op ">"
    if params.isEmpty then return (0, [])
    else return (params.length, opening ++ angledTokens params trailing ++ closing)
  else return (0, [])

/-- One predicate of a `where` clause. -/
def readWherePredicate : Speller := do
  if (← peek beginsLifetime) && (← peekAfter 1 (beginsOp ":")) then
    let name ← lifetime
    return .lifetime name :: (← seq [op ":",
      when beginsLifetime (readBoundsWith (return [.lifetime (← lifetime)]) .allowed)])
  else
    seq [when (beginsWord "for") readBinder, g.typeTokens .allowed, op ":",
      when beginsBound (g.readBounds .allowed)]

/-- A `where` clause, if any.  Without predicates it leaves no trace. -/
def readWhere : Speller := do
  if ← peek (beginsWord "where") then
    let keyword ← word "where"
    let stop (ts : Tokens) := ts.isEmpty || beginsGroup .brace ts || beginsOp ";" ts ||
      beginsOp "=" ts || (beginsOp ":" ts && !beginsOp "::" ts)
    let (predicates, trailing) ← separated stop "," g.readWherePredicate
    if predicates.isEmpty then return []
    else return keyword ++ commas predicates trailing
  else return []

end Grammar

end CodecForge.Source

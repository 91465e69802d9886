import CodecForge.Source.Grammar.Pattern

/-!
# Reading expressions

The reader of expressions, kept as their spelling.  What a reader must know of an expression
beyond its spelling is its `Shape`: a range or a comparison takes no further operator of its kind,
and an expression that ends in a block needs nothing behind it.
-/

namespace CodecForge.Source

/-- How tightly an operator binds. -/
inductive Binding where
  | lowest
  | assign
  | range
  | or
  | and
  | compare
  | bitOr
  | bitXor
  | bitAnd
  | shift
  | sum
  | product
  | cast
  deriving DecidableEq, Repr

/-- The rank of a binding; a higher one binds more tightly. -/
def Binding.rank : Binding → Nat
  | .lowest => 0
  | .assign => 1
  | .range => 2
  | .or => 3
  | .and => 4
  | .compare => 5
  | .bitOr => 6
  | .bitXor => 7
  | .bitAnd => 8
  | .shift => 9
  | .sum => 10
  | .product => 11
  | .cast => 12

/-- The operators between two operands, in the order in which they are looked for. -/
def binaryOperators : List (String × Binding) :=
  [("+=", .assign), ("-=", .assign), ("*=", .assign), ("/=", .assign), ("%=", .assign),
   ("^=", .assign), ("&=", .assign), ("|=", .assign), ("<<=", .assign), (">>=", .assign),
   ("&&", .and), ("||", .or), ("<<", .shift), (">>", .shift), ("==", .compare),
   ("<=", .compare), ("!=", .compare), (">=", .compare), ("+", .sum), ("-", .sum),
   ("*", .product), ("/", .product), ("%", .product), ("^", .bitXor), ("&", .bitAnd),
   ("|", .bitOr), ("<", .compare), (">", .compare)]

/-- The binary operator that comes next. -/
def nextOperator? (ts : Tokens) : Option (String × Binding) :=
  binaryOperators.find? fun o => beginsOp o.1 ts

/-- An assignment comes next. -/
def beginsAssign (ts : Tokens) : Bool := beginsOp "=" ts && !beginsOp "=>" ts

/-- How tightly what comes next binds. -/
def nextBinding (ts : Tokens) : Binding :=
  match nextOperator? ts with
  | some (_, b) => b
  | none =>
    if beginsAssign ts then .assign
    else if beginsOp ".." ts then .range
    else if beginsWord "as" ts then .cast
    else .lowest

/-- An expression may begin here. -/
def beginsExpr (ts : Tokens) : Bool :=
  (beginsAnyWord ts && !beginsWord "as" ts) || beginsGroup .paren ts || beginsGroup .bracket ts ||
    beginsGroup .brace ts || beginsLiteral ts || (beginsOp "!" ts && !beginsOp "!=" ts) ||
    (beginsOp "-" ts && !beginsOp "-=" ts && !beginsOp "->" ts) ||
    (beginsOp "*" ts && !beginsOp "*=" ts) || (beginsOp "|" ts && !beginsOp "|=" ts) ||
    (beginsOp "&" ts && !beginsOp "&=" ts) || beginsOp ".." ts ||
    (beginsOp "<" ts && !beginsOp "<=" ts && !beginsOp "<<=" ts) || beginsOp "::" ts ||
    beginsLifetime ts || beginsOp "#" ts

/-- No end of a range can begin here. -/
def endsOpenRange (braces : Braces) (ts : Tokens) : Bool :=
  ts.isEmpty || [",", ";", "?", "=>", "=", "+", "/", "%", "^", ">", "<=", "!=", "-=", "*=", "&=",
    "|=", "<<="].any (fun s => beginsOp s ts) || (beginsOp "." ts && !beginsOp ".." ts) ||
    (braces = .separate && beginsGroup .brace ts) || beginsWord "as" ts

namespace Grammar

open CodecForge.Source.Parser

variable (g : Grammar)

/-! ### Statements of control -/

/-- `else` with a block or a further `if`; at most `fuel` of them. -/
def readConditional : Nat → Speller
  | 0 => failure
  | fuel + 1 => seq [word "if", g.expr .separate, g.block,
      when (beginsWord "else") (seq [word "else", do
        if ← peek (beginsWord "if") then readConditional fuel else g.block])]

/-- A loop: `while`, `for` or `loop`. -/
def readLoop : Speller := do
  if ← peek (beginsWord "while") then seq [word "while", g.expr .separate, g.block]
  else if ← peek (beginsWord "for") then
    seq [word "for", g.pattern, word "in", g.expr .separate, g.block]
  else seq [word "loop", g.block]

/-- A label with a loop or a block. -/
def readLabelled : Speller := do
  let label ← lifetime
  let colon ← op ":"
  let body ← if ← peek (beginsGroup .brace) then g.block else g.readLoop
  return .lifetime label :: colon ++ body

/-- A closure. -/
def readClosure (braces : Braces) : Parser Spelled := do
  let param : Speller := seq [g.readOuterAttributes, g.single,
    when (beginsOp ":") (seq [op ":", g.typeTokens .allowed])]
  let front ← seq [when (beginsWord "for") readBinder, word? "const", word? "static",
    word? "async", word? "move", op "|"]
  let (params, trailing) ← separated (beginsOp "|") "," param
  let bar ← op "|"
  let head := front ++ commas params trailing ++ bar
  if ← peek (beginsOp "->") then
    return ⟨head ++ (← seq [op "->", g.typeTokens .allowed, g.block]), .plain⟩
  else return ⟨head ++ (← g.expr braces), .plain⟩

/-- One field of a structure value, or the base of the others. -/
def readFieldValue : Speller := do
  let attributes ← g.readOuterAttributes
  if ← peek (beginsOp "..") then
    return attributes ++ (← op "..") ++ (← when (!·.isEmpty) (g.expr .joined))
  else if ← peek fun ts => beginsOp ":" (ts.drop 1) && !beginsOp "::" (ts.drop 1) then
    return attributes ++ [← token] ++ (← op ":") ++ (← g.expr .joined)
  else return attributes ++ [(← ident).token]

/-- A path, a macro call or a structure value. -/
def readPathValue (braces : Braces) : Parser Spelled := do
  let path := (← g.readQualifiedPath true).tokens
  if ← peek fun ts => beginsOp "!" ts && !beginsOp "!=" ts && beginsAnyGroup (ts.drop 1) then
    let bang ← op "!"
    let shape := if ← peek (beginsGroup .brace) then Shape.bracedCall else .plain
    return ⟨path ++ bang ++ (← anyGroup), shape⟩
  else if braces = .joined && (← peek (beginsGroup .brace)) then
    return ⟨path ++ (← grouped .brace (commaList g.readFieldValue)), .plain⟩
  else return ⟨path, .plain⟩

/-- A list or a repetition in square brackets. -/
def readArrayValue : Speller := do
  if ← peek List.isEmpty then return []
  else
    let first ← g.expr .joined
    if ← peek (beginsOp ";") then return first ++ (← op ";") ++ (← g.expr .joined)
    else if ← atEnd then return first
    else
      let comma ← op ","
      return first ++ comma ++ (← commaList (g.expr .joined))

/-- One arm of a `match`; a comma must part it from the next unless it ends in a block. -/
def readArm : Speller := do
  let head ← seq [g.readOuterAttributes, g.pattern,
    when (beginsWord "if") (seq [word "if", g.expr .joined]), op "=>"]
  let value ← g.early
  if value.shape = .block || (← atEnd) then return head ++ value.tokens ++ (← op? ",")
  else return head ++ value.tokens ++ (← op ",")

/-- A `match`. -/
def readMatch : Speller := do
  let arms : Speller := return (← many (!·.isEmpty) g.readArm).flatten
  seq [word "match", g.expr .separate, grouped .brace arms]

/-- A word with an expression behind it or without. -/
def readJump (w : String) (braces : Braces) : Speller := do
  let keyword ← word w
  let label ← if w == "break" || w == "continue" then
    when beginsLifetime (return [.lifetime (← lifetime)]) else pure []
  let valued (ts : Tokens) :=
    beginsExpr ts && (braces = .joined || w != "break" || !beginsGroup .brace ts)
  if w == "continue" then return keyword ++ label
  else
    let inner := if w == "break" then braces else .joined
    return keyword ++ label ++ (← when valued (g.expr inner))

/-! ### Operands -/

/-- A number with a point in it comes next. -/
def beginsPointed : Tokens → Bool
  | .literal text :: _ => isNumber text && text.toList.contains '.'
  | _ => false

/-- The field numbers that a number such as `0.1` stands for, and whether a point ends it. -/
def readIndices : Parser (Tokens × Bool) := do
  match ← token with
  | .literal text =>
    let parts := (text.splitOn ".").filter (· != "")
    require (parts.all fun p => p.toList.all Char.isDigit)
    let open? := text.toList.getLast? == some '.'
    return (sepBy (Token.op ".") (parts.map fun p => [.literal p]) ++
      (if open? then Token.op "." else []), open?)
  | _ => failure

/-- The name or number of a field, with what is called on it. -/
def readMember : Speller := do
  if ← peek (beginsWord "await") then word "await"
  else if ← peek beginsIdent then
    let name ← ident
    let called (ts : Tokens) := beginsGroup .paren ts
    let arguments : Speller := grouped .paren (commaList (g.expr .joined))
    if ← peek (beginsOp "::") then
      let _ ← op "::"
      let turbofish ← readAngled g.readArg true
      return name.token :: argumentsTokens turbofish ++ (← arguments)
    else return name.token :: (← when called arguments)
  else literal

/-- What goes on with an operand: calls, fields, indices and `?`; at most `fuel` of them. -/
def readTrailers : Nat → Spelled → Parser Spelled
  | 0, e => return e
  | fuel + 1, e => do
    if ← peek (beginsGroup .paren) then
      let args ← grouped .paren (commaList (g.expr .joined))
      readTrailers fuel ⟨e.tokens ++ args, .plain⟩
    else if (← peek fun ts => beginsOp "." ts && !beginsOp ".." ts) && e.shape != .range then
      let point ← op "."
      if ← peek beginsPointed then
        let (numbers, goesOn) ← readIndices
        let whole := e.tokens ++ point ++ numbers
        if goesOn then readTrailers fuel ⟨whole ++ (← g.readMember), .plain⟩
        else readTrailers fuel ⟨whole, .plain⟩
      else readTrailers fuel ⟨e.tokens ++ point ++ (← g.readMember), .plain⟩
    else if ← peek (beginsGroup .bracket) then
      readTrailers fuel ⟨e.tokens ++ (← grouped .bracket (g.expr .joined)), .plain⟩
    else if (← peek (beginsOp "?")) && e.shape != .range then
      readTrailers fuel ⟨e.tokens ++ (← op "?"), .plain⟩
    else return e

/-- The dots of a range. -/
def readDots : Parser String := do
  if ← peek (beginsOp "..=") then
    let _ ← op "..="
    return "..="
  else
    require !(← peek (beginsOp "..."))
    let _ ← op ".."
    return ".."

/-- An expression that begins with a block, a loop or a condition. -/
def beginsBlockLike (ts : Tokens) : Bool :=
  ["if", "while", "loop", "match", "unsafe"].any (beginsWord · ts) ||
    (beginsWord "for" ts && !beginsOp "<" (ts.drop 1)) ||
    ((beginsWord "try" ts || beginsWord "const" ts) && beginsGroup .brace (ts.drop 1)) ||
    beginsGroup .brace ts || beginsLifetime ts

/-- Reads an expression that begins with a block, a loop or a condition. -/
def readBlockLike : Speller := do
  if ← peek (beginsWord "if") then g.readConditional ((← get).length + 1)
  else if ← peek (beginsWord "match") then g.readMatch
  else if ← peek fun ts => beginsWord "while" ts || beginsWord "for" ts || beginsWord "loop" ts then
    g.readLoop
  else if ← peek (beginsGroup .brace) then g.block
  else if ← peek beginsLifetime then g.readLabelled
  else return [(← anyWord).token] ++ (← g.block)

/-- A closure comes next. -/
def beginsClosure (ts : Tokens) : Bool :=
  beginsOp "|" ts || beginsWord "move" ts || beginsWord "static" ts ||
    (beginsWord "for" ts && beginsOp "<" (ts.drop 1)) ||
    (beginsWord "const" ts && !beginsGroup .brace (ts.drop 1)) ||
    (beginsWord "async" ts && (beginsOp "|" (ts.drop 1) || beginsWord "move" (ts.drop 1)))

/-- A path comes next. -/
def beginsPath (ts : Tokens) : Bool :=
  beginsIdent ts || beginsOp "::" ts || beginsOp "<" ts || beginsWord "self" ts ||
    beginsWord "Self" ts || beginsWord "super" ts || beginsWord "crate" ts ||
    (beginsWord "try" ts && (beginsOp "!" (ts.drop 1) || beginsOp "::" (ts.drop 1)))

/-- An operand before what goes on with it; `tail` reads the end of a range. -/
def readAtom (tail : String → Speller) (braces : Braces) : Parser Spelled := do
  let asyncBlock (ts : Tokens) := beginsWord "async" ts && (beginsGroup .brace (ts.drop 1) ||
    (beginsWord "move" (ts.drop 1) && beginsGroup .brace (ts.drop 2)))
  let plain (p : Speller) : Parser Spelled := return ⟨← p, .plain⟩
  if ← peek beginsLiteral then plain literal
  else if ← peek asyncBlock then plain (seq [word "async", word? "move", g.block])
  else if ← peek fun ts => beginsBlockLike ts && !beginsClosure ts then
    return ⟨← g.readBlockLike, .block⟩
  else if ← peek beginsClosure then g.readClosure braces
  else if ← peek beginsPath then g.readPathValue braces
  else if ← peek (beginsGroup .paren) then plain (grouped .paren (commaList (g.expr .joined)))
  else if ← peek (beginsGroup .bracket) then plain (grouped .bracket g.readArrayValue)
  else if ← peek (beginsWord "break") then plain (g.readJump "break" braces)
  else if ← peek (beginsWord "continue") then plain (g.readJump "continue" braces)
  else if ← peek (beginsWord "return") then plain (g.readJump "return" braces)
  else if ← peek (beginsWord "yield") then plain (g.readJump "yield" braces)
  else if ← peek (beginsOp "..") then
    let dots ← readDots
    return ⟨Token.op dots ++ (← tail dots), .range⟩
  else if ← peek (beginsWord "_") then plain (word "_")
  else failure

/-- An operand; `tail` reads the end of a range, and `bound` the value that a `let` condition
takes apart. -/
def readOperandWith (tail : String → Speller) (bound : Speller) (braces : Braces) :
    Parser Spelled := do
  let attributes ← g.readOuterAttributes
  let operand : Spelled ← if ← peek (beginsOp "&") then
      (do
        let mark ← op "&"
        let raw (ts : Tokens) := beginsWord "raw" ts &&
          (beginsWord "mut" (ts.drop 1) || beginsWord "const" (ts.drop 1))
        let kind ← if ← peek raw then seq [word "raw", return [← token]] else word? "mut"
        return ⟨mark ++ kind ++ (← g.unary braces), .plain⟩)
    else if ← peek fun ts => beginsOp "*" ts || beginsOp "!" ts ||
        (beginsOp "-" ts && !beginsLiteral ts) then
      (do
        let sign ← token
        let mark := match sign with
          | .mark c _ => Token.ofMarks [c]
          | t => [t]
        return ⟨mark ++ (← g.unary braces), .plain⟩)
    else if ← peek (beginsWord "let") then
      (do
        return ⟨← seq [word "let", g.pattern, op "=", bound], .plain⟩)
    else
      (do
        let atom ← g.readAtom tail braces
        g.readTrailers ((← get).length + 1) atom)
  return { operand with tokens := attributes ++ operand.tokens }

/-! ### Operators -/

mutual

/-- Goes on with an expression as long as what comes next binds at least as tightly as `base`. -/
def growFor (g : Grammar) : Nat → Braces → Binding → Spelled → Parser Spelled
  | 0, _, _, e => return e
  | fuel + 1, braces, base, e => do
    if e.shape = .range then return e
    else match nextOperator? (← get) with
    | some (name, binding) =>
      if binding.rank < base.rank then return e
      else
        require !(binding = .compare && e.shape = .comparison)
        let sign ← op name
        let right ← rightFor g fuel braces binding
        growFor g fuel braces base ⟨e.tokens ++ sign ++ right,
          if binding = .compare then .comparison else .plain⟩
    | none =>
      if Binding.assign.rank ≥ base.rank && (← peek beginsAssign) then
        let sign ← op "="
        let right ← rightFor g fuel braces .assign
        growFor g fuel braces base ⟨e.tokens ++ sign ++ right, .plain⟩
      else if Binding.range.rank ≥ base.rank && (← peek (beginsOp "..")) then
        let dots ← readDots
        let right ← rangeTailFor g fuel braces dots
        growFor g fuel braces base ⟨e.tokens ++ Token.op dots ++ right, .range⟩
      else if Binding.cast.rank ≥ base.rank && (← peek (beginsWord "as")) then
        let keyword ← word "as"
        let target ← g.typeTokens .refused
        growFor g fuel braces base ⟨e.tokens ++ keyword ++ target, .plain⟩
      else return e

/-- The right operand of an operator of the given binding. -/
def rightFor (g : Grammar) : Nat → Braces → Binding → Speller
  | 0, _, _ => failure
  | fuel + 1, braces, binding => do
    let operand ← g.readOperandWith (rangeTailFor g fuel braces) (boundFor g fuel) braces
    return (← climbFor g fuel braces binding operand).tokens

/-- Goes on with a right operand as long as what comes next binds more tightly than `binding`. -/
def climbFor (g : Grammar) : Nat → Braces → Binding → Spelled → Parser Spelled
  | 0, _, _, e => return e
  | fuel + 1, braces, binding, e => do
    let next := nextBinding (← get)
    if next.rank > binding.rank || (next = binding && binding = .assign) then
      let size := (← get).length
      let e' ← growFor g fuel braces next e
      if (← get).length = size then return e' else climbFor g fuel braces binding e'
    else return e

/-- The end of a range, after its dots. -/
def rangeTailFor (g : Grammar) : Nat → Braces → String → Speller
  | 0, _, _ => failure
  | fuel + 1, braces, dots => do
    if dots == ".." && (← peek (endsOpenRange braces)) then return []
    else rightFor g fuel braces .range

/-- The value that a `let` condition takes apart. -/
def boundFor (g : Grammar) : Nat → Speller
  | 0 => failure
  | fuel + 1 => do
    let operand ← g.readOperandWith (rangeTailFor g fuel .separate) (boundFor g fuel) .separate
    return (← growFor g fuel .separate .compare operand).tokens

end

/-- The fuel for the operators of an expression: each step takes a token or goes one level down. -/
def operatorFuel : Parser Nat := return 4 * (← get).length + 4

/-- An operand. -/
def readUnary (braces : Braces) : Parser Spelled := do
  let fuel ← operatorFuel
  g.readOperandWith (rangeTailFor g fuel braces) (boundFor g fuel) braces

/-- An expression. -/
def readExpr (braces : Braces) : Parser Spelled := do
  let fuel ← operatorFuel
  growFor g fuel braces .lowest (← g.readUnary braces)

/-- An expression that a block at its head ends, unless a field or `?` goes on with the block. -/
def readEarly : Parser Spelled := do
  let fuel ← operatorFuel
  let attributes ← g.readOuterAttributes
  let value : Spelled ← if ← peek fun ts => beginsBlockLike ts && !beginsClosure ts then
      (do
        let head : Spelled := ⟨← g.readBlockLike, .block⟩
        if ← peek fun ts => (beginsOp "." ts && !beginsOp ".." ts) || beginsOp "?" ts then
          growFor g fuel .joined .lowest (← g.readTrailers fuel head)
        else return head)
    else g.readExpr .joined
  return { value with tokens := attributes ++ value.tokens }

end Grammar

end CodecForge.Source

import CodecForge.Yaml.Token

/-!
# Nodes

A `Node` is a tree of scalars, lists and mappings as a text writes it.  `Node.parse?` reads the only
document of a text, and `Node.document?` gives the document that a node stands for.
-/

namespace CodecForge.Yaml

open CodecForge.Schema

inductive Node where
  | scalar (s : Scalar)
  | list (items : List Node)
  | mapping (entries : List (Node × Node))
  deriving Repr

namespace Node

/-- The node that is left out. -/
def empty : Node := .scalar Scalar.empty

/-! ### Reading tokens -/

/-- Where a node stands. -/
inductive Place where
  /-- Inside a flow collection. -/
  | flow
  /-- Inside a block list, or outside of all collections. -/
  | block
  /-- Inside a block mapping, where the dashes of a list need not be indented. -/
  | entry
  deriving DecidableEq, Repr

/-- The next token is one of those given. -/
def begins (ts : List Token) (marks : List Token) : Bool := ts.head?.any marks.contains

mutual

/-- Reads a node of at most `n` tokens in all its parts. -/
def read (n : Nat) (p : Place) (ts : List Token) : Option (Node × List Token) :=
  match n with
  | 0 => none
  | n + 1 =>
    match ts with
    | .scalar s :: ts => some (.scalar s, ts)
    | .openFlowList :: ts => do
      let (items, ts) ← readFlowItems n true ts
      return (.list items, ts)
    | .openFlowMapping :: ts => do
      let (entries, ts) ← readFlowEntries n true ts
      return (.mapping entries, ts)
    | .openList :: ts => do
      if p = .flow then none
      let (items, ts) ← readItems n ts
      return (.list items, ts)
    | .openMapping :: ts => do
      if p = .flow then none
      let (entries, ts) ← readEntries n ts
      return (.mapping entries, ts)
    | .dash :: ts => do
      if p ≠ .entry then none
      let (items, ts) ← readDashes n (.dash :: ts)
      return (.list items, ts)
    | _ => none

/-- Reads a node, which may be left out before one of the given marks. -/
def readOr (n : Nat) (p : Place) (marks : List Token) (ts : List Token) :
    Option (Node × List Token) :=
  match n with
  | 0 => none
  | n + 1 => if begins ts marks then some (.empty, ts) else read n p ts

/-- Reads the members of a block list and its end. -/
def readItems (n : Nat) (ts : List Token) : Option (List Node × List Token) :=
  match n with
  | 0 => none
  | n + 1 =>
    match ts with
    | .closeBlock :: ts => some ([], ts)
    | .dash :: ts => do
      let (item, ts) ← readOr n .block [.dash, .closeBlock] ts
      let (items, ts) ← readItems n ts
      return (item :: items, ts)
    | _ => none

/-- Reads the members of a list in the column of the mapping that it stands in. -/
def readDashes (n : Nat) (ts : List Token) : Option (List Node × List Token) :=
  match n with
  | 0 => none
  | n + 1 =>
    match ts with
    | .dash :: ts => do
      let (item, ts) ← readOr n .block [.dash, .key, .value, .closeBlock] ts
      let (items, ts) ← readDashes n ts
      return (item :: items, ts)
    | ts => some ([], ts)

/-- Reads the entries of a block mapping and its end. -/
def readEntries (n : Nat) (ts : List Token) : Option (List (Node × Node) × List Token) :=
  match n with
  | 0 => none
  | n + 1 =>
    match ts with
    | .closeBlock :: ts => some ([], ts)
    | .key :: ts => do
      let (key, ts) ← readOr n .entry [.key, .value, .closeBlock] ts
      let (value, ts) ← readValue n .entry [.key, .value, .closeBlock] ts
      let (entries, ts) ← readEntries n ts
      return ((key, value) :: entries, ts)
    | _ => none

/-- Reads the value of an entry, which may be left out. -/
def readValue (n : Nat) (p : Place) (marks : List Token) (ts : List Token) :
    Option (Node × List Token) :=
  match n with
  | 0 => none
  | n + 1 =>
    match ts with
    | .value :: ts => readOr n p marks ts
    | ts => some (.empty, ts)

/-- Reads a key with its value inside a flow collection that `close` ends. -/
def readFlowEntry (n : Nat) (close : Token) (ts : List Token) :
    Option ((Node × Node) × List Token) :=
  match n with
  | 0 => none
  | n + 1 => do
    let (key, ts) ← readOr n .flow [.value, .comma, close] ts
    let (value, ts) ← readValue n .flow [.comma, close] ts
    return ((key, value), ts)

/-- Reads the members of a flow list and its end; all but the first come after a comma. -/
def readFlowItems (n : Nat) (isFirst : Bool) (ts : List Token) :
    Option (List Node × List Token) :=
  match n with
  | 0 => none
  | n + 1 => do
    if begins ts [.closeFlowList] then return ([], ts.drop 1)
    if !isFirst && !begins ts [.comma] then none
    match if isFirst then ts else ts.drop 1 with
    | .closeFlowList :: ts => return ([], ts)
    | .key :: ts =>
      let (entry, ts) ← readFlowEntry n .closeFlowList ts
      let (items, ts) ← readFlowItems n false ts
      return (.mapping [entry] :: items, ts)
    | ts =>
      let (item, ts) ← read n .flow ts
      let (items, ts) ← readFlowItems n false ts
      return (item :: items, ts)

/-- Reads the entries of a flow mapping and its end; all but the first come after a comma. -/
def readFlowEntries (n : Nat) (isFirst : Bool) (ts : List Token) :
    Option (List (Node × Node) × List Token) :=
  match n with
  | 0 => none
  | n + 1 => do
    if begins ts [.closeFlowMapping] then return ([], ts.drop 1)
    if !isFirst && !begins ts [.comma] then none
    match if isFirst then ts else ts.drop 1 with
    | .closeFlowMapping :: ts => return ([], ts)
    | .key :: ts =>
      let (entry, ts) ← readFlowEntry n .closeFlowMapping ts
      let (entries, ts) ← readFlowEntries n false ts
      return (entry :: entries, ts)
    | ts =>
      let (key, ts) ← read n .flow ts
      let (entries, ts) ← readFlowEntries n false ts
      return ((key, .empty) :: entries, ts)

end

/-- Reads a document after the mark that may start it. -/
def readDocument (ts : List Token) : Option (Node × List Token) :=
  let bound := 3 * ts.length + 3
  match ts with
  | [] => none
  | .documentStart :: ts =>
    if ts.isEmpty then some (.empty, ts)
    else readOr bound .block [.documentStart, .documentEnd] ts
  | ts => read bound .block ts

/-- The only document of a text. -/
def parse? (text : String) : Option Node := do
  let (node, rest) ← readDocument (← Token.scan? text)
  if rest.all (· = .documentEnd) then some node else none

/-! ### The parts of a node -/

/-- The text of a scalar, however it is written. -/
def text? : Node → Option String
  | .scalar s => some s.text
  | _ => none

/-- The members of a list; a value that is left out is a list without members. -/
def items? : Node → Option (List Node)
  | .list items => some items
  | .scalar s => if s = Scalar.empty then some [] else none
  | _ => none

/-- The entries of a mapping, whose keys have to be scalars. -/
def fields? : Node → Option (List (String × Node))
  | .mapping entries => entries.mapM fun e => e.1.text?.map (·, e.2)
  | _ => none

mutual

/-- How many lists and mappings lie within each other. -/
def depth : Node → Nat
  | .scalar _ => 0
  | .list items => itemsDepth items + 1
  | .mapping entries => entriesDepth entries + 1

/-- The greatest depth of the members of a list. -/
def itemsDepth : List Node → Nat
  | [] => 0
  | v :: rest => max v.depth (itemsDepth rest)

/-- The greatest depth of the keys and values of a mapping. -/
def entriesDepth : List (Node × Node) → Nat
  | [] => 0
  | (k, v) :: rest => max (max k.depth v.depth) (entriesDepth rest)

end

mutual

/-- The document that a node stands for. -/
def document? : Node → Option Document
  | .scalar s => s.document?
  | .list items => (documents? items).map .list
  | .mapping entries => (entryDocuments? entries).map .mapping

/-- The documents that the members of a list stand for. -/
def documents? : List Node → Option (List Document)
  | [] => some []
  | v :: rest => do return (← v.document?) :: (← documents? rest)

/-- The entries that those of a mapping stand for. -/
def entryDocuments? : List (Node × Node) → Option (List (String × Document))
  | [] => some []
  | (k, v) :: rest => do return (← k.text?, ← v.document?) :: (← entryDocuments? rest)

end

end Node

end CodecForge.Yaml

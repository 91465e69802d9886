import CodecForge.Code.Spelling
import CodecForge.Proofs.Eval.Inline

/-!
# Statements read from their tokens

What a statement does is said here of its tokens alone: which names it binds to what, what it writes
and what it reads.  The statements of codecs are spelled so that their tokens do what is meant by
them.  Types are known by the tokens that spell them, and fixed phrases by their text.
-/

namespace CodecForge.Eval

open CodecForge.Source CodecForge.Plan CodecForge.Code CodecForge.Wire

/-- The codecs of types, and the lengths of arrays, by the tokens that spell them. -/
structure SpelledCodecs where
  encode : Tokens → Value → Writer Unit
  decode : Tokens → Reader Value
  length : Tokens → Nat

/-- The codecs of types by what spells them. -/
def SpelledCodecs.marshalling (c : SpelledCodecs) : Marshalling where
  encode type := c.encode type.tokens
  decode type := c.decode type.tokens
  length len := c.length len.tokens

/-- Changes the value of a name that is bound. -/
def Locals.update (locals : Locals) (name : String) (v : Value) : Locals :=
  match locals with
  | [] => []
  | (name', v') :: rest =>
    if name' = name then (name, v) :: rest else (name', v') :: update rest name v

@[simp]
theorem Locals.update_bind (locals : Locals) (name : String) (v v' : Value) :
    (locals.bind name v).update name v' = locals.bind name v' := if_pos rfl

/-! ### Phrases -/

/-- The first tokens are spelled as the second.  Texts are compared by lemmas, never by running. -/
@[irreducible]
def sameText (ts ts' : Tokens) : Bool := Token.spell ts == Token.spell ts'

@[simp]
theorem sameText_self (ts : Tokens) : sameText ts ts = true := by
  rw [sameText, beq_self_eq_true]

/-- What stands in front of a phrase that ends a sequence. -/
def before? (phrase ts : Tokens) : Option Tokens :=
  let (front, last) := ts.splitAt (ts.length - phrase.length)
  if sameText last phrase then some front else none

theorem before?_append (ts phrase : Tokens) : before? phrase (ts ++ phrase) = some ts := by
  simp [before?]

/-- The token is anything but an equals sign by itself. -/
def isNoEquals : Token → Bool
  | .mark '=' false => false
  | _ => true

/-- The tokens behind the last equals sign. -/
def behindEquals (ts : Tokens) : Tokens := ts.rtakeWhile isNoEquals

theorem behindEquals_append (before : Tokens) {ts : Tokens} (h : ts.all isNoEquals = true) :
    behindEquals (before ++ Token.words "=" ++ ts) = ts := by
  have hreverse : ∀ t ∈ ts.reverse, isNoEquals t = true := by simpa using h
  have htake : (ts.reverse ++ (Token.mark '=' false :: before.reverse)).takeWhile isNoEquals =
      ts.reverse := by
    rw [List.takeWhile_append_of_pos hreverse]
    simp [isNoEquals]
  have hequals : Token.words "=" = [.mark '=' false] := rfl
  simpa [behindEquals, List.rtakeWhile, hequals] using congrArg List.reverse htake

/-- The names in a path with points between them. -/
def undotted (ts : Tokens) : List Ident :=
  ts.filterMap fun t =>
    match t with
    | .ident name => some ⟨name⟩
    | _ => none

theorem dotted_cons_cons (i i' : Ident) (path : List Ident) :
    dotted (i :: i' :: path) = i.token :: .mark '.' false :: dotted (i' :: path) := rfl

theorem undotted_dotted (path : List Ident) : undotted (dotted path) = path := by
  induction path with
  | nil => rfl
  | cons i path ih =>
    cases path with
    | nil => rfl
    | cons i' path =>
      rw [dotted_cons_cons]
      exact congrArg (i :: ·) ih

theorem all_dotted (path : List Ident) : (dotted path).all isNoEquals = true := by
  induction path with
  | nil => rfl
  | cons i path ih =>
    cases path with
    | nil => rfl
    | cons i' path => exact ih

/-- The scalar that a function writes. -/
def scalarOfWrite? : String → Option Scalar
  | "write_bool" => some .bool
  | "write_i32" => some .int32
  | _ => none

/-- The scalar that a function reads. -/
def scalarOfRead? : String → Option Scalar
  | "read_bool" => some .bool
  | "read_i32" => some .int32
  | _ => none

/-! ### Statements that write -/

section Encode

variable (runtime : Path) (c : SpelledCodecs) (h : Host) (slots : List Slot) (self : Value)

/-- The function that borrows. -/
def borrowFunction : Tokens := Token.words ":: core :: borrow :: Borrow :: borrow"

/-- What an expression refers to: the result of a method of the instance, a field at a path or at
the offset that a slot holds, or what a name is bound to. -/
def borrowed? (ts : Tokens) : Option (Locals → Value) :=
  match ts with
  | [.ident "value", .mark '.' false, .ident method, .group .paren []] =>
    some fun _ => h.method ⟨method⟩ self
  | .mark '&' false :: .ident "value" :: .mark '.' false :: path =>
    some fun _ => self.fieldAt (pathNames (undotted path))
  | [.ident "self", .mark '.' false, .ident slot, .mark '.' false, .ident "get",
      .group .paren [.ident "value"]] =>
    some fun _ => self.fieldAt (pathNames (slotPath slots ⟨slot⟩))
  | _ =>
    match ts.getLast? with
    | some (.group .paren [.mark '&' false, .ident name]) =>
      if sameText ts.dropLast borrowFunction then some fun locals => locals.value name else none
    | _ => none

theorem borrowed?_field (path : List Ident) :
    borrowed? h slots self (Token.words "& value ." ++ dotted path) =
      some fun _ => self.fieldAt (pathNames path) := by
  conv_rhs => rw [← undotted_dotted path]
  rfl

theorem borrowed?_borrowed (binding : Ident) :
    borrowed? h slots self
        (borrowFunction ++ [Token.parens (Token.words "&" ++ [binding.token])]) =
      some fun locals => locals.value binding.text := by
  show (if sameText (borrowFunction ++ [_]).dropLast borrowFunction then _ else none) = _
  rw [List.dropLast_concat, sameText_self]
  rfl

/-- The scalar that a statement writes, and the name of what it writes. -/
def scalarWrite? (ts : Tokens) : Option (Scalar × String) :=
  match ts with
  | [.ident "writer", .mark '.' false, .ident function,
      .group .paren [.mark '*' false, .ident name], .mark ';' false] =>
    (scalarOfWrite? function).map (·, name)
  | _ => none

/-- The type whose marshalling is called, and the name of what it writes. -/
def marshalWrite? (ts : Tokens) : Option (Tokens × String) :=
  match ts.reverse with
  | .mark ';' false :: .mark '?' false ::
      .group .paren [.ident name, .mark ',' false, .ident "writer"] :: call =>
    (before? (Token.words "as" ++ inRuntime runtime "Marshal > :: encode") call.reverse).map
      (·, name)
  | _ => none

theorem marshalWrite?_append (type : Tokens) (binding : Ident) :
    marshalWrite? runtime (type ++ (Token.words "as" ++ inRuntime runtime "Marshal > :: encode") ++
        ([Token.parens ([binding.token] ++ Token.words ", writer")] ++ Token.words "? ;")) =
      some (type, binding.text) := by
  rw [marshalWrite?, List.reverse_append]
  show (before? _ (type ++ _).reverse.reverse).map (·, binding.text) = _
  rw [List.reverse_reverse, before?_append]
  rfl

/-- The effect of a statement of an encoder on the output and the local names. -/
def encodeStatement? (ts : Tokens) : Option (Locals → Writer Locals) :=
  match ts with
  | .ident "let" :: .ident name :: rest => do
    let value ← borrowed? h slots self (behindEquals (← before? (Token.words ";") rest))
    return fun locals => return locals.bind name (value locals)
  | [.ident "for", .ident element, .ident "in", .ident name, .mark '.' false, .ident "iter",
      .group .paren [], .group .brace body] => do
    let (s, written) ← scalarWrite? body
    if written = element then
      return fun locals => do
        (elements (locals.value name)).forM (writeScalar s)
        return locals
    else none
  | .mark '<' false :: rest => do
    let (type, name) ← marshalWrite? runtime rest
    return fun locals => do
      c.encode type (locals.value name)
      return locals
  | _ => do
    let (s, name) ← scalarWrite? ts
    return fun locals => do
      writeScalar s (locals.value name)
      return locals

variable {h slots self} {value : Tokens} {referent : Locals → Value}

theorem encodeStatement?_let (binding : Ident) (before : Tokens)
    (hvalue : value.all isNoEquals = true)
    (hreferent : borrowed? h slots self value = some referent) :
    encodeStatement? runtime c h slots self
        (Token.words "let" ++ ([binding.token] ++
          (before ++ Token.words "=" ++ value ++ Token.words ";"))) =
      some fun locals => return locals.bind binding.text (referent locals) := by
  have hlet (rest : Tokens) : encodeStatement? runtime c h slots self
      (Token.words "let" ++ ([binding.token] ++ rest)) = (do
        let value ← borrowed? h slots self (behindEquals (← before? (Token.words ";") rest))
        return fun (locals : Locals) => return locals.bind binding.text (value locals)) := rfl
  rw [hlet, before?_append]
  simp only [Option.bind_eq_bind, Option.bind_some, behindEquals_append before hvalue, hreferent]
  rfl

theorem encodeStatement?_borrow (binding : Ident) (type : Ty) (hvalue : value.all isNoEquals = true)
    (hreferent : borrowed? h slots self value = some referent) :
    encodeStatement? runtime c h slots self
        (borrowHead binding type ++ (value ++ Token.words ";")) =
      some fun locals => return locals.bind binding.text (referent locals) := by
  rw [← encodeStatement?_let runtime c binding (Token.words ": &" ++ type.tokens) hvalue hreferent,
    borrowHead]
  simp only [List.append_assoc]

variable (h slots self)

/-- The tokens of a statement of an encoder do what is meant by it. -/
theorem encodeStatement?_tokens (step : EncodeStep) :
    encodeStatement? runtime c h slots self (step.tokens (Marshaller.ofRuntime runtime)) =
      some fun locals => encodeStep c.marshalling h slots self locals step := by
  cases step with
  | call binding method =>
    let value := Token.words "value ." ++ [method.token, Token.parens []]
    have htokens : (EncodeStep.call binding method).tokens (Marshaller.ofRuntime runtime) =
        Token.words "let" ++ ([binding.token] ++
          ([] ++ Token.words "=" ++ value ++ Token.words ";")) := rfl
    have hvalue : value.all isNoEquals = true := rfl
    rw [htokens, encodeStatement?_let runtime c binding [] hvalue rfl]
    rfl
  | borrow binding type =>
    refine .trans ?_ (encodeStatement?_borrow runtime c binding type rfl
      (borrowed?_borrowed h slots self binding))
    simp only [EncodeStep.tokens, borrowFunction, List.append_assoc]
  | borrowField binding type path =>
    have hvalue : (Token.words "& value ." ++ dotted path).all isNoEquals = true := by
      rw [List.all_append, all_dotted]
      rfl
    refine .trans ?_ (encodeStatement?_borrow runtime c binding type hvalue
      (borrowed?_field h slots self path))
    simp only [EncodeStep.tokens, List.append_assoc]
  | borrowSlot binding type slot =>
    let value := Token.words "self ." ++ [slot.token] ++ Token.words ". get" ++
      [Token.parens (Token.words "value")]
    have hreferent : borrowed? h slots self value =
      some fun _ => self.fieldAt (pathNames (slotPath slots slot)) := rfl
    refine .trans ?_ (encodeStatement?_borrow runtime c binding type rfl hreferent)
    simp only [EncodeStep.tokens, value, List.append_assoc]
  | write transfer type binding =>
    cases transfer with
    | scalar s => cases s <;> rfl
    | elements s len => cases s <;> rfl
    | marshalled =>
      have hcall (rest : Tokens) : encodeStatement? runtime c h slots self
          (Token.words "<" ++ rest) = (do
            let (type, name) ← marshalWrite? runtime rest
            return fun (locals : Locals) => do
              c.encode type (locals.value name)
              return locals) := rfl
      have hwrite := marshalWrite?_append runtime type.tokens binding
      simp only [List.append_assoc] at hwrite
      simp only [EncodeStep.tokens, writeTokens, Marshaller.ofRuntime, List.append_assoc, hcall,
        hwrite]
      rfl

end Encode

/-! ### Statements that read -/

section Decode

variable (runtime : Path) (c : SpelledCodecs) (h : Host) (dependency : Option Value)

/-- What a word for a value stands for. -/
def literalValue? : Token → Option Value
  | .ident "false" => some (.bool false)
  | .literal "0i32" => some (.integer 0)
  | _ => none

/-- The scalar that a statement sets a slot to. -/
def slotRead? (slot : String) (ts : Tokens) : Option Scalar :=
  match ts with
  | [.mark '*' false, .ident slot', .mark '=' false, .ident "reader", .mark '.' false,
      .ident function, .group .paren [], .mark '?' false, .mark ';' false] =>
    if slot' = slot then scalarOfRead? function else none
  | _ => none

/-- An array that is filled with one value; the tokens are those behind the name that is bound. -/
def filled? (ts : Tokens) : Option Value :=
  match ts.reverse with
  | .mark ';' false :: .group .bracket (first :: .mark ';' false :: len) :: .mark '=' false :: _ =>
    (literalValue? first).map fun v => .list (List.replicate (c.length len) v)
  | _ => none

/-- The type that stands twice in a sequence, with a phrase between the two. -/
def twice? (phrase ts : Tokens) : Option Tokens :=
  let type := ts.drop ((ts.length + phrase.length) / 2)
  if sameText ts (type ++ (phrase ++ type)) then some type else none

theorem twice?_append (phrase type : Tokens) :
    twice? phrase (type ++ (phrase ++ type)) = some type := by
  have hlength : ((type ++ (phrase ++ type)).length + phrase.length) / 2 =
      type.length + phrase.length := by
    simp only [List.length_append]
    omega
  have hdrop : (type ++ (phrase ++ type)).drop (type.length + phrase.length) = type := by
    rw [← List.append_assoc, ← List.length_append, List.drop_left]
  rw [twice?, hlength, hdrop, sameText_self]
  rfl

/-- How the next value is read that a name is bound to; the tokens are those behind the name. -/
def valueRead? (ts : Tokens) : Option (Reader Value) :=
  match ts.reverse with
  | .mark ';' false :: .mark '?' false :: .group .paren [] :: .ident function :: .mark '.' false ::
      .ident "reader" :: .mark '=' false :: _ => (scalarOfRead? function).map readScalar
  | .mark ';' false :: .mark '?' false :: .group .paren [.ident "reader"] :: call => do
    let call ← before? (Token.words "as" ++ inRuntime runtime "Marshal > :: decode") call.reverse
    return c.decode (← twice? (Token.words "= <") call)
  | _ => none

/-- The error of a dependency that is missing. -/
def missingError : Tokens :=
  inRuntime runtime "SerializationError :: missing_dependency" ++
    [Token.parens (ownName runtime)]

/-- The effect of a statement that binds a name; the tokens are those behind the name. -/
def binding? (name : String) (ts : Tokens) : Option (Locals → Reader Locals) :=
  match ts with
  | .mark ':' false :: rest => do
    let read ← valueRead? runtime c rest
    return fun (locals : Locals) => return locals.bind name (← read)
  | [.mark '=' false, .ident "dependency", .mark '.' false, .ident "ok_or_else",
      .group .paren [.mark '|' true, .mark '|' false, .group .brace error],
      .mark '?' false, .mark ';' false] =>
    if sameText error (missingError runtime) then
      some fun (locals : Locals) =>
        match dependency with
        | some d => return locals.bind name d
        | none => throw (.missingDependency h.typeName)
    else none
  | .ident array :: .mark ':' false :: rest => do
    let v ← filled? c rest
    if name = "mut" then some fun (locals : Locals) => return locals.bind array v else none
  | _ => none

/-- The call that makes the default, to the end of the statement. -/
def defaultCall : Tokens :=
  Token.words ":: core :: default :: Default :: default" ++ [Token.parens []] ++ Token.words ";"

/-- The effect of a statement that assigns to a field of what a name is bound to; the tokens are
those behind the name and a point. -/
def assignment? (name : String) (ts : Tokens) : Option (Locals → Reader Locals) :=
  match ts.reverse with
  | .mark ';' false :: .ident source :: .mark '=' false :: path =>
    some fun (locals : Locals) => return (locals.bind name (Value.setAt (locals.value source)
      (pathNames (undotted path.reverse)) (locals.value name)))
  | _ => none

/-- The effect of a statement of a decoder on the input and the local names. -/
def decodeStatement? (ts : Tokens) : Option (Locals → Reader Locals) :=
  match ts with
  | .ident "let" :: .ident name :: rest => binding? runtime c h dependency name rest
  | [.ident "for", .ident slot, .ident "in", .ident name, .mark '.' false, .ident "iter_mut",
      .group .paren [], .group .brace body] => do
    let s ← slotRead? slot body
    return fun locals => do
      let elems ← fillSlots (readScalar s) (elements (locals.value name))
      return locals.update name (.list elems)
  | .mark '#' false :: .group .bracket _ :: .ident "let" :: .ident "mut" :: .ident name :: rest =>
    if sameText (behindEquals rest) defaultCall then
      some fun (locals : Locals) => return locals.bind name h.default
    else none
  | .ident name :: .mark '.' false :: rest => assignment? name rest
  | _ => none

/-- The statement that sets a slot. -/
def slotStatement (s : Scalar) : Tokens :=
  Token.words "* __slot =" ++ Code.readScalar s ++ Token.words ";"

theorem literalValue?_zero (s : Scalar) : literalValue? (scalarZero s) = some (slotDefault s) := by
  cases s <;> rfl

theorem filled?_append (type : Tokens) (s : Scalar) (len : Expr) :
    filled? c (type ++ (Token.words "=" ++ ([Token.brackets ([scalarZero s] ++ Token.words ";" ++
        len.tokens)] ++ Token.words ";"))) =
      some (.list (List.replicate (c.length len.tokens) (slotDefault s))) := by
  have hreverse : (type ++ (Token.words "=" ++ ([Token.brackets ([scalarZero s] ++
      Token.words ";" ++ len.tokens)] ++ Token.words ";"))).reverse =
        .mark ';' false :: .group .bracket (scalarZero s :: .mark ';' false :: len.tokens) ::
          .mark '=' false :: type.reverse := by
    rw [List.reverse_append]
    rfl
  simp only [filled?, hreverse, literalValue?_zero, Option.map_some]

theorem valueRead?_append (type : Tokens) :
    valueRead? runtime c (type ++ (Token.words "= <" ++ type) ++ (Token.words "as" ++
        inRuntime runtime "Marshal > :: decode") ++
          ([Token.parens (Token.words "reader")] ++ Token.words "? ;")) =
      some (c.decode type) := by
  let call := Token.words "as" ++ inRuntime runtime "Marshal > :: decode"
  rw [valueRead?, List.reverse_append]
  show (do
    let call ← before? call (type ++ (Token.words "= <" ++ type) ++ call).reverse.reverse
    return c.decode (← twice? (Token.words "= <") call)) = _
  rw [List.reverse_reverse, before?_append]
  simp only [Option.bind_eq_bind, Option.bind_some, twice?_append]
  rfl

theorem binding?_value (name : String) (rest : Tokens) :
    binding? runtime c h dependency name (Token.words ":" ++ rest) = (do
      let read ← valueRead? runtime c rest
      return fun (locals : Locals) => return locals.bind name (← read)) := rfl

theorem decodeStatement?_let (binding : Ident) (rest : Tokens) :
    decodeStatement? runtime c h dependency (Token.words "let" ++ ([binding.token] ++ rest)) =
      binding? runtime c h dependency binding.text rest := rfl

theorem binding?_dependency (name : String) (error : Tokens) :
    binding? runtime c h dependency name (Token.words "= dependency . ok_or_else" ++
        ([Token.parens (Token.words "||" ++ [Token.braces error])] ++ Token.words "? ;")) =
      if sameText error (missingError runtime) then
        some fun (locals : Locals) =>
          match dependency with
          | some d => return locals.bind name d
          | none => throw (.missingDependency h.typeName)
      else none := rfl

theorem decodeStatement?_default (allowed rest : Tokens) :
    decodeStatement? runtime c h dependency (Token.words "#" ++
        ([Token.brackets allowed] ++ (Token.words "let mut __instance" ++ rest))) =
      if sameText (behindEquals rest) defaultCall then
        some fun (locals : Locals) => return locals.bind instanceName h.default
      else none := rfl

theorem assignment?_append (name : String) (path : List Ident) (binding : Ident) :
    assignment? name (dotted path ++ (Token.words "=" ++ ([binding.token] ++ Token.words ";"))) =
      some fun (locals : Locals) => return (locals.bind name
        (Value.setAt (locals.value binding.text) (pathNames path) (locals.value name))) := by
  have hreverse : (dotted path ++ (Token.words "=" ++ ([binding.token] ++
      Token.words ";"))).reverse =
        .mark ';' false :: .ident binding.text :: .mark '=' false :: (dotted path).reverse := by
    rw [List.reverse_append]
    rfl
  simp only [assignment?, hreverse, List.reverse_reverse, undotted_dotted]

/-- The statement that fills an array. -/
def fillTokens (type : Ty) (s : Scalar) (len : Expr) (binding : Ident) : Tokens :=
  Token.words "let mut" ++ ([binding.token] ++ (Token.words ":" ++ (type.tokens ++
    (Token.words "=" ++ ([Token.brackets ([scalarZero s] ++ Token.words ";" ++ len.tokens)] ++
      Token.words ";")))))

/-- The statement that sets the slots of an array one after the other. -/
def slotsTokens (s : Scalar) (binding : Ident) : Tokens :=
  Token.words "for __slot in" ++ ([binding.token] ++ (Token.words ". iter_mut" ++
    [Token.parens [], Token.braces (slotStatement s)]))

/-- An array is read by two statements. -/
theorem readTokens_elements (m : Marshaller) (type : Ty) (s : Scalar) (len : Expr)
    (binding : Ident) :
    readTokens m (.elements s len) type binding =
      fillTokens type s len binding ++ slotsTokens s binding := by
  have hwords : Token.words "; for __slot in" = Token.words ";" ++ Token.words "for __slot in" :=
    rfl
  simp only [readTokens, fillTokens, slotsTokens, slotStatement, hwords, List.append_assoc]

theorem decodeStatement?_fill (type : Ty) (s : Scalar) (len : Expr) (binding : Ident) :
    decodeStatement? runtime c h dependency (fillTokens type s len binding) =
      some fun (locals : Locals) => return (locals.bind binding.text
        (.list (List.replicate (c.length len.tokens) (slotDefault s)))) := by
  have hmut (rest : Tokens) : decodeStatement? runtime c h dependency
      (Token.words "let mut" ++ ([binding.token] ++ (Token.words ":" ++ rest))) = (do
        let v ← filled? c rest
        some fun (locals : Locals) => return locals.bind binding.text v) := rfl
  rw [fillTokens, hmut, filled?_append]
  rfl

theorem decodeStatement?_slots (s : Scalar) (binding : Ident) :
    decodeStatement? runtime c h dependency (slotsTokens s binding) =
      some fun locals => do
        let elems ← fillSlots (readScalar s) (elements (locals.value binding.text))
        return locals.update binding.text (.list elems) := by
  cases s <;> rfl

/-- The tokens of a statement of a decoder do what is meant by it, if it is one statement. -/
theorem decodeStatement?_tokens {step : DecodeStep}
    (hone : ∀ s len type binding, step ≠ .read (.elements s len) type binding) :
    decodeStatement? runtime c h dependency (step.tokens runtime (Marshaller.ofRuntime runtime)) =
      some fun locals => decodeStep c.marshalling h dependency locals step := by
  cases step with
  | read transfer type binding =>
    cases transfer with
    | scalar s =>
      cases s <;>
        simp only [DecodeStep.tokens, readTokens, List.append_assoc, decodeStatement?_let] <;>
        rfl
    | elements s len => exact absurd rfl (hone s len type binding)
    | marshalled =>
      have hvalue := valueRead?_append runtime c type.tokens
      simp only [List.append_assoc] at hvalue
      simp only [DecodeStep.tokens, readTokens, Marshaller.ofRuntime, List.append_assoc,
        decodeStatement?_let]
      rw [binding?_value, hvalue]
      rfl
  | takeDependency =>
    have htokens : DecodeStep.takeDependency.tokens runtime (Marshaller.ofRuntime runtime) =
        Token.words "let" ++ ([Ident.token ⟨dependencyName⟩] ++
          (Token.words "= dependency . ok_or_else" ++ ([Token.parens (Token.words "||" ++
            [Token.braces (missingError runtime)])] ++ Token.words "? ;"))) := rfl
    rw [htokens, decodeStatement?_let, binding?_dependency, sameText_self]
    rfl
  | startDefault type =>
    have hhead : Token.words "let mut __instance :" =
        Token.words "let mut __instance" ++ Token.words ":" := rfl
    have hcall : Token.words "= :: core :: default :: Default :: default" =
        Token.words "=" ++ Token.words ":: core :: default :: Default :: default" := rfl
    have htokens : (DecodeStep.startDefault type).tokens runtime (Marshaller.ofRuntime runtime) =
        Token.words "#" ++ ([Token.brackets (Token.words "allow" ++
          [Token.parens (Token.words "unused_mut")])] ++ (Token.words "let mut __instance" ++
            (Token.words ":" ++ type.tokens ++ Token.words "=" ++ defaultCall))) := by
      simp only [DecodeStep.tokens, defaultCall, hhead, hcall, List.append_assoc]
    have hvalue : behindEquals (Token.words ":" ++ type.tokens ++ Token.words "=" ++ defaultCall) =
        defaultCall := behindEquals_append _ rfl
    rw [htokens, decodeStatement?_default, hvalue, sameText_self]
    rfl
  | assign path binding =>
    have hassign (rest : Tokens) : decodeStatement? runtime c h dependency
      (Token.words "__instance ." ++ rest) = assignment? instanceName rest := rfl
    simp only [DecodeStep.tokens, List.append_assoc, hassign, assignment?_append]
    rfl

end Decode

end CodecForge.Eval

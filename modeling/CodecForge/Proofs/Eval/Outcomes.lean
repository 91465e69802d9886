import CodecForge.Proofs.Eval.Instantiator
import CodecForge.Proofs.Eval.Statements

/-!
# Outcomes read from their tokens

What the expression at the end of a decoder gives, said of its tokens alone: a value that is made of
named fields or by a call, the instance that was assigned to, the canonical value, or what the
registry reads.
-/

namespace CodecForge.Eval

open CodecForge.Schema CodecForge.Source CodecForge.Plan CodecForge.Code CodecForge.Wire

/-! ### Parts with commas between them -/

/-- The token is a comma by itself. -/
def isComma : Token → Bool
  | .mark ',' false => true
  | _ => false

/-- The parts of a sequence that have commas between them. -/
def parts (ts : Tokens) : List Tokens := if ts.isEmpty then [] else ts.splitOnP isComma

/-- A part: there is something in it, and no comma. -/
def IsPart (ts : Tokens) : Prop := ts ≠ [] ∧ ∀ t ∈ ts, isComma t = false

theorem splitOnP_sepBy {ps : List Tokens} (hne : ps ≠ []) (h : ∀ p ∈ ps, IsPart p) :
    (sepBy [.mark ',' false] ps).splitOnP isComma = ps := by
  induction ps with
  | nil => exact absurd rfl hne
  | cons p ps ih =>
    rw [List.forall_mem_cons] at h
    cases ps with
    | nil => exact List.splitOnP_eq_singleton h.1.2
    | cons p' ps =>
      rw [sepBy, List.append_assoc, List.singleton_append,
        List.splitOnP_append_cons_of_forall_mem h.1.2 _ rfl, ih (List.cons_ne_nil _ _) h.2]
      exact List.cons_ne_nil _ _

theorem parts_commas {ps : List Tokens} (h : ∀ p ∈ ps, IsPart p) :
    parts (commas ps false) = ps := by
  have hcommas : commas ps false = sepBy [.mark ',' false] ps := List.append_nil _
  rw [hcommas, parts]
  cases ps with
  | nil => rfl
  | cons p ps =>
    have hne : (sepBy [.mark ',' false] (p :: ps)).isEmpty = false := by
      have hp := (h p List.mem_cons_self).1
      cases ps <;> simp [sepBy, hp]
    rw [hne, if_neg Bool.false_ne_true, splitOnP_sepBy (List.cons_ne_nil _ _) h]

theorem mapM_tokens {α β : Type} {tokens : α → Tokens} {read : Tokens → Option β} {meaning : α → β}
    {as : List α} (h : ∀ a ∈ as, read (tokens a) = some (meaning a)) :
    (as.map tokens).mapM read = some (as.map meaning) := by
  induction as with
  | nil => rfl
  | cons a as ih =>
    rw [List.forall_mem_cons] at h
    simp [h.1, ih h.2]

/-! ### Expressions that make a value -/

section Outcome

/-- The function that copies a dependency. -/
def cloneFunction : Tokens := Token.words ":: core :: clone :: Clone :: clone"

/-- The value of an argument. -/
def argument? (ts : Tokens) : Option (Locals → Value) :=
  match ts with
  | [.ident name] => some fun locals => locals.value name
  | _ =>
    match ts.getLast? with
    | some (.group .paren [.ident name]) =>
      if sameText ts.dropLast cloneFunction then some fun locals => locals.value name else none
    | _ => none

/-- The name of a field and the value that it is given. -/
def field? (ts : Tokens) : Option (Ident × (Locals → Value)) :=
  match ts with
  | .ident name :: .mark ':' false :: rest => (argument? rest).map (⟨name⟩, ·)
  | _ => none

/-- The named values between the braces of a structure. -/
def namedValues? (ts : Tokens) : Option (Locals → List (Ident × Value)) :=
  ((parts ts).mapM field?).map fun fields locals => fields.map fun f => (f.1, f.2 locals)

/-- The values between the parentheses of a call, for parameters of the given names. -/
def passedValues? (names : List Ident) (ts : Tokens) : Option (Locals → List (Ident × Value)) :=
  ((parts ts).mapM argument?).map fun values locals =>
    (names.zip values).map fun a => (a.1, a.2 locals)

variable (runtime : Path) (h : Host) (type : Option Ty) (dependency : Option Value)
  (names : List Ident)

/-- What makes a value, and the arguments that it is given; a function that is called has parameters
of the given names. -/
def made? (ts : Tokens) : Option (Maker × (Locals → List (Ident × Value))) :=
  match ts.reverse with
  | .group .brace inner :: _ => (namedValues? inner).map (.structLiteral, ·)
  | .group .paren inner :: .ident name :: .mark ':' false :: .mark ':' true ::
      .mark '>' false :: _ => (passedValues? names inner).map (.associated ⟨name⟩, ·)
  | _ => none

/-- The value of an expression. -/
def value? (ts : Tokens) : Option (Locals → Reader Value) :=
  match ts with
  | [.ident name] => some fun locals => return locals.value name
  | .mark '&' false :: _ => some fun _ => return h.canonical
  | _ => (made? names ts).map fun made locals => call h made.1 (made.2 locals)

/-- The error that wraps that of a function. -/
def wrappedError : Tokens :=
  inRuntime runtime "SerializationError :: instantiator" ++
    [Token.parens (ownName runtime ++ Token.words ", cause")]

/-- The path of the function that gives a success. -/
def resultPath : Tokens := Token.words ":: core :: result :: Result ::"

/-- What is handed to a registry that reads. -/
def readArgs : Tokens := Token.words "reader ," ++ erasedDependency ++ Token.words ","

/-- What a call gives that has the registry read a value of a base, with a dependency of the given
type. -/
def handedBack? (args function : Tokens) : Option (Locals → Reader Value) :=
  match function with
  | .ident "self" :: .mark '.' false :: .ident "registry" :: .mark '.' false ::
      .ident "deserialize" :: .mark ':' true :: .mark ':' false :: .mark '<' false ::
      .ident "dyn" :: base =>
    if sameText args readArgs then
      some fun _ => boxed <$> h.registry.decode (baseName h base) (erased h type dependency)
    else none
  | _ => none

/-- What the expression at the end of a decoder gives. -/
def outcome? (ts : Tokens) : Option (Locals → Reader Value) :=
  match ts.reverse with
  | .group .paren inner :: .ident "map_err" :: .mark '.' false :: made =>
    match inner with
    | [.mark '|' false, .ident "cause", .mark '|' false, .group .brace error] =>
      if sameText error (wrappedError runtime) then
        (made? names made.reverse).map fun made locals => call h made.1 (made.2 locals)
      else none
    | _ => none
  | .group .paren inner :: .ident "Ok" :: path =>
    if sameText path.reverse resultPath then value? h names inner else none
  | .group .paren args :: .mark '>' false :: function =>
    handedBack? h type dependency args function.reverse
  | _ => none

theorem argument?_tokens {a : Argument} (ha : a ≠ .absent) :
    argument? a.tokens = some fun locals => argumentValue locals a := by
  cases a with
  | dependency =>
    have htokens : Argument.dependency.tokens =
        cloneFunction ++ [.group .paren [.ident dependencyName]] := rfl
    rw [htokens]
    show (if sameText (cloneFunction ++ [_]).dropLast cloneFunction then _ else none) = _
    rw [List.dropLast_concat, sameText_self]
    rfl
  | bound binding => rfl
  | absent => exact absurd rfl ha

theorem isPart_tokens {a : Argument} (ha : a ≠ .absent) : IsPart a.tokens := by
  cases a with
  | dependency =>
    have hall : Argument.dependency.tokens.all (fun t => !isComma t) = true := rfl
    exact ⟨List.cons_ne_nil _ _, by simpa using hall⟩
  | bound binding => exact ⟨List.cons_ne_nil _ _, List.forall_mem_singleton.2 rfl⟩
  | absent => exact absurd rfl ha

/-- What makes a value is more than a name. -/
theorem makeTokens_ne_ident (type : Path) (maker : Maker) (args : List (Ident × Argument))
    (name : String) : makeTokens type maker args ≠ [.ident name] := by
  intro heq
  have hlast := congrArg List.getLast? heq
  cases maker <;> simp [makeTokens, Token.braces, Token.parens] at hlast

theorem segmentsTokens_append_ne_borrow (segments : List (Segment Ty)) (inner rest : Tokens) :
    segmentsTokens segments ++ [Token.braces inner] ≠ .mark '&' false :: rest := by
  intro heq
  rcases segments with _ | ⟨⟨ident, args⟩, _ | ⟨s, segments⟩⟩ <;> cases heq

/-- What makes a value begins with its type, and so it is no borrow. -/
theorem makeTokens_ne_borrow (type : Path) (maker : Maker) (args : List (Ident × Argument))
    (rest : Tokens) : makeTokens type maker args ≠ .mark '&' false :: rest := by
  obtain ⟨rooted, segments⟩ := type
  intro heq
  cases maker with
  | structLiteral =>
    cases rooted with
    | false => exact segmentsTokens_append_ne_borrow segments _ rest heq
    | true => cases heq
  | associated name => cases heq

section Args

variable {args : List (Ident × Argument)} (hargs : ∀ a ∈ args, a.2 ≠ .absent)

/-- The tokens that give a value to a field. -/
def fieldTokens (a : Ident × Argument) : Tokens := [a.1.token] ++ Token.words ":" ++ a.2.tokens

include hargs

theorem namedValues?_commas :
    namedValues? (commas (args.map fieldTokens) false) =
      some fun locals => args.map fun a => (a.1, argumentValue locals a.2) := by
  have hparts : ∀ ts ∈ args.map fieldTokens, IsPart ts := by
    refine List.forall_mem_map.2 fun a ha => ⟨List.cons_ne_nil _ _, ?_⟩
    have hvalue := (isPart_tokens (hargs a ha)).2
    exact List.forall_mem_cons.2 ⟨rfl, List.forall_mem_cons.2 ⟨rfl, hvalue⟩⟩
  have hfields : (args.map fieldTokens).mapM field? =
      some (args.map fun a => (a.1, fun locals => argumentValue locals a.2)) := by
    refine mapM_tokens fun a ha => ?_
    show (argument? a.2.tokens).map _ = _
    rw [argument?_tokens (hargs a ha)]
    rfl
  simp [namedValues?, parts_commas hparts, hfields, Function.comp_def]

theorem passedValues?_commas :
    passedValues? (args.map Prod.fst) (commas (args.map (·.2.tokens)) false) =
      some fun locals => args.map fun a => (a.1, argumentValue locals a.2) := by
  have hparts : ∀ ts ∈ args.map (·.2.tokens), IsPart ts :=
    List.forall_mem_map.2 fun a ha => isPart_tokens (hargs a ha)
  have hvalues : (args.map (·.2.tokens)).mapM argument? =
      some (args.map fun a locals => argumentValue locals a.2) :=
    mapM_tokens fun a ha => argument?_tokens (hargs a ha)
  simp [passedValues?, parts_commas hparts, hvalues, List.zip_map', Function.comp_def]

theorem made?_tokens (type : Path) (maker : Maker) :
    made? (args.map Prod.fst) (makeTokens type maker args) =
      some (maker, fun locals => args.map fun a => (a.1, argumentValue locals a.2)) := by
  cases maker with
  | structLiteral =>
    let inner := commas (args.map fieldTokens) false
    have hreverse : (makeTokens type .structLiteral args).reverse =
        .group .brace inner :: type.tokens.reverse := by
      rw [makeTokens, List.reverse_append]
      rfl
    simp only [made?, hreverse, inner, namedValues?_commas hargs, Option.map_some]
  | associated name =>
    let inner := commas (args.map (·.2.tokens)) false
    have hreverse : (makeTokens type (.associated name) args).reverse =
        .group .paren inner :: .ident name.text :: .mark ':' false :: .mark ':' true ::
          .mark '>' false :: (Token.words "<" ++ type.tokens).reverse := by
      rw [makeTokens, List.reverse_append, List.reverse_append]
      rfl
    simp only [made?, hreverse, inner, passedValues?_commas hargs, Option.map_some]

theorem value?_made (type : Path) (maker : Maker) :
    value? h (args.map Prod.fst) (makeTokens type maker args) =
      some fun locals => call h maker (args.map fun a => (a.1, argumentValue locals a.2)) := by
  unfold value?
  split
  · next heq => exact absurd heq (makeTokens_ne_ident type maker args _)
  · next heq => exact absurd heq (makeTokens_ne_borrow type maker args _)
  · rw [made?_tokens hargs]
    rfl

end Args

theorem outcome?_success (value : Tokens) :
    outcome? runtime h type dependency names (success value) = value? h names value := by
  have hpath : Token.words ":: core :: result :: Result :: Ok" = resultPath ++ [.ident "Ok"] := rfl
  have hreverse : (success value).reverse =
      .group .paren value :: .ident "Ok" :: resultPath.reverse := by
    rw [success, hpath, List.reverse_append, List.reverse_append]
    rfl
  simp only [outcome?, hreverse, List.reverse_reverse, sameText_self, if_true]

theorem outcome?_wrapped (made : Tokens) :
    outcome? runtime h type dependency names (made ++ (Token.words ". map_err" ++
        [Token.parens (Token.words "| cause |" ++ [Token.braces (wrappedError runtime)])])) =
      (made? names made).map fun made locals => call h made.1 (made.2 locals) := by
  have hreverse : (made ++ (Token.words ". map_err" ++ [Token.parens (Token.words "| cause |" ++
      [Token.braces (wrappedError runtime)])])).reverse =
        .group .paren [.mark '|' false, .ident "cause", .mark '|' false,
          .group .brace (wrappedError runtime)] :: .ident "map_err" :: .mark '.' false ::
          made.reverse := by
    rw [List.reverse_append]
    rfl
  simp only [outcome?, hreverse, sameText_self, if_true, List.reverse_reverse]

/-- The arguments of an outcome. -/
def outcomeArgs : Outcome → List (Ident × Argument)
  | .make _ _ args _ => args
  | _ => []

/-- The tokens of the expression at the end of a decoder give what is meant by it, unless an
argument is missing. -/
theorem outcome?_tokens {o : Outcome} (hargs : ∀ a ∈ outcomeArgs o, a.2 ≠ .absent) :
    outcome? runtime h type dependency ((outcomeArgs o).map Prod.fst) (o.tokens runtime) =
      some fun locals => outcomeValue h locals o := by
  cases o with
  | make path maker args fallible =>
    replace hargs : ∀ a ∈ args, a.2 ≠ .absent := hargs
    cases fallible with
    | false =>
      have hvalue := value?_made h hargs path maker
      rw [← outcome?_success runtime h type dependency] at hvalue
      exact hvalue
    | true =>
      have hwrapped := outcome?_wrapped runtime h type dependency (args.map Prod.fst)
        (makeTokens path maker args)
      rw [made?_tokens hargs, ← List.append_assoc] at hwrapped
      exact hwrapped
  | assigned => exact outcome?_success runtime h type dependency [] _
  | canonical instancePath => exact outcome?_success runtime h type dependency [] _

theorem outcome?_registry (base : Path) (names : List Ident) :
    outcome? runtime h type dependency names ((DecodeBody.registry base).tokens runtime
        (Marshaller.ofRuntime runtime)) =
      some fun _ =>
        boxed <$> h.registry.decode (baseName h base.tokens) (erased h type dependency) := by
  let function := Token.words "self . registry . deserialize :: < dyn" ++ base.tokens
  let last := Token.words ">" ++ [Token.parens readArgs]
  have htokens : (DecodeBody.registry base).tokens runtime (Marshaller.ofRuntime runtime) =
      function ++ last := by
    simp only [DecodeBody.tokens, function, last, readArgs, List.append_assoc]
  have hreverse : (function ++ last).reverse =
      .group .paren readArgs :: .mark '>' false :: function.reverse := by
    rw [List.reverse_append]
    rfl
  have hback : handedBack? h type dependency readArgs function = if sameText readArgs readArgs then
      some fun _ => boxed <$> h.registry.decode (baseName h base.tokens) (erased h type dependency)
    else none := rfl
  rw [htokens, outcome?, hreverse]
  simp only [List.reverse_reverse, hback, sameText_self, if_true]

end Outcome

end CodecForge.Eval

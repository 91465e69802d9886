import CodecForge.Proofs.Annotated.Entries
import CodecForge.Proofs.Source.Types

/-!
# Lists of parameters

A parameter may have its type behind it, and a type may have commas between angle brackets.  A
parameter with a type that can be read has an end of its own all the same, since no type goes on
behind a comma.  So the parameters of a maker may be given in one list or in several.
-/

namespace CodecForge.Annotated

open CodecForge.Schema CodecForge.Source

variable {g : Grammar}

/-! ### Parameters -/

/-- What stands behind the colon that follows the key of an entry. -/
def annotated? (e : Tokens) : Option Tokens :=
  match Reading.key.run ⟨e, false⟩ with
  | .ok (_, place) => if beginsOp ":" place.ahead then some (place.ahead.drop 1) else none
  | .error _ => none

/-- A parameter is not empty, and a comma stands in it only within brackets or within the type
behind a colon, which can be read. -/
structure IsParameter (g : Grammar) (e : Tokens) : Prop where
  nonempty : e ≠ []
  commaFree : annotated? e = none → CommaFree e
  typed : ∀ tail, annotated? e = some tail →
    ∃ t rest, (g.type .allowed).run tail = some (t, rest) ∧ CommaFree rest

end CodecForge.Annotated

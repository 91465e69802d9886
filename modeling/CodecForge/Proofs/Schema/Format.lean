import CodecForge.Schema.Format
import CodecForge.Proofs.Lists
import Mathlib.Logic.Relation

/-!
# Writing a request and reading it back

A request that is written with every key is read back as it is.  Every key that has a default may
be left out where it holds what the declaration is built with, and keys that are not known may be
added, at any depth: the document is read as before, and where it was refused it is still refused.
-/

namespace CodecForge.Schema

open Document

/-! ### Reading what was written -/

theorem listOf?_map {α : Type} {read : Document → Option α} {write : α → Document} {as : List α}
    (h : ∀ a ∈ as, read (write a) = some a) : listOf? read (.list (as.map write)) = some as := by
  induction as with
  | nil => rfl
  | cons a as ih =>
    rw [List.forall_mem_cons] at h
    have hrest : (as.map write).mapM read = some as := ih h.2
    simp only [listOf?, List.map_cons, List.mapM_cons, h.1, hrest]
    rfl

@[simp]
theorem optional?_ofText? (t : Option String) : optional? text? (ofText? t) = some t := by
  cases t <;> rfl

theorem size?_integer {n : Nat} (hn : n < UInt64.size) : size? (.integer n) = some n := by
  have hn' : (n : Int) < (UInt64.size : Int) := Int.ofNat_lt.2 hn
  simp only [size?, Int.natCast_nonneg, hn', decide_true, Bool.and_self, if_true, Int.toNat_natCast]

theorem required_of_lookup {α : Type} {entries : List (String × Document)} {key : String}
    {d : Document} {read : Document → Option α} (h : entries.lookup key = some d) :
    required entries key read = read d := by
  rw [required, h, Option.bind_some]

theorem withDefault_of_lookup {α : Type} {entries : List (String × Document)} {key : String}
    {d : Document} {default : α} {read : Document → Option α} (h : entries.lookup key = some d) :
    withDefault entries key default read = read d := by
  rw [withDefault, h]

theorem FieldDecl.ofDocument?_toDocument (f : FieldDecl) : ofDocument? f.toDocument = some f := by
  obtain ⟨name, type, isPublic, isStatic, isDependency⟩ := f
  cases isPublic <;> rfl

theorem ParamDecl.ofDocument?_toDocument (p : ParamDecl) : ofDocument? p.toDocument = some p := by
  obtain ⟨name, type, isDependency⟩ := p
  cases type <;> rfl

theorem MakerDecl.ofDocument?_toDocument (m : MakerDecl) : ofDocument? m.toDocument = some m := by
  obtain ⟨name, params, returns, isStatic, isMarked⟩ := m
  have hparams := listOf?_map fun p (_ : p ∈ params) => p.ofDocument?_toDocument
  have hentries : ofDocument? (toDocument ⟨name, params, returns, isStatic, isMarked⟩) = do
      let params ← listOf? ParamDecl.ofDocument? (.list (params.map ParamDecl.toDocument))
      let returns ← optional? text? (ofText? returns)
      return ⟨name, params, returns, isStatic, isMarked⟩ := rfl
  rw [hentries, hparams, optional?_ofText?]
  rfl

theorem MethodDecl.ofDocument?_toDocument {m : MethodDecl} (hm : m.arity < UInt64.size) :
    ofDocument? m.toDocument = some m := by
  have hentries (arity : Document) :
      ofDocument? (.mapping [("name", .text m.name), ("arity", arity)]) =
        (size? arity).bind fun n => some ⟨m.name, n⟩ := rfl
  rw [toDocument, hentries, size?_integer hm]
  rfl

/-- The numbers of arguments are sizes of 64 bits, as they are where a declaration is made. -/
def Level.Sized (l : Level) : Prop := ∀ m ∈ l.methods, m.arity < UInt64.size

/-- The numbers of arguments of a type and of its bases are sizes of 64 bits. -/
def TypeDecl.Sized (d : TypeDecl) : Prop := d.toLevel.Sized ∧ ∀ e ∈ d.ancestors, e.base.Sized

theorem Level.ofEntries?_toEntries {l : Level} (hl : l.Sized) (parent : Document) :
    ofEntries? (l.toEntries parent) = some l := by
  have hfields := listOf?_map fun f (_ : f ∈ l.fields) => f.ofDocument?_toDocument
  have hconstructors := listOf?_map fun m (_ : m ∈ l.constructors) => m.ofDocument?_toDocument
  have hfactories := listOf?_map fun m (_ : m ∈ l.factories) => m.ofDocument?_toDocument
  have hmethods := listOf?_map fun m hm => MethodDecl.ofDocument?_toDocument (hl m hm)
  simp [ofEntries?, toEntries, required, withDefault, List.lookup_cons, text?, bool?, hfields,
    hconstructors, hfactories, hmethods]

/-! ### Bases -/

/-- The chain of bases that a document describes. -/
def Embedding.chainOfDocument? : Document → Option (List Embedding)
  | .null => some []
  | link => do
    let parts ← link.record? keys
    let field ← required parts "field" text?
    let base ← required parts "descriptor" TypeDecl.ofDocument?
    return ⟨field, base.toLevel⟩ :: base.ancestors

/-- A type is read as its own level and the chain of bases below it. -/
theorem TypeDecl.ofDocument?_eq (doc : Document) : ofDocument? doc = do
    let entries ← doc.record? Level.keys
    let level ← Level.ofEntries? entries
    let ancestors ← withDefault entries "parent" [] Embedding.chainOfDocument?
    return { level with ancestors } := by
  rw [ofDocument?]
  split
  · next hrecord => rw [hrecord]; rfl
  · next entries hrecord =>
    conv_rhs => rw [hrecord, Option.bind_eq_bind, Option.bind_some]
    refine bind_congr fun level => ?_
    split
    · next hparent => simp [withDefault, hparent]
    · next hparent => simp [withDefault, hparent, Embedding.chainOfDocument?]
    · next link hnull hparent =>
      rw [withDefault_of_lookup hparent, Embedding.chainOfDocument?.eq_2 link hnull]
      split
      · next hlink => simp [hlink]
      · next parts hlink =>
        conv_rhs => rw [hlink]
        simp only [Option.bind_eq_bind, Option.bind_some, Option.bind_assoc]
        congr 1
        funext field
        split
        · next hbase => simp [required, hbase]
        · next inner hbase =>
          rw [required_of_lookup hbase]
          rfl

/-- A type that is written with a base is read with the chain that the base is read as. -/
theorem TypeDecl.ofDocument?_toEntries {l : Level} (hl : l.Sized) (parent : Document) :
    ofDocument? (.mapping (l.toEntries parent)) =
      (Embedding.chainOfDocument? parent).map fun ancestors => { l with ancestors } := by
  have hrecord : record? Level.keys (.mapping (l.toEntries parent)) =
      some (l.toEntries parent) := rfl
  have hparent : (l.toEntries parent).lookup "parent" = some parent := rfl
  rw [ofDocument?_eq, hrecord]
  simp only [Option.bind_eq_bind, Option.bind_some, Level.ofEntries?_toEntries hl,
    withDefault_of_lookup hparent]
  cases Embedding.chainOfDocument? parent <;> rfl

/-- A chain of bases is read back as it was written, by induction on the chain: each base is
written within the one that embeds it. -/
theorem Embedding.chainOfDocument?_chainToDocument {es : List Embedding}
    (hes : ∀ e ∈ es, e.base.Sized) : chainOfDocument? (chainToDocument es) = some es := by
  induction es with
  | nil => rfl
  | cons e es ih =>
    rw [List.forall_mem_cons] at hes
    have hlink : chainOfDocument? (chainToDocument (e :: es)) = do
        let base ← TypeDecl.ofDocument? (.mapping (e.base.toEntries (chainToDocument es)))
        return ⟨e.field, base.toLevel⟩ :: base.ancestors := rfl
    rw [hlink, TypeDecl.ofDocument?_toEntries hes.1, ih hes.2]
    rfl

theorem TypeDecl.ofDocument?_toDocument {d : TypeDecl} (hd : d.Sized) :
    ofDocument? d.toDocument = some d := by
  rw [toDocument, ofDocument?_toEntries hd.1, Embedding.chainOfDocument?_chainToDocument hd.2]
  rfl

theorem Request.ofDocument?_toDocument {r : Request} (hr : r.decl.Sized) :
    ofDocument? r.toDocument = some r := by
  obtain ⟨strategy, decl⟩ := r
  have hdecl (tag : Document) : TypeDecl.ofDocument? (.mapping (("strategy", tag) ::
      decl.toEntries (Embedding.chainToDocument decl.ancestors))) =
        TypeDecl.ofDocument? decl.toDocument := by
    simp only [TypeDecl.ofDocument?_eq]
    rfl
  cases strategy <;>
  · simp only [toDocument, ofDocument?, hdecl, TypeDecl.ofDocument?_toDocument hr]
    rfl

/-! ### The kinds of record -/

/-- The kinds of document that a request is made of. -/
inductive Form where
  | request
  | type
  | link
  | field
  | param
  | maker
  | method
  | list (member : Form)

namespace Form

/-- What a document describes. -/
def Value : Form → Type
  | .request => Request
  | .type => TypeDecl
  | .link => List Embedding
  | .field => FieldDecl
  | .param => ParamDecl
  | .maker => MakerDecl
  | .method => MethodDecl
  | .list member => List member.Value

/-- How a document is read. -/
def read : (form : Form) → Document → Option form.Value
  | .request => Request.ofDocument?
  | .type => TypeDecl.ofDocument?
  | .link => Embedding.chainOfDocument?
  | .field => FieldDecl.ofDocument?
  | .param => ParamDecl.ofDocument?
  | .maker => MakerDecl.ofDocument?
  | .method => MethodDecl.ofDocument?
  | .list member => listOf? member.read

/-- The keys that are known. -/
def keys : Form → List String
  | .request => "strategy" :: Level.keys
  | .type => Level.keys
  | .link => Embedding.keys
  | .field => FieldDecl.keys
  | .param => ParamDecl.keys
  | .maker => MakerDecl.keys
  | .method => MethodDecl.keys
  | .list _ => []

/-- The keys under which there are records or lists of them. -/
def parts : Form → List (String × Form)
  | .request | .type =>
    [("fields", .list .field), ("parent", .link), ("constructors", .list .maker),
     ("factories", .list .maker), ("methods", .list .method)]
  | .link => [("descriptor", .type)]
  | .maker => [("params", .list .param)]
  | .field | .param | .method | .list _ => []

/-- What is built from no more than what has to be given. -/
def built : Form → Document
  | .request => Request.toDocument { decl := .named "" }
  | .type => TypeDecl.toDocument (.named "")
  | .field => FieldDecl.toDocument { name := "", type := "" }
  | .param => ParamDecl.toDocument { name := "" }
  | .maker => MakerDecl.toDocument { name := "" }
  | .method => MethodDecl.toDocument { name := "" }
  | .link | .list _ => .null

/-- The keys that have to be given. -/
def given : Form → List String
  | .field => ["name", "ty"]
  | .link => ["field", "descriptor"]
  | .list _ => []
  | _ => ["name"]

/-- The entries that need not be written. -/
def initial (form : Form) : List (String × Document) :=
  match form.built with
  | .mapping entries => entries.filter fun e => !form.given.contains e.1
  | _ => []

end Form

/-! ### Leaving out and adding keys -/

/-- Two documents of one kind that differ in one place: where a key is left out that holds what is
there to begin with, where one is added that is not known, or within a part. -/
inductive Abridged : Form → Document → Document → Prop
  | remove {form : Form} {key : String} {d : Document} (before after : List (String × Document))
      (hinitial : form.initial.lookup key = some d) (hkey : (before ++ after).lookup key = none) :
      Abridged form (.mapping (before ++ (key, d) :: after)) (.mapping (before ++ after))
  | add {form : Form} {key : String} (d : Document) (before after : List (String × Document))
      (hkey : key ∉ form.keys) :
      Abridged form (.mapping (before ++ after)) (.mapping (before ++ (key, d) :: after))
  | within {form part : Form} {key : String} {d d' : Document}
      (before after : List (String × Document)) (hpart : form.parts.lookup key = some part)
      (hd : Abridged part d d') :
      Abridged form (.mapping (before ++ (key, d) :: after))
        (.mapping (before ++ (key, d') :: after))
  | member {form : Form} {d d' : Document} (before after : List Document)
      (hd : Abridged form d d') :
      Abridged (.list form) (.list (before ++ d :: after)) (.list (before ++ d' :: after))

/-- What a key may hold in two records that are read alike. -/
inductive Change (form : Form) (key : String) : Option Document → Option Document → Prop
  | same (d : Option Document) : Change form key d d
  | remove {d : Document} (hinitial : form.initial.lookup key = some d) :
      Change form key (some d) none
  | within {part : Form} {d d' : Document} (hpart : form.parts.lookup key = some part)
      (hread : part.read d = part.read d') : Change form key (some d) (some d')

/-- How often a key stands in a record. -/
def count (key : String) (entries : List (String × Document)) : Nat :=
  (entries.filter fun e => e.1 == key).length

theorem record?_mapping (keys : List String) (es : List (String × Document)) :
    record? keys (.mapping es) =
      if keys.all fun key => count key es ≤ 1 then some es else none := rfl

/-- The entries of two records that are read alike: no known key stands twice in only one of them,
and what the known keys hold is read alike. -/
structure Alike (form : Form) (es es' : List (String × Document)) : Prop where
  single : ∀ key ∈ form.keys, count key es ≤ 1 ↔ count key es' ≤ 1
  change : ∀ key ∈ form.keys, Change form key (es.lookup key) (es'.lookup key)

section Alike

variable {form : Form} {before after : List (String × Document)} {key key' : String}
  {d d' : Document}

theorem count_cons_self :
    count key (before ++ (key, d) :: after) = count key (before ++ after) + 1 := by
  simp only [count, List.filter_append, List.filter_cons, beq_self_eq_true, if_true,
    List.length_append, List.length_cons]
  omega

theorem count_cons_of_ne (h : key ≠ key') :
    count key' (before ++ (key, d) :: after) = count key' (before ++ after) := by
  simp [count, h]

theorem count_of_lookup_eq_none (h : after.lookup key = none) : count key after = 0 := by
  rw [count, List.length_eq_zero_iff, List.filter_eq_nil_iff]
  intro e he heq
  have hne := List.lookup_eq_none_iff.1 h e he
  rw [eq_of_beq heq] at hne
  simp at hne

theorem lookup_cons_of_ne (h : key ≠ key') :
    (before ++ (key, d) :: after).lookup key' = (before ++ after).lookup key' := by
  simp [List.lookup_append, List.lookup_cons, beq_eq_false_iff_ne.2 h.symm]

theorem Alike.remove (hinitial : form.initial.lookup key = some d)
    (hkey : (before ++ after).lookup key = none) :
    Alike form (before ++ (key, d) :: after) (before ++ after) where
  single key' _ := by
    obtain rfl | hne := eq_or_ne key key'
    · rw [count_cons_self, count_of_lookup_eq_none hkey]
      decide
    · rw [count_cons_of_ne hne]
  change key' _ := by
    obtain rfl | hne := eq_or_ne key key'
    · rw [List.lookup_append, Option.or_eq_none_iff] at hkey
      rw [List.lookup_append, List.lookup_append, List.lookup_cons_self, hkey.1, hkey.2]
      exact .remove hinitial
    · rw [lookup_cons_of_ne hne]
      exact .same _

theorem Alike.add (hkey : key ∉ form.keys) :
    Alike form (before ++ after) (before ++ (key, d) :: after) where
  single key' hkey' := by rw [count_cons_of_ne (ne_of_mem_of_not_mem hkey' hkey).symm]
  change key' hkey' := by
    rw [lookup_cons_of_ne (ne_of_mem_of_not_mem hkey' hkey).symm]
    exact .same _

theorem Alike.within {part : Form} (hpart : form.parts.lookup key = some part)
    (hread : part.read d = part.read d') :
    Alike form (before ++ (key, d) :: after) (before ++ (key, d') :: after) where
  single key' _ := by
    obtain rfl | hne := eq_or_ne key key'
    · rw [count_cons_self, count_cons_self]
    · rw [count_cons_of_ne hne, count_cons_of_ne hne]
  change key' _ := by
    obtain rfl | hne := eq_or_ne key key'
    · rw [List.lookup_append, List.lookup_append, List.lookup_cons_self, List.lookup_cons_self]
      cases before.lookup key with
      | none => exact .within hpart hread
      | some d => exact .same _
    · rw [lookup_cons_of_ne hne, lookup_cons_of_ne hne]
      exact .same _

end Alike

/-! ### Records that are read alike -/

section Read

variable {form : Form} {es es' : List (String × Document)} {α : Type} {read : Document → Option α}

/-- Where a key may hold a part, `read` looks no further than how the part is read. -/
def Reads (form : Form) (key : String) (read : Document → Option α) : Prop :=
  match form.parts.lookup key with
  | none => True
  | some part => ∀ d d', part.read d = part.read d' → read d = read d'

theorem Reads.of_part {part : Form} {key : String} (hread : Reads form key read)
    (hpart : form.parts.lookup key = some part) {d d' : Document}
    (h : part.read d = part.read d') : read d = read d' := by
  rw [Reads, hpart] at hread
  exact hread d d' h

theorem Alike.required (h : Alike form es es') (key : String) (hkey : key ∈ form.keys)
    (hinitial : form.initial.lookup key = none) (hread : Reads form key read) :
    required es key read = required es' key read := by
  have hchange := h.change key hkey
  rw [Document.required, Document.required]
  generalize es.lookup key = d, es'.lookup key = d' at hchange
  cases hchange with
  | same => rfl
  | remove hd => cases hinitial.symm.trans hd
  | within hpart h => exact hread.of_part hpart h

theorem Alike.withDefault {default : α} (h : Alike form es es') (key : String)
    (hkey : key ∈ form.keys) (hinitial : (form.initial.lookup key).bind read = some default)
    (hread : Reads form key read) :
    withDefault es key default read = withDefault es' key default read := by
  have hchange := h.change key hkey
  rw [Document.withDefault, Document.withDefault]
  generalize es.lookup key = d, es'.lookup key = d' at hchange
  cases hchange with
  | same => rfl
  | remove hd =>
    rw [hd] at hinitial
    exact hinitial
  | within hpart h => exact hread.of_part hpart h

theorem Alike.record?_bind {f f' : List (String × Document) → Option α} (h : Alike form es es')
    (hf : f es = f' es') :
    (record? form.keys (.mapping es)).bind f = (record? form.keys (.mapping es')).bind f' := by
  have hall : (form.keys.all fun key => count key es ≤ 1) =
      form.keys.all fun key => count key es' ≤ 1 := by
    rw [Bool.eq_iff_iff, List.all_eq_true, List.all_eq_true]
    simp only [decide_eq_true_eq]
    exact forall₂_congr h.single
  rw [record?_mapping, record?_mapping, hall]
  split
  · exact hf
  · rfl

theorem Alike.read_field (h : Alike .field es es') :
    FieldDecl.ofDocument? (.mapping es) = FieldDecl.ofDocument? (.mapping es') := by
  refine h.record?_bind ?_
  rw [h.required "name", h.required "ty", h.withDefault "visibility",
    h.withDefault "is_static", h.withDefault "is_dependency"]
  all_goals first | rfl | exact trivial | decide

theorem Alike.read_param (h : Alike .param es es') :
    ParamDecl.ofDocument? (.mapping es) = ParamDecl.ofDocument? (.mapping es') := by
  refine h.record?_bind ?_
  rw [h.required "name", h.withDefault "ty", h.withDefault "is_dependency"]
  all_goals first | rfl | exact trivial | decide

theorem Alike.read_maker (h : Alike .maker es es') :
    MakerDecl.ofDocument? (.mapping es) = MakerDecl.ofDocument? (.mapping es') := by
  refine h.record?_bind ?_
  rw [h.required "name", h.withDefault "params", h.withDefault "returns",
    h.withDefault "is_static", h.withDefault "marked"]
  all_goals first | rfl | exact trivial | exact fun _ _ => id | decide

theorem Alike.read_method (h : Alike .method es es') :
    MethodDecl.ofDocument? (.mapping es) = MethodDecl.ofDocument? (.mapping es') := by
  refine h.record?_bind ?_
  rw [h.required "name", h.withDefault "arity"]
  all_goals first | rfl | exact trivial | decide

theorem Alike.read_link (h : Alike .link es es') :
    Embedding.chainOfDocument? (.mapping es) = Embedding.chainOfDocument? (.mapping es') := by
  refine h.record?_bind ?_
  rw [h.required "field", h.required "descriptor"]
  all_goals first | rfl | exact trivial | exact fun _ _ => id | decide

theorem Alike.read_type (h : Alike .type es es') :
    TypeDecl.ofDocument? (.mapping es) = TypeDecl.ofDocument? (.mapping es') := by
  rw [TypeDecl.ofDocument?_eq, TypeDecl.ofDocument?_eq]
  refine h.record?_bind ?_
  rw [Level.ofEntries?, Level.ofEntries?, h.required "name", h.withDefault "path",
    h.withDefault "qualified_name", h.withDefault "visibility", h.withDefault "is_abstract",
    h.withDefault "fields", h.withDefault "dependency", h.withDefault "constructors",
    h.withDefault "factories", h.withDefault "methods", h.withDefault "accessor_convention",
    h.withDefault "singleton_instance", h.withDefault "codec_name", h.withDefault "parent"]
  all_goals first | rfl | exact trivial | exact fun _ _ => id | decide

/-- The initial entries of a request are the strategy and those of a type, and its parts are those
of a type. -/
theorem Change.of_request {key : String} {d d' : Option Document} (hkey : key ≠ "strategy")
    (h : Change .request key d d') : Change .type key d d' := by
  cases h with
  | same => exact .same _
  | remove hinitial =>
    have hrest : Form.initial .request =
      ("strategy", .text "instantiator") :: Form.initial .type := rfl
    rw [hrest, List.lookup_cons, beq_eq_false_iff_ne.2 hkey] at hinitial
    exact .remove hinitial
  | within hpart hread => exact .within hpart hread

theorem Alike.of_request (h : Alike .request es es') : Alike .type es es' where
  single key hkey := h.single key (List.mem_cons_of_mem _ hkey)
  change key hkey := by
    have hne : key ≠ "strategy" := ne_of_mem_of_not_mem hkey (by decide)
    exact (h.change key (List.mem_cons_of_mem _ hkey)).of_request hne

theorem Alike.read_request (h : Alike .request es es') :
    Request.ofDocument? (.mapping es) = Request.ofDocument? (.mapping es') := by
  have hsingle : count "strategy" es > 1 ↔ count "strategy" es' > 1 := by
    have := h.single "strategy" List.mem_cons_self
    omega
  simp only [count] at hsingle
  rw [Request.ofDocument?, Request.ofDocument?, h.of_request.read_type, h.withDefault "strategy"]
  · simp only [hsingle]
  all_goals first | rfl | exact trivial | decide

theorem Alike.read_eq (h : Alike form es es') :
    form.read (.mapping es) = form.read (.mapping es') := by
  cases form with
  | request => exact h.read_request
  | type => exact h.read_type
  | link => exact h.read_link
  | field => exact h.read_field
  | param => exact h.read_param
  | maker => exact h.read_maker
  | method => exact h.read_method
  | list => rfl

/-- A difference makes none to what is read, by induction on where it stands. -/
theorem Abridged.read_eq {form : Form} {d d' : Document} (h : Abridged form d d') :
    form.read d = form.read d' := by
  induction h with
  | remove before after hinitial hkey => exact (Alike.remove hinitial hkey).read_eq
  | add d before after hkey => exact (Alike.add hkey).read_eq
  | within before after hpart _ ih => exact (Alike.within hpart ih).read_eq
  | member before after _ ih =>
    simp only [Form.read, listOf?, List.mapM_append, List.mapM_cons, ih]
    rfl

end Read

/-! ### Requests -/

/-- A request that is written with every key is read as it was.  Leaving out keys that hold what a
declaration is built with, and adding keys that are not known, at any depth and any number of times,
changes nothing of what is read. -/
theorem Request.ofDocument?_of_abridged (r : Request) (hr : r.decl.Sized) :
    ofDocument? r.toDocument = some r ∧
      ∀ doc doc', Relation.ReflTransGen (Abridged .request) doc doc' →
        ofDocument? doc = ofDocument? doc' := by
  refine ⟨ofDocument?_toDocument hr, fun doc doc' h => ?_⟩
  induction h with
  | refl => rfl
  | tail _ hstep ih => exact ih.trans hstep.read_eq

/-- A base with one method. -/
def event : Level where
  name := "Event"
  methods := [{ name := "at" }]

/-- A type that embeds it. -/
def move : Request where
  decl := { name := "Move", ancestors := [⟨"base", event⟩] }

/-- The base without the number of arguments of its method. -/
def eventDocument : Document := .mapping [
  ("field", .text "base"),
  ("descriptor", .mapping ((event.toEntries .null).take 10 ++
    ("methods", .list [.mapping [("name", .text "at")]]) :: (event.toEntries .null).drop 11))]

/-- The type without the strategy and with a key that is not known. -/
def moveDocument : Document :=
  .mapping (("draft", .bool true) :: move.decl.toEntries eventDocument)

theorem ofDocument?_moveDocument :
    move.decl.Sized ∧ Request.ofDocument? moveDocument = some move := by
  have hsized : move.decl.Sized := by simp [TypeDecl.Sized, Level.Sized, move, event]
  have hstrategy : Abridged .request move.toDocument (.mapping (move.decl.toEntries
      (Embedding.chainToDocument move.decl.ancestors))) := .remove [] _ rfl rfl
  have harity : Abridged (.list .method) (.list (event.methods.map MethodDecl.toDocument))
      (.list [.mapping [("name", .text "at")]]) :=
    .member [] [] (.remove [("name", .text "at")] [] rfl rfl)
  have hbase : Abridged .link (Embedding.chainToDocument move.decl.ancestors) eventDocument :=
    .within [("field", .text "base")] [] rfl
      (.within ((event.toEntries .null).take 10) ((event.toEntries .null).drop 11) rfl harity)
  have hparent : Abridged .request
      (.mapping (move.decl.toEntries (Embedding.chainToDocument move.decl.ancestors)))
      (.mapping (move.decl.toEntries eventDocument)) :=
    .within ((move.decl.toEntries .null).take 6) ((move.decl.toEntries .null).drop 7) rfl hbase
  have hdraft : Abridged .request (.mapping (move.decl.toEntries eventDocument)) moveDocument :=
    .add (.bool true) [] _ (by decide)
  have hdocument := ((Relation.ReflTransGen.single hstrategy).tail hparent).tail hdraft
  obtain ⟨hfull, hread⟩ := Request.ofDocument?_of_abridged move hsized
  exact ⟨hsized, (hread _ _ hdocument).symm.trans hfull⟩

end CodecForge.Schema

import CodecForge.Proofs.Module.Isolation

/-!
# The lines around the codecs

Outside its codecs a module is meant to have comments and empty lines only.  The head names the
manifest and has its description, and each codec stands under the name of its type.  These texts
are put behind the mark of a comment as they are, so a text of several lines is a comment on the
first of them alone.
-/

namespace CodecForge.Module

open CodecForge.Schema CodecForge.Code CodecForge.Source

/-! ### Lines -/

/-- The lines of a text.  What stands behind the last line break is a line too, if an empty one. -/
def lines (text : String) : List String := (text.toList.splitOn '\n').map String.ofList

def IsComment (line : String) : Prop := line = "" ∨ "//".toList <+: line.toList

instance : DecidablePred IsComment := fun line =>
  inferInstanceAs (Decidable (line = "" ∨ "//".toList <+: line.toList))

/-- The lines of a text from the second on are comments or empty. -/
def Continues (text : String) : Prop := ∀ line ∈ (lines text).tail, IsComment line

instance : DecidablePred Continues := fun text =>
  inferInstanceAs (Decidable (∀ line ∈ (lines text).tail, IsComment line))

theorem lines_append_break (a b : String) : lines (a ++ "\n" ++ b) = lines a ++ lines b := by
  have hbreak : (a ++ "\n" ++ b).toList = a.toList ++ '\n' :: b.toList := by simp
  rw [lines, hbreak, List.splitOn, List.splitOnP_append_cons _ _ (by simp), List.map_append]
  rfl

theorem splitOn_append_of_notMem {α : Type} [BEq α] [LawfulBEq α] {sep : α} {xs : List α}
    (h : sep ∉ xs) (ys : List α) :
    (xs ++ ys).splitOn sep = (ys.splitOn sep).modifyHead (xs ++ ·) := by
  induction xs with
  | nil => exact (congrFun List.modifyHead_id _).symm
  | cons x xs ih =>
    rw [List.mem_cons, not_or] at h
    have hx : ¬ (x == sep) = true := by simpa using Ne.symm h.1
    rw [List.cons_append, List.splitOn_cons_eq_if_modifyHead, if_neg hx, ih h.2,
      List.modifyHead_modifyHead]
    rfl

theorem lines_append_of_notMem {a : String} (ha : '\n' ∉ a.toList) (b : String) :
    lines (a ++ b) = (lines b).modifyHead (a ++ ·) := by
  rw [lines, String.toList_append, splitOn_append_of_notMem ha, lines]
  cases b.toList.splitOn '\n' with
  | nil => rfl
  | cons first rest => simp [List.modifyHead_cons]

theorem lines_ne_nil (text : String) : lines text ≠ [] :=
  mt List.map_eq_nil_iff.1 (List.splitOn_ne_nil _ _)

/-- Behind a mark a text is a comment on its first line. -/
theorem forall_lines_isComment_iff {mark : String} (hmark : "//".toList <+: mark.toList)
    (hbreak : '\n' ∉ mark.toList) (text : String) :
    (∀ line ∈ lines (mark ++ text), IsComment line) ↔ Continues text := by
  obtain ⟨first, rest, hlines⟩ := List.exists_cons_of_ne_nil (lines_ne_nil text)
  have hfirst : IsComment (mark ++ first) := by
    refine .inr ?_
    rw [String.toList_append]
    exact hmark.trans (List.prefix_append _ _)
  rw [lines_append_of_notMem hbreak, Continues, hlines, List.modifyHead_cons, List.tail_cons,
    List.forall_mem_cons]
  exact and_iff_right hfirst

/-! ### Parts -/

/-- A part of a module, which stands on lines of its own. -/
inductive Part where
  /-- A text around the codecs. -/
  | remark (text : String)
  /-- The tokens of a codec. -/
  | code (tokens : Tokens)

namespace Part

def text : Part → String
  | remark text => text
  | code tokens => Token.spell tokens

/-- A remark is harmless if all its lines are comments or empty; codecs are meant to be code. -/
def IsHarmless : Part → Prop
  | remark text => ∀ line ∈ lines text, IsComment line
  | code _ => True

end Part

/-- The text of parts one below the other. -/
def joinParts (parts : List Part) : String := String.join (parts.map fun p => p.text ++ "\n")

/-- What a codec stands under. -/
def title (name : String) (s : Strategy) : String := s!"{name} ({s.tag} strategy)"

def headParts (source : String) (description : Option String) : List Part :=
  [.remark "// @generated by autocodec-gen. Do not edit.", .remark ("// Source: " ++ source)] ++
    description.toList.map fun text => .remark ("// " ++ text)

def sectionParts (c : Generated) : List Part :=
  [.remark "", .remark ("// " ++ title c.typeName c.strategy), .code c.tokens]

def moduleParts (source : String) (description : Option String) (codecs : List Generated) :
    List Part :=
  headParts source description ++ codecs.flatMap sectionParts

variable {source : String} {description : Option String} {codecs : List Generated} {g : Generator}

theorem joinParts_append (ps ps' : List Part) :
    joinParts (ps ++ ps') = joinParts ps ++ joinParts ps' := by
  rw [joinParts, List.map_append, String.join_append]
  rfl

theorem lines_joinParts (parts : List Part) :
    lines (joinParts parts) = (parts.flatMap fun p => lines p.text) ++ [""] := by
  induction parts with
  | nil => rfl
  | cons p parts ih =>
    rw [joinParts, List.map_cons, String.join_cons, ← joinParts, lines_append_break, ih,
      List.flatMap_cons, List.append_assoc]

theorem joinParts_headParts : joinParts (headParts source description) =
    header source description := by
  have hfirst : "// @generated by autocodec-gen. Do not edit.\n" =
      "// @generated by autocodec-gen. Do not edit." ++ "\n" := by
    simp
  -- `header` is unfolded, since its equation compares long literals
  unfold header
  cases description <;>
    simp only [joinParts, headParts, hfirst, Part.text, toString, Option.toList_none,
      Option.toList_some, List.map_append, List.map_cons, List.map_nil, List.append_nil,
      String.join_append, String.join_cons, String.join_nil, String.append_assoc,
      String.append_empty]

theorem joinParts_sectionParts (c : Generated) : joinParts (sectionParts c) = codecSection c := by
  have hopening : "\n// " = "\n" ++ "// " := by simp
  have hclosing : " strategy)\n" = " strategy)" ++ "\n" := by simp
  simp only [joinParts, sectionParts, codecSection, title, hopening, hclosing, Part.text, toString,
    List.map_cons, List.map_nil, String.join_cons, String.join_nil, String.append_assoc,
    String.append_empty, String.empty_append]

theorem joinParts_flatMap_sectionParts :
    joinParts (codecs.flatMap sectionParts) = String.join (codecs.map codecSection) := by
  induction codecs with
  | nil => rfl
  | cons c codecs ih =>
    rw [List.flatMap_cons, joinParts_append, joinParts_sectionParts, ih, List.map_cons,
      String.join_cons]

theorem text_of_render {m : Manifest} {R : Rendered} (h : m.render source = .ok R) :
    ∃ g, Generator.ofRuntimeText? m.runtime = some g ∧
      R.text = joinParts (moduleParts source m.description (m.requests.filterMap (served? g))) := by
  rw [Manifest.render] at h
  cases hruntime : Generator.ofRuntimeText? m.runtime with
  | none =>
    rw [hruntime] at h
    cases h
  | some g =>
    rw [hruntime] at h
    obtain ⟨report, hreport, h⟩ := bind_eq_ok_iff.1 h
    cases h
    have haccounts := accounts_of_generateBatch (mapError_eq_ok_iff.1 hreport)
    refine ⟨g, rfl, ?_⟩
    rw [← haccounts.eq_filterMap.1, moduleParts, joinParts_append, joinParts_headParts,
      joinParts_flatMap_sectionParts]
    rfl

/-! ### Remarks -/

theorem forall_headParts_iff : (∀ p ∈ headParts source description, p.IsHarmless) ↔
    Continues source ∧ ∀ text ∈ description, Continues text := by
  have hfirst : (Part.remark "// @generated by autocodec-gen. Do not edit.").IsHarmless := by
    rw [Part.IsHarmless]
    decide +kernel
  have hsource : (Part.remark ("// Source: " ++ source)).IsHarmless ↔ Continues source :=
    forall_lines_isComment_iff (by decide) (by decide) source
  have hdescription (text : String) :
      (Part.remark ("// " ++ text)).IsHarmless ↔ Continues text :=
    forall_lines_isComment_iff (by decide) (by decide) text
  simp only [headParts, List.forall_mem_append, List.forall_mem_cons, List.forall_mem_map, hfirst,
    hsource, hdescription, Option.mem_toList, Option.mem_def, List.not_mem_nil, false_implies,
    implies_true, true_and, and_true]

theorem forall_sectionParts_iff (c : Generated) : (∀ p ∈ sectionParts c, p.IsHarmless) ↔
    Continues (title c.typeName c.strategy) := by
  have hblank : (Part.remark "").IsHarmless := by
    rw [Part.IsHarmless]
    decide
  have htitle : (Part.remark ("// " ++ title c.typeName c.strategy)).IsHarmless ↔
      Continues (title c.typeName c.strategy) :=
    forall_lines_isComment_iff (by decide) (by decide) _
  have hcode : (Part.code c.tokens).IsHarmless := trivial
  simp only [sectionParts, List.forall_mem_cons, hblank, htitle, hcode, List.not_mem_nil,
    false_implies, implies_true, true_and, and_true]

theorem title_of_served {r : Request} {c : Generated} (h : served? g r = some c) :
    title c.typeName c.strategy = title r.decl.displayName r.strategy := by
  obtain ⟨hname, hstrategy⟩ := reported_of_generate (served?_eq_some_iff.1 h)
  rw [hname, hstrategy]

/-- The codecs of a manifest stand under what its entries are called. -/
theorem forall_served_iff {requests : List Request} :
    (∀ c ∈ requests.filterMap (served? g), Continues (title c.typeName c.strategy)) ↔
      ∀ r ∈ requests, isServed g r = true → Continues (title r.decl.displayName r.strategy) := by
  simp only [List.mem_filterMap, isServed, Option.isSome_iff_exists]
  constructor
  · rintro h r hr ⟨c, hserved⟩
    have hc := h c ⟨r, hr, hserved⟩
    rwa [title_of_served hserved] at hc
  · rintro h c ⟨r, hr, hserved⟩
    rw [title_of_served hserved]
    exact h r hr ⟨c, hserved⟩

theorem forall_moduleParts_iff {requests : List Request} :
    (∀ p ∈ moduleParts source description (requests.filterMap (served? g)), p.IsHarmless) ↔
      Continues source ∧ (∀ text ∈ description, Continues text) ∧
        ∀ r ∈ requests, isServed g r = true → Continues (title r.decl.displayName r.strategy) := by
  rw [moduleParts, List.forall_mem_append, forall_headParts_iff, List.forall_mem_flatMap, and_assoc]
  simp only [forall_sectionParts_iff, forall_served_iff]

/-- The lines of a module are those of its parts.  All lines outside the codecs are comments or
empty exactly if the name of the manifest, its description and the names of the types that are
served have no line behind the first that is neither. -/
theorem lines_of_render {m : Manifest} {source : String} {R : Rendered}
    (h : m.render source = .ok R) :
    ∃ g, Generator.ofRuntimeText? m.runtime = some g ∧
      ∃ parts, parts = moduleParts source m.description (m.requests.filterMap (served? g)) ∧
        lines R.text = (parts.flatMap fun p => lines p.text) ++ [""] ∧
        ((∀ p ∈ parts, p.IsHarmless) ↔
          Continues source ∧ (∀ text ∈ m.description, Continues text) ∧
            ∀ r ∈ m.requests, isServed g r = true →
              Continues (title r.decl.displayName r.strategy)) := by
  obtain ⟨g, hruntime, htext⟩ := text_of_render h
  refine ⟨g, hruntime, _, rfl, ?_, forall_moduleParts_iff⟩
  rw [htext, lines_joinParts]

/-- A manifest whose description has two lines. -/
def twoLineText : String := "description: \"one\\ntwo\"\ncodecs: []\n"

/-- The second line of the description is no comment in the module. -/
theorem lines_of_render_twoLineText :
    ∃ m R, Manifest.parse? twoLineText = some m ∧ m.render "inline.yaml" = .ok R ∧
      lines R.text = ["// @generated by autocodec-gen. Do not edit.", "// Source: inline.yaml",
        "// one", "two", ""] ∧
      ¬ IsComment "two" ∧
      ¬ ∀ p ∈ moduleParts "inline.yaml" m.description [], p.IsHarmless := by
  have hvalid : (Manifest.parse? twoLineText).any (fun m => m.requests.isEmpty &&
      m.description == some "one\ntwo" && (m.render "inline.yaml").isOk) = true := by
    decide +kernel
  obtain ⟨m, hm, hfacts⟩ := (Option.any_eq_true _ _).1 hvalid
  simp only [Bool.and_eq_true, List.isEmpty_iff, beq_iff_eq] at hfacts
  obtain ⟨⟨hrequests, hdescription⟩, hrender⟩ := hfacts
  obtain ⟨R, hR⟩ := exists_of_isOk hrender
  obtain ⟨g, -, parts, hparts, hlines, hharmless⟩ := lines_of_render hR
  rw [hrequests, hdescription, List.filterMap_nil] at hparts
  have htwo : ¬ Continues "one\ntwo" := by decide
  refine ⟨m, R, hm, hR, ?_, by decide, ?_⟩
  · rw [hlines, hparts]
    decide +kernel
  · rw [hdescription, ← hparts, hharmless, hdescription]
    exact fun h => htwo (h.2.1 _ rfl)

end CodecForge.Module

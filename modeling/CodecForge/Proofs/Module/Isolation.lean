import CodecForge.Module.Rendered
import CodecForge.Proofs.Code.Batch

/-!
# Entries of a manifest stand alone

What becomes of an entry of a manifest is decided by the entry and the runtime library.  An entry
that fails leaves no trace in the module but its line in the account, and the section of a codec is
the same in every manifest that lists its entry.
-/

namespace CodecForge.Module

open CodecForge.Schema CodecForge.Code

variable {g : Generator} {m : Manifest} {requests : List Request} {r : Request} {source : String}

/-! ### Renderings -/

/-- Generation is not cut short for any of the requests. -/
def Returns (g : Generator) (requests : List Request) : Prop :=
  ∀ r ∈ requests, ¬ ∃ slot, g.generate r.decl r.strategy = .error (.aborted slot)

def isServed (g : Generator) (r : Request) : Bool := (served? g r).isSome

def isRejected (g : Generator) (r : Request) : Bool := (rejected? g r).isSome

/-- The line that the account of a module has for a request, if the request fails. -/
def failureLine? (g : Generator) (r : Request) : Option (String × String) :=
  (rejected? g r).map fun f => (f.typeName, f.fault.message)

/-- A module is made of what its entries give one by one. -/
theorem render_eq (hruntime : Generator.ofRuntimeText? m.runtime = some g)
    (hreturns : Returns g m.requests) (source : String) :
    m.render source = .ok {
      generated := (m.requests.filterMap (served? g)).map fun c => c.codec.text
      failed := m.requests.filterMap (failureLine? g)
      text := header source m.description ++
        String.join ((m.requests.filterMap (served? g)).map codecSection) } := by
  have hlines : m.requests.filterMap (failureLine? g) =
      (m.requests.filterMap (rejected? g)).map fun f => (f.typeName, f.fault.message) := by
    rw [List.map_filterMap]
    rfl
  rw [Manifest.render, hruntime, hlines]
  simp only [generateBatch_eq hreturns]
  rfl

theorem isRejected_eq : isRejected g r = (failureLine? g r).isSome := by
  rw [isRejected, failureLine?, Option.isSome_map]

theorem isRejected_of_served (h : isServed g r = true) : isRejected g r = false := by
  rw [isServed, Option.isSome_iff_exists] at h
  obtain ⟨c, hserved⟩ := h
  rw [isRejected, rejected?, served?_eq_some_iff.1 hserved]
  rfl

/-! ### Deletion -/

/-- The requests that are not marked for deletion. -/
def kept (marks : List (Request × Bool)) : List Request :=
  (marks.filter fun p => !p.2).map Prod.fst

/-- The lines of the account, each with the mark of its request. -/
def markedLines (g : Generator) (marks : List (Request × Bool)) : List ((String × String) × Bool) :=
  marks.filterMap fun p => (failureLine? g p.1).map fun line => (line, p.2)

variable {marks : List (Request × Bool)}

theorem mem_of_mem_kept (h : r ∈ kept marks) : r ∈ marks.map Prod.fst := by
  obtain ⟨p, hp, rfl⟩ := List.mem_map.1 h
  exact List.mem_map_of_mem (List.mem_of_mem_filter hp)

/-- Requests that are served are never marked, so all of them are kept. -/
theorem filterMap_served?_kept (hmarks : ∀ p ∈ marks, p.2 = true → isRejected g p.1 = true) :
    (kept marks).filterMap (served? g) = (marks.map Prod.fst).filterMap (served? g) := by
  rw [kept, List.filterMap_map, List.filterMap_filter, List.filterMap_map]
  refine List.filterMap_congr fun p hp => ?_
  cases hmark : p.2 with
  | false => simp
  | true =>
    -- what is marked is rejected, and so it has no codec that could be missing
    have hnone : served? g p.1 = none := by
      rw [← Option.not_isSome_iff_eq_none]
      intro hserved
      have hrejected := hmarks p hp hmark
      rw [isRejected_of_served hserved] at hrejected
      cases hrejected
    simp [hnone]

theorem map_markedLines :
    (markedLines g marks).map Prod.fst = (marks.map Prod.fst).filterMap (failureLine? g) := by
  rw [markedLines, List.map_filterMap, List.filterMap_map]
  congr 1
  funext p
  simp [Function.comp_def]

theorem filter_markedLines :
    ((markedLines g marks).filter fun line => !line.2).map Prod.fst =
      (kept marks).filterMap (failureLine? g) := by
  rw [markedLines, List.filter_filterMap, List.map_filterMap, kept, List.filterMap_map,
    List.filterMap_filter]
  congr 1
  funext p
  cases p.2 <;> cases hline : failureLine? g p.1 <;> simp [hline]

/-- No line is left exactly if all requests that fail are marked. -/
theorem filterMap_kept_eq_nil_iff : (kept marks).filterMap (failureLine? g) = [] ↔
    ∀ p ∈ marks, isRejected g p.1 = true → p.2 = true := by
  rw [kept, List.filterMap_map, List.filterMap_filter, List.filterMap_eq_nil_iff]
  refine forall₂_congr fun p _ => ?_
  cases p.2 <;> simp [isRejected_eq]

/-! ### Sections -/

theorem render_lone (hruntime : Generator.ofRuntimeText? m.runtime = some g) {c : Generated}
    (hserved : served? g r = some c) (description : Option String) (source : String) :
    ∃ R, ({ runtime := m.runtime, description, requests := [r] } : Manifest).render source = .ok R ∧
      R.text = header source description ++ codecSection c := by
  have hreturns : Returns g [r] := by
    refine List.forall_mem_singleton.2 ?_
    rintro ⟨slot, haborted⟩
    rw [served?_eq_some_iff.1 hserved] at haborted
    cases haborted
  refine ⟨_, render_eq (m := ⟨m.runtime, description, [r]⟩) hruntime hreturns source, ?_⟩
  simp [hserved]

/-- In a manifest with a valid runtime, none of whose entries has its generation cut short, entries
that fail can be deleted in any number: the text and the codecs stay as they are, the account loses
the lines of the deleted entries and no others, and it is a success exactly if no entry that fails
is left.  Behind its head the text has one section for each entry that is served, in the order of
the entries, and this is the section that the entry has in a manifest of its own. -/
theorem render_isolates {m : Manifest} {g : Generator}
    (hruntime : Generator.ofRuntimeText? m.runtime = some g) (hreturns : Returns g m.requests)
    (source : String) :
    ∃ R, m.render source = .ok R ∧
      (∀ marks : List (Request × Bool), marks.map Prod.fst = m.requests →
        (∀ p ∈ marks, p.2 = true → isRejected g p.1 = true) →
        ∃ R', { m with requests := kept marks }.render source = .ok R' ∧
          R'.text = R.text ∧ R'.generated = R.generated ∧
          R.failed = (markedLines g marks).map Prod.fst ∧
          R'.failed = ((markedLines g marks).filter fun line => !line.2).map Prod.fst ∧
          (R'.isSuccess = true ↔ ∀ p ∈ marks, isRejected g p.1 = true → p.2 = true)) ∧
      ∃ sections, R.text = header source m.description ++ String.join sections ∧
        List.Forall₂ (fun r s => ∀ description source', ∃ R₁,
            ({ runtime := m.runtime, description, requests := [r] } : Manifest).render source' =
              .ok R₁ ∧ R₁.text = header source' description ++ s)
          (m.requests.filter (isServed g)) sections := by
  refine ⟨_, render_eq hruntime hreturns source, fun marks hrequests hmarks => ?_, ?_⟩
  · have hkept : Returns g (kept marks) := fun r hr => hreturns r (hrequests ▸ mem_of_mem_kept hr)
    refine ⟨_, render_eq (m := { m with requests := kept marks }) hruntime hkept source, ?_⟩
    have hserved := filterMap_served?_kept hmarks
    rw [hrequests] at hserved
    refine ⟨?_, ?_, ?_, filter_markedLines.symm, ?_⟩
    · simp only [hserved]
    · simp only [hserved]
    · rw [map_markedLines, hrequests]
    · rw [Rendered.isSuccess, List.isEmpty_iff]
      exact filterMap_kept_eq_nil_iff
  · refine ⟨_, rfl, ?_⟩
    rw [List.forall₂_map_right_iff]
    refine (forall₂_filterMap (served? g) m.requests).imp fun r c hserved => ?_
    exact fun description source' => render_lone hruntime hserved description source'

/-- A base type for which no base codec can be made, since it is not abstract. -/
def concreteRequest : Request where
  strategy := .polymorphic
  decl := { name := "Base" }

/-- A manifest with one entry that is served, between two that fail. -/
def threeEntries : Manifest where
  description := some "Shapes"
  requests := [shapeRequest, pointRequest, concreteRequest]

/-- Without the first entry the module is the same, and the account has one line left. -/
theorem render_isolates_threeEntries :
    ∃ R R', threeEntries.render "shapes.yaml" = .ok R ∧
      { threeEntries with requests := [pointRequest, concreteRequest] }.render "shapes.yaml" =
        .ok R' ∧
      R'.text = R.text ∧ R'.generated = R.generated ∧ R.failed.map Prod.fst = ["Shape", "Base"] ∧
      R'.failed.map Prod.fst = ["Base"] ∧ R'.isSuccess = false := by
  have hvalid : (Generator.ofRuntimeText? threeEntries.runtime).any (fun g =>
      decide ((failureLine? g shapeRequest).map Prod.fst = some "Shape" ∧
        failureLine? g pointRequest = none ∧
        (failureLine? g concreteRequest).map Prod.fst = some "Base")) = true := by
    decide +kernel
  obtain ⟨g, hg, hfacts⟩ := (Option.any_eq_true _ _).1 hvalid
  obtain ⟨hshape, hpoint, hconcrete⟩ := of_decide_eq_true hfacts
  obtain ⟨shape, hshape, hname⟩ := Option.map_eq_some_iff.1 hshape
  obtain ⟨concrete, hconcrete, hname'⟩ := Option.map_eq_some_iff.1 hconcrete
  have hreturns : Returns g threeEntries.requests := by
    unfold Returns
    simp only [exists_generate_aborted_iff]
    decide +kernel
  obtain ⟨R, hR, hdeletion, -⟩ := render_isolates hg hreturns "shapes.yaml"
  obtain ⟨R', hR', htext, hgenerated, hlines, hlines', -⟩ := hdeletion
    [(shapeRequest, true), (pointRequest, false), (concreteRequest, false)] rfl
    (by simp [isRejected_eq, hshape])
  have hmarked : markedLines g
      [(shapeRequest, true), (pointRequest, false), (concreteRequest, false)] =
        [(shape, true), (concrete, false)] := by
    simp [markedLines, hshape, hpoint, hconcrete]
  rw [hmarked] at hlines hlines'
  refine ⟨R, R', hR, hR', htext, hgenerated, ?_, ?_, ?_⟩
  · simp [hlines, hname, hname']
  · simp [hlines', hname']
  · simp [Rendered.isSuccess, hlines']

end CodecForge.Module

import CodecForge.Command.Run
import CodecForge.Proofs.Command.Files
import CodecForge.Proofs.Module.Isolation

/-!
# Checking and generating

A check and a generation read the same manifest and make the same module of it.  Up to there they
go the same way, and neither touches a file; what the generation does besides is to save the text of
the module.  This holds however the manifest is read from its text.
-/

namespace CodecForge.Command

open CodecForge.Schema CodecForge.Code CodecForge.Module

variable {fs fs' : Files} {path out : String} {r : Rendered} {manifest : Manifest} {g : Generator}
  {env : Option String} {parse? : String → Option Manifest}

/-! ### Steps on a tree -/

section Steps

variable {α β : Type} {x : ExceptT RunError (StateM Files) α}
  {f : α → ExceptT RunError (StateM Files) β}

/-- What a step that may fail gives on a tree, with the tree that it leaves. -/
def stepOn (x : ExceptT RunError (StateM Files) α) (fs : Files) : Except RunError α × Files :=
  x.run.run fs

/-- The end of a run on a tree, with the tree that it leaves. -/
def runOn (parse? : String → Option Manifest) (args : List String) (env : Option String)
    (fs : Files) : Outcome × Files :=
  (run Files.store args env parse?).run fs

theorem stepOn_bind (x : ExceptT RunError (StateM Files) α)
    (f : α → ExceptT RunError (StateM Files) β) (fs : Files) :
    stepOn (x >>= f) fs = match stepOn x fs with
      | (.ok a, fs') => stepOn (f a) fs'
      | (.error e, fs') => (.error e, fs') := by
  simp only [stepOn, ExceptT.run_bind, StateT.run_bind]
  cases hx : x.run.run fs with
  | mk result fs' => cases result <;> rfl

theorem stepOn_read (fs : Files) (path : String) :
    stepOn (ExceptT.mk (do return (← Files.store.read path).mapError (RunError.read path))) fs =
      ((fs.read path).mapError (.read path), fs) := rfl

theorem stepOn_makeDirectory (fs : Files) (path : String) :
    stepOn (ExceptT.mk (do
        return (← Files.store.makeDirectory path).mapError RunError.makeDirectory)) fs =
      match fs.makeDirectories [] (pathSteps path) with
      | .ok fs' => (.ok (), fs')
      | .error e => (.error (.makeDirectory e), fs) := by
  have hmake : (Files.store.makeDirectory path).run fs =
      match fs.makeDirectories [] (pathSteps path) with
      | .ok fs' => (.ok (), fs')
      | .error e => (.error e, fs) := rfl
  simp only [stepOn, ExceptT.run_mk, StateT.run_bind, hmake]
  cases fs.makeDirectories [] (pathSteps path) <;> rfl

theorem stepOn_write (fs : Files) (path text : String) :
    stepOn (ExceptT.mk (do
        return (← Files.store.write path text).mapError (RunError.write path))) fs =
      match fs.write path text with
      | .ok fs' => (.ok (), fs')
      | .error e => (.error (.write path e), fs) := by
  have hwrite : (Files.store.write path text).run fs = match fs.write path text with
      | .ok fs' => (.ok (), fs')
      | .error e => (.error e, fs) := rfl
  simp only [stepOn, ExceptT.run_mk, StateT.run_bind, hwrite]
  cases fs.write path text <;> rfl

end Steps

/-! ### Making a module -/

/-- The module of the manifest in a file of a tree. -/
def moduleIn (parse? : String → Option Manifest) (fs : Files) (path : String) :
    Except RunError Rendered := do
  let text ← (fs.read path).mapError (.read path)
  match parse? text with
  | none => .error (.malformed path)
  | some manifest => (manifest.render path).mapError .render

/-- The file holds a manifest that names a runtime library. -/
structure HoldsManifest (parse? : String → Option Manifest) (fs : Files) (path : String)
    (manifest : Manifest) (g : Generator) : Prop where
  read : ∃ text, fs.read path = .ok text ∧ parse? text = some manifest
  runtime : Generator.ofRuntimeText? manifest.runtime = some g

/-- The file holds nothing that a module is made of. -/
inductive LacksManifest (parse? : String → Option Manifest) (fs : Files) (path : String) : Prop
  | unreadable {e : FileError} (hread : fs.read path = .error e)
  | malformed {text : String} (hread : fs.read path = .ok text)
      (hparse : parse? text = none)
  | invalidRuntime {text : String} {manifest : Manifest} (hread : fs.read path = .ok text)
      (hparse : parse? text = some manifest)
      (hruntime : Generator.ofRuntimeText? manifest.runtime = none)

theorem lacksManifest_or_holdsManifest (parse? : String → Option Manifest) (fs : Files)
    (path : String) :
    LacksManifest parse? fs path ∨ ∃ manifest g, HoldsManifest parse? fs path manifest g := by
  cases hread : fs.read path with
  | error e => exact .inl (.unreadable hread)
  | ok text =>
    cases hparse : parse? text with
    | none => exact .inl (.malformed hread hparse)
    | some manifest =>
      cases hruntime : Generator.ofRuntimeText? manifest.runtime with
      | none => exact .inl (.invalidRuntime hread hparse hruntime)
      | some g => exact .inr ⟨manifest, g, ⟨text, hread, hparse⟩, hruntime⟩

/-- The file holds one manifest at most. -/
theorem HoldsManifest.unique {manifest' : Manifest} {g' : Generator}
    (h : HoldsManifest parse? fs path manifest g) (h' : HoldsManifest parse? fs path manifest' g') :
    manifest' = manifest ∧ g' = g := by
  obtain ⟨text, hread, hparse⟩ := h.read
  obtain ⟨text', hread', hparse'⟩ := h'.read
  obtain rfl : text = text' := Except.ok.inj (hread.symm.trans hread')
  obtain rfl : manifest = manifest' := Option.some.inj (hparse.symm.trans hparse')
  exact ⟨rfl, Option.some.inj (h'.runtime.symm.trans h.runtime)⟩

theorem HoldsManifest.not_lacksManifest (h : HoldsManifest parse? fs path manifest g) :
    ¬ LacksManifest parse? fs path := by
  obtain ⟨text, hread, hparse⟩ := h.read
  rintro (hread' | ⟨hread', hparse'⟩ | ⟨hread', hparse', hruntime⟩)
  · cases hread.symm.trans hread'
  · obtain rfl := Except.ok.inj (hread.symm.trans hread')
    cases hparse.symm.trans hparse'
  · obtain rfl := Except.ok.inj (hread.symm.trans hread')
    obtain rfl := Option.some.inj (hparse.symm.trans hparse')
    cases h.runtime.symm.trans hruntime

/-- One of the requests has its generation cut short. -/
def IsCut (manifest : Manifest) : Prop :=
  ∃ r ∈ manifest.requests, r.strategy = .instantiator ∧ isCutShort r.decl = true

instance (manifest : Manifest) : Decidable (IsCut manifest) :=
  inferInstanceAs (Decidable (∃ r ∈ manifest.requests, _ ∧ _))

theorem stepOn_renderFile (fs : Files) (path : String) :
    stepOn (renderFile Files.store parse? path) fs = (moduleIn parse? fs path, fs) := by
  rw [renderFile, stepOn_bind, stepOn_read, moduleIn]
  cases fs.read path with
  | error e => rfl
  | ok text =>
    simp only [Except.mapError, bind, Except.bind]
    cases parse? text with
    | none => rfl
    | some manifest => rfl

/-- Without a manifest there is no module, and the run ends as any other that fails. -/
theorem moduleIn_of_lacksManifest (h : LacksManifest parse? fs path) :
    ∃ e, moduleIn parse? fs path = .error e ∧ (failed e).exitCode = 1 := by
  unfold moduleIn
  cases h with
  | @unreadable e hread => exact ⟨.read path e, by rw [hread]; rfl, rfl⟩
  | malformed hread hparse =>
    refine ⟨.malformed path, ?_, rfl⟩
    simp only [hread, Except.mapError, bind, Except.bind, hparse]
  | @invalidRuntime _ manifest hread hparse hruntime =>
    refine ⟨.render (.invalidRuntime manifest.runtime), ?_, rfl⟩
    simp only [hread, Except.mapError, bind, Except.bind, hparse, Manifest.render, hruntime]
    rfl

theorem HoldsManifest.moduleIn (h : HoldsManifest parse? fs path manifest g) :
    moduleIn parse? fs path = (manifest.render path).mapError .render := by
  obtain ⟨text, hread, hparse⟩ := h.read
  rw [Command.moduleIn, hread]
  simp only [Except.mapError, bind, Except.bind, hparse]

theorem not_isCut_iff : ¬ IsCut manifest ↔ Returns g manifest.requests := by
  simp only [IsCut, Returns, exists_generate_aborted_iff, not_exists, not_and]

theorem moduleIn_of_isCut (h : HoldsManifest parse? fs path manifest g) (hcut : IsCut manifest) :
    ∃ slot, moduleIn parse? fs path = .error (.render (.aborted slot)) := by
  rw [h.moduleIn, Manifest.render, h.runtime]
  cases hbatch : g.generateBatch manifest.requests with
  | error slot => exact ⟨slot, by simp only [hbatch]; rfl⟩
  | ok report =>
    have hreturns : Returns g manifest.requests := by
      rintro q hq ⟨slot, haborted⟩
      exact (accounts_of_generateBatch hbatch).not_aborted hq slot haborted
    exact absurd hcut (not_isCut_iff.2 hreturns)

theorem failureLine?_eq_none_iff (hreturns : Returns g manifest.requests) {q : Request}
    (hq : q ∈ manifest.requests) :
    failureLine? g q = none ↔ ∃ gen, g.generate q.decl q.strategy = .ok gen := by
  have hreturn := hreturns q hq
  rw [failureLine?, rejected?]
  cases hgenerate : g.generate q.decl q.strategy with
  | ok gen => simp
  | error failure =>
    cases failure with
    | fault f => simp
    | aborted slot => exact absurd ⟨slot, hgenerate⟩ hreturn

theorem moduleIn_of_returns (h : HoldsManifest parse? fs path manifest g)
    (hcut : ¬ IsCut manifest) :
    ∃ r, moduleIn parse? fs path = .ok r ∧ manifest.render path = .ok r ∧
      (r.isSuccess = true ↔
        ∀ q ∈ manifest.requests, ∃ gen, g.generate q.decl q.strategy = .ok gen) := by
  have hreturns := not_isCut_iff (g := g).1 hcut
  have hrender := render_eq h.runtime hreturns path
  refine ⟨_, by rw [h.moduleIn, hrender]; rfl, hrender, ?_⟩
  rw [Rendered.isSuccess, List.isEmpty_iff, List.filterMap_eq_nil_iff]
  exact forall₂_congr fun q hq => failureLine?_eq_none_iff hreturns hq

/-! ### Saving a module -/

/-- The text of a module is saved by making the directories above the file and writing it. -/
theorem stepOn_writeModule (fs : Files) (path : String) (r : Rendered) :
    stepOn (writeModule Files.store path r) fs =
      match fs.makeDirectories [] (pathSteps path).dropLast with
      | .error e => (.error (.makeDirectory e), fs)
      | .ok fs₁ => match fs₁.write path r.text with
        | .ok fs' => (.ok (), fs')
        | .error e => (.error (.write path e), fs₁) := by
  unfold writeModule
  split
  · next hparent =>
    rw [pathSteps_of_no_parent hparent]
    exact stepOn_write fs path r.text
  · next hparent =>
    rw [← pathSteps_parent hparent]
    exact stepOn_write fs path r.text
  · next parent hne hparent =>
    rw [← pathSteps_parent hparent]
    simp only [stepOn_bind, stepOn_makeDirectory]
    cases fs.makeDirectories [] (pathSteps parent) with
    | error e => rfl
    | ok fs₁ => exact stepOn_write fs₁ path r.text

/-- Writing to the file succeeds, whatever module is written. -/
def CanSave (fs : Files) (path : String) : Prop :=
  ∀ r : Rendered, ∃ fs', stepOn (writeModule Files.store path r) fs = (.ok (), fs')

theorem stepOn_writeModule_eq_ok_iff :
    stepOn (writeModule Files.store path r) fs = (.ok (), fs') ↔
      ∃ fs₁, fs.makeDirectories [] (pathSteps path).dropLast = .ok fs₁ ∧
        fs₁.write path r.text = .ok fs' := by
  rw [stepOn_writeModule]
  cases fs.makeDirectories [] (pathSteps path).dropLast with
  | error e => simp
  | ok fs₁ =>
    simp only [Except.ok.injEq, exists_eq_left']
    cases fs₁.write path r.text <;> simp

/-- Once the directories above it are made, a file can be written where there is no directory. -/
theorem canSave_iff : CanSave fs path ↔
    ∃ fs₁, fs.makeDirectories [] (pathSteps path).dropLast = .ok fs₁ ∧
      path ≠ "" ∧ endsInSlash path = false ∧ fs₁.locate [] (pathSteps path) = .ok (place path) ∧
      fs₁.find? (place path) ≠ some .directory := by
  simp only [CanSave, stepOn_writeModule_eq_ok_iff, Files.write_eq_ok_iff]
  constructor
  · intro h
    obtain ⟨-, fs₁, hmake, hempty, hslash, hlocate, hfile, -⟩ := h { text := "" }
    exact ⟨fs₁, hmake, hempty, hslash, hlocate, hfile⟩
  · rintro ⟨fs₁, hmake, hempty, hslash, hlocate, hfile⟩ r
    exact ⟨_, fs₁, hmake, hempty, hslash, hlocate, hfile, rfl⟩

/-- The tree is the other one with the text saved in the file: the directories above it are there,
and all else is as it was. -/
structure SavedTo (fs : Files) (path text : String) (fs' : Files) : Prop where
  read : fs'.read path = .ok text
  find? (names : List String) : fs'.find? names =
    if names = place path then some (.file text)
    else if fs.find? names = none ∧ names ∈ above path then some .directory
    else fs.find? names

theorem savedTo_of_writeModule (h : stepOn (writeModule Files.store path r) fs = (.ok (), fs')) :
    SavedTo fs path r.text fs' := by
  obtain ⟨fs₁, hmake, hwrite⟩ := stepOn_writeModule_eq_ok_iff.1 h
  refine ⟨Files.read_write hwrite, fun names => ?_⟩
  rw [Files.find?_write hwrite, Files.find?_makeDirectories hmake]
  rfl

/-! ### Runs -/

theorem runOn_of_parse {args : List String} {invocation : Invocation}
    (h : Invocation.parse args = .ok invocation) (env : Option String) (fs : Files) :
    runOn parse? args env fs =
      match stepOn (perform Files.store parse? (env.getD defaultOut) invocation) fs with
      | (.ok outcome, fs') => (outcome, fs')
      | (.error e, fs') => (failed e, fs') := by
  -- The arguments are read before any file is.
  have hattempt : stepOn (do
      let invocation ← ExceptT.mk (return (Invocation.parse args).mapError RunError.usage)
      perform Files.store parse? (env.getD defaultOut) invocation) fs =
        stepOn (perform Files.store parse? (env.getD defaultOut) invocation) fs := by
    rw [h]
    rfl
  rw [← hattempt]
  simp only [runOn, run, stepOn, StateT.run_bind]
  generalize StateT.run (ExceptT.run _) fs = ended
  obtain ⟨result, fs'⟩ := ended
  cases result <;> rfl

theorem parse_check (hpath : path.toList.head? ≠ some '-') :
    Invocation.parse ["check", path] = .ok (.check path) := by
  have hoption : "--".toList.isPrefixOf path.toList = false := by
    cases hchars : path.toList with
    | nil => rfl
    | cons c rest =>
      have hc : ('-' == c) = false := beq_eq_false_iff_ne.2 fun heq =>
        hpath (by rw [hchars, ← heq, List.head?_cons])
      have hdashes : "--".toList = ['-', '-'] := rfl
      rw [hdashes, List.isPrefixOf_cons_cons, hc, Bool.false_and]
  have hchecked : Invocation.checked [path] = .ok path := by
    rw [Invocation.checked, List.find?_cons_of_pos (by rw [hoption]; rfl)]
  rw [Invocation.parse, if_neg (by decide), if_pos rfl, hchecked]
  rfl

theorem parse_generate (hpath : path.toList.head? ≠ some '-') (out : String) :
    Invocation.parse ["generate", path, "--out", out] =
      .ok (.generate { manifest := path, out := some out }) := by
  have hprint : path ≠ "--print" := by rintro rfl; exact hpath rfl
  have hout : path ≠ "--out" := by rintro rfl; exact hpath rfl
  have hshort : path ≠ "-o" := by rintro rfl; exact hpath rfl
  have hoptions : Invocation.options none none false [path, "--out", out] =
      .ok { manifest := path, out := some out } := by
    simp [Invocation.options, hout, hshort]
  rw [Invocation.parse, if_pos rfl, hoptions]
  rfl

theorem runOn_check (hpath : path.toList.head? ≠ some '-') (parse? : String → Option Manifest)
    (env : Option String) (fs : Files) :
    runOn parse? ["check", path] env fs =
      (match moduleIn parse? fs path with
        | .ok r => reported r (reportText r none)
        | .error e => failed e, fs) := by
  rw [runOn_of_parse (parse_check hpath), perform, stepOn_bind, stepOn_renderFile]
  cases moduleIn parse? fs path <;> rfl

theorem runOn_generate (hpath : path.toList.head? ≠ some '-') (parse? : String → Option Manifest)
    (out : String) (env : Option String) (fs : Files) :
    runOn parse? ["generate", path, "--out", out] env fs =
      match moduleIn parse? fs path with
      | .error e => (failed e, fs)
      | .ok r => match stepOn (writeModule Files.store out r) fs with
        | (.ok (), fs') => (reported r (reportText r (some out)), fs')
        | (.error e, fs') => (failed e, fs') := by
  rw [runOn_of_parse (parse_generate hpath out), perform]
  simp only [stepOn_bind, stepOn_renderFile, Option.getD_some]
  cases moduleIn parse? fs path with
  | error e => rfl
  | ok r =>
    have hprinted : "" ++ reportText r (some out) = reportText r (some out) :=
      String.empty_append
    simp only []
    generalize stepOn (writeModule Files.store out r) fs = saved
    obtain ⟨result, fs'⟩ := saved
    cases result with
    | error e => rfl
    | ok _ =>
      simp only [Bool.false_eq_true, if_false, hprinted]
      rfl

/-- A check tells how a generation to a file that can be written ends, with the same exit code, and
what it writes.  Without a manifest both fail and leave all files as they are.  With one, the
generation saves the text of the module that the check makes, whether or not each entry has its
codec, and changes nothing else; only where the generation of an entry is cut short do both end
without a module, and then nothing is saved. -/
theorem check_predicts_generate (hpath : path.toList.head? ≠ some '-') (hsave : CanSave fs out)
    (parse? : String → Option Manifest) (env : Option String) :
    ∃ checked generated fs',
      runOn parse? ["check", path] env fs = (checked, fs) ∧
      runOn parse? ["generate", path, "--out", out] env fs = (generated, fs') ∧
      generated.exitCode = checked.exitCode ∧
      (LacksManifest parse? fs path → checked.exitCode = 1 ∧ fs' = fs) ∧
      ∀ manifest g, HoldsManifest parse? fs path manifest g →
        (IsCut manifest → checked.exitCode = 101 ∧ fs' = fs) ∧
        (¬ IsCut manifest → ∃ r, manifest.render path = .ok r ∧
          checked = reported r (reportText r none) ∧
          generated = reported r (reportText r (some out)) ∧
          (r.isSuccess = true ↔
            ∀ q ∈ manifest.requests, ∃ gen, g.generate q.decl q.strategy = .ok gen) ∧
          SavedTo fs out r.text fs') := by
  have hcheck := runOn_check hpath parse? env fs
  have hgenerate := runOn_generate hpath parse? out env fs
  rcases lacksManifest_or_holdsManifest parse? fs path with hlacks | ⟨manifest, g, holds⟩
  · obtain ⟨e, hmodule, hcode⟩ := moduleIn_of_lacksManifest hlacks
    rw [hmodule] at hcheck hgenerate
    exact ⟨failed e, failed e, fs, hcheck, hgenerate, rfl, fun _ => ⟨hcode, rfl⟩,
      fun manifest g holds => absurd hlacks holds.not_lacksManifest⟩
  by_cases hcut : IsCut manifest
  · -- Both end before a module is there to be saved.
    obtain ⟨slot, hmodule⟩ := moduleIn_of_isCut holds hcut
    rw [hmodule] at hcheck hgenerate
    refine ⟨_, _, fs, hcheck, hgenerate, rfl, fun hlacks => absurd hlacks holds.not_lacksManifest,
      fun manifest' g' holds' => ?_⟩
    obtain ⟨rfl, rfl⟩ := holds.unique holds'
    exact ⟨fun _ => ⟨rfl, rfl⟩, fun huncut => absurd hcut huncut⟩
  · obtain ⟨r, hmodule, hrender, hsuccess⟩ := moduleIn_of_returns holds hcut
    obtain ⟨fs', hsaved⟩ := hsave r
    simp only [hmodule, hsaved] at hcheck hgenerate
    refine ⟨_, _, fs', hcheck, hgenerate, rfl, fun hlacks => absurd hlacks holds.not_lacksManifest,
      fun manifest' g' holds' => ?_⟩
    obtain ⟨rfl, rfl⟩ := holds.unique holds'
    exact ⟨fun hcut' => absurd hcut' hcut,
      fun _ => ⟨r, hrender, rfl, rfl, hsuccess, savedTo_of_writeModule hsaved⟩⟩

/-- A manifest with an entry that fails, beside one that is served. -/
def partlyText : String := unlines [
  "codecs:",
  "  - name: Point",
  "    fields:",
  "      - { name: x, ty: i32, visibility: public }",
  "  - name: Base",
  "    strategy: polymorphic"]

/-- A manifest with an entry that is cut short. -/
def cutText : String := unlines [
  "codecs:",
  "  - name: Point",
  "    fields:",
  "      - { name: x, ty: i32, visibility: public }",
  "  - name: Odd",
  "    fields:",
  "      - { name: _0, ty: u64 }"]

/-- A tree with these manifests in it. -/
def manifestFiles : Files := .ofList [("partly.yaml", partlyText), ("cut.yaml", cutText)]

/-- An entry that fails does not keep the module from being saved, in a directory that is made for
it; one that is cut short does. -/
theorem check_predicts_generate_partly :
    ("partly.yaml".toList.head? ≠ some '-' ∧ "cut.yaml".toList.head? ≠ some '-' ∧
      CanSave manifestFiles "gen/codecs.rs") ∧
    (∃ checked generated fs' text,
      runOn Manifest.parse? ["check", "partly.yaml"] none manifestFiles = (checked, manifestFiles) ∧
      runOn Manifest.parse? ["generate", "partly.yaml", "--out", "gen/codecs.rs"] none
        manifestFiles = (generated, fs') ∧
      checked.exitCode = 1 ∧ generated.exitCode = 1 ∧
      SavedTo manifestFiles "gen/codecs.rs" text fs') ∧
    ∃ checked generated,
      runOn Manifest.parse? ["check", "cut.yaml"] none manifestFiles = (checked, manifestFiles) ∧
      runOn Manifest.parse? ["generate", "cut.yaml", "--out", "gen/codecs.rs"] none manifestFiles =
        (generated, manifestFiles) ∧
      checked.exitCode = 101 ∧ generated.exitCode = 101 := by
  have hpartly : "partly.yaml".toList.head? ≠ some '-' := by decide
  have hcut : "cut.yaml".toList.head? ≠ some '-' := by decide
  have hsave : CanSave manifestFiles "gen/codecs.rs" := by
    refine canSave_iff.2 ⟨manifestFiles.insert ["gen"] .directory, rfl, ?_⟩
    decide +kernel
  refine ⟨⟨hpartly, hcut, hsave⟩, ?_, ?_⟩
  · have hvalid : (Manifest.parse? partlyText).any (fun m =>
        (Generator.ofRuntimeText? m.runtime).any fun g => decide (¬ IsCut m ∧
          ∃ q ∈ m.requests, failureLine? g q ≠ none)) = true := by decide +kernel
    obtain ⟨m, hm, hvalid⟩ := (Option.any_eq_true _ _).1 hvalid
    obtain ⟨g, hg, hfacts⟩ := (Option.any_eq_true _ _).1 hvalid
    obtain ⟨huncut, q, hq, hfails⟩ := of_decide_eq_true hfacts
    have holds : HoldsManifest Manifest.parse? manifestFiles "partly.yaml" m g :=
      ⟨⟨partlyText, by decide +kernel, hm⟩, hg⟩
    obtain ⟨checked, generated, fs', hcheck, hgenerate, hcodes, -, hends⟩ :=
      check_predicts_generate hpartly hsave Manifest.parse? none
    obtain ⟨r, -, rfl, rfl, hsuccess, hsaved⟩ := (hends m g holds).2 huncut
    have hfailed : r.isSuccess = false := by
      refine Bool.eq_false_iff.2 fun h => hfails ?_
      exact (failureLine?_eq_none_iff (not_isCut_iff.1 huncut) hq).2 (hsuccess.1 h q hq)
    exact ⟨_, _, fs', r.text, hcheck, hgenerate, by simp [reported, hfailed],
      by simp [reported, hfailed], hsaved⟩
  · have hvalid : (Manifest.parse? cutText).any (fun m =>
        (Generator.ofRuntimeText? m.runtime).any fun _ => decide (IsCut m)) = true := by
      decide +kernel
    obtain ⟨m, hm, hvalid⟩ := (Option.any_eq_true _ _).1 hvalid
    obtain ⟨g, hg, hcutShort⟩ := (Option.any_eq_true _ _).1 hvalid
    have holds : HoldsManifest Manifest.parse? manifestFiles "cut.yaml" m g :=
      ⟨⟨cutText, by decide +kernel, hm⟩, hg⟩
    obtain ⟨checked, generated, fs', hcheck, hgenerate, hcodes, -, hends⟩ :=
      check_predicts_generate hcut hsave Manifest.parse? none
    obtain ⟨hcode, rfl⟩ := (hends m g holds).1 (of_decide_eq_true hcutShort)
    exact ⟨checked, generated, hcheck, hgenerate, hcode, hcodes.trans hcode⟩

end CodecForge.Command

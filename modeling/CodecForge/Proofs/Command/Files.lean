import CodecForge.Command.Files
import CodecForge.Proofs.Lists

/-!
# What accesses do to a tree of files

A path leads to a place that does not depend on the tree, if it leads anywhere.  Making the
directories above a path gives a directory to each place on the way that had nothing, and leaves
all else; writing a file changes its place alone, and what is written is read back.
-/

namespace CodecForge.Command

/-! ### Paths -/

/-- The place that a name leads to from a directory. -/
def follow (here : List String) (name : String) : List String :=
  if name = ".." then here.dropLast else here ++ [name]

/-- The places that steps pass through from a directory. -/
def passed (here : List String) : List String → List (List String)
  | [] => []
  | name :: rest => follow here name :: passed (follow here name) rest

/-- The place that a path leads to. -/
def place (path : String) : List String := (pathSteps path).foldl follow []

/-- The places of the directories above a path. -/
def above (path : String) : List (List String) := passed [] (pathSteps path).dropLast

/-- The name tells where a path leads. -/
def isStep (name : String) : Bool := name ≠ "" && name ≠ "."

theorem pathSteps_eq (path : String) : pathSteps path = (pathNames path).filter isStep := rfl

/-- The parts of a list have no separators in them. -/
theorem notMem_of_mem_splitOn {α : Type} [BEq α] [LawfulBEq α] {sep : α} {xs part : List α}
    (h : part ∈ xs.splitOn sep) : sep ∉ part := by
  induction xs generalizing part with
  | nil =>
    rw [List.splitOn_nil, List.mem_singleton] at h
    simp [h]
  | cons x xs ih =>
    rw [List.splitOn_cons_eq_if_modifyHead] at h
    split at h
    · rcases List.mem_cons.1 h with rfl | h
      · simp
      · exact ih h
    · next hx =>
      cases hparts : xs.splitOn sep with
      | nil => exact absurd hparts (List.splitOn_ne_nil _ _)
      | cons first rest =>
        rw [hparts] at h ih
        rcases List.mem_cons.1 h with rfl | h
        · rw [List.mem_cons, not_or]
          exact ⟨fun heq => hx (by rw [heq, beq_self_eq_true]), ih List.mem_cons_self⟩
        · exact ih (List.mem_cons_of_mem _ h)

theorem notMem_of_mem_pathNames {path name : String} (h : name ∈ pathNames path) :
    '/' ∉ name.toList := by
  obtain ⟨part, hpart, rfl⟩ := List.mem_map.1 h
  rw [String.toList_ofList]
  exact notMem_of_mem_splitOn hpart

/-- Names without slashes make up a path of just these names. -/
theorem pathNames_intercalate {names : List String} (hne : names ≠ [])
    (hnames : ∀ name ∈ names, '/' ∉ name.toList) : pathNames ("/".intercalate names) = names := by
  have hslash : "/".toList = ['/'] := rfl
  rw [pathNames, String.toList_intercalate, hslash, List.splitOn_intercalate]
  · simp [List.map_map, Function.comp_def]
  · simpa using hnames
  · simpa using hne

theorem pathSteps_intercalate {names : List String}
    (hnames : ∀ name ∈ names, '/' ∉ name.toList) :
    pathSteps ("/".intercalate names) = names.filter isStep := by
  cases names with
  | nil => rfl
  | cons name rest => rw [pathSteps_eq, pathNames_intercalate (List.cons_ne_nil _ _) hnames]

theorem filter_dropWhile {p : String → Bool} (hp : ∀ name, p name = true → isStep name = false)
    (names : List String) : (names.dropWhile p).filter isStep = names.filter isStep := by
  induction names with
  | nil => rfl
  | cons name names ih =>
    rw [List.dropWhile_cons]
    split
    · next h => rw [ih, List.filter_cons_of_neg (by simp [hp name h])]
    · rfl

/-- The path of the directory that a path lies in has its steps but the last. -/
theorem pathSteps_parent {path parent : String} (h : parentPath? path = some parent) :
    pathSteps parent = (pathSteps path).dropLast := by
  unfold parentPath? at h
  simp only at h
  split at h
  · cases h
  next last rest hrest =>
  cases h
  have hlast : isStep last = true := by
    have hhead := List.head?_dropWhile_not (fun name => name = "" || name = ".")
      (pathNames path).reverse
    rw [hrest] at hhead
    simpa [isStep] using hhead
  have hsteps : last :: rest.filter isStep = (pathSteps path).reverse := by
    have hdropped := filter_dropWhile (p := fun name => name = "" || name = ".")
      (by simp only [isStep]; grind) (pathNames path).reverse
    rw [hrest, List.filter_cons_of_pos hlast, List.filter_reverse] at hdropped
    exact hdropped
  have hslashes : ∀ name ∈ (rest.dropWhile fun name => name = "").reverse,
      '/' ∉ name.toList := by
    intro name hname
    have hmem : name ∈ (pathNames path).reverse := by
      refine (List.dropWhile_sublist fun name => name = "" || name = ".").subset ?_
      rw [hrest]
      exact List.mem_cons_of_mem _ ((List.dropWhile_sublist _).subset (List.mem_reverse.1 hname))
    exact notMem_of_mem_pathNames (List.mem_reverse.1 hmem)
  rw [pathSteps_intercalate hslashes, List.filter_reverse, filter_dropWhile (by simp [isStep]),
    ← List.reverse_reverse (pathSteps path), ← hsteps, List.reverse_cons, List.dropLast_concat]

/-- Without such a directory, a path has no steps. -/
theorem pathSteps_of_no_parent {path : String} (h : parentPath? path = none) :
    pathSteps path = [] := by
  unfold parentPath? at h
  simp only at h
  split at h
  next hnames =>
    have hdropped := filter_dropWhile (p := fun name => name = "" || name = ".")
      (by simp only [isStep]; grind) (pathNames path).reverse
    rw [hnames, List.filter_nil, List.filter_reverse, eq_comm, List.reverse_eq_nil_iff] at hdropped
    exact hdropped
  · cases h

namespace Files

variable {fs fs' : Files} {here names steps : List String} {e : Entry} {path text : String}

/-! ### Places -/

theorem ne_nil_of_find? (h : fs.find? names ≠ some .directory) : names ≠ [] := by
  rintro rfl
  exact h rfl

theorem find?_insert (hnames : names ≠ []) (names' : List String) :
    (fs.insert names e).find? names' = if names' = names then some e else fs.find? names' := by
  by_cases h : names' = names
  · subst h
    simp [find?, insert, hnames]
  · simp only [find?, insert, List.lookup_cons, beq_eq_false_iff_ne.2 h, if_neg h]

theorem locate_cons (fs : Files) (here : List String) (name : String) (rest : List String) :
    fs.locate here (name :: rest) = match fs.find? (follow here name) with
      | some .directory => fs.locate (follow here name) rest
      | some (.file _) => if rest.isEmpty then .ok (follow here name) else .error .notDirectory
      | none => if rest.isEmpty then .ok (follow here name) else .error .notFound := rfl

/-- Steps lead on from a directory, and only the last leads to anything else. -/
theorem locate_cons_eq_ok_iff {name : String} {rest : List String} :
    fs.locate here (name :: rest) = .ok names ↔
      if fs.find? (follow here name) = some .directory
      then fs.locate (follow here name) rest = .ok names
      else rest = [] ∧ names = follow here name := by
  rw [locate_cons]
  cases fs.find? (follow here name) with
  | none => cases rest <;> simp [eq_comm]
  | some entry => cases entry <;> cases rest <;> simp [eq_comm]

/-- Steps lead where they lead by their names, if anywhere. -/
theorem eq_foldl_of_locate (h : fs.locate here steps = .ok names) :
    names = steps.foldl follow here := by
  induction steps generalizing here with
  | nil =>
    cases h
    rfl
  | cons name rest ih =>
    rw [locate_cons_eq_ok_iff] at h
    split at h
    · exact ih h
    · obtain ⟨rfl, rfl⟩ := h
      rfl

/-- A file at the place that the steps lead to is no obstacle to them. -/
theorem locate_insert_file (h : fs.locate here steps = .ok names)
    (hfile : fs.find? names ≠ some .directory) :
    (fs.insert names (.file text)).locate here steps = .ok names := by
  have hinsert (names' : List String) : (fs.insert names (.file text)).find? names' =
      if names' = names then some (.file text) else fs.find? names' :=
    find?_insert (ne_nil_of_find? hfile) names'
  induction steps generalizing here with
  | nil => exact h
  | cons name rest ih =>
    rw [locate_cons_eq_ok_iff] at h ⊢
    rw [hinsert]
    split at h
    · next hdirectory =>
      have hne : follow here name ≠ names := fun heq => hfile (heq ▸ hdirectory)
      rw [if_neg hne, if_pos hdirectory]
      exact ih h
    · obtain ⟨rfl, rfl⟩ := h
      rw [if_pos rfl]
      exact ⟨rfl, rfl⟩

/-! ### Directories -/

theorem makeDirectories_cons (fs : Files) (here : List String) (name : String)
    (rest : List String) :
    fs.makeDirectories here (name :: rest) = match fs.find? (follow here name) with
      | some .directory => fs.makeDirectories (follow here name) rest
      | some (.file _) => .error (if rest.isEmpty then .exists else .notDirectory)
      | none => (fs.insert (follow here name) .directory).makeDirectories (follow here name) rest :=
  rfl

/-- Making directories gives one to each place on the way that has nothing. -/
theorem find?_makeDirectories (h : fs.makeDirectories here steps = .ok fs') (names : List String) :
    fs'.find? names =
      if fs.find? names = none ∧ names ∈ passed here steps then some .directory
      else fs.find? names := by
  induction steps generalizing here fs with
  | nil =>
    cases h
    simp [passed]
  | cons name rest ih =>
    rw [makeDirectories_cons] at h
    cases hthere : fs.find? (follow here name) with
    | none =>
      rw [hthere] at h
      have hnone : fs.find? (follow here name) ≠ some .directory := by simp [hthere]
      have hne : follow here name ≠ [] := ne_nil_of_find? hnone
      rw [ih h, find?_insert hne, passed]
      by_cases hnames : names = follow here name
      · subst hnames
        simp [hthere]
      · simp [hnames]
    | some entry =>
      rw [hthere] at h
      cases entry with
      | file text => cases h
      | directory =>
        rw [ih h, passed]
        by_cases hnames : names = follow here name
        · subst hnames
          simp [hthere]
        · simp [hnames]

/-! ### Files -/

/-- A file is written where the path leads, unless that is a directory. -/
theorem write_eq_ok_iff : fs.write path text = .ok fs' ↔
    path ≠ "" ∧ endsInSlash path = false ∧ fs.locate [] (pathSteps path) = .ok (place path) ∧
      fs.find? (place path) ≠ some .directory ∧ fs' = fs.insert (place path) (.file text) := by
  unfold write
  by_cases hempty : path = ""
  · rw [if_pos hempty]
    exact ⟨fun h => (nomatch h), fun h => absurd hempty h.1⟩
  rw [if_neg hempty]
  constructor
  · intro h
    obtain ⟨names, hnames, h⟩ := bind_eq_ok_iff.1 h
    obtain rfl : names = place path := eq_foldl_of_locate hnames
    split at h
    · cases h
    · next hfree =>
      rw [Bool.or_eq_true, decide_eq_true_eq, not_or, Bool.not_eq_true] at hfree
      cases h
      exact ⟨hempty, hfree.2, hnames, hfree.1, rfl⟩
  · rintro ⟨-, hslash, hlocate, hfile, rfl⟩
    simp only [bind, Except.bind, hlocate, hslash, decide_eq_false hfile, Bool.or_self]
    rfl

/-- A file is written at the place that its path leads to, and nowhere else. -/
theorem find?_write (h : fs.write path text = .ok fs') (names : List String) :
    fs'.find? names = if names = place path then some (.file text) else fs.find? names := by
  obtain ⟨-, -, -, hfile, rfl⟩ := write_eq_ok_iff.1 h
  exact find?_insert (ne_nil_of_find? hfile) names

/-- What is written is read back. -/
theorem read_write (h : fs.write path text = .ok fs') : fs'.read path = .ok text := by
  have hfind := find?_write h (place path)
  obtain ⟨hempty, hslash, hlocate, hfile, rfl⟩ := write_eq_ok_iff.1 h
  rw [if_pos rfl] at hfind
  rw [read, if_neg hempty, locate_insert_file hlocate hfile]
  simp only [bind, Except.bind, hfind, hslash]
  rfl

end Files

end CodecForge.Command

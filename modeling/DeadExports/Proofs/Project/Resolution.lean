import DeadExports.Proofs.Project.Steps

set_option autoImplicit false

namespace DeadExports.Project

theorem import_of_cases (facts : Facts) (name : String) (binding : ImportBinding)
    (found : facts.importOf? name = some binding) :
    binding ∈ facts.imports ∧ binding.bound = name :=
  ⟨List.mem_of_find?_eq_some found, by simpa using List.find?_some found⟩

section Lookup

variable {project : Project} {lookup : Lookup}

def Found (project : Project) (lookup : Lookup) : Prop :=
  ∀ key passed symbol later, lookup key passed = (some symbol, later) → project.Gives symbol key

theorem import_symbol_cases (sound : Found project lookup) (file : Path) (binding : ImportBinding)
    (passed : List ExportKey) :
    (∃ key, project.importKey? file binding = some key ∧
        project.Gives (project.importSymbol lookup file binding passed).1 key) ∨
      (project.importSymbol lookup file binding passed).1 = .own file binding.bound := by
  rw [importSymbol]
  cases leads : project.importKey? file binding with
  | none => exact .inr rfl
  | some key =>
      cases result : lookup key passed with
      | mk answer later =>
          cases answer with
          | none => exact .inr (by simp [result])
          | some symbol =>
              exact .inl
                ⟨key, rfl, by simpa [result] using sound key passed symbol later result⟩

theorem own_symbol_cases (sound : Found project lookup) (file : Path) (facts : Facts)
    (name : String) (passed : List ExportKey) (known : project.facts? file = some facts) :
    (∃ binding key, facts.importOf? name = some binding ∧ project.importKey? file binding =
      some key ∧
        project.Gives (project.ownSymbol lookup file name passed).1 key) ∨
      (project.ownSymbol lookup file name passed).1 = .own file name := by
  rw [ownSymbol, known, Option.bind_some]
  cases found : facts.importOf? name with
  | none => exact .inr rfl
  | some binding =>
      dsimp only
      rcases import_symbol_cases sound file binding passed with ⟨key, leads, given⟩ | same
      · exact .inl ⟨binding, key, rfl, leads, given⟩
      · rw [same, (import_of_cases facts name binding found).2]
        exact .inr rfl

theorem reexport_cases (sound : Found project lookup) (file : Path)
    (name specifier imported : String) (passed : List ExportKey) :
    (∃ target, project.target? file specifier = some target ∧
        project.Gives (project.originSymbol lookup file name (.reexport specifier imported)
          passed).1 ⟨target, imported⟩) ∨
      (project.originSymbol lookup file name (.reexport specifier imported) passed).1 =
        .exported file name := by
  rw [originSymbol]
  cases found : project.target? file specifier with
  | none => exact .inr rfl
  | some target =>
      cases result : lookup ⟨target, imported⟩ passed with
      | mk answer later =>
          cases answer with
          | none => exact .inr (by simp [result])
          | some symbol =>
              exact .inl ⟨target, rfl, by
                simpa [result] using sound ⟨target, imported⟩ passed symbol later result⟩

theorem origin_gives (indexed : project.Indexed) (sound : Found project lookup) (file : Path)
    (facts : Facts) (binding : ExportBinding) (passed : List ExportKey)
    (known : project.facts? file = some facts) (member : binding ∈ facts.exports) :
    project.Gives (project.originSymbol lookup file binding.exported binding.origin passed).1
      ⟨file, binding.exported⟩ := by
  cases origin : binding.origin with
  | own name =>
      change project.Gives (project.ownSymbol lookup file name passed).1 _
      rcases own_symbol_cases sound file facts name passed known
        with ⟨taken, key, found, leads, given⟩ | same
      · obtain ⟨bound, rfl⟩ := import_of_cases facts name taken found
        exact gives_step project indexed _ _ key
          (.own file facts binding taken key known member origin bound leads) given
      · rw [same]
        exact gives_base project (.own file name) facts binding known member
          (by simp [givesOut, ExportBinding.isOwn, origin])
  | default =>
      exact gives_base project (.default file) facts binding known member
        (by simp [givesOut, origin])
  | everything specifier =>
      exact gives_base project (.exported file binding.exported) facts binding
        known member (by simp [givesOut])
  | reexport specifier imported =>
      rcases reexport_cases sound file binding.exported specifier imported passed
        with ⟨target, found, given⟩ | same
      · exact gives_step project indexed _ _ ⟨target, imported⟩
          (.reexport file facts binding specifier imported target known member origin found) given
      · rw [same]
        exact gives_base project (.exported file binding.exported) facts binding known member
          (by simp [givesOut])

theorem first_symbol_found (keys passed : List ExportKey) (symbol : Symbol) (later : List ExportKey)
    (result : firstSymbol lookup keys passed = (some symbol, later)) :
    ∃ key ∈ keys, ∃ before after, lookup key before = (some symbol, after) := by
  induction keys generalizing passed with
  | nil => simp [firstSymbol] at result
  | cons first rest ih =>
      rw [firstSymbol] at result
      cases answer : lookup first passed with
      | mk found after =>
          cases found with
          | some other =>
              rw [answer] at result
              dsimp only at result
              obtain ⟨same, -⟩ := Prod.mk.inj result
              rw [same] at answer
              exact ⟨first, List.mem_cons_self, passed, after, answer⟩
          | none =>
              rw [answer] at result
              obtain ⟨key, member, before, after, found⟩ := ih after result
              exact ⟨key, List.mem_cons_of_mem _ member, before, after, found⟩

end Lookup

theorem exports_name_of_find (facts : Facts) (name : String)
    (missing : (facts.exports.find? fun binding => binding.exported == name) = none) :
    facts.exportsName name = false := by
  rw [Facts.exportsName, List.any_eq_false]
  exact List.find?_eq_none.mp missing

theorem wildcard_step (project : Project) (file : Path) (facts : Facts) (name : String)
    (key : ExportKey)
    (known : project.facts? file = some facts) (proper : name ≠ "default")
    (missing : facts.exportsName name = false)
    (member : key ∈ project.wildcardKeys file facts name) : project.Step ⟨file, name⟩ key := by
  obtain ⟨specifier, listed, found⟩ := List.mem_filterMap.mp member
  obtain ⟨target, points, rfl⟩ := Option.map_eq_some_iff.mp found
  exact .wildcard file facts name specifier target known proper missing listed points

-- By induction on how many files may still be passed. Looking up ends at an export that the search
-- starts from, and every step on the way is one that the search takes back.
theorem resolve_export_found (project : Project) (indexed : project.Indexed) (steps : Nat) :
    Found project (project.resolveExport steps) := by
  induction steps with
  | zero =>
      intro key passed symbol later result
      simp [resolveExport] at result
  | succ steps ih =>
      intro key passed symbol later result
      rw [resolveExport] at result
      split at result
      next => simp at result
      next =>
          cases known : project.facts? key.file with
          | none => simp [known] at result
          | some facts =>
              rw [known] at result
              dsimp only at result
              split at result
              next binding found =>
                  have member := List.mem_of_find?_eq_some found
                  have named : binding.exported = key.name := by simpa using List.find?_some found
                  obtain ⟨same, -⟩ := Prod.mk.inj result
                  rw [← Option.some.inj same, ← named]
                  have given := origin_gives indexed ih key.file facts binding (key :: passed)
                    known member
                  rwa [show key = ⟨key.file, binding.exported⟩ by rw [named]] at given ⊢
              next missing =>
                  split at result
                  next => simp at result
                  next proper =>
                      obtain ⟨next, member, before, after, found⟩ :=
                        first_symbol_found _ _ symbol later result
                      have step := wildcard_step project key.file facts key.name next known
                        (by simpa using proper)
                        (exports_name_of_find facts key.name missing) member
                      exact gives_step project indexed symbol key next step
                        (ih next before symbol after found)

theorem lookup_found (project : Project) (indexed : project.Indexed) :
    Found project project.lookup :=
  resolve_export_found project indexed project.chainBound

end DeadExports.Project

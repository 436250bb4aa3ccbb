import DeadExports.Proofs.Closure
import DeadExports.Proofs.Project.Resolution

set_option autoImplicit false

namespace DeadExports.Project

inductive Move where
  | done (symbol : Symbol)
  | follow (next : ExportKey) (otherwise : Symbol)
  | each (keys : List ExportKey)

def importMove (project : Project) (file : Path) (binding : ImportBinding) : Move :=
  match project.importKey? file binding with
  | none => .done (.own file binding.bound)
  | some key => .follow key (.own file binding.bound)

def originMove (project : Project) (file : Path) (name : String) : ExportOrigin → Move
  | .own own =>
    match (project.facts? file).bind (·.importOf? own) with
    | some binding => project.importMove file binding
    | none => .done (.own file own)
  | .default => .done (.default file)
  | .everything _ => .done (.exported file name)
  | .reexport specifier imported =>
    match project.target? file specifier with
    | none => .done (.exported file name)
    | some target => .follow ⟨target, imported⟩ (.exported file name)

def move (project : Project) (key : ExportKey) : Move :=
  match project.facts? key.file with
  | none => .each []
  | some facts =>
    match facts.exports.find? fun binding => binding.exported == key.name with
    | some binding => project.originMove key.file key.name binding.origin
    | none => .each (if key.name == "default" then [] else project.wildcardKeys key.file facts
        key.name)

namespace Move

def run (lookup : Lookup) (passed : List ExportKey) : Move → Option Symbol × List ExportKey
  | done symbol => (some symbol, passed)
  | follow next otherwise =>
    match lookup next passed with
    | (some symbol, later) => (some symbol, later)
    | (none, later) => (some otherwise, later)
  | each keys => firstSymbol lookup keys passed

def nexts : Move → List ExportKey
  | done _ => []
  | follow next _ => [next]
  | each keys => keys

end Move

theorem import_symbol_move (project : Project) (lookup : Lookup) (file : Path)
    (binding : ImportBinding) (passed : List ExportKey) :
    (some (project.importSymbol lookup file binding passed).1,
      (project.importSymbol lookup file binding passed).2) =
      (project.importMove file binding).run lookup passed := by
  rw [importSymbol, importMove]
  cases project.importKey? file binding with
  | none => rfl
  | some key =>
      dsimp only [Move.run]
      rcases lookup key passed with ⟨_ | symbol, later⟩ <;> rfl

theorem origin_symbol_move (project : Project) (lookup : Lookup) (file : Path) (name : String)
    (origin : ExportOrigin) (passed : List ExportKey) :
    (some (project.originSymbol lookup file name origin passed).1,
      (project.originSymbol lookup file name origin passed).2) =
      (project.originMove file name origin).run lookup passed := by
  cases origin with
  | own own =>
      rw [originSymbol, originMove, ownSymbol]
      cases (project.facts? file).bind (·.importOf? own) with
      | none => rfl
      | some binding => exact import_symbol_move project lookup file binding passed
  | default => rfl
  | everything specifier => rfl
  | reexport specifier imported =>
      rw [originSymbol, originMove]
      cases project.target? file specifier with
      | none => rfl
      | some target =>
          dsimp only [Move.run]
          rcases lookup ⟨target, imported⟩ passed with ⟨_ | symbol, later⟩ <;> rfl

theorem resolve_export_move (project : Project) (steps : Nat) (key : ExportKey)
    (passed : List ExportKey) :
    project.resolveExport (steps + 1) key passed =
      if passed.contains key then (none, passed) else (project.move key).run
        (project.resolveExport steps) (key :: passed) := by
  rw [resolveExport]
  split
  next => rfl
  next =>
      rw [move]
      cases project.facts? key.file with
      | none => rfl
      | some facts =>
          dsimp only
          cases facts.exports.find? fun binding => binding.exported == key.name with
          | some binding =>
              exact origin_symbol_move project _ key.file key.name binding.origin
                (key :: passed)
          | none =>
              dsimp only
              split <;> rfl

theorem import_move_nexts (project : Project) (file : Path) (binding : ImportBinding)
    (next : ExportKey) (member : next ∈ (project.importMove file binding).nexts) :
    project.importKey? file binding = some next := by
  rw [importMove] at member
  cases leads : project.importKey? file binding with
  | none =>
      rw [leads] at member
      cases member
  | some key =>
      rw [leads] at member
      obtain rfl := List.mem_singleton.mp member
      rfl

theorem origin_move_step (project : Project) (file : Path) (facts : Facts) (binding : ExportBinding)
    (next : ExportKey) (known : project.facts? file = some facts) (listed : binding ∈ facts.exports)
    (member : next ∈ (project.originMove file binding.exported binding.origin).nexts) :
    project.Step ⟨file, binding.exported⟩ next := by
  cases origin : binding.origin with
  | own own =>
      rw [origin, originMove, known, Option.bind_some] at member
      cases taken : facts.importOf? own with
      | none =>
          rw [taken] at member
          cases member
      | some found =>
          rw [taken] at member
          obtain ⟨bound, rfl⟩ := import_of_cases facts own found taken
          exact .own file facts binding found next known listed origin bound
            (import_move_nexts project file found next member)
  | default =>
      rw [origin] at member
      cases member
  | everything specifier =>
      rw [origin] at member
      cases member
  | reexport specifier imported =>
      rw [origin, originMove] at member
      cases points : project.target? file specifier with
      | none =>
          rw [points] at member
          cases member
      | some target =>
          rw [points] at member
          obtain rfl := List.mem_singleton.mp member
          exact .reexport file facts binding specifier imported target known listed origin points

theorem move_step (project : Project) (key next : ExportKey)
    (member : next ∈ (project.move key).nexts) :
    project.Step key next := by
  rw [move] at member
  cases known : project.facts? key.file with
  | none =>
      rw [known] at member
      cases member
  | some facts =>
      rw [known] at member
      dsimp only at member
      cases found : facts.exports.find? fun binding => binding.exported == key.name with
      | none =>
          rw [found] at member
          dsimp only at member
          split at member
          next => cases member
          next proper =>
              exact wildcard_step project key.file facts key.name next known (by simpa using proper)
                (exports_name_of_find facts key.name found) member
      | some binding =>
          rw [found] at member
          have named : binding.exported = key.name := by simpa using List.find?_some found
          obtain ⟨file, name⟩ := key
          obtain rfl : binding.exported = name := named
          exact origin_move_step project file facts binding next known
            (List.mem_of_find?_eq_some found) member

def Grows (lookup : Lookup) : Prop := ∀ key passed, passed ⊆ (lookup key passed).2

theorem first_symbol_grows (lookup : Lookup) (grows : Grows lookup) (keys passed : List ExportKey) :
    passed ⊆ (firstSymbol lookup keys passed).2 := by
  induction keys generalizing passed with
  | nil => exact List.Subset.refl passed
  | cons first rest ih =>
      rw [firstSymbol]
      have here := grows first passed
      generalize lookup first passed = result at here
      rcases result with ⟨_ | symbol, later⟩
      · exact List.Subset.trans here (ih later)
      · exact here

theorem run_grows (lookup : Lookup) (grows : Grows lookup) (move : Move) (passed : List ExportKey) :
    passed ⊆ (move.run lookup passed).2 := by
  cases move with
  | done symbol => exact List.Subset.refl passed
  | follow next otherwise =>
      have here := grows next passed
      rw [Move.run]
      generalize lookup next passed = result at here
      rcases result with ⟨_ | symbol, later⟩ <;> exact here
  | each keys => exact first_symbol_grows lookup grows keys passed

theorem resolve_export_grows (project : Project) (steps : Nat) :
    Grows (project.resolveExport steps) := by
  induction steps with
  | zero => exact fun key passed => List.Subset.refl passed
  | succ steps ih =>
      intro key passed
      rw [resolve_export_move]
      split
      next => exact List.Subset.refl passed
      next => exact List.Subset.trans (List.subset_cons_self key passed) (run_grows _ ih _ _)

theorem first_symbol_congr (a b : Lookup) (grows : Grows a) (keys passed : List ExportKey)
    (same : ∀ next ∈ keys, ∀ later, passed ⊆ later → a next later = b next later) :
    firstSymbol a keys passed = firstSymbol b keys passed := by
  induction keys generalizing passed with
  | nil => rfl
  | cons first rest ih =>
      have wider := grows first passed
      rw [firstSymbol, firstSymbol, ← same first List.mem_cons_self passed
        (List.Subset.refl passed)]
      generalize a first passed = result at wider
      rcases result with ⟨_ | symbol, later⟩
      · exact ih later fun next member further beyond =>
          same next (List.mem_cons_of_mem _ member) further (List.Subset.trans wider beyond)
      · rfl

theorem run_congr (a b : Lookup) (grows : Grows a) (move : Move) (passed : List ExportKey)
    (same : ∀ next ∈ move.nexts, ∀ later, passed ⊆ later → a next later = b next later) :
    move.run a passed = move.run b passed := by
  cases move with
  | done symbol => rfl
  | follow next otherwise =>
      rw [Move.run, Move.run, same next (List.mem_singleton_self _) passed
        (List.Subset.refl passed)]
  | each keys => exact first_symbol_congr a b grows keys passed same

def mentioned (project : Project) (name : String) : List String :=
  name :: project.files.entries.flatMap fun entry =>
    entry.2.facts.imports.filterMap importedName? ++ entry.2.facts.exports.filterMap fun binding =>
      match binding.origin with
      | .reexport _ imported => some imported
      | _ => none

def chainKeys (project : Project) (name : String) : List ExportKey :=
  project.files.entries.flatMap fun entry => (project.mentioned name).map fun found =>
    ⟨entry.1, found⟩

theorem mentioned_length (project : Project) (name : String) :
    (project.mentioned name).length ≤ project.bindingCount + 1 := by
  rw [mentioned, bindingCount, List.length_cons, List.length_flatMap, List.length_flatMap,
    List.length_flatMap]
  generalize project.files.entries = entries
  induction entries with
  | nil => exact Nat.le_refl _
  | cons first rest ih =>
      simp only [List.map_cons, List.sum_cons, List.length_append]
      have imports := List.length_filterMap_le importedName? first.2.facts.imports
      have exports := List.length_filterMap_le (fun binding : ExportBinding =>
        match binding.origin with
        | .reexport _ imported => some imported
        | _ => none) first.2.facts.exports
      simp only [List.length_append] at ih
      omega

theorem chain_keys_length (project : Project) (name : String) :
    (project.chainKeys name).length < project.chainBound := by
  have names := mentioned_length project name
  have keys : (project.chainKeys name).length = project.files.size *
      (project.mentioned name).length := by
    simp [chainKeys, PathMap.size, List.length_flatMap, List.map_const']
  have bound := Nat.mul_le_mul_left project.files.size names
  have more : project.files.size * (project.bindingCount + 1) ≤ (project.files.size + 1) *
      (project.bindingCount + 2) :=
    Nat.mul_le_mul (Nat.le_succ _) (Nat.le_succ _)
  rw [keys, chainBound]
  omega

theorem step_mentioned (project : Project) (name : String) (key next : ExportKey)
    (step : project.Step key next) (named : key.name ∈ project.mentioned name) :
    next.name ∈ project.mentioned name := by
  cases step with
  | reexport file facts binding specifier imported target known member origin found =>
      obtain ⟨entry, listed, -, rfl⟩ := entry_of_facts project file facts known
      refine List.mem_cons_of_mem _
        (List.mem_flatMap.mpr ⟨entry, listed, List.mem_append_right _ ?_⟩)
      exact List.mem_filterMap.mpr ⟨binding, member, by rw [origin]⟩
  | own file facts binding taken _ known member origin bound found =>
      obtain ⟨entry, listed, -, rfl⟩ := entry_of_facts project file facts known
      refine List.mem_cons_of_mem _
        (List.mem_flatMap.mpr ⟨entry, listed, List.mem_append_left _ ?_⟩)
      exact List.mem_filterMap.mpr
        ⟨taken, bound, (import_key_cases project file taken next found).1⟩
  | wildcard => exact named

theorem step_known (project : Project) (key next : ExportKey) (step : project.Step key next) :
    ∃ facts, project.facts? key.file = some facts := by
  cases step with
  | reexport _ facts _ _ _ _ known => exact ⟨facts, known⟩
  | own _ facts _ _ _ known => exact ⟨facts, known⟩
  | wildcard _ facts _ _ _ known => exact ⟨facts, known⟩

theorem chain_keys_contains (project : Project) (name : String) (key next : ExportKey)
    (step : project.Step key next) (named : key.name ∈ project.mentioned name) :
    (project.chainKeys name).contains key = true := by
  obtain ⟨facts, known⟩ := step_known project key next step
  obtain ⟨entry, listed, alike, -⟩ := entry_of_facts project key.file facts known
  refine List.contains_iff_exists_mem_beq.mpr ⟨⟨entry.1, key.name⟩, ?_, ?_⟩
  · exact List.mem_flatMap.mpr ⟨entry, listed, List.mem_map_of_mem named⟩
  · rw [ExportKey.same_eq_decide]
    simp [ExportKey.place, alike]

def resolveBeyond (project : Project) (beyond : Lookup) : Nat → Lookup
  | 0, key, passed => beyond key passed
  | steps + 1, key, passed =>
    if passed.contains key then (none, passed)
    else (project.move key).run (resolveBeyond project beyond steps) (key :: passed)

theorem resolve_beyond_nothing (project : Project) (steps : Nat) :
    project.resolveBeyond (fun _ passed => (none, passed)) steps = project.resolveExport steps := by
  induction steps with
  | zero => rfl
  | succ steps ih =>
      funext key passed
      rw [resolve_export_move, resolveBeyond, ih]

-- By induction on the number of steps: every export followed is one that was not passed, of which
-- fewer are left each time, so that nothing is ever asked beyond the steps.
theorem resolve_export_beyond (project : Project) (beyond : Lookup) (name : String)
    (steps more : Nat) (key : ExportKey) (passed : List ExportKey)
    (named : key.name ∈ project.mentioned name)
    (enough : unseen (project.chainKeys name) passed < steps)
    (also : unseen (project.chainKeys name) passed < more) :
    project.resolveExport steps key passed = project.resolveBeyond beyond more key passed := by
  induction steps generalizing more key passed with
  | zero => cases enough
  | succ steps ih =>
      cases more with
      | zero => cases also
      | succ more =>
          rw [resolve_export_move, resolveBeyond]
          cases held : passed.contains key with
          | true => rfl
          | false =>
              simp only [Bool.false_eq_true, if_false]
              refine run_congr _ _ (resolve_export_grows project steps) _ _ fun next member later
                wider => ?_
              have step := move_step project key next member
              have less := unseen_decreases (project.chainKeys name) passed key
                (chain_keys_contains project name key next step named) held
              have rest := unseen_antitone (project.chainKeys name) (key :: passed) later wider
              exact ih more next later (step_mentioned project name key next step named) (by omega)
                (by omega)

theorem resolve_export_enough (project : Project) (name : String) (steps more : Nat)
    (key : ExportKey) (passed : List ExportKey) (named : key.name ∈ project.mentioned name)
    (enough : unseen (project.chainKeys name) passed < steps)
    (also : unseen (project.chainKeys name) passed < more) :
    project.resolveExport steps key passed = project.resolveExport more key passed := by
  rw [← resolve_beyond_nothing project more]
  exact resolve_export_beyond project _ name steps more key passed named enough also

theorem unseen_fresh (project : Project) (name : String) :
    unseen (project.chainKeys name) [] < project.chainBound := by
  have bound := chain_keys_length project name
  have all : unseen (project.chainKeys name) [] ≤ (project.chainKeys name).length :=
    List.length_filter_le _ _
  omega

theorem lookup_enough (project : Project) (key : ExportKey) (steps : Nat)
    (enough : project.chainBound ≤ steps) :
    project.lookup key [] = project.resolveExport steps key [] := by
  have fresh := unseen_fresh project key.name
  exact resolve_export_enough project key.name project.chainBound steps key [] List.mem_cons_self
    fresh (by omega)

end DeadExports.Project

import DeadExports.Proofs.Closure
import DeadExports.Proofs.Project.Importers
import DeadExports.Service

set_option autoImplicit false

namespace DeadExports

def Reference.place (reference : Reference) :
    List Part × Span := (reference.file.parts, reference.span)

def ExportKey.place (key : ExportKey) : List Part × String := (key.file.parts, key.name)

inductive Symbol.Same : Symbol → Symbol → Prop where
  | own (a b : Path) (name : String) (files : a.parts = b.parts) : Same (.own a name) (.own b name)
  | default (a b : Path) (files : a.parts = b.parts) : Same (.default a) (.default b)
  | exported (a b : Path) (name : String) (files : a.parts = b.parts) :
      Same (.exported a name) (.exported b name)

theorem Symbol.same_refl (symbol : Symbol) : symbol.Same symbol := by
  cases symbol with
  | own file name => exact .own file file name rfl
  | default file => exact .default file file rfl
  | exported file name => exact .exported file file name rfl

theorem ExportKey.same_eq_decide (a b : ExportKey) : (a == b) = decide (a.place = b.place) := by
  change (a.file == b.file && a.name == b.name) = decide (a.place = b.place)
  rw [Path.same_eq_decide, Bool.eq_iff_iff]
  simp [place]

instance ExportKey.same_equivalence : EquivBEq ExportKey where
  rfl := by simp [ExportKey.same_eq_decide]
  symm := by simp +contextual [ExportKey.same_eq_decide]
  trans := by simp +contextual [ExportKey.same_eq_decide]

namespace Reference

theorem compare_place (a b c d : Reference) (left : a.place = b.place) (right : c.place = d.place) :
    a.compare c = b.compare d := by
  simp only [place, Prod.mk.injEq] at left right
  rw [compare, compare, Path.compare_congr _ _ _ _ left.1 right.1, left.2, right.2]

theorem enter_place (a b : Reference) (left right : List Reference) (same : a.place = b.place)
    (alike : left.map place = right.map place) :
    (a.enter left).map place = (b.enter right).map place := by
  induction left generalizing right with
  | nil =>
      rw [List.map_nil, eq_comm, List.map_eq_nil_iff] at alike
      rw [alike]
      simp [enter, same]
  | cons first rest ih =>
      rw [List.map_cons, eq_comm, List.map_eq_cons_iff] at alike
      obtain ⟨second, others, rfl, head, tail⟩ := alike
      rw [enter, enter, compare_place a b first second same head.symm]
      cases b.compare second with
      | lt => simp [same, head, tail]
      | eq => simp [head, tail]
      | gt =>
          dsimp only
          rw [List.map_cons, List.map_cons, head, ih others tail.symm]

theorem in_order_place (left right : List Reference) (alike : left.map place = right.map place) :
    (inOrder left).map place = (inOrder right).map place := by
  have folded : ∀ (left right begun other : List Reference), left.map place = right.map place →
      begun.map place = other.map place →
      (left.foldl (fun ordered reference => reference.enter ordered) begun).map place =
        (right.foldl (fun ordered reference => reference.enter ordered) other).map place := by
    intro left
    induction left with
    | nil =>
        intro right begun other alike started
        rw [List.map_nil, eq_comm, List.map_eq_nil_iff] at alike
        rw [alike]
        exact started
    | cons first rest ih =>
        intro right begun other alike started
        rw [List.map_cons, eq_comm, List.map_eq_cons_iff] at alike
        obtain ⟨second, others, rfl, head, tail⟩ := alike
        exact ih others _ _ tail.symm (enter_place first second begun other head.symm started)
  exact folded left right [] [] alike rfl

end Reference

theorem flat_map_view {α β γ δ : Type} (view : α → γ) (seen : β → δ) (f g : α → List β)
    (left right : List α) (alike : left.map view = right.map view)
    (each : ∀ a b, view a = view b → (f a).map seen = (g b).map seen) :
    (left.flatMap f).map seen = (right.flatMap g).map seen := by
  induction left generalizing right with
  | nil =>
      rw [List.map_nil, eq_comm, List.map_eq_nil_iff] at alike
      rw [alike]
      rfl
  | cons first rest ih =>
      rw [List.map_cons, eq_comm, List.map_eq_cons_iff] at alike
      obtain ⟨second, others, rfl, head, tail⟩ := alike
      rw [List.flatMap_cons, List.flatMap_cons, List.map_append, List.map_append,
        each first second head.symm, ih others tail.symm]

namespace Project

-- Two indexes that say the same of the same files. Paths are compared by what they denote; the
-- texts, the facts and the files that specifiers stand for are equal.
structure SameIndex (a b : Project) : Prop where
  files : a.files.content = b.files.content
  modules : ∀ path, a.graph.contains path = true ↔ b.graph.contains path = true
  links : ∀ source target kind, a.graph.Linked source target kind ↔
      b.graph.Linked source target kind

theorem current_find_references {σ : Type} [FileStore σ] (project : Project) (store : σ)
    (current : project.sync store = (.ok (), project)) (file : Path) (position : Nat) :
    project.findReferences store file position =
      ((project.symbolAt file position).map project.referencesTo, project) := by
  rw [findReferences, current]

theorem same_index_refl (project : Project) : SameIndex project project :=
  ⟨rfl, fun _ => Iff.rfl, fun _ _ _ => Iff.rfl⟩

section Alike

variable {a b : Project}

theorem same_facts (same : SameIndex a b) : a.facts? = b.facts? := by
  funext file
  rw [facts?, facts?, PathMap.get_content, PathMap.get_content, same.files]

theorem same_targets (same : SameIndex a b) : a.target? = b.target? := by
  funext file specifier
  rw [target?, target?, PathMap.get_content, PathMap.get_content, same.files]

theorem flat_map_content {β : Type} (files : PathMap FileEntry) (f : FileEntry → List β) :
    (files.entries.flatMap fun (_, entry) => f entry) = files.content.flatMap fun entry =>
      f entry.2 := by
  rw [PathMap.content, List.flatMap_map]

theorem same_exports (same : SameIndex a b) : a.exportCount = b.exportCount := by
  rw [exportCount, exportCount, flat_map_content a.files (·.facts.exports),
    flat_map_content b.files (·.facts.exports), same.files]

theorem same_chain_bound (same : SameIndex a b) : a.chainBound = b.chainBound := by
  have exports := same_exports same
  rw [exportCount, exportCount] at exports
  rw [chainBound, chainBound, bindingCount, bindingCount, exports, PathMap.size_content,
    PathMap.size_content, flat_map_content a.files (·.facts.imports),
    flat_map_content b.files (·.facts.imports), same.files]

theorem same_import_symbol (same : SameIndex a b) : a.importSymbol = b.importSymbol := by
  funext lookup file binding passed
  simp only [importSymbol, importKey?, same_targets same]

theorem same_own_symbol (same : SameIndex a b) : a.ownSymbol = b.ownSymbol := by
  funext lookup file name passed
  simp only [ownSymbol, same_facts same, same_import_symbol same]

theorem same_origin_symbol (same : SameIndex a b) : a.originSymbol = b.originSymbol := by
  funext lookup file name origin passed
  simp only [originSymbol, same_targets same, same_own_symbol same]

theorem same_resolve_export (same : SameIndex a b) (steps : Nat) :
    a.resolveExport steps = b.resolveExport steps := by
  induction steps with
  | zero => rfl
  | succ steps ih =>
      funext key passed
      simp only [resolveExport, ih, same_facts same, same_origin_symbol same, wildcardKeys,
        same_targets same]

theorem same_symbol_at (same : SameIndex a b) : a.symbolAt = b.symbolAt := by
  have lookups : a.lookup = b.lookup := by
    rw [lookup, lookup, same_chain_bound same, same_resolve_export same]
  funext file position
  simp only [symbolAt, lookups, same_facts same, same_origin_symbol same, same_import_symbol same,
    same_own_symbol same]

theorem same_importers (same : SameIndex a b) (left right : Path)
    (alike : left.parts = right.parts) :
    (a.importersOf left).map Path.parts = (b.importersOf right).map Path.parts := by
  apply ascending_ext _ _ (a.importers_of_ascending left) (b.importers_of_ascending right)
  intro importer
  have links (kind : LinkKind) : a.graph.Linked importer left kind ↔
      b.graph.Linked importer right kind := by
    rw [same.links]
    simp only [ModuleGraph.Linked, alike]
  rw [importers_of_iff, importers_of_iff]
  exact exists_congr links

theorem facts_congr (project : Project) (left right : Path) (alike : left.parts = right.parts) :
    project.facts? left = project.facts? right := by
  rw [facts?, facts?, project.files.get_congr left right alike]

theorem target_congr (project : Project) (left right : Path) (alike : left.parts = right.parts) :
    project.target? left = project.target? right := by
  funext specifier
  rw [target?, target?, project.files.get_congr left right alike]

theorem same_points_to (same : SameIndex a b) (left right : Path) (specifier : String)
    (file other : Path) (importer : left.parts = right.parts) (target : file.parts = other.parts) :
    a.pointsTo left specifier file = b.pointsTo right specifier other := by
  rw [pointsTo, pointsTo, same_targets same, target_congr b left right importer]
  cases b.target? right specifier with
  | none => rfl
  | some found => simp only [Path.same_eq_decide, target]

theorem references_in_place (left right : Path) (spans : List Span)
    (alike : left.parts = right.parts) :
    (referencesIn left spans).map Reference.place = (referencesIn right spans).map
      Reference.place := by
  simp [referencesIn, Function.comp_def, Reference.place, alike]

theorem same_uses_in (same : SameIndex a b) (key other : ExportKey) (left right : Path)
    (keys : key.place = other.place) (importer : left.parts = right.parts) :
    (a.usesIn key left).map Reference.place = (b.usesIn other right).map Reference.place := by
  simp only [ExportKey.place, Prod.mk.injEq] at keys
  have points (specifier : String) := same_points_to same left right specifier key.file other.file
    importer keys.1
  rw [usesIn, usesIn, same_facts same, facts_congr b left right importer]
  cases b.facts? right with
  | none => rfl
  | some facts =>
      simp only [bindingsOf, everythingImports, reexportsOf, everythingExports, points, keys.2]
      exact references_in_place left right _ importer

theorem same_handed_on_by (same : SameIndex a b) (key other : ExportKey) (left right : Path)
    (keys : key.place = other.place) (importer : left.parts = right.parts) :
    (a.handedOnBy key left).map ExportKey.place = (b.handedOnBy other right).map
      ExportKey.place := by
  simp only [ExportKey.place, Prod.mk.injEq] at keys
  have points (specifier : String) := same_points_to same left right specifier key.file other.file
    importer keys.1
  rw [handedOnBy, handedOnBy, same_facts same, facts_congr b left right importer]
  cases b.facts? right with
  | none => rfl
  | some facts =>
      have wildcards : a.forwardsByWildcard left facts key = b.forwardsByWildcard right facts
          other := by
        simp only [forwardsByWildcard, points, keys.2]
      simp only [bindingsOf, reexportsOf, wildcards, points, keys.2, List.map_append, List.map_map]
      congr 1
      · simp [Function.comp_def, ExportKey.place, importer]
      · cases b.forwardsByWildcard right facts other <;> simp [ExportKey.place, importer]

theorem same_uses_of (same : SameIndex a b) (key other : ExportKey)
    (keys : key.place = other.place) :
    (a.usesOf key).map Reference.place = (b.usesOf other).map Reference.place :=
  flat_map_view Path.parts Reference.place _ _ _ _
    (same_importers same _ _ (congrArg Prod.fst keys))
    fun left right => same_uses_in same key other left right keys

theorem same_handed_on (same : SameIndex a b) (key other : ExportKey)
    (keys : key.place = other.place) :
    (a.handedOn key).map ExportKey.place = (b.handedOn other).map ExportKey.place :=
  flat_map_view Path.parts ExportKey.place _ _ _ _
    (same_importers same _ _ (congrArg Prod.fst keys))
    fun left right => same_handed_on_by same key other left right keys

theorem same_gives_out (left right : Symbol) (symbols : left.Same right) :
    givesOut left = givesOut right := by
  cases symbols <;> rfl

theorem same_symbol_file (left right : Symbol) (symbols : left.Same right) :
    left.file.parts = right.file.parts := by
  cases symbols with
  | own _ _ _ files => exact files
  | default _ _ files => exact files
  | exported _ _ _ files => exact files

theorem same_base_keys (left right : Symbol) (symbols : left.Same right) (facts : Facts) :
    (baseKeys left facts).map ExportKey.place = (baseKeys right facts).map ExportKey.place := by
  rw [baseKeys, baseKeys, same_gives_out left right symbols]
  simp [Function.comp_def, ExportKey.place, same_symbol_file left right symbols]

theorem same_base_references (left right : Symbol) (symbols : left.Same right) (facts : Facts) :
    (baseReferences left facts).map Reference.place = (baseReferences right facts).map
      Reference.place := by
  cases symbols with
  | own _ _ _ files => exact references_in_place _ _ _ files
  | default _ _ files => exact references_in_place _ _ _ files
  | exported _ _ _ files => exact references_in_place _ _ _ files

theorem same_reached_keys (same : SameIndex a b) (left right : Symbol) (symbols : left.Same right)
    (facts : Facts) :
    (a.reachedKeys left facts).map ExportKey.place = (b.reachedKeys right facts).map
      ExportKey.place := by
  rw [reachedKeys, reachedKeys, keyBound, keyBound, same_exports same, PathMap.size_content,
    PathMap.size_content, same.files]
  exact closure_view ExportKey.place ExportKey.same_eq_decide _ _ (same_handed_on same) _ _ _
    (same_base_keys left right symbols facts)

theorem same_references_to (same : SameIndex a b) (left right : Symbol)
    (symbols : left.Same right) :
    (a.referencesTo left).map Reference.place = (b.referencesTo right).map Reference.place := by
  rw [referencesTo, referencesTo, same_facts same,
    facts_congr b _ _ (same_symbol_file left right symbols)]
  cases b.facts? right.file with
  | none => rfl
  | some facts =>
      apply Reference.in_order_place
      rw [List.map_append, List.map_append, same_base_references left right symbols]
      congr 1
      exact flat_map_view ExportKey.place Reference.place _ _ _ _
        (same_reached_keys same left right symbols facts)
        (same_uses_of same)

end Alike
end Project
end DeadExports

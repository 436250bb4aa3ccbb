import DeadExports.Proofs.Facts.Nesting

set_option autoImplicit false

namespace DeadExports

namespace Tree

def bindsName (part : Tree) : Bool :=
  match part.kind with
  | .identifier => true
  | .namespaceImport => (part.childOfKind? .identifier).isSome
  | .namedImports => part.children.any fun item => item.kind == .importSpecifier &&
      (item.childInRole? .name).isSome
  | _ => false

def loaded? (source : String) (call : Tree) : Option String :=
  match call.childInRole? .callee, call.childInRole? .arguments with
  | some callee, some inputs =>
    if loadsModule source callee then (inputs.childOfKind? .string).map (stringValue source)
      else none
  | _, _ => none

def takesNames (statement : Tree) : Bool :=
  statement.children.any fun child => child.kind == .exportClause ||
    child.kind == .namespaceExport || child.kind == .star

def moduleNamed? (source : String) (tree : Tree) : Option String :=
  match tree.kind with
  | .importStatement => tree.specifier? source
  | .exportStatement => if tree.takesNames then tree.specifier? source else none
  | .callExpression => tree.loaded? source
  | _ => none

def listsNothing (tree : Tree) : Bool :=
  match tree.kind with
  | .importStatement => (tree.childOfKind? .importClause).any fun clause =>
    !clause.children.any bindsName
  | .exportStatement =>
    match tree.childOfKind? .exportClause, tree.childOfKind? .namespaceExport with
    | some clause, _ => clause.clauseSpecifiers.isEmpty
    | none, some everything => everything.namedChildren.isEmpty
    | none, none => false
  | _ => false

theorem clause_imports_iff (source specifier : String) (part : Tree) :
    (∃ binding, binding ∈ clauseImports source specifier part) ↔ part.bindsName = true := by
  rw [clauseImports]
  split
  next kind => simp [bindsName, kind]
  next kind =>
      rw [bindsName, kind]
      cases part.childOfKind? .identifier <;> simp
  next kind =>
      rw [bindsName, kind]
      simp only [List.mem_filterMap, List.any_eq_true, Bool.and_eq_true, specifierImport?]
      constructor
      · rintro ⟨binding, item, member, read⟩
        split at read
        next isSpecifier =>
            obtain ⟨name, found, -⟩ := Option.map_eq_some_iff.mp read
            exact ⟨item, member, isSpecifier, by rw [found]; rfl⟩
        next => cases read
      · rintro ⟨item, member, isSpecifier, named⟩
        obtain ⟨name, found⟩ := Option.isSome_iff_exists.mp named
        exact ⟨_, item, member, by rw [if_pos isSpecifier, found]; rfl⟩
  next kind => cases known : part.kind <;> simp_all [bindsName]

theorem clause_imports_specifier (source specifier : String) (part : Tree) (binding : ImportBinding)
    (member : binding ∈ clauseImports source specifier part) : binding.specifier = specifier := by
  rw [clauseImports] at member
  split at member
  next =>
      obtain rfl := List.mem_singleton.mp member
      rfl
  next =>
      split at member
      next =>
          obtain rfl := List.mem_singleton.mp member
          rfl
      next => cases member
  next =>
      obtain ⟨item, -, read⟩ := List.mem_filterMap.mp member
      rw [specifierImport?] at read
      split at read
      next =>
          obtain ⟨name, -, rfl⟩ := Option.map_eq_some_iff.mp read
          rfl
      next => cases read
  next => cases member

theorem import_bindings_iff (source specifier : String) (tree : Tree)
    (isImport : tree.kind = .importStatement) :
    (∃ binding ∈ tree.importBindings source, binding.specifier = specifier) ↔
      tree.specifier? source = some specifier ∧
        ∃ clause, tree.childOfKind? .importClause = some clause ∧ clause.children.any bindsName =
          true := by
  rw [importBindings, if_pos (by rw [isImport]; rfl)]
  cases named : tree.specifier? source with
  | none => simp
  | some written =>
      cases found : tree.childOfKind? .importClause with
      | none => simp
      | some clause =>
          simp only [List.mem_flatMap, Option.some.injEq, exists_eq_left', List.any_eq_true]
          constructor
          · rintro ⟨binding, ⟨part, among, bound⟩, rfl⟩
            exact ⟨(clause_imports_specifier source written part binding bound).symm, part, among,
              (clause_imports_iff source written part).mp ⟨binding, bound⟩⟩
          · rintro ⟨rfl, part, among, binds⟩
            obtain ⟨binding, bound⟩ := (clause_imports_iff source written part).mpr binds
            exact ⟨binding, ⟨part, among, bound⟩, clause_imports_specifier source written part
              binding bound⟩

theorem import_names_module (source specifier : String) (tree : Tree)
    (isImport : tree.kind = .importStatement) :
    (∃ binding ∈ tree.importBindings source, binding.specifier = specifier) ∨
    tree.sideEffect? source = some specifier ↔
      tree.specifier? source = some specifier ∧ tree.listsNothing = false := by
  rw [import_bindings_iff source specifier tree isImport, sideEffect?, listsNothing, isImport]
  cases tree.childOfKind? .importClause with
  | none => simp
  | some clause => simp

theorem clause_exports_from (source specifier : String) (module? : Option String) (clause : Tree) :
    (∃ binding ∈ clause.clauseExports source module?, binding.specifier? = some specifier) ↔
      module? = some specifier ∧ clause.clauseSpecifiers.isEmpty = false := by
  simp only [clauseExports, List.mem_map, List.isEmpty_eq_false_iff_exists_mem,
    exists_exists_and_eq_and]
  cases module? with
  | none => simp [ExportBinding.specifier?]
  | some written => simp [ExportBinding.specifier?, and_comm]

theorem namespace_exports_from (source specifier : String) (module? : Option String) (tree : Tree) :
    (∃ binding ∈ tree.namespaceExports source module?, binding.specifier? = some specifier) ↔
      module? = some specifier ∧ tree.namedChildren.isEmpty = false := by
  unfold namespaceExports
  cases found : tree.namedChildren.getLast? with
  | none => simp [List.getLast?_eq_none_iff.mp found]
  | some name =>
      have filled : tree.namedChildren.isEmpty = false :=
        List.isEmpty_eq_false_iff_exists_mem.mpr ⟨name, List.mem_of_getLast? found⟩
      cases module? with
      | none => simp
      | some written => simp [ExportBinding.specifier?, filled]

theorem declaration_exports_own (source : String) (declaration : Tree) (binding : ExportBinding)
    (member : binding ∈ declaration.declarationExports source) : binding.specifier? = none := by
  obtain ⟨_, -, rfl⟩ := List.mem_map.mp member
  rfl

theorem default_export_own (source : String) (word target : Tree) :
    (defaultExport source word target).specifier? = none := by
  rw [defaultExport]
  split <;> rfl

theorem takes_names_eq (tree : Tree) :
    tree.takesNames = ((tree.childOfKind? .exportClause).isSome ||
      (tree.childOfKind? .namespaceExport).isSome ||
      (tree.childOfKind? .star).isSome) := by
  rw [Bool.eq_iff_iff]
  simp only [takesNames, childOfKind?, List.any_eq_true, Bool.or_eq_true, List.find?_isSome,
    and_or_left, exists_or]

theorem export_names_module (source specifier : String) (tree : Tree)
    (isExport : tree.kind = .exportStatement) :
    (∃ binding ∈ tree.exportBindings source, binding.specifier? = some specifier) ∨
    tree.wildcard? source = some specifier ↔
      (tree.takesNames = true ∧ tree.specifier? source = some specifier) ∧ tree.listsNothing =
        false := by
  rw [takes_names_eq, exportBindings, if_pos (by rw [isExport]; rfl), wildcard?, isWildcard,
    listsNothing, isExport]
  dsimp only
  cases clause : tree.childOfKind? .exportClause with
  | some list => simp [clause_exports_from]
  | none =>
      cases everything : tree.childOfKind? .namespaceExport with
      | some names => simp [namespace_exports_from]
      | none =>
          cases star : tree.childOfKind? .star with
          | some mark => simp
          | none =>
              cases tree.exportTarget? with
              | none => cases tree.childOfKind? .defaultWord <;> simp
              | some target =>
                  cases tree.childOfKind? .defaultWord with
                  | some word => simp [default_export_own]
                  | none =>
                      have own := declaration_exports_own source target
                      simpa using fun binding member => by rw [own binding member]; simp

theorem call_names_module (source specifier : String) (tree : Tree)
    (isCall : tree.kind = .callExpression) :
    (∃ span, tree.dynamicImport? source = some (specifier, span)) ↔ tree.loaded? source =
      some specifier := by
  rw [dynamicImport?, if_pos (by rw [isCall]; rfl), loaded?]
  cases tree.childInRole? .callee with
  | none => simp
  | some callee =>
      cases tree.childInRole? .arguments with
      | none => simp
      | some inputs =>
          cases loadsModule source callee with
          | false => simp
          | true => cases inputs.childOfKind? .string <;> simp

def Depends (source : String) (tree : Tree) (specifier : String) : Prop :=
  ((∃ binding ∈ tree.importBindings source, binding.specifier = specifier) ∨
    tree.sideEffect? source = some specifier) ∨
    ((∃ binding ∈ tree.exportBindings source, binding.specifier? = some specifier) ∨
      tree.wildcard? source = some specifier) ∨
    ∃ span, tree.dynamicImport? source = some (specifier, span)

theorem depends_iff (source : String) (tree : Tree) (specifier : String) :
    tree.Depends source specifier ↔ tree.moduleNamed? source = some specifier ∧ tree.listsNothing =
      false := by
  have imports (other : tree.kind ≠ .importStatement) : tree.importBindings source = [] ∧
      tree.sideEffect? source = none := by
    simp [importBindings, sideEffect?, other]
  have exports (other : tree.kind ≠ .exportStatement) : tree.exportBindings source = [] ∧
      tree.wildcard? source = none := by
    simp [exportBindings, wildcard?, isWildcard, other]
  have calls (other : tree.kind ≠ .callExpression) : tree.dynamicImport? source = none := by
    simp [dynamicImport?, other]
  rw [Depends, moduleNamed?]
  split
  next isImport =>
      rw [import_names_module source specifier tree isImport,
        (exports (by rw [isImport]; decide)).1, (exports (by rw [isImport]; decide)).2,
        calls (by rw [isImport]; decide)]
      simp
  next isExport =>
      rw [export_names_module source specifier tree isExport,
        (imports (by rw [isExport]; decide)).1, (imports (by rw [isExport]; decide)).2,
        calls (by rw [isExport]; decide)]
      simp
  next isCall =>
      rw [call_names_module source specifier tree isCall, (imports (by rw [isCall]; decide)).1,
        (imports (by rw [isCall]; decide)).2, (exports (by rw [isCall]; decide)).1,
        (exports (by rw [isCall]; decide)).2, listsNothing, isCall]
      simp
  next noImport noExport noCall =>
      rw [(imports noImport).1, (imports noImport).2, (exports noExport).1, (exports noExport).2,
        calls noCall]
      simp

end Tree

namespace Facts

theorem dependency_iff (source specifier : String) (tree : Tree) :
    (∃ kind, (specifier, kind) ∈ (ofTree source tree).dependencies) ↔ ∃ node ∈ tree.visited,
      node.Depends source specifier := by
  simp only [dependencies, ofTree, List.mem_append, List.mem_map, List.mem_flatMap,
    List.mem_filterMap, Prod.mk.injEq]
  constructor
  · rintro ⟨kind,
      (((⟨binding, ⟨node, member, bound⟩, rfl, -⟩ | ⟨_, ⟨node, member, found⟩, rfl, -⟩) |
      ⟨_, ⟨binding, ⟨node, member, bound⟩, found⟩, rfl, -⟩) | ⟨⟨_, span⟩, ⟨node, member, found⟩,
      rfl, -⟩) |
      ⟨_, ⟨node, member, found⟩, rfl, -⟩⟩
    · exact ⟨node, member, .inl (.inl ⟨binding, bound, rfl⟩)⟩
    · exact ⟨node, member, .inl (.inr found)⟩
    · exact ⟨node, member, .inr (.inl (.inl ⟨binding, bound, found⟩))⟩
    · exact ⟨node, member, .inr (.inr ⟨span, found⟩)⟩
    · exact ⟨node, member, .inr (.inl (.inr found))⟩
  · rintro ⟨node, member, (⟨binding, bound, same⟩ | found) | (⟨binding, bound, found⟩ | found)
      | ⟨span, found⟩⟩
    · exact ⟨.imports, .inl (.inl (.inl (.inl ⟨binding, ⟨node, member, bound⟩, same, rfl⟩)))⟩
    · exact ⟨.imports, .inl (.inl (.inl (.inr ⟨specifier, ⟨node, member, found⟩, rfl, rfl⟩)))⟩
    · exact ⟨.reexports, .inl (.inl
        (.inr ⟨specifier, ⟨binding, ⟨node, member, bound⟩, found⟩, rfl, rfl⟩))⟩
    · exact ⟨.wildcard, .inr ⟨specifier, ⟨node, member, found⟩, rfl, rfl⟩⟩
    · exact ⟨.imports, .inl (.inr ⟨(specifier, span), ⟨node, member, found⟩, rfl, rfl⟩)⟩

-- A file depends on the modules that its import statements, its export statements and its calls
-- name, wherever these stand, unless a statement lists no name at all; and on no other module.
theorem dependencies_are_named (source : String) (tree : Tree) (specifier : String) :
    (∃ kind, (specifier, kind) ∈ (ofTree source tree).dependencies) ↔
      ∃ node : Tree, node.StandsIn tree ∧ node.moduleNamed? source = some specifier ∧
        node.listsNothing = false := by
  rw [dependency_iff]
  exact exists_congr fun node => and_congr (Tree.mem_visited_iff node tree)
    (Tree.depends_iff source node specifier)

-- Statements without a name between their braces leave no trace of their modules, and neither does
-- an import that is an assignment: what is used through it goes for unused.
theorem empty_lists_are_lost :
    (SourceModule.parse ⟨"/f.ts"⟩ ("import \x7b\x7d from './a';\nexport \x7b\x7d from './b';\n" ++
      "import c = require('./c');\n")).toOption.map
      (fun m => (m.hasErrors, m.statements.map (Tree.moduleNamed? m.text),
        (extract m).dependencies.length)) =
        some (false, [some "./a", some "./b", none], 0) ∧
    let store := MemoryStore.ofList
      [(⟨"/a.ts"⟩, "import c = require('./c');\nc.x;\n"), (⟨"/c.ts"⟩, "export let x;\n")]
    (SourceModule.load store ⟨"/c.ts"⟩).toOption.map (fun m =>
      (m.scan defaultMarker).candidates.map fun candidate =>
        (candidate.verdict store ⟨"/c.ts"⟩).toOption) =
        some [some .unused] := by
  constructor
  · decide +kernel
  · decide +kernel

end Facts
end DeadExports

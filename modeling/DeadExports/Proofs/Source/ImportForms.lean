import DeadExports.Proofs.Source.Yields

set_option autoImplicit false

namespace DeadExports

namespace Tree

def IsListedImport (entry : Tree) : Prop :=
  ∃ name, entry.childInRole? .name = some name ∧
    (entry.childInRole? .newName = none → name.kind = .identifier)

def IsImportGroup (group : Tree) : Prop :=
  (group.kind = .namespaceImport ∧ (group.childOfKind? .identifier).isSome = true) ∨
    (group.kind = .namedImports ∧ ∀ entry ∈ group.children, entry.kind = .importSpecifier →
      entry.IsListedImport)

inductive IsImportClause : List Tree → Prop where
  | default (name : Tree) (plain : name.kind = .identifier) : IsImportClause [name]
  | group (group : Tree) (proper : group.IsImportGroup) : IsImportClause [group]
  | both (name group : Tree) (plain : name.kind = .identifier) (proper : group.IsImportGroup) :
      IsImportClause [name, group]

def ImportsProperly (statement : Tree) : Prop :=
  statement.kind = .importStatement → ∀ clause, statement.childOfKind? .importClause = some clause →
    IsImportClause clause.children ∧ (statement.childInRole? .source).isSome = true

end Tree

namespace Source.Grammar

open Parse

variable {text : String}

theorem identifier_kind : identifier.Yields text fun name => name.kind = .identifier :=
  .last fun _ => .last fun _ => .leaf fun _ => rfl

theorem import_specifier_listed : importSpecifier.Yields text Tree.IsListedImport := by
  refine .parent (.last fun _ => .last fun name => .last fun _ => .branch ?_ ?_)
  · refine .last fun newName => .pure fun _ => ⟨name.inRole .name, ?_, ?_⟩
    · simp [Tree.childInRole?, Tree.branch, Tree.children]
    · simp [Tree.childInRole?, Tree.branch, Tree.children]
  · refine .guarded fun isPlain => .pure fun _ => ⟨name.inRole .name, ?_, fun _ => ?_⟩
    · simp [Tree.childInRole?, Tree.branch, Tree.children]
    · simpa using isPlain

theorem namespace_import_group : namespaceImport.Yields text Tree.IsImportGroup := by
  refine .parent (.last fun _ => .last fun _ => .step identifier_kind fun name plain =>
    .pure fun _ => .inl ⟨rfl, ?_⟩)
  simp [Tree.childOfKind?, Tree.branch, Tree.children, plain]

theorem specifier_list_entries (kind : Kind) (specifier : Parse Tree) {holds : Tree → Prop}
    (each : specifier.Yields text holds) (comma : ∀ span, holds (.leaf .comma span))
    (comment : ∀ span, holds (.leaf .comment span)) :
    (specifierList kind specifier).Yields text fun group => group.kind = kind ∧
    ∀ entry ∈ group.children, holds entry := by
  have entries : (many do
      if ← nextIs "\x7d" then return none
      let entry ← specifier
      if ← nextIs "\x7d" then return some [entry]
      else
        guard (← nextIs ",")
        return some [entry, ← leaf .comma]).Yields text fun found => ∀ run ∈ found, ∀ entry ∈ run,
            holds entry := by
    refine .many (.last fun _ => .branch (.pure nofun) (.step each fun entry here => .last fun _ =>
      .branch ?_ ?_))
    · refine .pure ?_
      rintro _ ⟨⟩
      simpa using here
    · refine .last fun _ => .last fun _ => .step (.leaf comma) fun mark also => .pure ?_
      rintro _ ⟨⟩
      simpa using ⟨here, also⟩
  refine .last fun _ => .step entries fun found each => .last fun _ => .last fun _ =>
    .close fun _ => ⟨rfl, ?_⟩
  refine with_comments_all comment _ _ _ fun entry member => ?_
  obtain ⟨run, listed, among⟩ := List.mem_flatten.mp member
  exact each run listed entry among

theorem import_list_group :
    (specifierList .namedImports importSpecifier).Yields text Tree.IsImportGroup := by
  have entries : importSpecifier.Yields text fun entry => entry.kind = .importSpecifier →
      entry.IsListedImport :=
    fun _ _ _ _ here read _ => import_specifier_listed _ _ _ _ here read
  intro _ _ _ _ here read
  exact .inr (specifier_list_entries .namedImports importSpecifier entries (fun _ => nofun)
    (fun _ => nofun) _ _ _ _ here read)

theorem import_clause_formed : importClause.Yields text fun clause => clause.kind = .importClause ∧
    Tree.IsImportClause clause.children := by
  have group : (show Parse Tree from do
      if ← nextIs "*" then namespaceImport else specifierList .namedImports importSpecifier).Yields
          text Tree.IsImportGroup :=
    .last fun _ => .branch namespace_import_group import_list_group
  refine .parent (.last fun _ => .branch ?_ ?_)
  · exact .step group fun found proper => .pure fun _ => ⟨rfl, .group found proper⟩
  · refine .step identifier_kind fun name plain => .last fun _ => .branch ?_ ?_
    · exact .step group fun found proper => .pure fun _ => ⟨rfl, .both name found plain proper⟩
    · exact .pure fun _ => ⟨rfl, .default name plain⟩

theorem module_source_role : moduleSource.Yields text fun source => source.role? = some .source ∧
    source.kind = .string :=
  .last fun _ => .last fun _ => .step (.leaf fun _ => rfl) fun source isString =>
    .pure (by simpa using isString)

theorem plain_import_properly (g : Grammar) : (plainImport g).Yields text Tree.ImportsProperly := by
  refine .parent (.last fun _ => .last fun _ => .branch ?_ ?_)
  · refine .step module_source_role fun source known => .last fun _ => .last fun _ =>
      .pure fun _ _ clause found => ?_
    simp [Tree.childOfKind?, Tree.branch, Tree.children, known.2] at found
  · refine .last fun _ => .step import_clause_formed fun clause formed => ?_
    refine .step (.last fun _ => module_source_role) fun source known => .last fun _ =>
      .last fun _ => .pure ?_
    intro _ _ other found
    simp only [Tree.childOfKind?, Tree.branch, Tree.children, List.find?_cons, formed.1,
      beq_self_eq_true, Option.some.injEq]
      at found
    subst found
    refine ⟨formed.2, ?_⟩
    simp [Tree.childInRole?, Tree.branch, Tree.children, known.1]

theorem import_require_bare : importRequire.Yields text fun statement =>
    statement.children = [] := by
  refine .parent ?_
  refine .last fun _ => .last fun _ => .last fun _ => .last fun _ => .last fun _ => .last fun _ =>
    .last fun _ => ?_
  exact .last fun _ => .last fun _ => .last fun _ => .last fun _ => .pure fun _ => rfl

end Source.Grammar

namespace SourceModule

theorem imports_yield {holds : Tree → Prop} (path : Path) (text : String) (m : SourceModule)
    (parsed : parse path text = .ok m)
    (other : ∀ tree : Tree, tree.kind ≠ .importStatement ∨ tree.children = [] → holds tree)
    (plain : ∀ g, (Source.Grammar.plainImport g).Yields text holds) (statement : Tree)
    (member : statement ∈ m.tree.children) :
    holds statement := by
  refine parse_yields path text m parsed ?_ ?_ ?_ statement member
  · intro tree stays
    apply other
    refine .inl fun isImport => ?_
    rw [isImport] at stays
    cases stays
  · intro g
    refine .last fun _ => .branch (.either ?_ (.either ?_ (plain g))) (plain g)
    · intro _ _ _ _ here read
      exact other _ (.inr (Source.Grammar.import_require_bare _ _ _ _ here read))
    · exact .node fun _ _ => other _ (.inl nofun)
  · intro g first marks _
    exact .last fun _ => .last fun _ => .last fun _ => .last fun _ => .close fun _ =>
      other _ (.inl nofun)

theorem imports_formed (path : Path) (text : String) (m : SourceModule)
    (parsed : parse path text = .ok m) (statement : Tree) (member : statement ∈ m.tree.children) :
    statement.ImportsProperly := by
  refine imports_yield path text m parsed ?_ Source.Grammar.plain_import_properly statement member
  rintro tree (other | bare) isImport clause found
  · exact absurd isImport other
  · rw [Tree.childOfKind?, bare] at found
    cases found

end SourceModule
end DeadExports

import DeadExports.Proofs.Source.Yields

set_option autoImplicit false

namespace DeadExports

namespace Tree

def StandAlone (parts : List Tree) : Prop :=
  (∃ part ∈ parts, part.isExportTarget = true) → ∀ part ∈ parts, part.role? ≠ some .source

theorem stand_alone_single (part : Tree) : StandAlone [part] := by
  -- A part has one role, so it cannot be both.
  rintro ⟨target, member, isTarget⟩ other named source
  obtain rfl := List.mem_singleton.mp member
  obtain rfl := List.mem_singleton.mp named
  simp [isExportTarget, source] at isTarget

theorem stand_alone_without_target (parts : List Tree)
    (none : ∀ part ∈ parts, part.isExportTarget = false) :
    StandAlone parts := by
  rintro ⟨part, member, isTarget⟩
  rw [none part member] at isTarget
  cases isTarget

theorem stand_alone_behind (marks parts : List Tree) (plain : ∀ mark ∈ marks, mark.role? = none)
    (alone : StandAlone parts) :
    StandAlone (marks ++ parts) := by
  rintro ⟨target, member, isTarget⟩ part named
  have bare : ∀ mark ∈ marks, mark.isExportTarget = false := by
    intro mark member
    simp [isExportTarget, plain mark member]
  rcases List.mem_append.mp named with mark | later
  · simp [plain part mark]
  · refine alone ⟨target, ?_, isTarget⟩ part later
    rcases List.mem_append.mp member with mark | here
    · rw [bare target mark] at isTarget
      cases isTarget
    · exact here

def IsSettled (statement : Tree) :
    Prop := statement.kind = .exportStatement → StandAlone statement.children

theorem settled_other (statement : Tree) (other : statement.kind ≠ .exportStatement) :
    statement.IsSettled :=
  fun isExport => absurd isExport other

end Tree

namespace Source.Grammar

open Parse

variable {text : String}

theorem node_settled {kind : Kind} {reader : Parse (List Tree)} (other : kind ≠ .exportStatement) :
    (node kind reader).Yields text Tree.IsSettled :=
  Yields.node fun _ _ => Tree.settled_other _ other

theorem import_statement_settled (g : Grammar) :
    (importStatement g).Yields text Tree.IsSettled := by
  refine .last fun _ => .branch ?_ (node_settled (by decide))
  exact .either (node_settled (by decide))
    (.either (node_settled (by decide)) (node_settled (by decide)))

theorem specifier_list_plain (kind : Kind) (specifier : Parse Tree) :
    (specifierList kind specifier).Yields text fun clause => clause.role? = none :=
  .last fun _ => .last fun _ => .last fun _ => .last fun _ => .close fun _ => rfl

theorem from_clause_source : fromClause.Yields text fun source => source.role? = some .source :=
  .last fun _ => .last fun _ => .last fun _ => .last fun _ => .pure (Tree.in_role_role _ _)

theorem from_module_alone (g : Grammar) (what : Tree) (plain : what.role? = none) :
    (show Parse (List Tree) from do
      let source ← fromClause
      importAttributes g
      statementEnd {}
      return [what, source]).Yields text Tree.StandAlone := by
  refine .step from_clause_source fun source named => .last fun _ => .last fun _ => .pure ?_
  exact Tree.stand_alone_without_target _ (by simp [Tree.isExportTarget, plain, named])

theorem export_all_alone (g : Grammar) : (exportAll g).Yields text Tree.StandAlone :=
  .last fun _ => .branch (.step (.node fun _ _ => rfl) (from_module_alone g))
    (.step (.leaf fun _ => rfl) (from_module_alone g))

theorem export_list_alone (g : Grammar) : (exportList g).Yields text Tree.StandAlone := by
  refine .step (specifier_list_plain _ _) fun clause plain => .last fun _ =>
    .branch (from_module_alone g clause plain) ?_
  exact .last fun _ => .pure (Tree.stand_alone_single clause)

theorem export_default_alone (g : Grammar) : (exportDefault g).Yields text Tree.StandAlone := by
  refine .step (.leaf fun _ => rfl) fun word (plain : word.role? = none) => .last fun found => ?_
  have behind : ∀ target : Tree, Tree.StandAlone [word, target] := fun target =>
    Tree.stand_alone_behind [word] [target] (by simpa using plain) (Tree.stand_alone_single target)
  cases found with
  | some found => exact .pure (behind _)
  | none => exact .last fun _ => .last fun _ => .pure (behind _)

theorem typed_export_alone (g : Grammar) : (typedExport g).Yields text Tree.StandAlone := by
  refine .last fun _ => .last fun _ => .last fun _ => .last fun _ => ?_
  split
  · exact .last fun _ => .last fun _ => export_list_alone g
  · exact .last fun _ => .last fun value => .last fun _ => .pure (Tree.stand_alone_single value)
  · exact .last fun _ => .last fun _ => .last fun _ => .last fun name => .last fun _ =>
      .pure (Tree.stand_alone_single name)
  · exact .last fun found => .pure (Tree.stand_alone_single found)
  · exact .refuse

theorem exported_alone (g : Grammar) : (exported g).Yields text Tree.StandAlone := by
  refine .last fun _ => ?_
  split
  · exact export_all_alone g
  · exact export_list_alone g
  · exact export_default_alone g
  · refine .step (.attempt (typed_export_alone g)) fun found alone => ?_
    cases found with
    | some found => exact .pure (alone found rfl)
    | none => exact .last fun target => .pure (Tree.stand_alone_single _)

theorem export_statement_settled (g : Grammar) (first : Nat) (marks : List Tree)
    (plain : ∀ mark ∈ marks, mark.role? = none) :
    (exportStatement g first marks).Yields text Tree.IsSettled := by
  refine .last fun _ => .last fun _ => .step (.leaf fun _ => rfl) fun word
    (bare : word.role? = none) => ?_
  refine .step (exported_alone g) fun what alone => .close fun _ _ => ?_
  have behind : Tree.StandAlone ([word] ++ what) := Tree.stand_alone_behind [word] what
    (by simpa using bare) alone
  exact Tree.stand_alone_behind marks _ plain behind

end Source.Grammar

namespace SourceModule

theorem target_without_module (path : Path) (text : String) (m : SourceModule)
    (parsed : parse path text = .ok m) (statement : Tree) (member : statement ∈ m.tree.children) :
    statement.IsSettled := by
  refine parse_yields path text m parsed ?_ Source.Grammar.import_statement_settled
    Source.Grammar.export_statement_settled
    statement member
  intro tree plain
  apply Tree.settled_other
  rintro isExport
  rw [isExport] at plain
  cases plain

end SourceModule
end DeadExports

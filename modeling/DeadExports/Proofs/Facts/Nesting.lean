import DeadExports.Proofs.Project.Steps
import DeadExports.Proofs.Usage.Verdict
import Mathlib.Data.List.Basic

set_option autoImplicit false

namespace DeadExports

namespace Tree

inductive StandsIn (part : Tree) : Tree → Prop where
  | whole : StandsIn part part
  | inside (tree child : Tree) (isOpen : tree.kind.isClosed = false)
      (member : child ∈ tree.children) (stands : StandsIn part child) : StandsIn part tree

mutual
theorem visited_stands (part : Tree) : ∀ tree : Tree, part ∈ tree.visited → part.StandsIn tree
  | node role kind span children => by
      intro member
      rw [visited] at member
      rcases List.mem_cons.mp member with rfl | further
      · exact .whole
      · cases closed : kind.isClosed with
        | true =>
            rw [closed, if_pos rfl] at further
            cases further
        | false =>
            rw [closed, if_neg Bool.false_ne_true] at further
            obtain ⟨child, among, stands⟩ := visited_all_stand part children further
            exact .inside _ child closed among stands

theorem visited_all_stand (part : Tree) : ∀ children : List Tree, part ∈ visitedAll children →
    ∃ child ∈ children, part.StandsIn child
  | [] => by simp [visitedAll]
  | tree :: rest => by
      intro member
      rw [visitedAll] at member
      rcases List.mem_append.mp member with here | later
      · exact ⟨tree, List.mem_cons_self, visited_stands part tree here⟩
      · obtain ⟨child, among, stands⟩ := visited_all_stand part rest later
        exact ⟨child, List.mem_cons_of_mem tree among, stands⟩
end

theorem visited_all_member (part child : Tree) (children : List Tree) (member : child ∈ children)
    (visited : part ∈ child.visited) :
    part ∈ visitedAll children := by
  induction children with
  | nil => cases member
  | cons first rest ih =>
      rw [visitedAll]
      rcases List.mem_cons.mp member with rfl | later
      · exact List.mem_append_left _ visited
      · exact List.mem_append_right _ (ih later)

theorem stands_visited (part tree : Tree) (stands : part.StandsIn tree) : part ∈ tree.visited := by
  induction stands with
  | whole =>
      cases part
      exact List.mem_cons_self
  | inside tree child isOpen member _ ih =>
      obtain ⟨role, kind, span, children⟩ := tree
      rw [visited, show kind.isClosed = false from isOpen]
      exact List.mem_cons_of_mem _ (visited_all_member part child children member ih)

theorem mem_visited_iff (part tree : Tree) : part ∈ tree.visited ↔ part.StandsIn tree :=
  ⟨visited_stands part tree, stands_visited part tree⟩

theorem visited_all_eq (children : List Tree) : visitedAll children = children.flatMap visited := by
  induction children with
  | nil => rfl
  | cons first rest ih => rw [visitedAll, List.flatMap_cons, ih]

def inner (statement : Tree) :
    List Tree := if statement.kind.isClosed then [] else visitedAll statement.children

theorem visited_eq (tree : Tree) : tree.visited = tree :: tree.inner := by
  cases tree
  rfl

theorem mem_inner_iff (part statement : Tree) :
    part ∈ statement.inner ↔ statement.kind.isClosed = false ∧ ∃ child ∈ statement.children,
      part.StandsIn child := by
  rw [inner]
  cases statement.kind.isClosed with
  | true => simp
  | false => simp [visited_all_eq, mem_visited_iff]

def NestedIn (part program : Tree) : Prop :=
  ∃ statement ∈ program.children, statement.kind.isClosed = false ∧ ∃ child ∈ statement.children,
    part.StandsIn child

def innerExports (source : String) (statement : Tree) :
    List ExportBinding := statement.inner.flatMap (exportBindings source)

theorem inner_exports_iff (source : String) (program : Tree) (holds : ExportBinding → Prop) :
    (∀ statement ∈ program.children, ∀ binding ∈ statement.innerExports source, holds binding) ↔
      ∀ part : Tree, part.NestedIn program → ∀ binding ∈ part.exportBindings source,
        holds binding := by
  constructor
  · rintro every part ⟨statement, stated, isOpen, inside⟩ binding bound
    exact every statement stated binding
      (List.mem_flatMap.mpr ⟨part, (mem_inner_iff part statement).mpr ⟨isOpen, inside⟩, bound⟩)
  · intro every statement stated binding member
    obtain ⟨part, within, bound⟩ := List.mem_flatMap.mp member
    exact every part ⟨statement, stated, (mem_inner_iff part statement).mp within⟩ binding bound

end Tree

namespace Facts

def ownExports (source : String) (program : Tree) :
    List ExportBinding := program.children.flatMap (Tree.exportBindings source)

theorem exports_of_program (source : String) (program : Tree)
    (isProgram : program.kind = .program) :
    (ofTree source program).exports =
      program.children.flatMap fun statement => statement.exportBindings source ++
        statement.innerExports source := by
  have itself : program.exportBindings source = [] := by
    rw [Tree.exportBindings, isProgram]
    rfl
  have opened : program.inner = program.children.flatMap Tree.visited := by
    rw [Tree.inner, isProgram, Tree.visited_all_eq]
    rfl
  rw [ofTree]
  dsimp only
  rw [Tree.visited_eq, List.flatMap_cons, itself, List.nil_append, opened, List.flatMap_assoc]
  simp only [Tree.visited_eq, List.flatMap_cons, Tree.innerExports]

theorem own_sublist {α β : Type} (own inner : α → List β) (items : List α) :
    (items.flatMap own).Sublist (items.flatMap fun item => own item ++ inner item) := by
  induction items with
  | nil => exact List.Sublist.refl _
  | cons first rest ih =>
      rw [List.flatMap_cons, List.flatMap_cons]
      exact (List.sublist_append_left _ _).append ih

theorem own_only_iff {α β : Type} (own inner : α → List β) (items : List α) :
    (items.flatMap fun item => own item ++ inner item) = items.flatMap own ↔ ∀ item ∈ items,
      inner item = [] := by
  induction items with
  | nil => simp
  | cons first rest ih =>
      have longer := (own_sublist own inner rest).length_le
      rw [List.flatMap_cons, List.flatMap_cons, List.forall_mem_cons, ← ih, List.append_assoc,
        List.append_cancel_left_eq]
      constructor
      · intro same
        have lengths := congrArg List.length same
        rw [List.length_append] at lengths
        have none : inner first = [] := List.eq_nil_of_length_eq_zero (by omega)
        rw [none, List.nil_append] at same
        exact ⟨none, same⟩
      · rintro ⟨none, same⟩
        rw [none, List.nil_append, same]

theorem own_of_name (source : String) (program : Tree) (isProgram : program.kind = .program)
    (name : String)
    (apart : ∀ part : Tree, part.NestedIn program → ∀ binding ∈ part.exportBindings source,
      binding.exported ≠ name) :
    ((ofTree source program).exports.filter fun binding => binding.exported == name) =
      (ownExports source program).filter fun binding => binding.exported == name := by
  have apart := (Tree.inner_exports_iff source program fun binding => binding.exported ≠ name).mpr
    apart
  rw [exports_of_program source program isProgram, ownExports, List.filter_flatMap,
    List.filter_flatMap]
  refine List.flatMap_congr fun statement stated => ?_
  have none : (statement.innerExports source).filter (fun binding => binding.exported ==
      name) = [] :=
    List.filter_eq_nil_iff.mpr fun binding member => by
      simpa using apart statement stated binding member
  rw [List.filter_append, none, List.append_nil]

theorem exports_name_of_none (facts : Facts) (name : String)
    (none : (facts.exports.filter fun binding => binding.exported == name) = []) :
    facts.exportsName name = false := by
  rw [exportsName, List.any_eq_false]
  exact List.filter_eq_nil_iff.mp none

end Facts

namespace Project

theorem lookup_by_wildcards (project : Project) (file : Path) (facts : Facts) (name : String)
    (known : project.facts? file = some facts) (missing : facts.exportsName name = false)
    (proper : name ≠ "default")
    (steps : Nat) (passed : List ExportKey) (new : passed.contains ⟨file, name⟩ = false) :
    project.resolveExport (steps + 1) ⟨file, name⟩ passed =
      firstSymbol (project.resolveExport steps) (project.wildcardKeys file facts name)
        (⟨file, name⟩ :: passed) := by
  have none : (facts.exports.find? fun binding => binding.exported == name) = none :=
    List.find?_eq_none.mpr (List.any_eq_false.mp missing)
  have other : (name == "default") = false := by simpa using proper
  rw [resolveExport, new, if_neg Bool.false_ne_true]
  dsimp only
  rw [known]
  dsimp only
  rw [none, other]
  rfl

end Project

namespace Facts

-- The exports of a program are those of its statements, each followed by what stands inside the
-- statement. They are the exports of the statements alone just when nothing inside exports a name;
-- and a name that nothing inside exports is exported by the statements alone, so that no file
-- behind a wildcard is hidden by what they do not export.
theorem exports_of_statements (source : String) (program : Tree)
    (isProgram : program.kind = .program) :
    (ofTree source program).exports =
      program.children.flatMap (fun statement => statement.exportBindings source ++
        statement.innerExports source) ∧
    ((ofTree source program).exports = ownExports source program ↔
      ∀ part : Tree, part.NestedIn program → part.exportBindings source = []) ∧
    ∀ name, (∀ part : Tree, part.NestedIn program → ∀ binding ∈ part.exportBindings source,
      binding.exported ≠ name) →
      ((ofTree source program).exports.filter fun binding => binding.exported == name) =
        ((ownExports source program).filter fun binding => binding.exported == name) ∧
      ((∀ binding ∈ ownExports source program, binding.exported ≠ name) → name ≠ "default" →
        ∀ project file, Project.facts? project file = some (ofTree source program) →
          (∀ steps passed, passed.contains ⟨file, name⟩ = false →
            project.resolveExport (steps + 1) ⟨file, name⟩ passed =
              Project.firstSymbol (project.resolveExport steps)
                (project.wildcardKeys file (ofTree source program) name) (⟨file, name⟩ :: passed)) ∧
          ∀ specifier ∈ (ofTree source program).wildcards, ∀ target,
            project.target? file specifier = some target →
            ⟨file, name⟩ ∈ project.handedOnBy ⟨target, name⟩ file) := by
  have parts := exports_of_program source program isProgram
  refine ⟨parts, ?_, fun name apart => ?_⟩
  · rw [parts, ownExports, own_only_iff]
    simpa only [List.eq_nil_iff_forall_not_mem] using Tree.inner_exports_iff source program
      fun _ => False
  · have own := own_of_name source program isProgram name apart
    refine ⟨own, fun absent proper project file known => ?_⟩
    have missing : (ofTree source program).exportsName name = false := by
      refine exports_name_of_none _ name ?_
      rw [own, List.filter_eq_nil_iff]
      exact fun binding member => by simpa using absent binding member
    refine ⟨Project.lookup_by_wildcards project file _ name known missing proper,
      fun specifier member target found => ?_⟩
    exact Project.handed_on_of_wildcard project file file target _ name specifier _ known rfl proper
      missing member found rfl

def sheltered : String :=
  "export * from './w';\nnamespace N \x7b export let x; \x7d\nexport let y;\n"

theorem outer_names_stand :
    ∃ m, (SourceModule.parse ⟨"/b.ts"⟩ sheltered).toOption = some m ∧ m.tree.kind = .program ∧
      (extract m).exports.map ExportBinding.exported = ["x", "y"] ∧
      ((extract m).exports.filter fun binding => binding.exported == "y") =
        (ownExports m.text m.tree).filter fun binding => binding.exported == "y" := by
  have known : (SourceModule.parse ⟨"/b.ts"⟩ sheltered).toOption.map (fun m =>
      (decide (m.tree.kind = .program), (extract m).exports.map ExportBinding.exported,
        m.tree.children.all fun statement => (statement.innerExports m.text).all fun binding =>
          binding.exported != "y")) =
      some (true, ["x", "y"], true) := by
    decide +kernel
  obtain ⟨m, parsed, facts⟩ := Option.map_eq_some_iff.mp known
  obtain ⟨isProgram, facts⟩ := Prod.mk.inj facts
  obtain ⟨names, inner⟩ := Prod.mk.inj facts
  have isProgram := of_decide_eq_true isProgram
  refine ⟨m, parsed, isProgram, names,
    ((exports_of_statements m.text m.tree isProgram).2.2 "y" ?_).1⟩
  refine (Tree.inner_exports_iff m.text m.tree fun binding => binding.exported ≠ "y").mp
    fun statement stated binding member => ?_
  simpa using List.all_eq_true.mp (List.all_eq_true.mp inner statement stated) binding member

theorem nested_export_hides :
    (SourceModule.parse ⟨"/b.ts"⟩ sheltered).toOption.map (fun m =>
      (m.hasErrors, (extract m).exports.map ExportBinding.exported,
        (ownExports m.text m.tree).map ExportBinding.exported)) =
        some (false, ["x", "y"], ["y"]) ∧
    let store := MemoryStore.ofList
      [(⟨"/a.ts"⟩, "import \x7b x \x7d from './b';\n"), (⟨"/b.ts"⟩, sheltered),
        (⟨"/w.ts"⟩, "export let x;\n")]
    (SourceModule.load store ⟨"/w.ts"⟩).toOption.map (fun m =>
      (m.scan defaultMarker).candidates.map fun candidate =>
        (candidate.verdict store ⟨"/w.ts"⟩).toOption) =
        some [some .unused] := by
  constructor
  · decide +kernel
  · decide +kernel

end Facts
end DeadExports

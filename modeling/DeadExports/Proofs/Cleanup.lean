import DeadExports.Cleanup
import DeadExports.Proofs.Candidate.Territory
import DeadExports.Proofs.Facts.Nesting
import DeadExports.Proofs.Source.WordEnds
import DeadExports.Proofs.Text.Replaced

set_option autoImplicit false

namespace DeadExports

namespace Tree

def Records (source : String) (item : String × Span) (tree : Tree) : Prop :=
  ∃ part : Tree, part.StandsIn tree ∧ part.occurrence? source = some item

theorem records_inside (source : String) (item : String × Span) (tree child : Tree)
    (isOpen : tree.kind.isClosed = false) (member : child ∈ tree.children)
    (records : child.Records source item) : tree.Records source item := by
  obtain ⟨part, stands, occurs⟩ := records
  exact ⟨part, .inside tree child isOpen member stands, occurs⟩

mutual
theorem bound_names_recorded (source : String) (item : String × Span) : ∀ tree : Tree,
    item ∈ boundNames source tree → tree.Records source item
  | node role kind span children => by
      have below (isOpen : kind.isClosed = false)
        (some : ∃ child ∈ children, child.Records source item) :
          (node role kind span children).Records source item := by
        obtain ⟨child, member, records⟩ := some
        exact records_inside source item _ child isOpen member records
      intro bound
      cases kind with
      | identifier | shorthandBinding =>
          obtain rfl := List.mem_singleton.mp bound
          exact ⟨_, .whole, rfl⟩
      | shorthandAssignment | assignmentPattern =>
          exact below rfl (bound_in_role_recorded source item .left children bound)
      | pairPattern => exact below rfl (bound_in_role_recorded source item .value children bound)
      | objectPattern | arrayPattern | restPattern =>
          exact below rfl (bound_names_all_recorded source item children bound)
      | _ => cases bound

theorem bound_in_role_recorded (source : String) (item : String × Span) (role : Role) :
    ∀ children : List Tree,
    item ∈ boundInRole source role children → ∃ child ∈ children, child.Records source item
  | [] => nofun
  | child :: rest => by
      intro bound
      rw [boundInRole] at bound
      split at bound
      · exact ⟨child, List.mem_cons_self, bound_names_recorded source item child bound⟩
      · obtain ⟨other, member, records⟩ := bound_in_role_recorded source item role rest bound
        exact ⟨other, List.mem_cons_of_mem _ member, records⟩

theorem bound_names_all_recorded (source : String) (item : String × Span) : ∀ children : List Tree,
    item ∈ boundNamesAll source children → ∃ child ∈ children, child.Records source item
  | [] => nofun
  | child :: rest => by
      intro bound
      rw [boundNamesAll] at bound
      rcases List.mem_append.mp bound with here | later
      · exact ⟨child, List.mem_cons_self, bound_names_recorded source item child here⟩
      · obtain ⟨other, member, records⟩ := bound_names_all_recorded source item rest later
        exact ⟨other, List.mem_cons_of_mem _ member, records⟩
end

theorem own_name_recorded (source : String) (item : String × Span) (tree : Tree)
    (isOpen : tree.kind.isClosed = false) (named : item ∈ ownName source tree) :
    tree.Records source item := by
  rw [ownName] at named
  split at named
  next name found =>
      split at named
      next plain =>
          obtain rfl := List.mem_singleton.mp named
          refine records_inside source _ tree name isOpen
            (child_in_role_member tree .name name found) ⟨name, .whole, ?_⟩
          rw [occurrence?, if_pos]
          rw [Bool.or_eq_true, beq_iff_eq, beq_iff_eq] at plain
          rcases plain with same | same
          · rw [same]
            rfl
          · rw [same]
            rfl
      next => cases named
  next => cases named

theorem declarators_recorded (source : String) (item : String × Span) (tree : Tree)
    (isOpen : tree.kind.isClosed = false)
    (declared : item ∈ tree.children.flatMap (declaratorNames source)) :
    tree.Records source item := by
  obtain ⟨declarator, member, named⟩ := List.mem_flatMap.mp declared
  refine records_inside source item tree declarator isOpen member ?_
  rw [declaratorNames] at named
  split at named
  next isDeclarator =>
      rw [beq_iff_eq] at isDeclarator
      cases found : declarator.childInRole? .name with
      | none =>
          rw [found] at named
          cases named
      | some pattern =>
          rw [found] at named
          refine records_inside source item declarator pattern (by rw [isDeclarator]; rfl)
            (child_in_role_member declarator .name pattern found) ?_
          exact bound_names_recorded source item pattern named
  next => cases named

theorem declared_names_recorded (source : String) (item : String × Span) (tree : Tree)
    (deletable : Fix.isDeletable tree.kind = true) (declared : item ∈ tree.declaredNames source) :
    tree.Records source item := by
  obtain ⟨role, kind, span, children⟩ := tree
  cases kind with
  | lexicalDeclaration | variableDeclaration =>
      exact declarators_recorded source item _ rfl declared
  | functionDeclaration | generatorDeclaration | classDeclaration | abstractClass
  | interfaceDeclaration | typeAlias | enumDeclaration =>
      exact own_name_recorded source item _ rfl declared
  | _ => cases deletable

end Tree

namespace SourceModule

theorem recorded_occurs (m : SourceModule) (isProgram : m.tree.kind = .program) (statement : Tree)
    (name : String) (span : Span) (member : statement ∈ m.tree.children)
    (records : statement.Records m.text (name, span)) :
    span ∈ (Facts.extract m).occurrencesOf name := by
  obtain ⟨part, stands, occurs⟩ := Tree.records_inside m.text _ m.tree statement
    (by rw [isProgram]; rfl) member records
  refine List.mem_map.mpr ⟨(name, span), List.mem_filter.mpr ⟨?_, BEq.rfl⟩, rfl⟩
  exact List.mem_filterMap.mpr ⟨part, Tree.stands_visited part m.tree stands, occurs⟩

theorem lines_in_order (m : SourceModule) :
    m.statements.Pairwise fun a b => (Text.lineExtent m.text a.span).stop ≤
      (Text.lineExtent m.text b.span).start := by
  have ordered := List.pairwise_map.mp
    (Span.in_order_apart _ _ _ (Tree.fits_in_order m.text m.tree m.fits))
  refine List.Pairwise.sublist List.filter_sublist (ordered.imp_of_mem ?_)
  intro a b inA inB before
  have inkA := m.statement_inked a inA
  have inkB := m.statement_inked b inB
  rw [Tree.isInked, Bool.and_eq_true, Bool.and_eq_true] at inkA inkB
  have filled := (Tree.child_piece m.text m.tree m.fits a inA).filled
  exact Text.line_extents_apart m.text a.span b.span before filled inkA.1.2 inkB.1.1

structure Confines (m : SourceModule) (statement : Tree) (change : Change) : Prop where
  piece : change.span.IsPiece m.text
  above : (Text.lineExtent m.text statement.span).start ≤ change.span.start
  below : change.span.stop ≤ (Text.lineExtent m.text statement.span).stop

theorem confines_lines (m : SourceModule) (statement : Tree)
    (member : statement ∈ m.tree.children) :
    m.Confines statement (.delete (Text.lineExtent m.text statement.span)) where
  piece := Text.line_extent_piece m.text statement.span
    (Tree.child_piece m.text m.tree m.fits statement member)
  above := Nat.le_refl _
  below := Nat.le_refl _

theorem edits_made (m : SourceModule) (edit : Tree → Option Change)
    (confined : ∀ statement ∈ m.tree.children, ∀ change, edit statement = some change →
      m.Confines statement change) :
    ∃ edited, Change.applyAll? m.text (m.statements.filterMap edit) = some edited ∧
      Change.Makes 0 (m.statements.filterMap edit) m.text edited := by
  have stated (statement : Tree) (member : statement ∈ m.statements) :
      statement ∈ m.tree.children :=
    (List.mem_filter.mp member).1
  apply Change.apply_all_makes
  · rw [List.pairwise_filterMap]
    refine m.lines_in_order.imp_of_mem ?_
    intro a b inA inB before first foundA second foundB
    have one := (confined a (stated a inA) first foundA).below
    have two := (confined b (stated b inB) second foundB).above
    omega
  · intro change member
    obtain ⟨statement, inside, found⟩ := List.mem_filterMap.mp member
    exact (confined statement (stated statement inside) change found).piece.stretch

end SourceModule

namespace Fix

structure IsUnnamed (m : SourceModule) (statement : Tree) : Prop where
  deletable : isDeletable statement.kind = true
  declares : statement.declaredNames m.text ≠ []
  alone : ∀ name span, (name, span) ∈ statement.declaredNames m.text →
      (Facts.extract m).occurrencesOf name = [span]
  inner : ∀ name span, (name, span) ∈ statement.declaredNames m.text →
      (Facts.extract m).exportsOwn name = false

theorem is_dead_iff (m : SourceModule) (isProgram : m.tree.kind = .program) (statement : Tree)
    (member : statement ∈ m.tree.children) :
    isDeadDeclaration m.text (Facts.extract m) statement = true ↔ IsUnnamed m statement := by
  simp only [isDeadDeclaration, isDeadName, Bool.and_eq_true, List.all_eq_true, decide_eq_true_eq,
    Bool.not_eq_eq_eq_not, Bool.not_true, List.isEmpty_eq_false_iff, Prod.forall]
  constructor
  · rintro ⟨⟨deletable, declares⟩, dead⟩
    refine ⟨deletable, declares, fun name span declared => ?_, fun name span declared =>
      (dead name span declared).2⟩
    have recorded := Tree.declared_names_recorded m.text _ statement deletable declared
    have occurs := m.recorded_occurs isProgram statement name span member recorded
    obtain ⟨only, same⟩ := List.length_eq_one_iff.mp
      (Nat.le_antisymm (dead name span declared).1 (List.length_pos_of_mem occurs))
    rw [same] at occurs
    rw [same, List.mem_singleton.mp occurs]
  · intro unnamed
    refine ⟨⟨unnamed.deletable, unnamed.declares⟩, fun name span declared =>
      ⟨?_, unnamed.inner name span declared⟩⟩
    rw [unnamed.alone name span declared]
    exact Nat.le_refl 1

theorem declarations_made (m : SourceModule) :
    Change.Makes 0 (declarationChanges m) m.text (unusedDeclarations.apply m) := by
  have made := m.edits_made
    (fun statement => if isDeadDeclaration m.text (Facts.extract m) statement then
      some (.delete (Text.lineExtent m.text statement.span)) else none) ?_
  · obtain ⟨edited, applied, makes⟩ := made
    rw [← List.filterMap_filter, List.filterMap_eq_map'] at applied makes
    rw [apply, changes, declarationChanges, applied]
    exact makes
  · intro statement member change found
    split at found
    next =>
        obtain rfl := Option.some.inj found
        exact m.confines_lines statement member
    next => cases found

end Fix

namespace Tree

def clauseNames (source specifier : String) (part : Tree) : List (Tree × ImportBinding) :=
  if part.kind == .namedImports then
    part.children.filterMap fun entry => (entry.specifierImport? source specifier).map
      fun binding => (entry, binding)
  else (part.clauseImports source specifier).map fun binding => (part, binding)

def importNames (source : String) (statement : Tree) : List (Tree × ImportBinding) :=
  if statement.kind == .importStatement then
    match statement.specifier? source, statement.childOfKind? .importClause with
    | some specifier, some clause => clause.children.flatMap (clauseNames source specifier)
    | _, _ => []
  else []

theorem clause_names_bindings (source specifier : String) (part : Tree) :
    (part.clauseNames source specifier).map Prod.snd = part.clauseImports source specifier := by
  rw [clauseNames]
  split
  next isList =>
      rw [beq_iff_eq] at isList
      rw [clauseImports, isList, List.map_filterMap]
      congr 1
      funext entry
      simp
  next => simp

theorem import_names_bindings (source : String) (statement : Tree) :
    (statement.importNames source).map Prod.snd = statement.importBindings source := by
  rw [importNames, importBindings]
  split
  next =>
      cases statement.specifier? source with
      | none => rfl
      | some specifier =>
          cases statement.childOfKind? .importClause with
          | none => rfl
          | some clause =>
              dsimp only
              rw [List.map_flatMap]
              congr 1
              funext part
              exact clause_names_bindings source specifier part
  next => rfl

theorem import_names_none (source : String) (statement : Tree)
    (bare : statement.childOfKind? .importClause = none) :
    statement.importNames source = [] := by
  rw [importNames, bare]
  cases statement.specifier? source <;> simp

end Tree

namespace Fix

def textsOf (source : String) (kind : Kind) (names : List (Tree × ImportBinding)) : List String :=
  (names.filter fun name => name.1.kind == kind).map fun name => name.1.text source

def listing (source : String) (names : List (Tree × ImportBinding)) : List String :=
  textsOf source .identifier names ++ textsOf source .namespaceImport names ++
    if (textsOf source .importSpecifier names).isEmpty then []
    else ["\x7b " ++ ", ".intercalate (textsOf source .importSpecifier names) ++ " \x7d"]

def isUsedName (facts : Facts) (name : Tree × ImportBinding) :
    Bool := isUsedImport facts name.2.bound

def runsInto (replacement : String) (next : Char) : Bool :=
  replacement.toList.getLast?.any Source.isNameChar && Source.isNameChar next

structure LosesList (m : SourceModule) (statement clause : Tree) : Prop where
  listed : ∃ group ∈ clause.children, group.kind = .namedImports
  unused : ∀ name ∈ statement.importNames m.text, name.1.kind = .importSpecifier →
      isUsedName (Facts.extract m) name = false
  word : Source.isNameChar (Text.charAt m.text clause.span.stop) = true

-- What becomes of an import statement: its names stay where they are, or it goes with them, or the
-- used ones take the place of its clause.
inductive ImportEdit (m : SourceModule) (statement : Tree) : Option Change → Prop where
  | kept (all : ∀ name ∈ statement.importNames m.text, isUsedName (Facts.extract m) name = true) :
      ImportEdit m statement none
  | removed (binds : statement.importNames m.text ≠ [])
      (unused : ∀ name ∈ statement.importNames m.text, isUsedName (Facts.extract m) name = false) :
      ImportEdit m statement (some (.delete (Text.lineExtent m.text statement.span)))
  | rewritten (clause : Tree) (replacement : String)
      (found : statement.childOfKind? .importClause = some clause)
      (drops : ∃ name ∈ statement.importNames m.text, isUsedName (Facts.extract m) name = false)
      (keeps : ∃ name ∈ statement.importNames m.text, isUsedName (Facts.extract m) name = true)
      (same : replacement =
        ", ".intercalate (listing m.text
          ((statement.importNames m.text).filter (isUsedName (Facts.extract m)))))
      (apart : LosesList m statement clause ∨
        runsInto replacement (Text.charAt m.text clause.span.stop) = false) :
      ImportEdit m statement (some ⟨clause.span, replacement⟩)

def partOf (source : String) (facts : Facts) (name : Tree × ImportBinding) : ImportPart :=
  { text := name.1.text source, isUsed := isUsedName facts name }

theorem listed_parts (source specifier : String) (facts : Facts) (entries : List Tree)
    (listed : ∀ entry ∈ entries, entry.kind = .importSpecifier → entry.IsListedImport) :
    (entries.filterMap fun whole =>
      if whole.kind == .importSpecifier then
        some (ImportPart.mk (whole.text source)
          ((((whole.childInRole? .newName).or (whole.childInRole? .name)).map fun name =>
            isUsedImport facts (name.text source)).getD false))
      else none) =
      (entries.filterMap fun entry => (entry.specifierImport? source specifier).map fun binding =>
        (entry, binding)).map
        (partOf source facts) := by
  rw [List.map_filterMap]
  apply List.filterMap_congr
  intro entry member
  rw [Tree.specifierImport?]
  split
  next isSpecifier =>
      obtain ⟨name, found, plain⟩ := listed entry member (beq_iff_eq.mp isSpecifier)
      rw [found]
      cases aliased : entry.childInRole? .newName with
      | some newName => rfl
      | none =>
          have written : name.bindingName source = name.text source := by
            rw [Tree.bindingName, plain aliased]
            rfl
          simp [partOf, isUsedName, written]
  next => rfl

structure HasNames (source : String) (facts : Facts) (parts : ImportParts)
    (names : List (Tree × ImportBinding)) : Prop where
  default : parts.default = (names.filter fun name => name.1.kind == .identifier).map
      (partOf source facts)
  everything : parts.everything = (names.filter fun name => name.1.kind == .namespaceImport).map
      (partOf source facts)
  named : parts.named = (names.filter fun name => name.1.kind == .importSpecifier).map
      (partOf source facts)
  single : parts.default.length ≤ 1
  whole : parts.everything.length ≤ 1
  proper : ∀ name ∈ names, name.1.kind = .identifier ∨ name.1.kind = .namespaceImport ∨
      name.1.kind = .importSpecifier

theorem names_of_list (source specifier : String) (group : Tree)
    (isList : group.kind = .namedImports) :
    ∀ name ∈ group.clauseNames source specifier, name.1.kind = .importSpecifier := by
  intro name member
  rw [Tree.clauseNames, if_pos (beq_iff_eq.mpr isList)] at member
  obtain ⟨entry, -, found⟩ := List.mem_filterMap.mp member
  obtain ⟨binding, bound, rfl⟩ := Option.map_eq_some_iff.mp found
  rw [Tree.specifierImport?] at bound
  split at bound
  next isSpecifier => exact beq_iff_eq.mp isSpecifier
  next => cases bound

theorem has_names_default (source specifier : String) (facts : Facts) (clause name : Tree)
    (children : clause.children = [name]) (plain : name.kind = .identifier) :
    HasNames source facts (partsOf source facts clause)
      (clause.children.flatMap (Tree.clauseNames source specifier)) := by
  constructor
  all_goals simp [partsOf, children, plain, Tree.clauseNames, Tree.clauseImports, partOf,
    isUsedName]

theorem has_names_group (source specifier : String) (facts : Facts) (clause group : Tree)
    (children : clause.children = [group]) (proper : group.IsImportGroup) :
    HasNames source facts (partsOf source facts clause)
      (clause.children.flatMap (Tree.clauseNames source specifier)) := by
  rcases proper with ⟨isAll, some⟩ | ⟨isList, listed⟩
  · obtain ⟨name, found⟩ := Option.isSome_iff_exists.mp some
    constructor
    all_goals simp [partsOf, children, isAll, found, Tree.clauseNames, Tree.clauseImports, partOf,
      isUsedName]
  · have named := names_of_list source specifier group isList
    have none (kind : Kind) (other : kind ≠ .importSpecifier) :
        (group.clauseNames source specifier).filter (fun name => name.1.kind == kind) = [] := by
      apply List.filter_eq_nil_iff.mpr
      intro name member
      simpa [named name member] using other.symm
    have all : (group.clauseNames source specifier).filter (fun name => name.1.kind ==
      .importSpecifier) =
        group.clauseNames source specifier := by
      apply List.filter_eq_self.mpr
      intro name member
      simp [named name member]
    constructor
    case named =>
      rw [children, List.flatMap_singleton, all, Tree.clauseNames, if_pos (beq_iff_eq.mpr isList),
        ← listed_parts source specifier facts group.children listed]
      simp [partsOf, children, isList]
    case proper =>
      rw [children, List.flatMap_singleton]
      exact fun name member => .inr (.inr (named name member))
    all_goals simp [partsOf, children, isList, none]

theorem has_names_both (source specifier : String) (facts : Facts) (clause name group : Tree)
    (children : clause.children = [name, group]) (plain : name.kind = .identifier)
    (proper : group.IsImportGroup) :
    HasNames source facts (partsOf source facts clause)
      (clause.children.flatMap (Tree.clauseNames source specifier)) := by
  have behind := has_names_group source specifier facts (.branch .importClause clause.span [group])
    group rfl proper
  have other : group.kind ≠ .identifier := by
    rcases proper with ⟨kind, -⟩ | ⟨kind, -⟩ <;> rw [kind] <;> decide
  obtain ⟨default, everything, named, -, whole, rest⟩ := behind
  have first : name.clauseNames source specifier =
      [(name, ⟨name.text source, .default, specifier, name.span⟩)] := by
    simp [Tree.clauseNames, Tree.clauseImports, plain]
  simp only [partsOf, Tree.branch, Tree.children, List.flatMap_singleton]
    at default everything named whole rest
  rw [children, List.flatMap_cons, List.flatMap_singleton, first]
  constructor
  · rw [List.filter_append, List.map_append, ← default]
    simp [partsOf, children, plain, other, partOf, isUsedName]
  · rw [List.filter_append, List.map_append, ← everything]
    simp [partsOf, children, plain]
  · rw [List.filter_append, List.map_append, ← named]
    simp [partsOf, children, plain]
  · simp [partsOf, children, plain, other]
  · simpa [partsOf, children, plain] using whole
  · intro found member
    rcases List.mem_append.mp member with here | later
    · obtain rfl := List.mem_singleton.mp here
      exact .inl plain
    · exact rest found later

theorem has_names (source specifier : String) (facts : Facts) (clause : Tree)
    (formed : Tree.IsImportClause clause.children) :
    HasNames source facts (partsOf source facts clause)
      (clause.children.flatMap (Tree.clauseNames source specifier)) := by
  generalize children : clause.children = parts at formed
  cases formed with
  | default name plain =>
      exact children ▸ has_names_default source specifier facts clause name
        children plain
  | group group proper =>
      exact children ▸ has_names_group source specifier facts clause group
        children proper
  | both name group plain proper =>
      exact children ▸ has_names_both source specifier facts clause
        name group children plain proper

theorem used_texts_of (source : String) (facts : Facts) (kind : Kind)
    (names : List (Tree × ImportBinding)) :
    usedTexts ((names.filter fun name => name.1.kind == kind).map (partOf source facts)) =
      textsOf source kind (names.filter (isUsedName facts)) := by
  rw [usedTexts, textsOf, List.filter_map, List.map_map, List.filter_filter, List.filter_filter]
  exact congrArg (List.map _) (List.filter_congr fun name _ => Bool.and_comm _ _)

theorem used_last_single (parts : List ImportPart) (single : parts.length ≤ 1) :
    usedLast parts = usedTexts parts := by
  have few : (usedTexts parts).length ≤ 1 := by
    rw [usedTexts, List.length_map]
    exact Nat.le_trans (List.length_filter_le _ _) single
  rw [usedLast]
  match usedTexts parts, few with
  | [], _ => rfl
  | [_], _ => rfl

theorem all_used_iff (source : String) (facts : Facts) (parts : ImportParts)
    (names : List (Tree × ImportBinding)) (has : HasNames source facts parts names) :
    (parts.default ++ parts.everything ++ parts.named).all ImportPart.isUsed = true ↔
      ∀ name ∈ names, isUsedName facts name = true := by
  rw [has.default, has.everything, has.named]
  simp only [List.all_append, List.all_map, Bool.and_eq_true, List.all_eq_true, List.mem_filter,
    beq_iff_eq, Function.comp_apply, partOf]
  constructor
  · rintro ⟨⟨default, everything⟩, named⟩ name member
    rcases has.proper name member with kind | kind | kind
    · exact default name ⟨member, kind⟩
    · exact everything name ⟨member, kind⟩
    · exact named name ⟨member, kind⟩
  · intro all
    exact ⟨⟨fun name member => all name member.1, fun name member => all name member.1⟩,
      fun name member => all name member.1⟩

theorem listing_empty_iff (source : String) (names : List (Tree × ImportBinding))
    (proper : ∀ name ∈ names, name.1.kind = .identifier ∨ name.1.kind = .namespaceImport ∨
      name.1.kind = .importSpecifier) :
    (listing source names).isEmpty = true ↔ names = [] := by
  cases names with
  | nil => exact iff_of_true rfl rfl
  | cons name rest =>
      refine iff_of_false ?_ (List.cons_ne_nil _ _)
      rcases proper name List.mem_cons_self with kind | kind | kind
      all_goals simp [listing, textsOf, kind]

theorem listing_closes (source : String) (names : List (Tree × ImportBinding))
    (name : Tree × ImportBinding) (member : name ∈ names)
    (listed : name.1.kind = .importSpecifier) (next : Char) :
    runsInto (", ".intercalate (listing source names)) next = false := by
  have some : (textsOf source .importSpecifier names).isEmpty = false := by
    rw [List.isEmpty_eq_false_iff]
    exact List.ne_nil_of_mem (List.mem_map.mpr
      ⟨name, List.mem_filter.mpr ⟨member, beq_iff_eq.mpr listed⟩, rfl⟩)
  have ends : ∃ front, ", ".intercalate (listing source names) = front ++ " \x7d" := by
    rw [listing, some, if_neg Bool.false_ne_true]
    generalize textsOf source .identifier names ++ textsOf source .namespaceImport names = singles
    cases singles with
    | nil =>
        rw [List.nil_append, String.intercalate_singleton]
        exact ⟨_, rfl⟩
    | cons first rest =>
        rw [String.intercalate_append_of_ne_nil (by simp) (by simp), String.intercalate_singleton,
          ← String.append_assoc]
        exact ⟨_, rfl⟩
  obtain ⟨front, same⟩ := ends
  have last : (front ++ " \x7d").toList.getLast? = Option.some '\x7d' := by simp
  rw [runsInto, same, last]
  rfl

theorem clause_apart (m : SourceModule) (statement clause : Tree)
    (closes : Source.Grammar.ClosesList m.text clause) :
    LosesList m statement clause ∨
      runsInto (", ".intercalate
        (listing m.text ((statement.importNames m.text).filter (isUsedName (Facts.extract m)))))
        (Text.charAt m.text clause.span.stop) = false := by
  by_cases word : Source.isNameChar (Text.charAt m.text clause.span.stop) = true
  · by_cases some : ∃ name ∈ statement.importNames m.text, name.1.kind = .importSpecifier ∧
      isUsedName (Facts.extract m) name = true
    · obtain ⟨name, member, listed, used⟩ := some
      exact .inr (listing_closes m.text _ name (List.mem_filter.mpr ⟨member, used⟩) listed _)
    · refine .inl ⟨closes word, fun name member listed => ?_, word⟩
      by_contra used
      exact some ⟨name, member, listed, by simpa using used⟩
  · exact .inr (by simp [runsInto, word])

theorem clause_change_edit (m : SourceModule) (statement clause : Tree)
    (isImport : statement.kind = .importStatement) (formed : statement.ImportsProperly)
    (closes : Source.Grammar.ClosesList m.text clause)
    (found : statement.childOfKind? .importClause = some clause) :
    ImportEdit m statement (clauseChange? m.text (Facts.extract m) statement clause) := by
  obtain ⟨proper, sourced⟩ := formed isImport clause found
  obtain ⟨specifier, named⟩ : ∃ specifier, statement.specifier? m.text = some specifier := by
    obtain ⟨node, isSource⟩ := Option.isSome_iff_exists.mp sourced
    exact ⟨_, by rw [Tree.specifier?, isSource]; rfl⟩
  have names : statement.importNames m.text = clause.children.flatMap (Tree.clauseNames m.text
      specifier) := by
    rw [Tree.importNames, if_pos (beq_iff_eq.mpr isImport), named, found]
  have has := has_names m.text specifier (Facts.extract m) clause proper
  rw [← names] at has
  have kept : usedLast (partsOf m.text (Facts.extract m) clause).default ++
      usedLast (partsOf m.text (Facts.extract m) clause).everything ++
      (if (usedTexts (partsOf m.text (Facts.extract m) clause).named).isEmpty then []
        else ["\x7b " ++ ", ".intercalate
          (usedTexts (partsOf m.text (Facts.extract m) clause).named) ++ " \x7d"]) =
      listing m.text ((statement.importNames m.text).filter (isUsedName (Facts.extract m))) := by
    rw [used_last_single _ has.single, used_last_single _ has.whole, has.default, has.everything,
      has.named, used_texts_of, used_texts_of, used_texts_of, listing]
  have stays := listing_empty_iff m.text
    ((statement.importNames m.text).filter (isUsedName (Facts.extract m)))
    fun name member => has.proper name (List.mem_filter.mp member).1
  simp only [clauseChange?, kept]
  split
  next all => exact .kept ((all_used_iff m.text _ _ _ has).mp all)
  next dropped =>
      obtain ⟨name, member, unused⟩ : ∃ name ∈ statement.importNames m.text,
          isUsedName (Facts.extract m) name = false := by
        rw [all_used_iff m.text _ _ _ has] at dropped
        simpa using dropped
      split
      next empty =>
          have none := List.filter_eq_nil_iff.mp (stays.mp empty)
          exact .removed (List.ne_nil_of_mem member) fun other among => by
            simpa using none other among
      next filled =>
          obtain ⟨other, among⟩ := List.exists_mem_of_ne_nil _
            (fun empty => filled (stays.mpr empty))
          exact .rewritten clause _ found ⟨name, member, unused⟩
            ⟨other, List.mem_filter.mp among⟩ rfl
            (clause_apart m statement clause closes)

theorem edit_confined (m : SourceModule) (statement : Tree) (change : Change)
    (member : statement ∈ m.tree.children) (edits : ImportEdit m statement (some change)) :
    m.Confines statement change := by
  cases edits with
  | removed => exact m.confines_lines statement member
  | rewritten clause replacement found =>
      have fits := Tree.fits_child m.text m.tree m.fits statement member
      have inside := (Tree.child_of_kind_cases statement .importClause clause found).1
      have bounds := Span.in_order_bounds _ _ _ (Tree.fits_in_order m.text statement fits)
        clause.span (List.mem_map_of_mem inside)
      have piece := Tree.child_piece m.text m.tree m.fits statement member
      have widens := Text.line_extent_widens m.text statement.span
        (Text.boundary_le m.text _ piece.opens)
      exact ⟨Tree.child_piece m.text statement fits clause inside,
        Nat.le_trans widens.starts bounds.1,
        Nat.le_trans bounds.2.2 widens.stops⟩

def importEdit? (m : SourceModule) (statement : Tree) : Option Change :=
  if statement.kind == .importStatement then
    (statement.childOfKind? .importClause).bind (clauseChange? m.text (Facts.extract m) statement)
  else none

theorem import_edit (path : Path) (text : String) (m : SourceModule)
    (parsed : SourceModule.parse path text = .ok m) (statement : Tree)
    (member : statement ∈ m.tree.children) : ImportEdit m statement (importEdit? m statement) := by
  rw [importEdit?]
  split
  next isImport =>
      cases found : statement.childOfKind? .importClause with
      | none => exact .kept (by simp [Tree.import_names_none m.text statement found])
      | some clause =>
          have formed := SourceModule.imports_formed path text m parsed statement member
          have closes := SourceModule.imports_apart path text m parsed statement member clause found
            (beq_iff_eq.mp isImport)
          rw [← (SourceModule.parse_program path text m parsed).1] at closes
          exact clause_change_edit m statement clause (beq_iff_eq.mp isImport) formed closes found
  next other => exact .kept (by simp [Tree.importNames, other])

theorem side_effect_kept (m : SourceModule) (statement : Tree) (specifier : String)
    (isEffect : statement.sideEffect? m.text = some specifier) :
    importEdit? m statement = none := by
  rw [Tree.sideEffect?] at isEffect
  split at isEffect
  next both =>
      rw [Bool.and_eq_true, Option.isNone_iff_eq_none] at both
      rw [importEdit?, both.2]
      simp
  next => cases isEffect

theorem edits_spare (m : SourceModule) (edit : Tree → Option Change)
    (confined : ∀ statement ∈ m.tree.children, ∀ change, edit statement = some change →
      m.Confines statement change)
    (statement : Tree) (member : statement ∈ m.tree.children) (stays : edit statement = none)
    (change : Change) (made : change ∈ m.statements.filterMap edit) :
    change.span.Apart statement.span := by
  obtain ⟨other, inside, found⟩ := List.mem_filterMap.mp made
  have inside := (List.mem_filter.mp inside).1
  have differ : other ≠ statement := by
    rintro rfl
    rw [stays] at found
    cases found
  have within := confined other inside change found
  have piece := Tree.child_piece m.text m.tree m.fits statement member
  have widens := Text.line_extent_widens m.text statement.span
    (Text.boundary_le m.text _ piece.opens)
  rcases m.lines_apart other statement inside member differ with before | after
  · exact .inl (Nat.le_trans within.below (Nat.le_trans before widens.starts))
  · exact .inr (Nat.le_trans widens.stops (Nat.le_trans after within.above))

theorem fixes_spare_named (path : Path) (text : String) (m : SourceModule)
    (parsed : SourceModule.parse path text = .ok m) :
    (∃ dead : List Tree, dead.Sublist m.statements ∧
      (∀ statement ∈ m.statements, statement ∈ dead ↔ IsUnnamed m statement) ∧
      Change.Makes 0 (dead.map fun statement => .delete (Text.lineExtent m.text statement.span))
        m.text
        (unusedDeclarations.apply m)) ∧
    ∃ edit : Tree → Option Change,
      (∀ statement ∈ m.statements, ImportEdit m statement (edit statement) ∧
        (statement.importNames m.text).map Prod.snd = statement.importBindings m.text) ∧
      (∀ statement ∈ m.statements, (statement.sideEffect? m.text).isSome = true →
        edit statement = none) ∧
      (∀ statement ∈ m.statements, edit statement = none →
        ∀ change ∈ m.statements.filterMap edit, change.span.Apart statement.span) ∧
      Change.Makes 0 (m.statements.filterMap edit) m.text (unusedImports.apply m) := by
  have stated (statement : Tree) (member : statement ∈ m.statements) :
      statement ∈ m.tree.children :=
    (List.mem_filter.mp member).1
  have edits := import_edit path text m parsed
  have confined : ∀ statement ∈ m.tree.children, ∀ change, importEdit? m statement = some change →
      m.Confines statement change :=
    fun statement member change found => edit_confined m statement change member
      (found ▸ edits statement member)
  refine ⟨⟨m.statements.filter (isDeadDeclaration m.text (Facts.extract m)), List.filter_sublist,
    ?_, declarations_made m⟩,
    importEdit? m, ?_, ?_, ?_, ?_⟩
  · intro statement member
    rw [List.mem_filter, and_iff_right member]
    exact is_dead_iff m (SourceModule.parse_program path text m parsed).2 statement
      (stated statement member)
  · exact fun statement member =>
      ⟨edits statement (stated statement member), Tree.import_names_bindings m.text statement⟩
  · intro statement member isEffect
    obtain ⟨specifier, found⟩ := Option.isSome_iff_exists.mp isEffect
    exact side_effect_kept m statement specifier found
  · exact fun statement member stays => edits_spare m _ confined statement
      (stated statement member) stays
  · obtain ⟨edited, applied, makes⟩ := m.edits_made (importEdit? m) confined
    have same : importChanges m = m.statements.filterMap (importEdit? m) := rfl
    rw [apply, changes, same, applied]
    exact makes

def fixed (text : String) : Option (String × String × Bool) := do
  let m ← (SourceModule.parse ⟨"/a.ts"⟩ text).toOption
  let imports := unusedImports.apply m
  let again ← (SourceModule.parse ⟨"/a.ts"⟩ imports).toOption
  return (unusedDeclarations.apply m, imports, !again.hasErrors)

def mixed : String := "import a,\x7bb as c\x7dfrom'm';\nlet f;\nc\n"

theorem mixed_import_is_cut :
    fixed mixed = some ("import a,\x7bb as c\x7dfrom'm';\nc\n",
      "import \x7b b as c \x7dfrom'm';\nlet f;\nc\n", true) ∧
    ∃ m, SourceModule.parse ⟨"/a.ts"⟩ mixed = .ok m ∧ ∃ edit : Tree → Option Change,
      (∀ statement ∈ m.statements, ImportEdit m statement (edit statement)) ∧
        Change.Makes 0 (m.statements.filterMap edit) m.text (unusedImports.apply m) := by
  have shown : fixed mixed = some ("import a,\x7bb as c\x7dfrom'm';\nc\n",
      "import \x7b b as c \x7dfrom'm';\nlet f;\nc\n", true) := by
    decide +kernel
  obtain ⟨m, found, -⟩ := Option.bind_eq_some_iff.mp shown
  cases parsed : SourceModule.parse ⟨"/a.ts"⟩ mixed with
  | error cause =>
      rw [parsed] at found
      cases found
  | ok other =>
      obtain ⟨-, edit, edits, -, -, makes⟩ := fixes_spare_named ⟨"/a.ts"⟩ mixed other parsed
      exact ⟨shown, other, rfl, edit, fun statement member => (edits statement member).1, makes⟩

theorem kept_name_runs_on :
    fixed "import a,\x7bb\x7dfrom'm';\na\n" =
      some ("import a,\x7bb\x7dfrom'm';\na\n", "import afrom'm';\na\n", false) := by
  decide +kernel

end Fix
end DeadExports

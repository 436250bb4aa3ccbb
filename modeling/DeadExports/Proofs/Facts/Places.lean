import DeadExports.Facts.Extract
import DeadExports.Proofs.Source.Words

set_option autoImplicit false

namespace DeadExports

namespace Tree

theorem child_in_role_member (tree : Tree) (role : Role) (child : Tree)
    (found : tree.childInRole? role = some child) :
    child ∈ tree.children := List.mem_of_find?_eq_some found

theorem child_of_kind_cases (tree : Tree) (kind : Kind) (child : Tree)
    (found : tree.childOfKind? kind = some child) :
    child ∈ tree.children ∧ child.kind = kind :=
  ⟨List.mem_of_find?_eq_some found, by simpa using List.find?_some found⟩

theorem word_sublist (tree : Tree) (word : Tree) (member : word ∈ tree.children)
    (laidOut : tree.isLaidOut = true) (isWord : word.kind.isWord = true) :
    [word.span].Sublist tree.words :=
  words_of_word word isWord ▸ words_of_child tree laidOut word member

mutual
theorem bound_names_words (source : String) : ∀ tree : Tree,
    ((boundNames source tree).map Prod.snd).Sublist tree.words
  | node role kind span children => by
      cases kind with
      | identifier => exact List.Sublist.refl [span]
      | shorthandBinding => exact List.Sublist.refl [span]
      | shorthandAssignment => exact bound_in_role_words source .left children
      | assignmentPattern => exact bound_in_role_words source .left children
      | pairPattern => exact bound_in_role_words source .value children
      | objectPattern => exact bound_names_all_words source children
      | arrayPattern => exact bound_names_all_words source children
      | restPattern => exact bound_names_all_words source children
      | _ => exact List.nil_sublist _

theorem bound_in_role_words (source : String) (role : Role) : ∀ children : List Tree,
    ((boundInRole source role children).map Prod.snd).Sublist (wordsAll children)
  | [] => List.nil_sublist _
  | child :: rest => by
      rw [boundInRole, wordsAll]
      split
      · exact (bound_names_words source child).trans (List.sublist_append_left _ _)
      · exact (bound_in_role_words source role rest).trans (List.sublist_append_right _ _)

theorem bound_names_all_words (source : String) : ∀ children : List Tree,
    ((boundNamesAll source children).map Prod.snd).Sublist (wordsAll children)
  | [] => List.nil_sublist _
  | child :: rest => by
      rw [boundNamesAll, wordsAll, List.map_append]
      exact (bound_names_words source child).append (bound_names_all_words source rest)
end

theorem declarator_names_words (source : String) (tree : Tree) :
    ((declaratorNames source tree).map Prod.snd).Sublist tree.words := by
  rw [declaratorNames]
  split
  next isDeclarator =>
      rw [beq_iff_eq] at isDeclarator
      cases found : tree.childInRole? .name with
      | none => exact List.nil_sublist _
      | some name =>
          rw [words_of_phrase tree (by rw [isDeclarator]; rfl)]
          exact (bound_names_words source name).trans
            (child_words _ name (child_in_role_member tree _ name found))
  next => exact List.nil_sublist _

theorem declarators_words (source : String) (children : List Tree) :
    ((children.flatMap (declaratorNames source)).map Prod.snd).Sublist (wordsAll children) := by
  induction children with
  | nil => exact List.nil_sublist _
  | cons first rest ih =>
      rw [List.flatMap_cons, List.map_append, wordsAll]
      exact (declarator_names_words source first).append ih

theorem own_name_words (source : String) (tree : Tree) (laidOut : tree.isLaidOut = true) :
    ((ownName source tree).map Prod.snd).Sublist tree.words := by
  rw [ownName]
  cases found : tree.childInRole? .name with
  | none => exact List.nil_sublist _
  | some name =>
      dsimp only
      split
      next plain =>
          have isWord : name.kind.isWord = true := by
            rw [Bool.or_eq_true, beq_iff_eq, beq_iff_eq] at plain
            rcases plain with same | same <;> rw [same] <;> rfl
          exact word_sublist tree name (child_in_role_member tree _ name found) laidOut isWord
      next => exact List.nil_sublist _

mutual
theorem declared_names_words (source : String) : ∀ tree : Tree, tree.isLaidOut = true →
    ((declaredNames source tree).map Prod.snd).Sublist tree.words
  | node role kind span children => by
      intro laidOut
      have below := (laid_out_parts _ laidOut).2.2
      cases kind with
      | lexicalDeclaration => exact declarators_words source children
      | variableDeclaration => exact declarators_words source children
      | ambientDeclaration => exact declared_names_all_words source children below
      | _ => exact own_name_words source _ laidOut

theorem declared_names_all_words (source : String) :
    ∀ children : List Tree, areLaidOut children = true →
    ((declaredNamesAll source children).map Prod.snd).Sublist (wordsAll children)
  | [], _ => List.nil_sublist _
  | child :: rest, laidOut => by
      rw [areLaidOut, Bool.and_eq_true] at laidOut
      rw [declaredNamesAll, wordsAll, List.map_append]
      exact (declared_names_words source child laidOut.1).append
        (declared_names_all_words source rest laidOut.2)
end

theorem specifier_words (children : List Tree) (laidOut : areLaidOut children = true) :
    ((children.filterMap fun child =>
      if child.kind == .exportSpecifier then
        (child.childInRole? .name).map fun name =>
          (⟨child, name, child.childInRole? .newName⟩ : Specifier)
      else none).map fun specifier => specifier.name.span).Sublist (wordsAll children) := by
  induction children with
  | nil => exact List.nil_sublist _
  | cons first rest ih =>
      rw [areLaidOut, Bool.and_eq_true] at laidOut
      have later := ih laidOut.2
      rw [wordsAll, List.filterMap_cons]
      cases isSpecifier : first.kind == .exportSpecifier with
      | false => simpa using later.trans (List.sublist_append_right first.words (wordsAll rest))
      | true =>
          rw [beq_iff_eq] at isSpecifier
          cases found : first.childInRole? .name with
          | none => simpa using later.trans (List.sublist_append_right first.words (wordsAll rest))
          | some name =>
              obtain ⟨member, isWord⟩ := plain_name first laidOut.1 (by rw [isSpecifier]; rfl)
                name found
              exact (word_sublist first name member laidOut.1 isWord).append later

theorem clause_exports_words (source : String) (module? : Option String) (clause : Tree)
    (laidOut : clause.isLaidOut = true) (phrase : clause.kind.isWord = false) :
    ((clause.clauseExports source module?).map ExportBinding.span).Sublist clause.words := by
  rw [clauseExports, List.map_map, words_of_phrase clause phrase]
  exact specifier_words clause.children (laid_out_parts clause laidOut).2.2

theorem namespace_exports_words (source : String) (module? : Option String) (tree : Tree)
    (laidOut : tree.isLaidOut = true) (isNamespace : tree.kind = .namespaceExport) :
    ((tree.namespaceExports source module?).map ExportBinding.span).Sublist tree.words := by
  unfold namespaceExports
  cases found : tree.namedChildren.getLast? with
  | none => exact List.nil_sublist _
  | some name =>
      cases module? with
      | none => exact List.nil_sublist _
      | some module =>
          obtain ⟨member, isNamed⟩ := List.mem_filter.mp (List.mem_of_getLast? found)
          have holds := (laid_out_parts tree laidOut).2.1
          rw [isNamespace] at holds
          have isWord : name.kind.isWord = true := by
            simpa [isNamed] using List.all_eq_true.mp holds name member
          exact word_sublist tree name member laidOut isWord

theorem names_default_plain (kind : Kind) (named : namesDefault kind = true) :
    kind.hasPlainName = true := by
  cases kind <;> simp_all [namesDefault, Kind.hasPlainName]

theorem default_export_words (source : String) (tree word target : Tree)
    (laidOut : tree.isLaidOut = true) (wordIn : word ∈ tree.children)
    (isDefault : word.kind = .defaultWord) (targetIn : target ∈ tree.children) :
    [(defaultExport source word target).span].Sublist tree.words := by
  have targetLaidOut := laid_out_child tree laidOut target targetIn
  rw [defaultExport]
  cases named : namesDefault target.kind with
  | false => exact word_sublist tree word wordIn laidOut (by rw [isDefault]; rfl)
  | true =>
      cases found : target.childInRole? .name with
      | none => exact word_sublist tree word wordIn laidOut (by rw [isDefault]; rfl)
      | some name =>
          obtain ⟨member, isWord⟩ := plain_name target targetLaidOut (names_default_plain _ named)
            name found
          exact (word_sublist target name member targetLaidOut isWord).trans
            (words_of_child tree laidOut target targetIn)

theorem export_target_member (tree target : Tree) (found : tree.exportTarget? = some target) :
    target ∈ tree.children := by
  rw [exportTarget?, Option.or_eq_some_iff] at found
  rcases found with declaration | ⟨-, value⟩
  · exact child_in_role_member tree _ target declaration
  · exact child_in_role_member tree _ target value

theorem export_bindings_words (source : String) (tree : Tree) (laidOut : tree.isLaidOut = true) :
    ((tree.exportBindings source).map ExportBinding.span).Sublist tree.words := by
  rw [exportBindings]
  split
  next =>
      dsimp only
      split
      next _ _ clause found =>
          obtain ⟨member, kind⟩ := child_of_kind_cases tree _ clause found
          exact (clause_exports_words source _ clause (laid_out_child tree laidOut clause member)
            (by rw [kind]; rfl)).trans
            (words_of_child tree laidOut clause member)
      next _ _ everything _ found =>
          obtain ⟨member, kind⟩ := child_of_kind_cases tree _ everything found
          exact (namespace_exports_words source _ everything
            (laid_out_child tree laidOut everything member) kind).trans
            (words_of_child tree laidOut everything member)
      next =>
          split
          next => exact List.nil_sublist _
          next =>
              split
              next word target wordFound targetFound =>
                  obtain ⟨member, kind⟩ := child_of_kind_cases tree _ word wordFound
                  exact default_export_words source tree word target laidOut member kind
                    (export_target_member tree target targetFound)
              next target _ targetFound =>
                  have member := export_target_member tree target targetFound
                  rw [declarationExports, List.map_map]
                  exact (declared_names_words source target
                    (laid_out_child tree laidOut target member)).trans
                    (words_of_child tree laidOut target member)
              next => exact List.nil_sublist _
  next => exact List.nil_sublist _

theorem clause_imports_word (source specifier : String) (tree : Tree)
    (laidOut : tree.isLaidOut = true) (binding : ImportBinding)
    (member : binding ∈ clauseImports source specifier tree) : binding.span ∈ tree.words := by
  rw [clauseImports] at member
  split at member
  next kind =>
      obtain rfl := List.mem_singleton.mp member
      rw [words_of_word tree (by rw [kind]; rfl)]
      exact List.mem_singleton_self _
  next kind =>
      split at member
      next name found =>
          obtain rfl := List.mem_singleton.mp member
          obtain ⟨inside, isIdentifier⟩ := child_of_kind_cases tree _ name found
          exact (word_sublist tree name inside laidOut (by rw [isIdentifier]; rfl)).mem
            (List.mem_singleton_self _)
      next => cases member
  next kind =>
      obtain ⟨child, inside, read⟩ := List.mem_filterMap.mp member
      rw [specifierImport?] at read
      split at read
      next isSpecifier =>
          obtain ⟨name, found, rfl⟩ := Option.map_eq_some_iff.mp read
          have childLaidOut := laid_out_child tree laidOut child inside
          rw [beq_iff_eq] at isSpecifier
          obtain ⟨nameIn, isWord⟩ := plain_name child childLaidOut (by rw [isSpecifier]; rfl)
            name found
          exact (words_of_child tree laidOut child inside).mem
            ((word_sublist child name nameIn childLaidOut isWord).mem (List.mem_singleton_self _))
      next => cases read
  next => cases member

theorem import_bindings_word (source : String) (tree : Tree) (laidOut : tree.isLaidOut = true)
    (binding : ImportBinding) (member : binding ∈ tree.importBindings source) :
    binding.span ∈ tree.words := by
  rw [importBindings] at member
  split at member
  next =>
      split at member
      next specifier clause _ found =>
          obtain ⟨inside, -⟩ := child_of_kind_cases tree _ clause found
          have clauseLaidOut := laid_out_child tree laidOut clause inside
          obtain ⟨part, partIn, bound⟩ := List.mem_flatMap.mp member
          have here := clause_imports_word source specifier part
            (laid_out_child clause clauseLaidOut part partIn) binding bound
          exact (words_of_child tree laidOut clause inside).mem
            ((words_of_child clause clauseLaidOut part partIn).mem here)
      next => cases member
  next => cases member

theorem name_is_word (kind : Kind) (isName : kind.isName = true) : kind.isWord = true := by
  cases kind <;> simp_all [Kind.isName, Kind.isWord]

theorem occurrence_word (source : String) (tree : Tree) (name : String) (span : Span)
    (found : tree.occurrence? source = some (name, span)) : span ∈ tree.words := by
  rw [occurrence?] at found
  split at found
  next isName =>
      obtain ⟨-, rfl⟩ := Prod.mk.inj (Option.some.inj found)
      rw [words_of_word tree (name_is_word _ isName)]
      exact List.mem_singleton_self _
  next => cases found

end Tree

namespace Facts

def places (facts : Facts) : List Span :=
  facts.exports.map ExportBinding.span ++ facts.imports.map ImportBinding.span ++
    facts.occurrences.map Prod.snd

theorem places_are_words (source : String) (tree : Tree) (laidOut : tree.isLaidOut = true)
    (span : Span) (member : span ∈ (ofTree source tree).places) : span ∈ tree.words := by
  have inside (part : Tree) (visited : part ∈ tree.visited) (here : span ∈ part.words) :
      span ∈ tree.words :=
    (Tree.visited_words tree laidOut part visited).mem here
  have sound (part : Tree) (visited : part ∈ tree.visited) :=
    Tree.visited_laid_out tree laidOut part visited
  rcases List.mem_append.mp member with early | occurs
  · rcases List.mem_append.mp early with exported | imported
    · obtain ⟨binding, listed, rfl⟩ := List.mem_map.mp exported
      obtain ⟨part, visited, bound⟩ := List.mem_flatMap.mp listed
      exact inside part visited ((Tree.export_bindings_words source part (sound part visited)).mem
        (List.mem_map_of_mem bound))
    · obtain ⟨binding, listed, rfl⟩ := List.mem_map.mp imported
      obtain ⟨part, visited, bound⟩ := List.mem_flatMap.mp listed
      exact inside part visited
        (Tree.import_bindings_word source part (sound part visited) binding bound)
  · obtain ⟨⟨name, span⟩, listed, rfl⟩ := List.mem_map.mp occurs
    obtain ⟨part, visited, found⟩ := List.mem_filterMap.mp listed
    exact inside part visited (Tree.occurrence_word source part name span found)

structure Tidy (facts : Facts) : Prop where
  filled : ∀ span ∈ facts.places, span.start < span.stop
  apart : ∀ a ∈ facts.places, ∀ b ∈ facts.places, ∀ offset, a.contains offset = true →
      b.contains offset = true → a = b

theorem tidy_of_laid_out (source : String) (tree : Tree) (laidOut : tree.isLaidOut = true)
    (phrase : tree.kind.isWord = false) : (ofTree source tree).Tidy := by
  obtain ⟨ordered, -, below⟩ := Tree.laid_out_parts tree laidOut
  have words : Span.InOrder tree.span.start tree.words tree.span.stop := by
    rw [Tree.words_of_phrase tree phrase]
    exact Tree.words_all_in_order tree.children _ _ ordered below
  constructor
  · intro span member
    exact (Span.in_order_bounds _ _ _ words span
      (places_are_words source tree laidOut span member)).2.1
  · intro a inA b inB offset overA overB
    exact Span.in_order_unique _ _ _ words a b (places_are_words source tree laidOut a inA)
      (places_are_words source tree laidOut b inB) offset overA overB

theorem find_apart (bindings : List ExportBinding) (binding : ExportBinding)
    (member : binding ∈ bindings) (filled : ∀ other ∈ bindings, other.span.start < other.span.stop)
    (apart : (bindings.map ExportBinding.span).Pairwise fun a b => a.stop ≤ b.start) :
    (bindings.find? fun other => other.span.contains binding.span.start) = some binding := by
  induction bindings with
  | nil => cases member
  | cons first rest ih =>
      obtain ⟨before, later⟩ := List.pairwise_cons.mp apart
      rcases List.mem_cons.mp member with rfl | further
      · have here := filled binding List.mem_cons_self
        rw [List.find?_cons_of_pos (by simpa [Span.contains] using here)]
      · have behind := before binding.span (List.mem_map_of_mem further)
        rw [List.find?_cons_of_neg (by simp [Span.contains]; omega)]
        exact ih further (fun other listed => filled other (List.mem_cons_of_mem _ listed)) later

theorem find_statement_export (source : String) (children : List Tree) (first last : Nat)
    (ordered : Tree.areInOrder first children last = true)
    (laidOut : Tree.areLaidOut children = true) (statement : Tree) (stated : statement ∈ children)
    (binding : ExportBinding) (bound : binding ∈ statement.exportBindings source) :
    (((Tree.visitedAll children).flatMap (Tree.exportBindings source)).find? fun other =>
      other.span.contains binding.span.start) = some binding := by
  induction children generalizing first with
  | nil => cases stated
  | cons tree rest ih =>
      simp only [Tree.areInOrder, Bool.and_eq_true, decide_eq_true_eq] at ordered
      rw [Tree.areLaidOut, Bool.and_eq_true] at laidOut
      have words := Tree.words_in_order tree laidOut.1 ordered.1.2
      rw [Tree.visitedAll, List.flatMap_append, List.find?_append]
      rcases List.mem_cons.mp stated with rfl | later
      · have spans := Tree.export_bindings_words source statement laidOut.1
        have found := find_apart (statement.exportBindings source) binding bound
          (fun other listed => (Span.in_order_bounds _ _ _ words other.span
            (spans.mem (List.mem_map_of_mem listed))).2.1)
          ((Span.in_order_apart _ _ _ words).sublist spans)
        have opened : statement.visited.flatMap (Tree.exportBindings source) =
            statement.exportBindings source ++ (statement.visited.drop 1).flatMap
            (Tree.exportBindings source) := by
          cases statement
          rw [Tree.visited, List.flatMap_cons, List.drop_one, List.tail_cons]
        rw [opened, List.find?_append, found]
        rfl
      · have further := Tree.words_all_in_order rest tree.span.stop last ordered.2 laidOut.2
        have laidOut' := Tree.laid_out_member rest laidOut.2 statement later
        have behind : tree.span.stop ≤ binding.span.start := by
          refine (Span.in_order_bounds _ _ _ further binding.span ?_).1
          exact (Tree.child_words rest statement later).mem
            ((Tree.export_bindings_words source statement laidOut').mem (List.mem_map_of_mem bound))
        have none : ((tree.visited.flatMap (Tree.exportBindings source)).find? fun other =>
            other.span.contains binding.span.start) = none := by
          refine List.find?_eq_none.mpr fun other listed => ?_
          obtain ⟨part, visited, found⟩ := List.mem_flatMap.mp listed
          have word := (Tree.visited_words tree laidOut.1 part visited).mem
            ((Tree.export_bindings_words source part
              (Tree.visited_laid_out tree laidOut.1 part visited)).mem
              (List.mem_map_of_mem found))
          have bounds := Span.in_order_bounds _ _ _ words other.span word
          simp only [Span.contains, Bool.and_eq_true, decide_eq_true_eq]
          omega
        rw [none]
        exact ih tree.span.stop ordered.2 laidOut.2 later

theorem export_at_place (m : SourceModule) (isProgram : m.tree.kind = .program) (statement : Tree)
    (stated : statement ∈ m.statements) (binding : ExportBinding)
    (bound : binding ∈ statement.exportBindings m.text) :
    ((extract m).exports.find? fun other => other.span.contains binding.span.start) =
      some binding := by
  obtain ⟨ordered, -, laidOut⟩ := Tree.laid_out_parts m.tree m.laidOut
  have found := find_statement_export m.text m.tree.children _ _ ordered laidOut statement
    (List.mem_filter.mp stated).1
    binding bound
  have exports : (extract m).exports = (Tree.visitedAll m.tree.children).flatMap
      (Tree.exportBindings m.text) := by
    rw [extract, ofTree]
    dsimp only
    generalize m.tree = tree at isProgram
    obtain ⟨role, kind, span, children⟩ := tree
    obtain rfl : kind = .program := isProgram
    rw [Tree.visited, List.flatMap_cons]
    rfl
  rw [exports, found]

end Facts
end DeadExports

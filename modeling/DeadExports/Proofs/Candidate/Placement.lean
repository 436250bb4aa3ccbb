import DeadExports.Proofs.Candidate.Examined
import DeadExports.Proofs.Text.Boundary

set_option autoImplicit false

namespace DeadExports

namespace Span

theorem in_order_nodup (first : Nat) (spans : List Span) (last : Nat)
    (ordered : InOrder first spans last) : spans.Nodup := by
  refine List.Pairwise.imp_of_mem ?_ (in_order_apart first spans last ordered)
  rintro a b inA - apart rfl
  have filled := (in_order_bounds first spans last ordered a inA).2.1
  omega

end Span

namespace Tree

theorem placed_parts (text : String) (tree : Tree) (placed : tree.isPlacedIn text = true) :
    (Text.isBoundary text tree.span.start = true ∧ Text.isBoundary text tree.span.stop = true) ∧
      arePlacedIn text tree.children = true := by
  cases tree with
  | node role kind span children =>
      rw [isPlacedIn, Bool.and_eq_true, Bool.and_eq_true] at placed
      exact placed

theorem placed_member (text : String) (children : List Tree)
    (placed : arePlacedIn text children = true) (child : Tree) (member : child ∈ children) :
    child.isPlacedIn text = true := by
  induction children with
  | nil => cases member
  | cons first rest ih =>
      rw [arePlacedIn, Bool.and_eq_true] at placed
      rcases List.mem_cons.mp member with rfl | later
      · exact placed.1
      · exact ih placed.2 later

theorem placed_child (text : String) (tree : Tree) (placed : tree.isPlacedIn text = true)
    (child : Tree) (member : child ∈ tree.children) : child.isPlacedIn text = true :=
  placed_member text tree.children (placed_parts text tree placed).2 child member

structure Fits (text : String) (tree : Tree) : Prop where
  laidOut : tree.isLaidOut = true
  placed : tree.isPlacedIn text = true

theorem fits_child (text : String) (tree : Tree) (fits : tree.Fits text) (child : Tree)
    (member : child ∈ tree.children) :
    child.Fits text where
  laidOut := laid_out_child tree fits.laidOut child member
  placed := placed_child text tree fits.placed child member

theorem fits_in_order (text : String) (tree : Tree) (fits : tree.Fits text) :
    Span.InOrder tree.span.start (tree.children.map Tree.span) tree.span.stop :=
  children_in_order tree.children _ _ (laid_out_parts tree fits.laidOut).1

theorem child_piece (text : String) (tree : Tree) (fits : tree.Fits text) (child : Tree)
    (member : child ∈ tree.children) :
    child.span.IsPiece text where
  filled := (Span.in_order_bounds _ _ _ (fits_in_order text tree fits) child.span
    (List.mem_map_of_mem member)).2.1
  opens := (placed_parts text child (fits_child text tree fits child member).placed).1.1
  closes := (placed_parts text child (fits_child text tree fits child member).placed).1.2

theorem word_before_target (text : String) (statement target : Tree) (fits : statement.Fits text)
    (isExport : statement.kind = .exportStatement) (found : statement.exportTarget? = some target) :
    ∃ word ∈ statement.children, statement.childOfKind? .exportWord = some word ∧
      word.span.stop ≤ target.span.start := by
  have leads := (Scan.beside_target statement target fits.laidOut isExport found).1
  have isTarget := Scan.is_export_target statement target found
  have member := export_target_member statement target found
  have apart := Span.in_order_apart _ _ _ (fits_in_order text statement fits)
  let front := statement.children.takeWhile fun child => !child.isExportTarget
  let behind := statement.children.dropWhile fun child => !child.isExportTarget
  have parts : statement.children = front ++ behind := List.takeWhile_append_dropWhile.symm
  have word : ∃ word ∈ front, statement.childOfKind? .exportWord = some word := by
    obtain ⟨some, among, isWord⟩ := List.any_eq_true.mp leads
    rw [childOfKind?, parts, List.find?_append]
    cases first : front.find? fun child => child.kind == .exportWord with
    | none => exact absurd isWord (List.find?_eq_none.mp first some among)
    | some word => exact ⟨word, List.mem_of_find?_eq_some first, rfl⟩
  have after : target ∈ behind := by
    rw [parts] at member
    rcases List.mem_append.mp member with early | late
    · have passed := List.all_eq_true.mp List.all_takeWhile target early
      simp [isTarget] at passed
    · exact late
  obtain ⟨word, before, isWord⟩ := word
  refine ⟨word, parts ▸ List.mem_append_left _ before, isWord, ?_⟩
  rw [List.pairwise_map, parts, List.pairwise_append] at apart
  exact apart.2.2 word before target after

end Tree

structure Clause.Placed (text : String) (clause : Clause) : Prop where
  pieces : ∀ span ∈ clause.specifiers, span.IsPiece text
  distinct : clause.specifiers.Nodup
  commas : ∀ span ∈ clause.commas, span.IsPiece text

structure Candidate.Placed (text : String) (candidate : Candidate) : Prop where
  statement : candidate.statement.IsPiece text
  node : candidate.node.IsPiece text
  listed : candidate.kind = .specifier →
    ∃ clause, candidate.clause = some clause ∧ clause.Placed text ∧
    candidate.node ∈ clause.specifiers
  led : candidate.kind ≠ .specifier → candidate.kind ≠ .defaultValue →
    ∃ word, candidate.exportWord = some word ∧ word.IsPiece text ∧ word.stop ≤ candidate.node.start

namespace Scan

theorem specifier_nodes (clause : Tree) :
    (clause.clauseSpecifiers.map Tree.Specifier.node).Sublist clause.children := by
  rw [Tree.clauseSpecifiers]
  induction clause.children with
  | nil => exact List.Sublist.refl _
  | cons first rest ih =>
      rw [List.filterMap_cons]
      split
      next => exact ih.cons first
      next specifier found =>
          split at found
          next =>
              obtain ⟨name, -, rfl⟩ := Option.map_eq_some_iff.mp found
              exact ih.cons_cons first
          next => cases found

theorem clause_placed (text : String) (clause : Tree) (fits : clause.Fits text) :
    (clauseOf clause).Placed text where
  pieces := by
    intro span member
    obtain ⟨specifier, listed, rfl⟩ := List.mem_map.mp member
    exact Tree.child_piece text clause fits specifier.node
      ((specifier_nodes clause).mem (List.mem_map_of_mem listed))
  distinct := by
    have spans := (specifier_nodes clause).map Tree.span
    rw [List.map_map] at spans
    exact (Span.in_order_nodup _ _ _ (Tree.fits_in_order text clause fits)).sublist spans
  commas := by
    intro span member
    obtain ⟨comma, kept, rfl⟩ := List.mem_map.mp member
    exact Tree.child_piece text clause fits comma (List.mem_filter.mp kept).1

theorem kind_of_not_specifier (isDefault : Bool) (target : Tree) :
    kindOf? isDefault target ≠ some .specifier := by
  fun_cases kindOf? isDefault target <;> exact nofun

theorem specifier_placed (text : String) (imported : List (String × String))
    (statement clause : Tree) (specifier : Tree.Specifier) (inText : statement.span.IsPiece text)
    (fits : clause.Fits text) (listed : specifier ∈ clause.clauseSpecifiers) :
    (specifierCandidate text imported statement clause specifier).Placed text where
  statement := inText
  node := Tree.child_piece text clause fits specifier.node
    ((specifier_nodes clause).mem (List.mem_map_of_mem listed))
  listed _ := ⟨clauseOf clause, rfl, clause_placed text clause fits,
    List.mem_map.mpr ⟨specifier, listed, rfl⟩⟩
  led other := absurd rfl other

theorem declaration_placed (text : String) (statement : Tree) (candidate : Candidate)
    (inText : statement.span.IsPiece text) (fits : statement.Fits text)
    (isExport : statement.kind = .exportStatement)
    (found : declarationCandidate? text statement = some candidate) : candidate.Placed text := by
  obtain ⟨target, targeted, rest⟩ := Option.bind_eq_some_iff.mp found
  obtain ⟨kind, kinded, rest⟩ := Option.bind_eq_some_iff.mp rest
  obtain ⟨_, -, same⟩ := Option.bind_eq_some_iff.mp rest
  obtain rfl := Option.some.inj same
  obtain ⟨word, inside, leads, before⟩ := Tree.word_before_target text statement target fits
    isExport targeted
  refine ⟨inText, Tree.child_piece text statement fits target
    (Tree.export_target_member statement target targeted), ?_, ?_⟩
  · rintro rfl
    exact absurd kinded (kind_of_not_specifier _ target)
  · intro _ _
    exact ⟨word.span, congrArg (Option.map Tree.span) leads, Tree.child_piece text statement fits
      word inside, before⟩

end Scan

namespace SourceModule

theorem candidate_placed (m : SourceModule) (marker : String) (candidate : Candidate)
    (member : candidate ∈ (m.scan marker).candidates) : candidate.Placed m.text := by
  obtain ⟨one, examined, rfl⟩ := m.candidate_examined marker candidate member
  obtain ⟨statement, stated, isExport, cases⟩ := m.examined_cases marker one examined
  have whole : m.tree.Fits m.text := ⟨m.laidOut, m.placed⟩
  have inside := statement_member m statement stated
  have fits := Tree.fits_child m.text m.tree whole statement inside
  have inText := Tree.child_piece m.text m.tree whole statement inside
  rcases cases with ⟨clause, specifier, found, listed, same⟩ | ⟨-, found⟩
  · have clauseFits := Tree.fits_child m.text statement fits clause
      (Tree.child_of_kind_cases statement _ clause found).1
    rw [same]
    exact Scan.specifier_placed m.text _ statement clause specifier inText clauseFits listed
  · exact Scan.declaration_placed m.text statement one.candidate inText fits isExport found

end SourceModule
end DeadExports

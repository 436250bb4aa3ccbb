import DeadExports.Proofs.Prune.Exact

set_option autoImplicit false

namespace DeadExports

def Tree.introducesName (source : String) (target : Tree) : Bool :=
  !(target.declaredNames source).isEmpty || (target.childInRole? .name).isSome

namespace Tree

theorem plain_introduces (source : String) (target : Tree) (plain : namesDefault target.kind = true)
    (introduces : target.introducesName source = true) :
    (target.childInRole? .name).isSome = true := by
  rw [introducesName, Bool.or_eq_true] at introduces
  rcases introduces with declared | named
  · have own : target.declaredNames source = target.ownName source := by
      obtain ⟨role, kind, span, children⟩ := target
      cases kind <;> first | rfl | exact absurd plain Bool.false_ne_true
    rw [own, ownName] at declared
    cases found : target.childInRole? .name with
    | none => simp [found] at declared
    | some name => rfl
  · exact named

end Tree

namespace Scan

theorem kind_of_whole (isDefault : Bool) (target : Tree)
    (found : kindOf? isDefault target = some .defaultValue) :
    isDefault = true ∧ (Tree.namesDefault target.kind = false ∨ target.childInRole? .name =
      none) := by
  cases isDefault with
  | false => cases known : target.kind <;> simp [kindOf?, known] at found
  | true =>
      refine ⟨rfl, ?_⟩
      have none := kind_of_default_value target found
      cases plain : Tree.namesDefault target.kind with
      | false => exact .inl rfl
      | true => exact .inr (by simpa [plain] using none)

end Scan

namespace Batch

section Declarations

variable {m : SourceModule} {unused : List Candidate}

theorem target_cut (exports : ∀ candidate ∈ unused, ∃ statement, m.Exports candidate statement)
    {next : Plan} {cuts : List Span} {later : List Candidate}
    (covers : Covers m unused unused next cuts later) (statement target : Tree)
    (stated : statement ∈ m.tree.children) (targeted : statement.exportTarget? = some target)
    (place : Nat) (low : target.span.start ≤ place) (high : place < target.span.stop)
    (gone : Text.isCut cuts place = true) :
    (statement.childOfKind? .defaultWord).isSome = true ∧
      (Tree.namesDefault target.kind = false ∨ target.childInRole? .name = none) := by
  have fits := Tree.fits_child m.text m.tree m.fits statement stated
  have among := Tree.export_target_member statement target targeted
  have within := Tree.child_within m.text statement fits target among
  obtain ⟨candidate, -, exported, cut, reason, starts, stops⟩ :=
    cut_owner exports covers statement stated place (by omega) (by omega) gone
  rcases exported with ⟨clause, specifier, lists⟩ | declares
  · obtain ⟨inside, isClause, -⟩ := SourceModule.lists_clause lists
    obtain ⟨-, -, -, alone⟩ := Tree.inked_clause m.text statement clause fits
      (m.statement_inked statement stated) inside isClause
    have isTarget := Scan.is_export_target statement target targeted
    rw [alone target among] at isTarget
    cases isTarget
  · obtain ⟨target', targeted', node, -, noClause, -, kinded⟩ :=
      SourceModule.declares_parts declares
    obtain rfl := Option.some.inj (targeted.symm.trans targeted')
    cases reason with
    | value isValue =>
        rw [isValue] at kinded
        exact Scan.kind_of_whole _ target kinded
    | list clause own =>
        rw [noClause] at own
        cases own
    | items clause own =>
        rw [noClause] at own
        cases own
    | words word _ _ _ before =>
        rw [before, node] at stops
        dsimp only at stops
        omega

theorem keeps_overlaps (cuts : List Span) (span cut : Span) (keeps : Text.Keeps cuts span)
    (member : cut ∈ cuts) (order : cut.start < cut.stop) (filled : span.start < span.stop) :
    cut.overlaps span = false := by
  rw [Span.overlaps, Bool.and_eq_false_iff, decide_eq_false_iff_not, decide_eq_false_iff_not]
  by_contra meets
  have stays := keeps (max cut.start span.start) (by omega) (by omega)
  have ends := (Text.not_cut_iff cuts _).mp stays cut member (by omega)
  omega

end Declarations

-- A declaration that introduces a name stays, byte for byte, when it is exported without `default`,
-- or when it is a function or a class. Only lists, values and functions and classes without a name
-- go with their statements.
theorem declarations_stay (m : SourceModule) (marker : String) (file : Path)
    (unused : List Candidate) (within : unused ⊆ (m.scan marker).candidates)
    (nodup : unused.Nodup) :
    ∃ batch edited, plan file m.text unused = .ok batch ∧ Change.applyAll? m.text batch.changes =
      some edited ∧
      (∀ statement ∈ m.tree.children, ∀ target, statement.exportTarget? = some target →
        target.introducesName m.text = true →
        statement.childOfKind? .defaultWord = none ∨ Tree.namesDefault target.kind = true →
          (∀ change ∈ batch.changes, change.span.overlaps target.span = false) ∧
            Text.under edited (target.span.moved (batch.changes.map Change.span)) =
              Text.under m.text target.span) ∧
      ∀ statement ∈ m.tree.children, Text.Takes (batch.changes.map Change.span) statement.span →
        (statement.childOfKind? .exportClause).isSome = true ∨
          ∃ target, statement.exportTarget? = some target ∧
            (statement.childOfKind? .defaultWord).isSome = true ∧
            (Tree.namesDefault target.kind = false ∨ target.childInRole? .name = none) := by
  have exports := m.candidates_export marker unused within
  obtain ⟨next, cuts, later, edited, planned, covers, spans, pieces, applied, left, -⟩ :=
    plan_carried_out file exports nodup
  rw [← spans] at covers left
  refine ⟨next.batch, edited, planned, applied, ?_, ?_⟩
  · intro statement stated target targeted introduces plain
    have fits := Tree.fits_child m.text m.tree m.fits statement stated
    have piece := Tree.child_piece m.text statement fits target
      (Tree.export_target_member statement target targeted)
    have keeps : Text.Keeps (next.batch.changes.map Change.span) target.span := by
      intro place low high
      rw [← Bool.not_eq_true]
      intro gone
      obtain ⟨isDefault, anonymous⟩ := target_cut exports covers statement target stated targeted
        place low high gone
      rcases plain with none | isPlain
      · rw [none] at isDefault
        cases isDefault
      · have named := Tree.plain_introduces m.text target isPlain introduces
        rcases anonymous with other | none
        · rw [isPlain] at other
          cases other
        · rw [none] at named
          cases named
    refine ⟨fun change member => ?_, ?_⟩
    · exact keeps_overlaps _ target.span change.span keeps (List.mem_map_of_mem member)
        (pieces change member).piece.filled
        piece.filled
    · refine Text.under_moved left (fun cut listed => ?_) target.span piece keeps
      obtain ⟨change, member, rfl⟩ := List.mem_map.mp listed
      exact (pieces change member).piece
  · intro statement stated takes
    have filled := (Tree.child_piece m.text m.tree m.fits statement stated).filled
    obtain ⟨candidate, -, ⟨clause, specifier, lists⟩ | declares, -⟩ :=
      cut_owner exports covers statement stated statement.span.start (Nat.le_refl _) filled
        (takes _ (Nat.le_refl _) filled)
    · exact .inl (by rw [lists.found]; rfl)
    · obtain ⟨target, targeted, -⟩ := SourceModule.declares_parts declares
      have fits := Tree.fits_child m.text m.tree m.fits statement stated
      have among := Tree.export_target_member statement target targeted
      have inside := Tree.child_within m.text statement fits target among
      have start := (Tree.child_piece m.text statement fits target among).filled
      exact .inr ⟨target, targeted, target_cut exports covers statement target stated targeted
        target.span.start
        (Nat.le_refl _) start (takes _ (by omega) (by omega))⟩

def declared : String := "export default function f() \x7b\x7d\nexport interface I \x7b\x7d\n"

theorem declared_stay :
    ∃ m batch, (SourceModule.parse ⟨"/f.ts"⟩ declared).toOption = some m ∧
      plan ⟨"/f.ts"⟩ m.text (m.scan defaultMarker).candidates = .ok batch ∧
      (m.scan defaultMarker).candidates.length = 2 ∧
      ∀ statement ∈ m.tree.children, ∀ target, statement.exportTarget? = some target →
        target.introducesName m.text = true →
        statement.childOfKind? .defaultWord = none ∨ Tree.namesDefault target.kind = true →
          ∀ change ∈ batch.changes, change.span.overlaps target.span = false := by
  have known : (SourceModule.parse ⟨"/f.ts"⟩ declared).toOption.map (fun m =>
      (decide (m.scan defaultMarker).candidates.Nodup, (m.scan defaultMarker).candidates.length)) =
          some (true, 2) := by
    decide +kernel
  obtain ⟨m, parsed, facts⟩ := Option.map_eq_some_iff.mp known
  obtain ⟨distinct, two⟩ := Prod.mk.inj facts
  obtain ⟨batch, edited, planned, -, stay, -⟩ := declarations_stay m defaultMarker ⟨"/f.ts"⟩ _
    (List.Subset.refl _)
    (of_decide_eq_true distinct)
  exact ⟨m, batch, parsed, planned, two, fun statement stated target targeted introduces plain =>
    (stay statement stated target targeted introduces plain).1⟩

theorem default_interface_goes :
    (SourceModule.parse ⟨"/f.ts"⟩ "export default interface I \x7b\x7d\nlet i: I;\n").toOption.map
      (fun m =>
      (m.hasErrors, (m.tree.children.filterMap Tree.exportTarget?).any fun target =>
        target.introducesName m.text &&
          (plan ⟨"/f.ts"⟩ m.text (m.scan defaultMarker).candidates).toOption.any fun batch =>
            batch.changes.any fun change => change.span.overlaps target.span)) =
                some (false, true) := by
  decide +kernel

end Batch
end DeadExports

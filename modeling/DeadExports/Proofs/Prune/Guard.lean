import DeadExports.Proofs.Candidate.Comments
import DeadExports.Proofs.Candidate.Items
import DeadExports.Proofs.Prune.Accounts
import DeadExports.Proofs.Text.Moved

set_option autoImplicit false

namespace DeadExports

def Kind.staysExported : Kind → Bool
  | functionSignature | enumDeclaration | namespaceDeclaration | ambientDeclaration => true
  | _ => false

namespace Scan

theorem kind_of_plain (target : Tree) (kind : CandidateKind)
    (found : kindOf? false target = some kind) :
    target.kind.staysExported = false := by
  cases known : target.kind <;> simp_all [kindOf?, Kind.staysExported]

theorem kind_of_function (isDefault : Bool) (target : Tree) (kind : CandidateKind)
    (isFunction : target.kind = .functionDeclaration ∨ target.kind = .generatorDeclaration)
    (found : kindOf? isDefault target = some kind) : kind = .function := by
  rcases isFunction with known | known <;> simp_all [kindOf?]

theorem names_of_function (source : String) (word? : Option Tree) (target name : Tree)
    (names : List String) (identifiers : List Span)
    (isFunction : target.kind = .functionDeclaration ∨ target.kind = .generatorDeclaration)
    (called : target.childInRole? .name = some name)
    (found : namesOf? source .function word? target = some (names, identifiers)) :
    identifiers = [name.span] := by
  cases word? with
  | some word =>
      rw [namesOf?, called] at found
      · exact (Prod.mk.inj (Option.some.inj found)).2.symm
      · exact nofun
  | none =>
      have own : target.declaredNames source = target.ownName source := by
        obtain ⟨role, kind, span, children⟩ := target
        rcases isFunction with known | known
        · obtain rfl : kind = .functionDeclaration := known
          rfl
        · obtain rfl : kind = .generatorDeclaration := known
          rfl
      rw [namesOf?, own, Tree.ownName, called] at found
      dsimp only at found
      split at found
      next plain => exact (Prod.mk.inj (Option.some.inj found)).2.symm
      next => cases found

end Scan

namespace SourceModule

structure Offers (m : SourceModule) (statement target : Tree) : Prop where
  found : statement.exportTarget? = some target
  noNamespace : statement.childOfKind? .namespaceExport = none
  noStar : statement.childOfKind? .star = none
  removable : statement.childOfKind? .defaultWord = none → target.kind.staysExported = false
  single : ∀ name, target.kind = .functionDeclaration ∨ target.kind = .generatorDeclaration →
    target.childInRole? .name = some name → name.text m.text ∉ Scan.overloads m.text m.statements

theorem offers_of_candidate (m : SourceModule) (statement : Tree) (candidate : Candidate)
    (member : statement ∈ m.statements) (isExport : statement.kind = .exportStatement)
    (found : Scan.declarationCandidate? m.text statement = some candidate)
    (single : Scan.isOverloaded m.text (Scan.overloads m.text m.statements) candidate = false) :
    ∃ target, m.Offers statement target := by
  obtain ⟨target, targeted, rest⟩ := Option.bind_eq_some_iff.mp found
  obtain ⟨kind, kinded, rest⟩ := Option.bind_eq_some_iff.mp rest
  obtain ⟨⟨names, identifiers⟩, named, same⟩ := Option.bind_eq_some_iff.mp rest
  obtain rfl := Option.some.inj same
  have fits : statement.Fits m.text :=
    Tree.fits_child m.text m.tree ⟨m.laidOut, m.placed⟩ statement (List.mem_filter.mp member).1
  obtain ⟨noNamespace, noStar⟩ := Scan.no_star_beside_target statement target fits.laidOut
    isExport targeted
  refine ⟨target, targeted, noNamespace, noStar, ?_, ?_⟩
  · intro noDefault
    rw [noDefault] at kinded
    exact Scan.kind_of_plain target kind kinded
  · intro name isFunction called
    obtain rfl := Scan.kind_of_function _ target kind isFunction kinded
    obtain rfl := Scan.names_of_function m.text _ target name names identifiers isFunction
      called named
    have targetFits := Tree.fits_child m.text statement fits target
      (Tree.export_target_member statement target targeted)
    have piece := Tree.child_piece m.text target targetFits name
      (Tree.child_in_role_member target .name name called)
    have written := Text.slice_between m.text name.span piece.opens piece.closes
      (Nat.le_of_lt piece.filled)
    simpa [Scan.isOverloaded, written, Tree.text] using single

end SourceModule

namespace Workspace

variable {ι σ : Type} [FileStore σ] [LanguageService ι σ]

def questions (file : Path) (store : σ) : ι → List Candidate → List (ι × Candidate)
  | _, [] => []
  | service, candidate :: rest =>
    (service, candidate) :: questions file store (candidate.classify service store file).2 rest

def isDenied (file : Path) (store : σ) (question : ι × Candidate) : Bool :=
  (question.2.classify question.1 store file).1.toOption == some .unused

theorem questions_candidates (file : Path) (store : σ) (service : ι) (candidates : List Candidate) :
    (questions file store service candidates).map Prod.snd = candidates := by
  induction candidates generalizing service with
  | nil => rfl
  | cons first rest ih => rw [questions, List.map_cons, ih]

theorem filter_aux_asked (file : Path) (candidates found unused : List Candidate)
    (space last : Workspace ι σ) (ran : (candidates.filterAuxM (fun candidate => (do
      let verdict ← ask fun service store => candidate.classify service store file
      return verdict == .unused : PruneM ι σ Bool)) found).run.run space = (.ok unused, last)) :
    unused = (((questions file space.store space.service candidates).filter
      (isDenied file space.store)).map Prod.snd).reverse ++
      found := by
  induction candidates generalizing found space with
  | nil => exact (pure_ok found unused space last ran).1
  | cons first rest ih =>
      obtain ⟨isUnused, later, asked, ran⟩ := bind_ok _ _ space last unused ran
      obtain ⟨verdict, answered, asked, decided⟩ := bind_ok _ _ space later isUnused asked
      obtain ⟨answer, rfl⟩ := ask_ok _ verdict space answered asked
      obtain ⟨rfl, rfl⟩ := pure_ok _ isUnused _ later decided
      rw [ih _ _ ran, questions, List.filter_cons, isDenied, answer]
      cases verdict with
      | used => rfl
      | unused => simp [Except.toOption]

theorem unused_of_asked (file : Path) (candidates unused : List Candidate)
    (space last : Workspace ι σ)
    (ran : (unusedOf file candidates).run.run space = (.ok unused, last)) :
    unused = ((questions file space.store space.service candidates).filter
      (isDenied file space.store)).map Prod.snd := by
  obtain ⟨found, later, filtered, ran⟩ := bind_ok _ _ space last unused ran
  obtain ⟨rfl, rfl⟩ := pure_ok _ unused later last ran
  rw [filter_aux_asked file candidates [] found space last filtered, List.append_nil,
    List.reverse_reverse]

theorem all_denied (file : Path) (candidates unused : List Candidate) (space last : Workspace ι σ)
    (ran : (unusedOf file candidates).run.run space = (.ok unused, last))
    (full : candidates.length ≤ unused.length) :
    unused = candidates ∧ ∀ question ∈ questions file space.store space.service candidates,
      isDenied file space.store question = true := by
  have asked := unused_of_asked file candidates unused space last ran
  have whole := questions_candidates file space.store space.service candidates
  have every : (questions file space.store space.service candidates).filter
    (isDenied file space.store) =
      questions file space.store space.service candidates := by
    apply List.Sublist.eq_of_length_le List.filter_sublist
    rwa [← whole, asked, List.length_map, List.length_map] at full
  rw [every, whole] at asked
  exact ⟨asked, List.filter_eq_self.mp every⟩

theorem passes_deleted (options : PruneOptions) (file : Path) (bound removed count : Nat)
    (space last : Workspace ι σ)
    (ran : (passes options file bound removed count).run.run space = (.ok .deleted, last)) :
    ∃ earlier before, Removing options file earlier space before ∧
      (pass options file).run.run before = (.ok .deleted, last) := by
  induction bound generalizing removed count space with
  | zero => cases ran
  | succ bound ih =>
      rw [passes_turn] at ran
      split at ran
      next => cases ran
      next later passed =>
          obtain ⟨-, rfl⟩ := Prod.mk.inj ran
          exact ⟨0, space, .none space, passed⟩
      next gone later passed =>
          obtain ⟨earlier, before, chain, deletes⟩ := ih _ _ later ran
          exact ⟨earlier + 1, before, .more earlier gone space later before passed chain, deletes⟩
      next later _ =>
          exact absurd (settle_ok options file removed count _ later last ran).symm
            (outcome_of_kept removed count)

structure Guarded (options : PruneOptions) (file : Path) (space : Workspace ι σ)
    (m : SourceModule) :
    Prop where
  allowed : options.deleteFiles = true
  exporting : m.exportItems ≠ []
  unmarked : ∀ item ∈ m.exportItems, item.isMarked m options.skipMarker = false
  denied : ∀ item ∈ m.exportItems, ∃ service candidate, item.candidate? m = some candidate ∧
    (service, candidate) ∈ questions file space.store space.service
    (m.scan options.skipMarker).candidates ∧
    (candidate.classify service space.store file).1 = .ok .unused
  unlisted : ∀ statement ∈ m.statements, statement.kind = .exportStatement →
      statement.childOfKind? .exportClause = none →
    ∃ target, m.Offers statement target

theorem deleting_guarded (options : PruneOptions) (file : Path) (space asked : Workspace ι σ)
    (m : SourceModule) (unused : List Candidate) (found : Finds options file space m unused asked)
    (filled : unused ≠ []) (may : mayDelete options (m.scan options.skipMarker) unused = true) :
    Guarded options file space m := by
  rw [mayDelete, Bool.and_eq_true, Bool.and_eq_true, beq_iff_eq] at may
  obtain ⟨⟨every, -⟩, allowed⟩ := may
  have total := m.scan_adds_up options.skipMarker
  obtain ⟨rfl, denied⟩ := all_denied file _ unused space asked found.answered (by omega)
  have candidates := m.items_are_candidates options.skipMarker (Nat.le_of_eq every.symm)
  refine ⟨allowed, ?_, fun item member => (candidates item member).1, ?_, ?_⟩
  · intro none
    apply filled
    rw [← List.length_eq_zero_iff, every, m.scan_count, none, List.length_nil]
  · intro item member
    obtain ⟨-, candidate, listed, isCandidate⟩ := candidates item member
    rw [← questions_candidates file space.store space.service
      (m.scan options.skipMarker).candidates] at listed
    obtain ⟨⟨service, _⟩, question, rfl⟩ := List.mem_map.mp listed
    have answer := denied _ question
    rw [isDenied, beq_iff_eq] at answer
    refine ⟨service, _, isCandidate, question, ?_⟩
    cases told : (Candidate.classify service space.store file _).1 with
    | ok verdict =>
        rw [told] at answer
        exact congrArg Except.ok (Option.some.inj answer)
    | error cause =>
        rw [told] at answer
        cases answer
  · intro statement member isExport noClause
    obtain ⟨before, after, split⟩ := List.append_of_mem member
    have entry := (Tree.mem_with_earlier m.statements before statement).mpr ⟨after, split⟩
    have item : ⟨before, statement, none⟩ ∈ m.exportItems :=
      List.mem_flatMap.mpr ⟨_, entry, (Scan.mem_items_of _ _).mpr
        ⟨isExport, rfl, rfl, .inr ⟨noClause, rfl⟩⟩⟩
    obtain ⟨-, candidate, -, isCandidate⟩ := candidates _ item
    obtain ⟨declared, single⟩ := Option.filter_eq_some_iff.mp isCandidate
    exact m.offers_of_candidate statement candidate member isExport declared (by simpa using single)

theorem deletion_is_guarded (options : PruneOptions) (file : Path) :
    (∀ (m : SourceModule) (marker : String), (m.scan marker).exportCount = m.exportItems.length ∧
      (m.scan marker).exportCount = (m.scan marker).candidates.length + (m.scan marker).skipped +
        m.exportItems.countP fun item => (item.candidate? m).isNone) ∧
    ∀ space last : Workspace ι σ, (pruneFile options file).run.run space = (.ok .deleted, last) →
      ∃ text earlier before m, FileStore.read space.store file = .ok text ∧
        Removing options file earlier { space with events := space.events ++ [.opened file text] }
          before ∧
        SourceModule.load before.store file = .ok m ∧ m.hasErrors = false ∧
        FileStore.delete before.store file = (.ok (), last.store) ∧
        Guarded options file before m := by
  refine ⟨fun m marker => ⟨m.scan_count marker, m.scan_adds_up marker⟩, fun space last ran => ?_⟩
  obtain ⟨text, present⟩ := prune_file_read options file .deleted space last ran
  obtain ⟨ended, passed, store⟩ := prune_file_passes options file text space last _ present ran
  obtain ⟨earlier, before, chain, deletes⟩ := passes_deleted options file _ 0 0 _ ended passed
  obtain ⟨m, loaded, gone, -⟩ := deleted_tells options file before ended deletes
  obtain ⟨found, unused, asked, finds, ⟨-, other, -⟩ | ⟨filled, may, -⟩ | ⟨-, -, _, other⟩⟩ :=
    pass_finds options file before ended _ deletes
  · cases other
  · obtain rfl : found = m := Except.ok.inj (finds.loaded.symm.trans loaded)
    rw [store]
    exact ⟨text, earlier, before, found, present, chain, loaded, finds.proper, gone,
      deleting_guarded options file before asked found unused finds filled may⟩
  · cases other

def lone (text : String) : Workspace Project MemoryStore := fresh [(⟨"/f.ts"⟩, text)]

def listAndVariable : Workspace Project MemoryStore :=
  lone "let z;\nexport \x7b z \x7d;\nexport let x;\n"

theorem listed_and_declared_go :
    ∃ last text earlier before m, FileStore.read listAndVariable.store ⟨"/f.ts"⟩ = .ok text ∧
      Removing { deleteFiles := true } ⟨"/f.ts"⟩ earlier
        { listAndVariable with events := [.opened ⟨"/f.ts"⟩ text] } before ∧
      SourceModule.load before.store ⟨"/f.ts"⟩ = .ok m ∧ m.hasErrors = false ∧
      FileStore.delete before.store ⟨"/f.ts"⟩ = (.ok (), last) ∧ Guarded { deleteFiles := true }
        ⟨"/f.ts"⟩ before m := by
  have ran := ran_of_outcome { deleteFiles := true } ⟨"/f.ts"⟩ listAndVariable .deleted
    (by decide +kernel)
  exact ⟨_, (deletion_is_guarded { deleteFiles := true } ⟨"/f.ts"⟩).2 listAndVariable _ ran⟩

def lastingFate (text : String) : Option Bool × Option Outcome :=
  ((SourceModule.parse ⟨"/f.ts"⟩ text).toOption.map fun m =>
      m.statements.any fun statement => statement.exportTarget?.any fun target =>
        target.kind.staysExported,
    ((pruneFile { deleteFiles := true } ⟨"/f.ts"⟩).run.run (lone text)).1.toOption)

theorem default_signature_goes :
    lastingFate "export default function f(): void;\n" = (some true, some .deleted) ∧
      lastingFate "export default enum E \x7b A \x7d\n" = (some true, some .deleted) := by
  decide +kernel

end Workspace
end DeadExports

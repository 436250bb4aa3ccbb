import DeadExports.Proofs.Candidate.Examined
import DeadExports.Proofs.Facts.Dependencies
import DeadExports.Proofs.Project.Held
import DeadExports.Proofs.Source.ExportForms
import DeadExports.Proofs.Usage.Unused

set_option autoImplicit false

namespace DeadExports

def ExportOrigin.AgreesWith : ExportOrigin → Option String → Prop
  | .reexport specifier _, some module => specifier = module
  | .own _, none | .default, none => True
  | _, _ => False

namespace Scan

theorem clause_exports_agree (source : String) (module? : Option String) (clause : Tree)
    (binding : ExportBinding) (member : binding ∈ clause.clauseExports source module?) :
    binding.origin.AgreesWith module? := by
  obtain ⟨specifier, -, rfl⟩ := List.mem_map.mp member
  cases module? with
  | some module => rfl
  | none => trivial

theorem own_agrees (binding : ExportBinding) (own : binding.specifier? = none) :
    binding.origin.AgreesWith none := by
  rw [ExportBinding.specifier?] at own
  split at own
  next => cases own
  next => cases own
  next origin =>
      rw [origin]
      trivial
  next origin =>
      rw [origin]
      trivial

theorem target_agrees (source : String) (statement target : Tree) (settled : statement.IsSettled)
    (isExport : statement.kind = .exportStatement)
    (targeted : statement.exportTarget? = some target) (binding : ExportBinding)
    (member : binding ∈ statement.exportBindings source) :
    binding.origin.AgreesWith (statement.specifier? source) := by
  have alone := settled isExport
    ⟨target, Tree.export_target_member statement target targeted, is_export_target statement target
      targeted⟩
  have unnamed : statement.childInRole? .source = none :=
    List.find?_eq_none.mpr fun child listed => by simpa using alone child listed
  have noModule : statement.specifier? source = none := by
    rw [Tree.specifier?, unnamed, Option.map_none]
  rw [noModule]
  refine own_agrees binding ?_
  cases origin : binding.specifier? with
  | none => rfl
  | some specifier =>
      have named := ((Tree.export_names_module source specifier statement isExport).mp
        (.inl ⟨binding, member, origin⟩)).1.2
      rw [noModule] at named
      cases named

end Scan

namespace SourceModule

theorem candidate_stated (path : Path) (text marker : String) (m : SourceModule)
    (parsed : parse path text = .ok m) (candidate : Candidate)
    (member : candidate ∈ (m.scan marker).candidates) :
    candidate.names.length = candidate.identifiers.length ∧
      ∃ statement ∈ m.statements, statement.kind = .exportStatement ∧
        statement.span = candidate.statement ∧
        ∀ item ∈ candidate.items, ∃ binding ∈ statement.exportBindings m.text,
          binding.item = item ∧ binding.origin.AgreesWith (statement.specifier? m.text) := by
  obtain ⟨one, examined, rfl⟩ := m.candidate_examined marker candidate member
  obtain ⟨statement, stated, isExport, cases⟩ := m.examined_cases marker one examined
  have inside := statement_member m statement stated
  have laidOut := Tree.laid_out_child m.tree m.laidOut statement inside
  rcases cases with ⟨clause, specifier, found, listed, same⟩ | ⟨noClause, declared⟩
  · rw [same]
    refine ⟨rfl, statement, stated, isExport, rfl, fun item here => ?_⟩
    rw [Scan.export_bindings_of_clause m.text statement clause isExport found]
    refine ⟨_, List.mem_map_of_mem listed, (List.mem_singleton.mp here).symm, ?_⟩
    exact Scan.clause_exports_agree m.text _ clause _ (List.mem_map_of_mem listed)
  · obtain ⟨items, -⟩ := Scan.declaration_items m.text statement one.candidate laidOut isExport
      noClause declared
    obtain ⟨target, targeted, rest⟩ := Option.bind_eq_some_iff.mp declared
    obtain ⟨kind, kinded, rest⟩ := Option.bind_eq_some_iff.mp rest
    obtain ⟨⟨names, identifiers⟩, named, same⟩ := Option.bind_eq_some_iff.mp rest
    have same := Option.some.inj same
    have settled := target_without_module path text m parsed statement inside
    refine ⟨?_, statement, stated, isExport, by rw [← same], fun item here => ?_⟩
    · rw [← same]
      exact Scan.names_of_length m.text kind _ target names identifiers named
    · rw [items] at here
      obtain ⟨binding, bound, here⟩ := List.mem_map.mp here
      exact ⟨binding, bound, here, Scan.target_agrees m.text statement target settled isExport
        targeted binding bound⟩

end SourceModule

namespace Candidate

section Meets

variable {ι σ : Type} [FileStore σ] [SourceParser ι σ] [LanguageService ι σ]

inductive Meets (store : σ) (file : Path) (candidate : Candidate) (cause : AnalysisError) :
    List Nat → ι → Prop where
  | asked (position : Nat) (rest : List Nat) (service : ι)
      (failed : (LanguageService.findReferences service store file position).1 = .error cause) :
      Meets store file candidate cause (position :: rest) service
  | passed (position : Nat) (rest : List Nat) (service later last : ι) (references : List Reference)
      (answered : LanguageService.findReferences service store file position =
        (.ok references, later))
      (unused : candidate.isUsedBy later store file references = (false, last))
      (meets : Meets store file candidate cause rest last) :
      Meets store file candidate cause (position :: rest) service

end Meets

theorem classify_at_answered {σ : Type} [FileStore σ] (project : Project) (store : σ)
    (current : project.revision = some (FileStore.revision store)) (file : Path)
    (candidate : Candidate) (positions : List Nat)
    (answered : ∀ position ∈ positions, ∃ symbol, project.symbolAt file position = .ok symbol) :
    (∃ verdict, candidate.classifyAt store file positions project = (.ok verdict, project)) ∧
      ∀ cause, ¬ candidate.Meets store file cause positions project := by
  induction positions with
  | nil => exact ⟨⟨.unused, rfl⟩, nofun⟩
  | cons first rest ih =>
      obtain ⟨symbol, answer⟩ := answered first List.mem_cons_self
      obtain ⟨verdict, meets⟩ := ih fun position member =>
        answered position (List.mem_cons_of_mem first member)
      have asked : LanguageService.findReferences project store file first =
          (.ok (project.referencesTo symbol), project) := by
        have found := Project.current_find_references project store
          (Project.sync_current project store current) file first
        rw [answer] at found
        exact found
      -- Following a chain leaves the index as it is, so the next position is asked of the same one.
      have alone := Project.concur_one_store store (Project.same_index_refl project) current current
      have kept := (is_used_by_alike alone file candidate (project.referencesTo symbol) _ rfl).1
      constructor
      · rw [classifyAt, asked]
        dsimp only
        cases used : candidate.isUsedBy project store file (project.referencesTo symbol) with
        | mk isUsed later =>
            rw [used] at kept
            subst kept
            cases isUsed with
            | true => exact ⟨.used, rfl⟩
            | false => exact verdict
      · rintro cause (⟨_, _, _, failed⟩ | ⟨_, _, _, later, last, references, found, unused,
          further⟩)
        · rw [asked] at failed
          cases failed
        · obtain ⟨same, rfl⟩ := Prod.mk.inj (asked.symm.trans found)
          obtain rfl := Except.ok.inj same
          rw [unused] at kept
          subst kept
          exact meets cause further

-- A scan and the index agree on every candidate. Each of its names is an export of the index at the
-- place where it is written, the first one there, from the module that the statement names or else
-- from the file itself. So an index that is up to date knows the file and has a symbol at each
-- place it is asked about.
theorem candidates_are_indexed (file : Path) (text marker : String) (m : SourceModule)
    (parsed : SourceModule.parse file text = .ok m) (candidate : Candidate)
    (member : candidate ∈ (m.scan marker).candidates) :
    candidate.names.length = candidate.identifiers.length ∧
    (∃ statement ∈ m.statements, statement.kind = .exportStatement ∧
      statement.span = candidate.statement ∧
      ∀ (k : Nat) (name : String) (span : Span), candidate.names[k]? = some name →
        candidate.identifiers[k]? = some span →
        ∃ binding, ((Facts.extract m).exports.find? fun other => other.span.contains span.start) =
          some binding ∧
          binding.exported = name ∧ binding.span = span ∧ binding.origin.AgreesWith
            (statement.specifier? m.text)) ∧
    ∀ (σ : Type) [FileStore σ] [LawfulStore σ] (stores : List σ) (store : σ),
      (Project.syncedWith stores).revision ≠ some (FileStore.revision store) →
      ((Project.syncedWith stores).sync store).1 = .ok () → FileStore.contains store file = true →
      (∀ path ∈ FileStore.files store, path.parts = file.parts → FileStore.read store path =
        .ok text) →
      let project := ((Project.syncedWith stores).sync store).2
      (∃ verdict, candidate.classify project store file = (.ok verdict, project)) ∧
        ∀ cause, ¬ candidate.Meets store file cause candidate.positions project := by
  obtain ⟨lengths, statement, stated, isExport, place, items⟩ :=
    m.candidate_stated file text marker parsed candidate member
  have isProgram := (SourceModule.parse_program file text m parsed).2
  have indexed : ∀ (k : Nat) (name : String) (span : Span), candidate.names[k]? = some name →
      candidate.identifiers[k]? = some span →
      ∃ binding, ((Facts.extract m).exports.find? fun other => other.span.contains span.start) =
      some binding ∧
        binding.exported = name ∧ binding.span = span ∧ binding.origin.AgreesWith
        (statement.specifier? m.text) := by
    intro k name span named identified
    have item : (name, span) ∈ candidate.items :=
      List.mem_of_getElem? (List.getElem?_zip_eq_some.mpr ⟨named, identified⟩)
    obtain ⟨binding, bound, same, agrees⟩ := items (name, span) item
    obtain ⟨rfl, rfl⟩ := Prod.mk.inj same
    exact ⟨binding, Facts.export_at_place m isProgram statement stated binding bound, rfl,
      rfl, agrees⟩
  refine ⟨lengths, ⟨statement, stated, isExport, place, indexed⟩, ?_⟩
  intro σ _ _ stores store stale done held reads project
  have facts : project.facts? file = some (Facts.extract m) := by
    rw [Project.synced_facts _ store (Project.synced_with_indexed stores) stale done file text
      (SourceModule.parse_is_source file text m parsed) held reads, Facts.ofText, parsed]
  refine classify_at_answered project store (Project.synced_revision _ store done) file candidate _
    fun position asked => ?_
  obtain ⟨span, identified, rfl⟩ := List.mem_map.mp asked
  obtain ⟨k, small, here⟩ := List.mem_iff_getElem.mp identified
  have named := List.getElem?_eq_getElem (lengths ▸ small : k < candidate.names.length)
  obtain ⟨binding, found, -⟩ := indexed k _ span named (List.getElem?_eq_some_iff.mpr ⟨small, here⟩)
  exact ⟨_, symbol_at_export project _ span.start binding facts found⟩

def renamed : String := "export \x7b q as \"r s\" \x7d from './b';\n"

def renamedStore : MemoryStore := .ofList [(⟨"/a.ts"⟩, renamed),
      (⟨"/b.ts"⟩, "export const q = 1;\n")]

theorem renamed_export_is_indexed :
    let project := ((Project.syncedWith ([] : List MemoryStore)).sync renamedStore).2
    ∃ m candidate, SourceModule.parse ⟨"/a.ts"⟩ renamed = .ok m ∧
      candidate ∈ (m.scan defaultMarker).candidates ∧
      candidate.names = ["r s"] ∧ candidate.identifiers = [⟨9, 10⟩] ∧
      (∃ binding, ((Facts.extract m).exports.find? fun other => other.span.contains 9) =
        some binding ∧
        binding.exported = "r s" ∧ binding.span = ⟨9, 10⟩ ∧ binding.origin.AgreesWith
          (some "./b")) ∧
      (∃ verdict, candidate.classify project renamedStore ⟨"/a.ts"⟩ = (.ok verdict, project)) ∧
        ∀ cause, ¬ candidate.Meets renamedStore ⟨"/a.ts"⟩ cause candidate.positions project := by
  intro project
  have known : (SourceModule.parse ⟨"/a.ts"⟩ renamed).toOption.map (fun m =>
      ((m.scan defaultMarker).candidates.map fun candidate =>
        (candidate.names, candidate.identifiers),
        m.statements.all fun statement => statement.specifier? m.text == some "./b")) =
      some ([(["r s"], [⟨9, 10⟩])], true) := by
    decide +kernel
  obtain ⟨m, parsed, facts⟩ := Option.map_eq_some_iff.mp known
  obtain ⟨candidates, modules⟩ := Prod.mk.inj facts
  obtain ⟨candidate, only, named⟩ := List.map_eq_singleton_iff.mp candidates
  obtain ⟨names, identifiers⟩ := Prod.mk.inj named
  have parsed := except_some parsed
  have member : candidate ∈ (m.scan defaultMarker).candidates :=
    only ▸ List.mem_singleton_self candidate
  obtain ⟨-, ⟨statement, stated, -, -, indexed⟩, classified⟩ :=
    candidates_are_indexed ⟨"/a.ts"⟩ renamed defaultMarker m parsed candidate member
  obtain ⟨binding, found, exported, span, agrees⟩ := indexed 0 "r s" ⟨9, 10⟩ (by rw [names]; rfl)
    (by rw [identifiers]; rfl)
  rw [beq_iff_eq.mp (List.all_eq_true.mp modules statement stated)] at agrees
  have done := (Project.sync_mirrors .empty .empty renamedStore Project.empty_mirrors
    (Project.resolve_alike_empty renamedStore) nofun).1
  refine ⟨m, candidate, parsed, member, names, identifiers,
    ⟨binding, found, exported, span, agrees⟩, ?_⟩
  refine classified MemoryStore [] renamedStore nofun done (by decide +kernel) fun path _ same => ?_
  have found : renamedStore.texts.get? ⟨"/a.ts"⟩ = some renamed := by decide +kernel
  exact renamedStore.read_of_get path renamed (renamedStore.texts.get_congr path _ same ▸ found)

end Candidate
end DeadExports

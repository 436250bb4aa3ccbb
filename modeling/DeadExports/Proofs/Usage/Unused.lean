import DeadExports.Proofs.Candidate.Scan
import DeadExports.Proofs.Project.Reach
import DeadExports.Proofs.Source.Program
import DeadExports.Proofs.Usage.Verdict

set_option autoImplicit false

namespace DeadExports

namespace SourceModule

theorem text_of_load (store : MemoryStore) (file : Path) (m : SourceModule)
    (loaded : load store file = .ok m) :
    ∃ text, store.texts.get? file = some text ∧ parse file text = .ok m := by
  rw [load] at loaded
  cases found : store.texts.get? file with
  | none =>
      have absent : FileStore.read store file = .error (.notInStore file) := by
        change store.read file = _
        rw [MemoryStore.read, found]
      rw [absent] at loaded
      cases loaded
  | some text =>
      rw [store.read_of_get file text found] at loaded
      exact ⟨text, rfl, loaded⟩

theorem facts_of_load (store : MemoryStore) (file : Path) (m : SourceModule) (facts : Facts)
    (loaded : load store file = .ok m) (known : (Project.indexOf store).facts? file = some facts) :
    facts = Facts.extract m := by
  obtain ⟨text, found, parsed⟩ := text_of_load store file m loaded
  rw [Project.facts_in, found] at known
  split at known
  next =>
      rw [Option.map_some, Facts.ofText, parsed] at known
      exact (Option.some.inj known).symm
  next => cases known

theorem program_of_load (store : MemoryStore) (file : Path) (m : SourceModule)
    (loaded : load store file = .ok m) :
    m.tree.kind = .program := by
  obtain ⟨text, -, parsed⟩ := text_of_load store file m loaded
  exact (parse_program file text m parsed).2

end SourceModule

namespace Candidate

variable {store : MemoryStore} {file : Path} {m : SourceModule} {marker : String}
    {candidate : Candidate}

theorem symbol_at_export (project : Project) (facts : Facts) (position : Nat)
    (binding : ExportBinding) (known : project.facts? file = some facts)
    (found : (facts.exports.find? fun binding => binding.span.contains position) = some binding) :
    project.symbolAt file position =
      .ok (project.originSymbol project.lookup file binding.exported binding.origin []).1 := by
  rw [Project.symbolAt, known]
  dsimp only
  rw [found]

-- Nobody but its own file and the files that forward it refers to what an unused name stands for,
-- and whoever follows the name comes there.
theorem unused_gives (loaded : SourceModule.load store file = .ok m)
    (member : candidate ∈ (m.scan marker).candidates)
    (unused : candidate.verdict store file = .ok .unused) (name : String) (span : Span)
    (item : (name, span) ∈ candidate.items) :
    ∃ symbol, (Project.indexOf store).Gives symbol ⟨file, name⟩ ∧
      ∀ path place, (Project.indexOf store).Refers symbol path place → path.parts ≠ file.parts →
        (candidate.forwarders store file span.start).contains path = true := by
  obtain ⟨-, position⟩ := candidate.item_position name span item
  obtain ⟨symbol, answer, only⟩ := unused_references file candidate unused span.start position
  cases known : (Project.indexOf store).facts? file with
  | none =>
      rw [Project.symbolAt, known] at answer
      cases answer
  | some facts =>
      obtain rfl := SourceModule.facts_of_load store file m facts loaded known
      obtain ⟨counted, adds⟩ := m.scan_adds marker
      obtain ⟨statement, stated, binding, bound, same⟩ := (adds.proper candidate member).2
        (name, span) item
      obtain ⟨rfl, rfl⟩ := Prod.mk.inj same
      have found := Facts.export_at_place m (SourceModule.program_of_load store file m loaded)
        statement stated binding bound
      rw [symbol_at_export _ _ _ binding known found] at answer
      have stands := Except.ok.inj answer
      refine ⟨symbol, ?_, ?_⟩
      · have indexed := Project.index_of_indexed store
        rw [← stands]
        exact Project.origin_gives indexed (Project.lookup_found _ indexed) file _ binding [] known
          (List.mem_of_find?_eq_some found)
      · rintro path place ⟨reference, refers, alike⟩ apart
        have parts : reference.file.parts = path.parts := congrArg Prod.fst alike
        refine contains_of_same _ reference.file path ((Path.same_iff _ _).mpr parts) ?_
        exact only reference refers (parts ▸ apart)

theorem unused_use (loaded : SourceModule.load store file = .ok m)
    (member : candidate ∈ (m.scan marker).candidates)
    (unused : candidate.verdict store file = .ok .unused) (name : String) (span : Span)
    (item : (name, span) ∈ candidate.items) (key : ExportKey)
    (leads : (Project.indexOf store).Leads key file name) (importer : Path)
    (apart : importer.parts ≠ file.parts) (place : Span)
    (use : ⟨importer, place⟩ ∈ (Project.indexOf store).usesIn key importer) :
    (candidate.forwarders store file span.start).contains importer = true := by
  obtain ⟨symbol, given, only⟩ := unused_gives loaded member unused name span item
  have indexed := Project.index_of_indexed store
  have reached := Project.leads_gives indexed key file name leads given
  exact only importer place (Project.use_refers indexed importer key place use reached) apart

end Candidate
end DeadExports

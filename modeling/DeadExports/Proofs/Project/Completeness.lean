import DeadExports.Proofs.Facts.Places
import DeadExports.Proofs.Project.Mirror
import DeadExports.Proofs.Project.Referring
import DeadExports.Proofs.Source.Program
import DeadExports.Usage.Verdict

set_option autoImplicit false

namespace DeadExports

theorem Facts.of_text_tidy (path : Path) (text : String) : (Facts.ofText path text).Tidy := by
  rw [Facts.ofText]
  split
  next m parsed =>
      exact Facts.tidy_of_laid_out m.text m.tree m.laidOut
        (by rw [(SourceModule.parse_program path text m parsed).2]; rfl)
  next =>
      constructor
      · intro span member
        cases member
      · intro span member
        cases member

def Facts.BindsOnce (facts : Facts) : Prop := (facts.imports.map ImportBinding.bound).Nodup

theorem Facts.import_of_bound (facts : Facts) (once : facts.BindsOnce) (binding : ImportBinding)
    (member : binding ∈ facts.imports) : facts.importOf? binding.bound = some binding := by
  rw [Facts.importOf?]
  rw [Facts.BindsOnce] at once
  generalize facts.imports = imports at member once
  induction imports with
  | nil => cases member
  | cons first rest ih =>
      rw [List.map_cons, List.nodup_cons] at once
      rcases List.mem_cons.mp member with rfl | later
      · simp
      · have apart : first.bound ≠ binding.bound := by
          intro same
          exact once.1 (same ▸ List.mem_map_of_mem later)
        rw [List.find?_cons_of_neg (by simpa using apart)]
        exact ih later once.2

namespace Project

theorem indexed_tidy (project : Project) (indexed : project.Indexed) (file : Path) (facts : Facts)
    (known : project.facts? file = some facts) : facts.Tidy := by
  obtain ⟨entry, present, rfl⟩ := Option.map_eq_some_iff.mp known
  rw [(indexed.facts file entry present).2]
  exact Facts.of_text_tidy file entry.text

theorem contains_start (span : Span) (filled : span.start < span.stop) :
    span.contains span.start = true := by
  simp [Span.contains, filled]

theorem symbol_at_refers (project : Project) (indexed : project.Indexed) (file : Path)
    (facts : Facts) (span : Span) (symbol : Symbol) (known : project.facts? file = some facts)
    (once : facts.BindsOnce) (member : span ∈ facts.places)
    (answer : project.symbolAt file span.start = .ok symbol) : project.Refers symbol file span := by
  have tidy := indexed_tidy project indexed file facts known
  have sound := lookup_found project indexed
  have covered := contains_start span (tidy.filled span member)
  rw [symbolAt, known] at answer
  dsimp only at answer
  split at answer
  next binding found =>
      have listed := List.mem_of_find?_eq_some found
      have placed : binding.span ∈ facts.places :=
        List.mem_append_left _ (List.mem_append_left _ (List.mem_map_of_mem listed))
      rw [tidy.apart span member binding.span placed _ covered
        (by simpa using List.find?_some found)]
      obtain rfl := Except.ok.inj answer
      exact export_refers indexed sound file facts binding [] known listed
  next =>
      split at answer
      next binding found =>
          have listed := List.mem_of_find?_eq_some found
          have placed : binding.span ∈ facts.places :=
            List.mem_append_left _ (List.mem_append_right _ (List.mem_map_of_mem listed))
          rw [tidy.apart span member binding.span placed _ covered
            (by simpa using List.find?_some found)]
          obtain rfl := Except.ok.inj answer
          exact import_place_refers indexed sound file facts binding [] known listed
            (Facts.import_of_bound facts once binding listed)
      next =>
          split at answer
          next name found =>
              obtain ⟨⟨_, place⟩, hit, rfl⟩ := Option.map_eq_some_iff.mp found
              have listed := List.mem_of_find?_eq_some hit
              have placed : place ∈ facts.places := List.mem_append_right _ (List.mem_map.mpr
                ⟨_, listed, rfl⟩)
              rw [tidy.apart span member place placed _ covered
                (by simpa using List.find?_some hit)]
              obtain rfl := Except.ok.inj answer
              exact occurrence_refers indexed sound file facts _ place [] known listed
          next => cases answer

variable {σ : Type} [FileStore σ]

theorem sync_settles (project : Project) (store : σ) (done : (project.sync store).1 = .ok ()) :
    (project.sync store).2.sync store = (.ok (), (project.sync store).2) := by
  apply sync_current
  by_cases current : project.revision = some (FileStore.revision store)
  · rw [sync_current project store current]
    exact current
  · rw [sync_stale project store current] at done ⊢
    cases read : Update.readAll store (sourcesOf store) (project.presentIn store) with
    | mk result update =>
        cases result with
        | error cause =>
            rw [read] at done
            cases done
        | ok => rfl

theorem symbol_at_known (project : Project) (file : Path) (position : Nat) (facts : Facts)
    (known : project.facts? file = some facts) :
    (∃ symbol, project.symbolAt file position = .ok symbol) ∨ project.symbolAt file position =
      .error (.noSymbol file position) := by
  rw [symbolAt, known]
  dsimp only
  split
  next => exact .inl ⟨_, rfl⟩
  next =>
      split
      next => exact .inl ⟨_, rfl⟩
      next =>
          split
          next => exact .inl ⟨_, rfl⟩
          next => exact .inr rfl

theorem classify_at_used (project : Project) (store : σ)
    (current : project.sync store = (.ok (), project)) (file : Path) (candidate : Candidate)
    (plain : candidate.specifier = none) (facts : Facts) (known : project.facts? file = some facts)
    (position : Nat) (symbol : Symbol) (answer : project.symbolAt file position = .ok symbol)
    (reference : Reference) (refers : reference ∈ project.referencesTo symbol)
    (apart : (reference.file == file) = false) (positions : List Nat)
    (member : position ∈ positions) :
    (candidate.classifyAt store file positions project).1 = .ok .used := by
  induction positions with
  | nil => cases member
  | cons first rest ih =>
      have asked : LanguageService.findReferences project store file first =
          ((project.symbolAt file first).map project.referencesTo, project) :=
        current_find_references project store current file first
      rw [Candidate.classifyAt, asked]
      rcases symbol_at_known project file first facts known with ⟨found, here⟩ | here
      · rw [here]
        simp only [Except.map, Candidate.isUsedBy, plain]
        cases others : ((project.referencesTo found).filter fun reference =>
          !(reference.file == file)).isEmpty with
        | false => rfl
        | true =>
            rcases List.mem_cons.mp member with rfl | later
            · obtain rfl : symbol = found := Except.ok.inj (answer.symm.trans here)
              have none := List.isEmpty_iff.mp others
              have kept : reference ∈ (project.referencesTo symbol).filter fun reference =>
                !(reference.file == file) :=
                List.mem_filter.mpr ⟨refers, by simp [apart]⟩
              rw [none] at kept
              cases kept
            · exact ih later
      · rw [here]
        rfl

def syncedWith (stores : List σ) :
    Project := stores.foldl (fun project store => (project.sync store).2) .empty

theorem synced_with_indexed [LawfulStore σ] (stores : List σ) : (syncedWith stores).Indexed := by
  have folded : ∀ (stores : List σ) (project : Project), project.Indexed →
      (stores.foldl (fun project store => (project.sync store).2) project).Indexed := by
    intro stores
    induction stores with
    | nil => exact fun project indexed => indexed
    | cons first rest ih => exact fun project indexed => ih _ (sync_indexed project first indexed)
  exact folded stores .empty empty_indexed

-- Searching for references is complete: whatever leads to a symbol is found from the symbol. So two
-- places with one symbol find each other, and a candidate whose symbol another file leads to is
-- used.
theorem references_complete [LawfulStore σ] (stores : List σ) (store : σ)
    (done : ((syncedWith stores).sync store).1 = .ok ())
    (once : ∀ file facts, ((syncedWith stores).sync store).2.facts? file = some facts →
      facts.BindsOnce) :
    let project := ((syncedWith stores).sync store).2
    (∀ file facts span symbol, project.facts? file = some facts → span ∈ facts.places →
      project.symbolAt file span.start = .ok symbol → project.Refers symbol file span) ∧
    (∀ file facts span other others place symbol alike, project.facts? file = some facts →
      span ∈ facts.places →
      project.facts? other = some others → place ∈ others.places →
      project.symbolAt file span.start = .ok symbol →
      project.symbolAt other place.start = .ok alike → alike.Same symbol →
      ∃ references, (project.findReferences store file span.start).1 = .ok references ∧
        ∃ reference ∈ references, reference.place = (other.parts, place)) ∧
    (∀ (candidate : Candidate) file position symbol other others place alike,
      candidate.specifier = none →
      position ∈ candidate.positions → project.symbolAt file position = .ok symbol →
      other.parts ≠ file.parts →
      project.facts? other = some others → place ∈ others.places →
      project.symbolAt other place.start = .ok alike →
      alike.Same symbol → (candidate.classify project store file).1 = .ok .used) := by
  intro project
  have indexed : project.Indexed := sync_indexed _ store (synced_with_indexed stores)
  have current : project.sync store = (.ok (), project) := sync_settles _ store done
  have complete : ∀ file facts span symbol, project.facts? file = some facts → span ∈ facts.places →
      project.symbolAt file span.start = .ok symbol → project.Refers symbol file span := by
    intro file facts span symbol known member answer
    exact symbol_at_refers project indexed file facts span symbol known (once file facts known)
      member answer
  refine ⟨complete, ?_, ?_⟩
  · intro file facts span other others place symbol alike _ _ otherKnown placed answer
      otherAnswer same
    have refers := complete other others place alike otherKnown placed otherAnswer
    refine ⟨project.referencesTo symbol, ?_, refers_same project alike symbol same other
      place refers⟩
    rw [current_find_references project store current, answer]
    rfl
  · intro candidate file position symbol other others place alike plain asked answer apart
      otherKnown placed otherAnswer same
    obtain ⟨reference, refers, spot⟩ := refers_same project alike symbol same other place
      (complete other others place alike otherKnown placed otherAnswer)
    have known : ∃ facts, project.facts? file = some facts := by
      rw [symbolAt] at answer
      cases found : project.facts? file with
      | none => simp [found] at answer
      | some facts => exact ⟨facts, rfl⟩
    obtain ⟨facts, known⟩ := known
    have elsewhere : (reference.file == file) = false := by
      have parts : reference.file.parts = other.parts := congrArg Prod.fst spot
      rw [Path.same_eq_decide, parts]
      simpa using apart
    exact classify_at_used project store current file candidate plain facts known position symbol
      answer reference refers
      elsewhere candidate.positions asked

def aliasedStore : MemoryStore :=
  .ofList [(⟨"/p/a.ts"⟩, "export const x = 1;\n"),
    (⟨"/p/b.ts"⟩, "import { x as y } from './a';\ny;\n")]

theorem aliased_use_is_found :
    let project := ((syncedWith ([] : List MemoryStore)).sync aliasedStore).2
    ∃ symbol, project.symbolAt ⟨"/p/b.ts"⟩ 30 = .ok symbol ∧ project.Refers symbol ⟨"/p/b.ts"⟩
      ⟨30, 31⟩ := by
  intro project
  have done := (sync_mirrors .empty .empty aliasedStore empty_mirrors
    (resolve_alike_empty aliasedStore)
    (by intro current; cases current)).1
  have checked : (project.files.entries.all fun entry =>
    decide (entry.2.facts.imports.map ImportBinding.bound).Nodup) &&
      ((project.facts? ⟨"/p/b.ts"⟩).any fun facts => facts.places.contains ⟨30, 31⟩) &&
      (project.symbolAt ⟨"/p/b.ts"⟩ 30).isOk = true := by decide +kernel
  simp only [Bool.and_eq_true, List.all_eq_true, decide_eq_true_eq, Option.any_eq_true,
    List.contains_iff_mem] at checked
  obtain ⟨⟨once, facts, known, placed⟩, answered⟩ := checked
  have complete := references_complete ([] : List MemoryStore) aliasedStore done (by
    intro file facts known
    obtain ⟨entry, member, -, rfl⟩ := entry_of_facts project file facts known
    exact once entry member)
  cases answer : project.symbolAt ⟨"/p/b.ts"⟩ 30 with
  | error cause => simp [answer, Except.isOk, Except.toBool] at answered
  | ok symbol =>
      exact ⟨symbol, rfl, complete.1 ⟨"/p/b.ts"⟩ facts ⟨30, 31⟩ symbol known
        placed answer⟩

end Project
end DeadExports

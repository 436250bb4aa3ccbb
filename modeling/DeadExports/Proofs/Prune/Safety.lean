import DeadExports.Proofs.Project.Edit
import DeadExports.Proofs.Prune.Pass

set_option autoImplicit false

namespace DeadExports

namespace Sweep

def gone (sweep : Sweep) :
    List String := sweep.unused.flatMap fun candidate => candidate.items.map Prod.fst

def KeepsRest (file : Path) (sweep : Sweep) : Prop :=
  Facts.KeepsRest sweep.gone (Facts.ofText file (Project.textIn sweep.before file))
    (Facts.ofText file (Project.textIn sweep.after file))

instance (file : Path) (sweep : Sweep) : Decidable (sweep.KeepsRest file) :=
  inferInstanceAs (Decidable (Facts.KeepsRest _ _ _))

def TakesThrough (file importer : Path) (key : ExportKey) (sweep : Sweep) : Prop :=
  ∃ candidate ∈ sweep.unused, ∃ item ∈ candidate.items,
    (candidate.forwarders sweep.before file item.2.start).contains importer = true ∧
      (Project.indexOf sweep.before).Leads key file item.1

variable {options : PruneOptions} {file : Path}

theorem takes_through (sweep : Sweep) (found : of? options file sweep.before = some sweep)
    (importer : Path) (other : importer.parts ≠ file.parts) (key : ExportKey)
    (taken : key ∈ (Project.indexOf sweep.before).sources importer) (name : String)
    (removed : sweep.gone.contains name = true)
    (leads : (Project.indexOf sweep.before).Leads key file name) :
    sweep.TakesThrough file importer key := by
  obtain ⟨-, m, edited, loaded, unused, -⟩ := of_cases sweep.before sweep found
  obtain ⟨candidate, member, named⟩ := List.mem_flatMap.mp (List.contains_iff_mem.mp removed)
  obtain ⟨⟨_, span⟩, item, rfl⟩ := List.mem_map.mp named
  obtain ⟨listed, verdict⟩ := (m.mem_unused _ sweep.before file candidate).mp (unused ▸ member)
  obtain ⟨place, use⟩ := Project.source_used importer key taken
  exact ⟨candidate, member, _, item, Candidate.unused_use loaded listed verdict _ span item key
    leads importer other place use,
    leads⟩

theorem sweep_keeps (sweep : Sweep) (found : of? options file sweep.before = some sweep)
    (keeps : sweep.KeepsRest file) (importer : Path) (other : importer.parts ≠ file.parts)
    (key : ExportKey) (taken : key ∈ (Project.indexOf sweep.before).sources importer)
    (apart : ¬ sweep.TakesThrough file importer key) :
    (Project.indexOf sweep.after).sources importer = (Project.indexOf sweep.before).sources
      importer ∧
      (Project.indexOf sweep.after).lookup key [] = (Project.indexOf sweep.before).lookup
        key [] := by
  obtain ⟨-, m, edited, loaded, -, after⟩ := of_cases sweep.before sweep found
  obtain ⟨text, present, -⟩ := SourceModule.text_of_load sweep.before file m loaded
  have held : FileStore.contains sweep.before file = true := by
    rw [MemoryStore.contains_eq, present]
    rfl
  rw [KeepsRest, after] at keeps
  rw [after]
  refine ⟨Project.rewritten_sources edited held importer other, ?_⟩
  refine Project.rewritten_lookup edited held sweep.gone ?_ key fun name removed leads => ?_
  · intro before later known still
    rw [Project.facts_text _ file before known, Project.facts_text _ file later still]
    exact keeps
  · exact apart (takes_through sweep found importer other key taken name removed leads)

end Sweep

namespace Workspace

theorem imports_survive (options : PruneOptions) (file : Path) (outcome : Outcome)
    (space last : Workspace Project MemoryStore) (follows : space.service.Follows space.store)
    (keepsFile : options.deleteFiles = false) (plain : options.cleanup = false)
    (ran : (pruneFile options file).run.run space = (.ok outcome, last))
    (faithful : ∀ sweep ∈ Sweep.all options file space.store, sweep.KeepsRest file)
    (importer : Path) (other : importer.parts ≠ file.parts) (key : ExportKey)
    (taken : key ∈ (Project.indexOf space.store).sources importer)
    (apart : ∀ sweep ∈ Sweep.all options file space.store, ¬ sweep.TakesThrough file importer key)
    (symbol : Symbol) (resolved : ((Project.indexOf space.store).lookup key []).1 = some symbol) :
    (Project.indexOf last.store).sources importer = (Project.indexOf space.store).sources importer ∧
      ((Project.indexOf last.store).lookup key []).1 = some symbol := by
  have settled : last.store = Sweep.settled space.store (Sweep.all options file space.store) := by
    rcases prune_file_ok options file outcome space last follows ran with ⟨-, deleted⟩ | ⟨-, store⟩
    · generalize last.store = store at deleted
      cases deleted with
      | deleted m _ _ _ allowed => simp [mayDelete, keepsFile] at allowed
    · exact store plain
  rw [settled]
  refine Sweep.within_keeps (fun store => (Project.indexOf store).sources importer =
    (Project.indexOf space.store).sources importer ∧ ((Project.indexOf store).lookup key []).1 =
    some symbol) _ space.store
    ⟨rfl, resolved⟩ ?_
  rintro sweep member found ⟨sources, stands⟩
  obtain ⟨still, same⟩ := sweep.sweep_keeps found (faithful sweep member) importer other key
    (sources ▸ taken)
    (apart sweep member)
  exact ⟨still.trans sources, same ▸ stands⟩

def definedIn (store : MemoryStore) (file : Path) (name : String) : Option String :=
  ((Project.indexOf store).lookup ⟨file, name⟩ []).1.map fun symbol => symbol.file.spelling

def halfUsed : List (Path × String) :=
  [(⟨"/b.ts"⟩, "export let x;\nexport let z;\n"), (⟨"/c.ts"⟩, "import { x } from './b';\n")]

theorem kept_import_survives :
    ∃ last, (pruneFile {} ⟨"/b.ts"⟩).run.run (fresh halfUsed) = (.ok (.pruned 1 1), last) ∧
      definedIn last.store ⟨"/b.ts"⟩ "x" = some "/b.ts" := by
  have ran := ran_of_outcome {} ⟨"/b.ts"⟩ (fresh halfUsed) (.pruned 1 1) (by decide +kernel)
  have swept : ((Sweep.all {} ⟨"/b.ts"⟩ (fresh halfUsed).store).map fun sweep =>
      (Project.textIn sweep.before ⟨"/b.ts"⟩, Project.textIn sweep.after ⟨"/b.ts"⟩, sweep.gone,
        sweep.unused.any fun candidate => candidate.items.any fun item =>
          (candidate.forwarders sweep.before ⟨"/b.ts"⟩ item.2.start).contains ⟨"/c.ts"⟩)) =
      [("export let x;\nexport let z;\n", "export let x;\nlet z;\n", ["z"], false)] := by
        decide +kernel
  have each (sweep : Sweep) (member : sweep ∈ Sweep.all {} ⟨"/b.ts"⟩ (fresh halfUsed).store) :=
    List.mem_singleton.mp (swept ▸ List.mem_map_of_mem member)
  simp only [Prod.mk.injEq] at each
  have keeps : Facts.KeepsRest ["z"] (Facts.ofText ⟨"/b.ts"⟩ "export let x;\nexport let z;\n")
      (Facts.ofText ⟨"/b.ts"⟩ "export let x;\nlet z;\n") := by decide +kernel
  have asked : ((Project.indexOf (fresh halfUsed).store).sources ⟨"/c.ts"⟩).map (fun key =>
    (key.file.spelling, key.name)) =
      [("/b.ts", "x")] ∧ definedIn (fresh halfUsed).store ⟨"/b.ts"⟩ "x" = some "/b.ts" := by
        decide +kernel
  obtain ⟨⟨⟨spelling⟩, name⟩, taken, same⟩ :=
    List.mem_map.mp (asked.1 ▸ List.mem_singleton_self ("/b.ts", "x"))
  obtain ⟨rfl, rfl⟩ := Prod.mk.inj same
  obtain ⟨symbol, resolved, defined⟩ := Option.map_eq_some_iff.mp asked.2
  obtain ⟨-, stands⟩ := imports_survive {} ⟨"/b.ts"⟩ (.pruned 1 1) (fresh halfUsed) _
    (Project.empty_follows _) rfl rfl ran
    (fun sweep member => by
      obtain ⟨before, after, gone, -⟩ := each sweep member
      rw [Sweep.KeepsRest, before, after, gone]
      exact keeps)
    ⟨"/c.ts"⟩ (by decide +kernel) _ taken
    (fun sweep member => by
      rintro ⟨candidate, unused, item, listed, forwards, -⟩
      obtain ⟨-, -, -, none⟩ := each sweep member
      simp only [List.any_eq_false, Bool.not_eq_true] at none
      exact absurd forwards (by simp [none candidate unused item listed]))
    symbol resolved
  exact ⟨_, ran, by rw [definedIn, stands, Option.map_some, defined]⟩

def circular : List (Path × String) :=
  [(⟨"/a.ts"⟩, "import { x as y } from './b';\nexport let x;\n"),
    (⟨"/b.ts"⟩, "export { x } from './a';\n")]

def slashed : List (Path × String) :=
  [(⟨"/f.ts"⟩, "export * from './w';\nlet x = 1\nexport { x };\n/ 2; export let q; x/g\n"),
    (⟨"/g.ts"⟩, "import { q } from './f';\n"), (⟨"/w.ts"⟩, "export let q;\n")]

-- What may go wrong otherwise: a file that forwards a name takes it through the very export that
-- goes, or the text that is left reads differently.
theorem import_is_lost :
    (((pruneFile {} ⟨"/b.ts"⟩).run.run (fresh circular)).1.toOption = some (.pruned 1 1) ∧
        ((Project.indexOf (fresh circular).store).sources ⟨"/a.ts"⟩).contains
          ⟨⟨"/b.ts"⟩, "x"⟩ = true ∧
        definedIn (fresh circular).store ⟨"/b.ts"⟩ "x" = some "/a.ts" ∧
        definedIn ((pruneFile {} ⟨"/b.ts"⟩).run.run (fresh circular)).2.store
          ⟨"/b.ts"⟩ "x" = none) ∧
      ((pruneFile {} ⟨"/f.ts"⟩).run.run (fresh slashed)).1.toOption = some (.pruned 1 1) ∧
        ((Project.indexOf (fresh slashed).store).sources ⟨"/g.ts"⟩).contains
          ⟨⟨"/f.ts"⟩, "q"⟩ = true ∧
        definedIn (fresh slashed).store ⟨"/f.ts"⟩ "q" = some "/w.ts" ∧
        definedIn ((pruneFile {} ⟨"/f.ts"⟩).run.run (fresh slashed)).2.store ⟨"/f.ts"⟩ "q" =
          some "/f.ts" := by
  decide +kernel

end Workspace
end DeadExports

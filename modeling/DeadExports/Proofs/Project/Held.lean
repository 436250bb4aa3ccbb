import DeadExports.Proofs.Project.Failure

set_option autoImplicit false

namespace DeadExports.Project

namespace Update

theorem took_knows (update : Update) (path query : Path) (text other : String)
    (known : update.knows query text = true ∨ path.parts = query.parts)
    (alike : path.parts = query.parts → other = text) :
    (update.took path other).knows query text = true := by
  rw [knows, took_get]
  by_cases here : path.parts = query.parts
  · obtain rfl := alike here
    rw [(Path.same_iff path query).mpr here]
    cases held : update.knows query other with
    | true => simpa [knows] using held
    | false => simp [freshEntry]
  · have apart : (path == query) = false := by
      rw [Path.same_eq_decide]
      simpa using here
    rw [apart]
    simpa [knows] using known.resolve_right here

theorem read_all_knows {σ : Type} [FileStore σ] (store : σ) (paths : List Path) (update : Update)
    (query : Path) (text : String) (sources : ∀ path ∈ paths, path.isSource = true)
    (reads : ∀ path ∈ paths, path.parts = query.parts → FileStore.read store path = .ok text)
    (known : update.knows query text = true ∨ Listed paths query)
    (done : (readAll store paths update).1 = .ok ()) :
    (readAll store paths update).2.knows query text = true := by
  induction paths generalizing update with
  | nil =>
      refine known.resolve_right ?_
      rintro ⟨_, member, -⟩
      cases member
  | cons first rest ih =>
      rw [readAll] at done ⊢
      cases reading : FileStore.read store first with
      | error cause =>
          rw [reading] at done
          cases done
      | ok other =>
          rw [reading] at done
          dsimp only at done ⊢
          rw [take_source update first other (sources first List.mem_cons_self)] at done ⊢
          -- Another spelling of the file that comes later reads the same, so what is known stays
          -- known.
          have alike : first.parts = query.parts → other = text := by
            intro here
            rw [reads first List.mem_cons_self here] at reading
            exact (Except.ok.inj reading).symm
          refine ih (update.took first other)
            (fun path member => sources path (List.mem_cons_of_mem first member))
            (fun path member => reads path (List.mem_cons_of_mem first member)) ?_ done
          rw [listed_cons] at known
          by_cases later : Listed rest query
          · exact .inr later
          · refine .inl (update.took_knows first query text other ?_ alike)
            rcases known with old | here | listed
            · exact .inl old
            · exact .inr here
            · exact absurd listed later

end Update

variable {σ : Type} [FileStore σ] [LawfulStore σ]

theorem synced_facts (project : Project) (store : σ) (indexed : project.Indexed)
    (stale : project.revision ≠ some (FileStore.revision store))
    (done : (project.sync store).1 = .ok ()) (file : Path) (text : String)
    (source : file.isSource = true) (held : FileStore.contains store file = true)
    (reads : ∀ path ∈ FileStore.files store, path.parts = file.parts → FileStore.read store path =
      .ok text) :
    (project.sync store).2.facts? file = some (Facts.ofText file text) := by
  have after := sync_indexed project store indexed
  rw [sync_stale project store stale] at done after ⊢
  cases read : Update.readAll store (sourcesOf store) (project.presentIn store) with
  | mk result update =>
      rw [read] at done after
      cases result with
      | error cause => cases done
      | ok =>
          have knows := Update.read_all_knows store (sourcesOf store) (project.presentIn store)
            file text
            (sources_isSource store) (fun path member => reads path (List.mem_filter.mp member).1)
            (.inr ((listed_sources_iff store file).mpr ⟨source, held⟩)) (by rw [read])
          rw [read] at knows
          obtain ⟨entry, present, same⟩ := (Option.any_eq_true _ _).mp knows
          -- Linking enters the resolved modules only; the texts are those that were read.
          have content := linked_content project store update file
          rw [present, Option.map_some] at content
          obtain ⟨linked, found, alike⟩ := Option.map_eq_some_iff.mp content
          have facts := (after.facts file linked found).2
          have texts : linked.text = text := (congrArg Prod.fst alike).trans (beq_iff_eq.mp same)
          change ((project.linkedAfter store update).files.get? file).map FileEntry.facts = _
          rw [found, Option.map_some, facts, texts]

end DeadExports.Project

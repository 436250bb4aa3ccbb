import DeadExports.Proofs.Project.Reading

set_option autoImplicit false

namespace DeadExports.Project

section AnyStore

variable {σ : Type} [FileStore σ]

def presentIn (project : Project) (store : σ) :
    Update := { files := project.files.filter (FileStore.contains store) }

def setChanged (project : Project) (store : σ) (update : Update) : Bool :=
  (project.presentIn store).files.size != project.files.size || update.hasNew

def linkedAfter (project : Project) (store : σ) (update : Update) : Project :=
  if project.setChanged store update then
    (sourcesOf store).foldl (linkFile store) { project with files := update.files, graph := .empty }
  else update.changed.foldl (relinkFile store) { project with files := update.files }

theorem sync_current (project : Project) (store : σ)
    (current : project.revision = some (FileStore.revision store)) :
    project.sync store = (.ok (), project) := by
  simp [sync, current]

theorem sync_stale (project : Project) (store : σ)
    (stale : project.revision ≠ some (FileStore.revision store)) :
    project.sync store =
      match Update.readAll store (sourcesOf store) (project.presentIn store) with
      | (.error cause, update) => (.error cause, { project with files := update.files })
      | (.ok (), update) =>
        (.ok (), { project.linkedAfter store update with
          revision := some (FileStore.revision store) }) := by
  have differs : (project.revision == some (FileStore.revision store)) = false := by
    simpa using stale
  rw [sync, differs, if_neg Bool.false_ne_true]
  dsimp only [presentIn]
  generalize Update.readAll store (sourcesOf store) _ = outcome
  obtain ⟨result, update⟩ := outcome
  cases result <;> rfl

theorem sources_isSource (store : σ) (path : Path) (member : path ∈ sourcesOf store) :
    path.isSource = true :=
  (List.mem_filter.mp member).2

variable [LawfulStore σ]

theorem listed_sources_iff (store : σ) (path : Path) :
    Listed (sourcesOf store) path ↔ path.isSource = true ∧ FileStore.contains store path =
      true := by
  rw [LawfulStore.listed]
  constructor
  · rintro ⟨key, member, same⟩
    obtain ⟨listed, source⟩ := List.mem_filter.mp member
    exact ⟨Path.is_source_congr key path same ▸ source, key, listed, same⟩
  · rintro ⟨source, key, listed, same⟩
    exact ⟨key, List.mem_filter.mpr ⟨listed, Path.is_source_congr key path same ▸ source⟩, same⟩

theorem present_get (project : Project) (store : σ) (path : Path) :
    (project.presentIn store).files.get? path =
      if FileStore.contains store path then project.files.get? path else none :=
  project.files.get_filter _ path (contains_congr store)

structure Indexed (project : Project) : Prop where
  facts : ∀ path entry, project.files.get? path = some entry →
    path.isSource = true ∧ entry.facts = Facts.ofText path entry.text
  links : ∀ path entry, project.files.get? path = some entry →
    ∀ found ∈ entry.resolved, ∃ kind, project.graph.Linked path found.2 kind

theorem empty_indexed : Indexed .empty where
  facts path entry found := by cases found
  links path entry found := by cases found

structure Partial (project : Project) (store : σ) (update : Update) : Prop where
  facts : ∀ path entry, update.files.get? path = some entry →
    path.isSource = true ∧ entry.facts = Facts.ofText path entry.text
  links : ∀ path entry, update.files.get? path = some entry →
    ∀ found ∈ entry.resolved, ∃ kind, project.graph.Linked path found.2 kind
  listed : ∀ path entry, update.files.get? path = some entry → Listed (sourcesOf store) path

theorem present_partial (project : Project) (store : σ) (indexed : project.Indexed) :
    Partial project store (project.presentIn store) := by
  have known : ∀ path entry, (project.presentIn store).files.get? path = some entry →
      FileStore.contains store path = true ∧ project.files.get? path = some entry := by
    intro path entry found
    rw [present_get] at found
    split at found
    next held => exact ⟨held, found⟩
    next => cases found
  constructor
  · intro path entry found
    exact indexed.facts path entry (known path entry found).2
  · intro path entry found
    exact indexed.links path entry (known path entry found).2
  · intro path entry found
    obtain ⟨held, old⟩ := known path entry found
    exact (listed_sources_iff store path).mpr ⟨(indexed.facts path entry old).1, held⟩

omit [LawfulStore σ] in
theorem took_partial (project : Project) (store : σ) (update : Update) (path : Path) (text : String)
    (member : path ∈ sourcesOf store) (proper : Partial project store update) :
    Partial project store (update.took path text) := by
  have cases : ∀ query entry, (update.took path text).files.get? query = some entry →
      (path.parts = query.parts ∧ entry = freshEntry query text) ∨ update.files.get? query =
      some entry := by
    intro query entry found
    rw [Update.took_get] at found
    split at found
    next hit =>
        rw [Bool.and_eq_true, Path.same_iff] at hit
        exact .inl ⟨hit.1, (Option.some.inj found).symm⟩
    next => exact .inr found
  have source := sources_isSource store path member
  constructor
  · intro query entry found
    rcases cases query entry found with ⟨same, rfl⟩ | old
    · exact ⟨Path.is_source_congr path query same ▸ source, rfl⟩
    · exact proper.facts query entry old
  · intro query entry found one resolved
    rcases cases query entry found with ⟨same, rfl⟩ | old
    · cases resolved
    · exact proper.links query entry old one resolved
  · intro query entry found
    rcases cases query entry found with ⟨same, rfl⟩ | old
    · exact ⟨path, member, same⟩
    · exact proper.listed query entry old

omit [LawfulStore σ] in
theorem resolved_entry_depends (store : σ) (project : Project) (path : Path) (entry : FileEntry)
    (present : project.files.get? path = some entry) (found : String × Path)
    (member : found ∈ (resolvedEntry store path entry).resolved) :
    ∃ kind, project.Depends store path found.2 kind := by
  obtain ⟨one, resolved, rfl⟩ := List.mem_map.mp member
  exact ⟨one.2.2, entry, present, one, resolved, rfl, rfl⟩

omit [LawfulStore σ] in
theorem linked_after_indexed (project : Project) (store : σ) (update : Update)
    (proper : Partial project store update) : (project.linkedAfter store update).Indexed := by
  rw [linkedAfter]
  split
  next =>
      have rebuilt (path : Path) (entry : FileEntry)
          (found : ((sourcesOf store).foldl (linkFile store)
            { project with files := update.files, graph := .empty }).files.get? path = some entry) :
          ∃ old, update.files.get? path = some old ∧ Listed (sourcesOf store) path ∧
          entry = resolvedEntry store path old := by
        by_cases listed : Listed (sourcesOf store) path
        · rw [fold_listed (link_enters store) _ _ _ listed] at found
          obtain ⟨old, present, rfl⟩ := Option.map_eq_some_iff.mp found
          exact ⟨old, present, listed, rfl⟩
        · rw [fold_other (link_enters store) _ _ _ listed] at found
          exact absurd (proper.listed path entry found) listed
      constructor
      · intro path entry found
        obtain ⟨old, present, -, rfl⟩ := rebuilt path entry found
        exact proper.facts path old present
      · intro path entry found one member
        obtain ⟨old, present, listed, rfl⟩ := rebuilt path entry found
        obtain ⟨kind, depends⟩ := resolved_entry_depends store
          { project with files := update.files, graph := .empty } path old present one member
        exact ⟨kind, (link_all_linked store _ _ path one.2 kind).mpr (.inr ⟨listed, depends⟩)⟩
  next =>
      constructor
      · intro path entry found
        by_cases listed : Listed update.changed path
        · rw [fold_listed (relink_enters store) _ _ _ listed] at found
          obtain ⟨old, present, rfl⟩ := Option.map_eq_some_iff.mp found
          exact proper.facts path old present
        · rw [fold_other (relink_enters store) _ _ _ listed] at found
          exact proper.facts path entry found
      · intro path entry found one member
        by_cases listed : Listed update.changed path
        · rw [fold_listed (relink_enters store) _ _ _ listed] at found
          obtain ⟨old, present, rfl⟩ := Option.map_eq_some_iff.mp found
          obtain ⟨kind, depends⟩ := resolved_entry_depends store
            { project with files := update.files } path old present one member
          exact ⟨kind, (relink_all_linked store _ _ path one.2 kind).mpr (.inr ⟨listed, depends⟩)⟩
        · rw [fold_other (relink_enters store) _ _ _ listed] at found
          obtain ⟨kind, linked⟩ := proper.links path entry found one member
          exact ⟨kind, (relink_all_linked store _ _ path one.2 kind).mpr (.inl ⟨linked, listed⟩)⟩

theorem sync_indexed (project : Project) (store : σ) (indexed : project.Indexed) :
    (project.sync store).2.Indexed := by
  by_cases current : project.revision = some (FileStore.revision store)
  · rw [sync_current project store current]
    exact indexed
  · have proper := Update.read_all_preserves store (sourcesOf store) (project.presentIn store)
      (Partial project store) (sources_isSource store)
      (fun path member update text => took_partial project store update path text member)
      (present_partial project store indexed)
    rw [sync_stale project store current]
    cases read : Update.readAll store (sourcesOf store) (project.presentIn store) with
    | mk result update =>
        rw [read] at proper
        cases result with
        | error cause => exact ⟨proper.facts, proper.links⟩
        | ok =>
            have linked := linked_after_indexed project store update proper
            exact ⟨linked.facts, linked.links⟩

end AnyStore

end DeadExports.Project

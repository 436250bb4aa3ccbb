import DeadExports.Project.Index
import DeadExports.Proofs.Graph.Links
import DeadExports.Proofs.Store.Lawful

set_option autoImplicit false

namespace DeadExports

theorem Path.is_source_congr (a b : Path) (same : a.parts = b.parts) : a.isSource = b.isSource := by
  simp only [Path.isSource, Language.ofPath?, Path.extension?, Path.fileName?, same]

namespace Project

variable {σ : Type} [FileStore σ]

theorem resolve_congr (store : σ) (specifier : String) (a b : Path) (same : a.parts = b.parts) :
    Resolve.resolve store specifier a = Resolve.resolve store specifier b := by
  simp only [Resolve.resolve, Resolve.base?, Path.parent?, same]

theorem dependencies_congr (store : σ) (a b : Path) (facts : Facts) (same : a.parts = b.parts) :
    resolvedDependencies store a facts = resolvedDependencies store b facts := by
  simp only [resolvedDependencies, resolve_congr store _ a b same]

def resolvedEntry (store : σ) (path : Path) (entry : FileEntry) : FileEntry :=
  { entry with resolved :=
      (resolvedDependencies store path entry.facts).map fun (specifier, target, _) =>
        (specifier, target) }

theorem resolved_entry_congr (store : σ) (a b : Path) (entry : FileEntry)
    (same : a.parts = b.parts) :
    resolvedEntry store a entry = resolvedEntry store b entry := by
  simp only [resolvedEntry, dependencies_congr store a b entry.facts same]

def Depends (store : σ) (project : Project) (path target : Path) (kind : LinkKind) : Prop :=
  ∃ entry, project.files.get? path = some entry ∧
    ∃ found ∈ resolvedDependencies store path entry.facts, found.2.1.parts = target.parts ∧
    found.2.2 = kind

def Listed (paths : List Path) (path : Path) : Prop := ∃ known ∈ paths, known.parts = path.parts

theorem listed_cons (first path : Path) (rest : List Path) :
    Listed (first :: rest) path ↔ first.parts = path.parts ∨ Listed rest path := by
  simp [Listed]

theorem fold_links_linked (found : List (String × Path × LinkKind)) (graph : ModuleGraph)
    (path source target : Path) (kind : LinkKind) :
    (found.foldl (fun graph (_, target, kind) => graph.addLink path target kind) graph).Linked
      source target kind ↔
      graph.Linked source target kind ∨
        path.parts = source.parts ∧ ∃ one ∈ found, one.2.1.parts = target.parts ∧
          one.2.2 = kind := by
  induction found generalizing graph with
  | nil => simp
  | cons first rest ih =>
      rw [List.foldl_cons, ih, ModuleGraph.linked_add_link, or_assoc]
      simp [and_or_left]

theorem fold_links_contains (found : List (String × Path × LinkKind)) (graph : ModuleGraph)
    (path query : Path) (held : graph.contains path = true) :
    (found.foldl (fun graph (_, target, kind) => graph.addLink path target kind) graph).contains
      query = true ↔
      graph.contains query = true ∨ ∃ one ∈ found, one.2.1.parts = query.parts := by
  induction found generalizing graph with
  | nil => simp
  | cons first rest ih =>
      have kept : (graph.addLink path first.2.1 first.2.2).contains path = true :=
        (ModuleGraph.contains_add_link graph path first.2.1 path first.2.2).mpr (.inl held)
      rw [List.foldl_cons, ih _ kept, ModuleGraph.contains_add_link]
      have own : path.parts = query.parts → graph.contains query = true := by
        intro same
        rw [ModuleGraph.contains_iff] at held ⊢
        rwa [same] at held
      simp only [List.mem_cons, exists_eq_or_imp]
      constructor
      · rintro ((old | self | first) | later)
        · exact .inl old
        · exact .inl (own self)
        · exact .inr (.inl first)
        · exact .inr (.inr later)
      · rintro (old | first | later)
        · exact .inl (.inl old)
        · exact .inl (.inr (.inr first))
        · exact .inr later

theorem link_file_none (store : σ) (project : Project) (path : Path)
    (missing : project.files.get? path = none) : linkFile store project path = project := by
  rw [linkFile, missing]

theorem link_file_get (store : σ) (project : Project) (path query : Path) :
    (linkFile store project path).files.get? query =
      if path == query then (project.files.get? query).map (resolvedEntry store query)
      else project.files.get? query := by
  cases found : project.files.get? path with
  | none =>
      rw [link_file_none store project path found]
      split
      next same =>
          rw [← project.files.get_congr path query ((Path.same_iff _ _).mp same), found,
            Option.map_none]
      next => rfl
  | some entry =>
      have linked : (linkFile store project path).files = project.files.insert path
          (resolvedEntry store path entry) := by
        rw [linkFile, found]
        rfl
      rw [linked, PathMap.get_insert]
      split
      next same =>
          have same := (Path.same_iff _ _).mp same
          rw [← project.files.get_congr path query same, found, Option.map_some,
            resolved_entry_congr store path query entry same]
      next => rfl

theorem link_file_linked (store : σ) (project : Project) (path source target : Path)
    (kind : LinkKind) :
    (linkFile store project path).graph.Linked source target kind ↔
      project.graph.Linked source target kind ∨
        path.parts = source.parts ∧ project.Depends store source target kind := by
  cases found : project.files.get? path with
  | none =>
      rw [link_file_none store project path found]
      constructor
      · exact .inl
      · rintro (held | ⟨same, entry, present, -⟩)
        · exact held
        · rw [← project.files.get_congr path source same, found] at present
          cases present
  | some entry =>
      rw [linkFile, found]
      dsimp only
      rw [fold_links_linked, ModuleGraph.linked_add_module]
      refine or_congr_right (and_congr_right fun same => ?_)
      rw [Depends, ← project.files.get_congr path source same, found]
      simp [dependencies_congr store path source _ same]

theorem link_file_contains (store : σ) (project : Project) (path query : Path) :
    (linkFile store project path).graph.contains query = true ↔
      project.graph.contains query = true ∨
        (∃ entry, project.files.get? path = some entry) ∧
          (path.parts = query.parts ∨ ∃ kind, project.Depends store path query kind) := by
  cases found : project.files.get? path with
  | none =>
      rw [link_file_none store project path found]
      simp
  | some entry =>
      rw [linkFile, found]
      dsimp only
      have self : (project.graph.addModule path).contains path = true :=
        (ModuleGraph.contains_add_module _ _ _).mpr (.inr rfl)
      rw [fold_links_contains _ _ _ _ self, ModuleGraph.contains_add_module, or_assoc]
      refine or_congr_right ⟨?_, ?_⟩
      · rintro (same | ⟨one, member, same⟩)
        · exact ⟨⟨entry, rfl⟩, .inl same⟩
        · exact ⟨⟨entry, rfl⟩, .inr ⟨one.2.2, entry, found, one, member, same, rfl⟩⟩
      · rintro ⟨-, same | ⟨kind, held, present, one, member, same, -⟩⟩
        · exact .inl same
        · obtain rfl := Option.some.inj (found.symm.trans present)
          exact .inr ⟨one, member, same⟩

theorem link_file_sorted (store : σ) (project : Project) (path : Path)
    (sorted : project.files.Sorted) :
    (linkFile store project path).files.Sorted := by
  cases found : project.files.get? path with
  | none => rwa [link_file_none store project path found]
  | some entry =>
      rw [linkFile, found]
      exact project.files.insert_sorted _ _ sorted

theorem resolved_entry_facts (store : σ) (path : Path) (entry : FileEntry) :
    (resolvedEntry store path entry).facts = entry.facts := rfl

-- What entering a file for the first time and entering it again have in common: the file's own
-- entry is resolved, and the file and what it depends on are modules of the graph.
structure Enters (store : σ) (link : Project → Path → Project) : Prop where
  get : ∀ project path query, (link project path).files.get? query =
    if path == query then (project.files.get? query).map (resolvedEntry store query)
    else project.files.get? query
  contains : ∀ project path query, (link project path).graph.contains query = true ↔
    project.graph.contains query = true ∨
      (∃ entry, project.files.get? path = some entry) ∧
        (path.parts = query.parts ∨ ∃ kind, project.Depends store path query kind)
  sorted : ∀ project path, project.files.Sorted → (link project path).files.Sorted

theorem link_enters (store : σ) : Enters store (linkFile store) where
  get := link_file_get store
  contains := link_file_contains store
  sorted := link_file_sorted store

theorem relink_enters (store : σ) : Enters store (relinkFile store) where
  get _ path query := link_file_get store _ path query
  contains project path query :=
    link_file_contains store { project with graph := project.graph.clearDependencies path }
      path query
  sorted _ path sorted := link_file_sorted store _ path sorted

section Fold

variable {store : σ} {link : Project → Path → Project}

theorem depends_enter (enters : Enters store link) (project : Project) (path source target : Path)
    (kind : LinkKind) :
    (link project path).Depends store source target kind ↔
    project.Depends store source target kind := by
  simp only [Depends, enters.get]
  split
  next =>
      cases project.files.get? source with
      | none => simp
      | some entry => simp [resolved_entry_facts]
  next => rfl

theorem fold_sorted (enters : Enters store link) (paths : List Path) (project : Project)
    (sorted : project.files.Sorted) : (paths.foldl link project).files.Sorted := by
  induction paths generalizing project with
  | nil => exact sorted
  | cons first rest ih => exact ih (link project first) (enters.sorted project first sorted)

theorem resolved_entry_again (store : σ) (path : Path) (entry : FileEntry) :
    resolvedEntry store path (resolvedEntry store path entry) = resolvedEntry store path entry :=
  rfl

theorem fold_other (enters : Enters store link) (paths : List Path) (project : Project)
    (query : Path) (other : ¬ Listed paths query) :
    (paths.foldl link project).files.get? query = project.files.get? query := by
  induction paths generalizing project with
  | nil => rfl
  | cons first rest ih =>
      rw [listed_cons, not_or] at other
      rw [List.foldl_cons, ih _ other.2, enters.get, if_neg (by rw [Path.same_iff]; exact other.1)]

theorem fold_listed (enters : Enters store link) (paths : List Path) (project : Project)
    (query : Path) (listed : Listed paths query) :
    (paths.foldl link project).files.get? query = (project.files.get? query).map
      (resolvedEntry store query) := by
  induction paths generalizing project with
  | nil =>
      obtain ⟨known, member, -⟩ := listed
      cases member
  | cons first rest ih =>
      rw [List.foldl_cons]
      by_cases later : Listed rest query
      · rw [ih _ later, enters.get]
        split
        next =>
            cases project.files.get? query with
            | none => rfl
            | some entry => simp [resolved_entry_again]
        next => rfl
      · have here := ((listed_cons first query rest).mp listed).resolve_right later
        rw [fold_other enters rest _ query later, enters.get, if_pos ((Path.same_iff _ _).mpr here)]

theorem fold_contains (enters : Enters store link) (paths : List Path) (project : Project)
    (query : Path) :
    (paths.foldl link project).graph.contains query = true ↔
      project.graph.contains query = true ∨
        ∃ path ∈ paths, (∃ entry, project.files.get? path = some entry) ∧
          (path.parts = query.parts ∨ ∃ kind, project.Depends store path query kind) := by
  induction paths generalizing project with
  | nil => simp
  | cons first rest ih =>
      have entered (path : Path) : (∃ entry, (link project first).files.get? path = some entry) ↔
          ∃ entry, project.files.get? path = some entry := by
        rw [enters.get]
        split
        next => cases project.files.get? path <;> simp
        next => rfl
      rw [List.foldl_cons, ih, enters.contains, or_assoc]
      simp only [entered, depends_enter enters, List.mem_cons, exists_eq_or_imp]

end Fold

theorem link_all_linked (store : σ) (paths : List Path) (project : Project) (source target : Path)
    (kind : LinkKind) :
    (paths.foldl (linkFile store) project).graph.Linked source target kind ↔
      project.graph.Linked source target kind ∨
        Listed paths source ∧ project.Depends store source target kind := by
  induction paths generalizing project with
  | nil => simp [Listed]
  | cons first rest ih =>
      rw [List.foldl_cons, ih, link_file_linked, depends_enter (link_enters store), listed_cons,
        or_assoc, or_and_right]

theorem relink_file_linked (store : σ) (project : Project) (path source target : Path)
    (kind : LinkKind) :
    (relinkFile store project path).graph.Linked source target kind ↔
      (project.graph.Linked source target kind ∧ source.parts ≠ path.parts) ∨
        path.parts = source.parts ∧ project.Depends store source target kind := by
  rw [relinkFile, link_file_linked, ModuleGraph.linked_clear]
  rfl

theorem relink_all_linked (store : σ) (paths : List Path) (project : Project) (source target : Path)
    (kind : LinkKind) :
    (paths.foldl (relinkFile store) project).graph.Linked source target kind ↔
      (project.graph.Linked source target kind ∧ ¬ Listed paths source) ∨
        Listed paths source ∧ project.Depends store source target kind := by
  induction paths generalizing project with
  | nil => simp [Listed]
  | cons first rest ih =>
      rw [List.foldl_cons, ih, relink_file_linked, depends_enter (relink_enters store), listed_cons]
      by_cases here : first.parts = source.parts
      · by_cases later : Listed rest source <;> simp [here, later]
      · by_cases later : Listed rest source <;> simp [here, later, Ne.symm here]

end Project
end DeadExports

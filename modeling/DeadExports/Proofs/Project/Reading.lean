import DeadExports.Proofs.Project.Link

set_option autoImplicit false

namespace DeadExports

def Facts.ofText (path : Path) (text : String) : Facts :=
  match SourceModule.parse path text with
  | .ok m => Facts.extract m
  | .error _ => {}

theorem Facts.of_text_congr (a b : Path) (text : String) (same : a.parts = b.parts) :
    Facts.ofText a text = Facts.ofText b text := by
  have ending : a.extension? = b.extension? := by
    simp only [Path.extension?, Path.fileName?, same]
  simp only [Facts.ofText, SourceModule.parse, ending]
  cases Language.ofExtension? (b.extension?.getD "") with
  | none => rfl
  | some language =>
      dsimp only
      cases SourceModule.treeOf? language text <;> rfl

theorem parse_source (path : Path) (text : String) (source : path.isSource = true) :
    ∃ m, SourceModule.parse path text = .ok m := by
  obtain ⟨language, known⟩ := Option.isSome_iff_exists.mp source
  obtain ⟨ending, present, spoken⟩ := Option.bind_eq_some_iff.mp known
  simp only [SourceModule.parse, present, Option.getD_some, spoken]
  cases SourceModule.treeOf? language text with
  | none => exact ⟨_, rfl⟩
  | some tree => exact ⟨_, rfl⟩

theorem SourceModule.parse_is_source (path : Path) (text : String) (m : SourceModule)
    (parsed : parse path text = .ok m) :
    path.isSource = true := by
  rw [parse] at parsed
  split at parsed
  next => cases parsed
  next language known =>
      rw [Path.isSource, Language.ofPath?]
      cases ending : path.extension? with
      | none =>
          rw [ending, Option.getD_none, show Language.ofExtension? "" = none by decide +kernel]
            at known
          cases known
      | some ending =>
          rw [ending, Option.getD_some] at known
          rw [Option.bind_some, known]
          rfl

theorem SourceModule.load_source {σ : Type} [FileStore σ] (store : σ) (file : Path)
    (m : SourceModule) (loaded : load store file = .ok m) : file.isSource = true := by
  rw [load] at loaded
  split at loaded
  next => cases loaded
  next text _ => exact parse_is_source file text m loaded

namespace Project

def freshEntry (path : Path) (text : String) :
    FileEntry := { text, facts := Facts.ofText path text }

theorem fresh_entry_congr (a b : Path) (text : String) (same : a.parts = b.parts) :
    freshEntry a text = freshEntry b text := by
  rw [freshEntry, Facts.of_text_congr a b text same, freshEntry]

namespace Update

def knows (update : Update) (path : Path) (text : String) : Bool :=
  (update.files.get? path).any fun entry => entry.text == text

def took (update : Update) (path : Path) (text : String) : Update :=
  if update.knows path text then update
  else
    { files := update.files.insert path (freshEntry path text)
      hasNew := update.hasNew || (update.files.get? path).isNone
      changed := update.changed ++ [path] }

theorem take_source (update : Update) (path : Path) (text : String)
    (source : path.isSource = true) :
    update.take path text = .ok (update.took path text) := by
  obtain ⟨m, parsed⟩ := parse_source path text source
  have fresh : freshEntry path text = { text, facts := Facts.extract m } := by
    rw [freshEntry, Facts.ofText, parsed]
  rw [take, took, knows]
  cases found : update.files.get? path with
  | none => simp [parsed, fresh, Except.map]
  | some entry =>
      by_cases known : entry.text == text
      · simp [known]
      · simp [known, parsed, fresh, Except.map]

theorem took_get (update : Update) (path query : Path) (text : String) :
    (update.took path text).files.get? query =
      if path == query && !update.knows query text then some (freshEntry query text)
      else update.files.get? query := by
  rw [took]
  by_cases same : path == query
  · have parts := (Path.same_iff _ _).mp same
    have alike : update.knows path text = update.knows query text := by
      rw [knows, knows, update.files.get_congr path query parts]
    rw [alike]
    cases known : update.knows query text with
    | true => simp [same]
    | false => simp [PathMap.get_insert, same, fresh_entry_congr path query text parts]
  · by_cases known : update.knows path text = true <;> simp [known, PathMap.get_insert, same]

theorem took_sorted (update : Update) (path : Path) (text : String) (sorted : update.files.Sorted) :
    (update.took path text).files.Sorted := by
  rw [took]
  split
  · exact sorted
  · exact update.files.insert_sorted _ _ sorted

variable {σ : Type} [FileStore σ]

def tookAll (texts : Path → String) (paths : List Path) (update : Update) : Update :=
  paths.foldl (fun update path => update.took path (texts path)) update

theorem read_all_sources (store : σ) (texts : Path → String) (paths : List Path) (update : Update)
    (sources : ∀ path ∈ paths, path.isSource = true ∧ FileStore.read store path =
      .ok (texts path)) :
    readAll store paths update = (.ok (), tookAll texts paths update) := by
  induction paths generalizing update with
  | nil => rfl
  | cons first rest ih =>
      obtain ⟨source, readable⟩ := sources first List.mem_cons_self
      rw [readAll, readable]
      dsimp only
      rw [take_source update first (texts first) source]
      exact ih _ fun path member => sources path (List.mem_cons_of_mem first member)

theorem read_all_preserves (store : σ) (paths : List Path) (update : Update)
    (invariant : Update → Prop) (sources : ∀ path ∈ paths, path.isSource = true)
    (step : ∀ path ∈ paths, ∀ update text, invariant update → invariant (update.took path text))
    (start : invariant update) : invariant (readAll store paths update).2 := by
  induction paths generalizing update with
  | nil => exact start
  | cons first rest ih =>
      rw [readAll]
      cases FileStore.read store first with
      | error cause => exact start
      | ok text =>
          dsimp only
          rw [take_source update first text (sources first List.mem_cons_self)]
          exact ih _ (fun path member => sources path (List.mem_cons_of_mem first member))
            (fun path member => step path (List.mem_cons_of_mem first member))
            (step first List.mem_cons_self update text start)

theorem took_all_sorted (texts : Path → String) (paths : List Path) (update : Update)
    (sorted : update.files.Sorted) : (tookAll texts paths update).files.Sorted := by
  induction paths generalizing update with
  | nil => exact sorted
  | cons first rest ih => exact ih _ (took_sorted update first (texts first) sorted)

variable {texts : Path → String}

theorem took_all_other (paths : List Path) (update : Update) (query : Path)
    (other : ¬ Listed paths query) :
    (tookAll texts paths update).files.get? query = update.files.get? query := by
  induction paths generalizing update with
  | nil => rfl
  | cons first rest ih =>
      rw [listed_cons, not_or] at other
      have apart : (first == query) = false := by
        rw [Path.same_eq_decide]
        simpa using other.1
      change (tookAll texts rest (update.took first (texts first))).files.get? query = _
      rw [ih _ other.2, took_get, apart]
      simp

theorem took_all_listed (paths : List Path) (update : Update) (query : Path)
    (stable : ∀ a b : Path, a.parts = b.parts → texts a = texts b) (listed : Listed paths query) :
    (tookAll texts paths update).files.get? query =
      if update.knows query (texts query) then update.files.get? query
      else some (freshEntry query (texts query)) := by
  induction paths generalizing update with
  | nil =>
      obtain ⟨known, member, -⟩ := listed
      cases member
  | cons first rest ih =>
      change (tookAll texts rest (update.took first (texts first))).files.get? query = _
      by_cases here : first.parts = query.parts
      · have entered : (update.took first (texts first)).files.get? query =
            if update.knows query (texts query) then update.files.get? query
            else some (freshEntry query (texts query)) := by
          rw [took_get, (Path.same_iff _ _).mpr here, stable first query here]
          cases update.knows query (texts query) <;> simp
        by_cases later : Listed rest query
        · have known : (update.took first (texts first)).knows query (texts query) = true := by
            rw [knows, entered]
            cases held : update.knows query (texts query) with
            | true => simpa [knows] using held
            | false => simp [freshEntry]
          rw [ih _ later, known, if_pos rfl, entered]
        · rw [took_all_other rest _ query later, entered]
      · have later := ((listed_cons first query rest).mp listed).resolve_left here
        have apart : (first == query) = false := by
          rw [Path.same_eq_decide]
          simpa using here
        have kept : (update.took first (texts first)).files.get? query =
            update.files.get? query := by
          rw [took_get, apart]
          simp
        rw [ih _ later, knows, kept, knows]

theorem took_all_changed (paths : List Path) (update : Update) (query : Path)
    (stable : ∀ a b : Path, a.parts = b.parts → texts a = texts b) :
    Listed (tookAll texts paths update).changed query ↔
      Listed update.changed query ∨ Listed paths query ∧ update.knows query (texts query) =
        false := by
  induction paths generalizing update with
  | nil => simp [tookAll, Listed]
  | cons first rest ih =>
      change Listed (tookAll texts rest (update.took first (texts first))).changed query ↔ _
      rw [ih, listed_cons]
      by_cases here : first.parts = query.parts
      · have alike : update.knows first (texts first) = update.knows query (texts query) := by
          rw [knows, knows, update.files.get_congr first query here, stable first query here]
        cases known : update.knows query (texts query) with
        | true =>
            rw [took, alike, known, if_pos rfl]
            simp [known]
        | false =>
            rw [took, alike, known, if_neg Bool.false_ne_true]
            simp [Listed, or_and_right, exists_or, here]
      · have apart : (first == query) = false := by
          rw [Path.same_eq_decide]
          simpa using here
        have kept : (update.took first (texts first)).knows query (texts query) = update.knows query
            (texts query) := by
          rw [knows, took_get, apart]
          simp [knows]
        have listing : Listed (update.took first (texts first)).changed query ↔
            Listed update.changed query := by
          rw [took]
          split
          · rfl
          · simp [Listed, or_and_right, exists_or, here]
        rw [kept, listing]
        simp [here]

theorem took_all_keeps_new (paths : List Path) (update : Update) (marked : update.hasNew = true) :
    (tookAll texts paths update).hasNew = true := by
  induction paths generalizing update with
  | nil => exact marked
  | cons first rest ih =>
      change (tookAll texts rest (update.took first (texts first))).hasNew = true
      apply ih
      rw [took]
      split
      · exact marked
      · simp [marked]

theorem took_all_new_of_missing (paths : List Path) (update : Update) (path : Path)
    (listed : Listed paths path) (missing : update.files.get? path = none) :
    (tookAll texts paths update).hasNew = true := by
  induction paths generalizing update with
  | nil =>
      obtain ⟨known, member, -⟩ := listed
      cases member
  | cons first rest ih =>
      change (tookAll texts rest (update.took first (texts first))).hasNew = true
      by_cases here : first.parts = path.parts
      · apply took_all_keeps_new
        have gone : update.files.get? first = none := by
          rw [update.files.get_congr first path here, missing]
        simp [took, knows, gone]
      · apply ih _ (((listed_cons first path rest).mp listed).resolve_left here)
        have apart : (first == path) = false := by
          rw [Path.same_eq_decide]
          simpa using here
        rw [took_get, apart]
        simpa using missing

end Update
end Project
end DeadExports

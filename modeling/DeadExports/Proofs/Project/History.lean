import DeadExports.Proofs.Project.Follow

set_option autoImplicit false

namespace DeadExports

inductive Event where
  | insert (path : Path) (text : String)
  | write (path : Path) (text : String)
  | delete (path : Path)
  | sync
  | ask (file : Path) (position : Nat)

structure Session where
  store : MemoryStore
  project : Project := .empty

namespace Session

def after (session : Session) : Event → Session
  | .insert path text => { session with store := session.store.insert path text }
  | .write path text => { session with store := (FileStore.write session.store path text).2 }
  | .delete path => { session with store := (FileStore.delete session.store path).2 }
  | .sync => { session with project := (session.project.sync session.store).2 }
  | .ask file position =>
    { session with project := (session.project.findReferences session.store file position).2 }

def history (initial : MemoryStore) (events : List Event) :
    Session := events.foldl after { store := initial }

end Session

def Event.onSource : Event → Prop
  | .insert path _ => path.isSource = true
  | .write path _ => path.isSource = true
  | .delete _ => True
  | .sync => True
  | .ask _ _ => True

def MemoryStore.OnlySources (store : MemoryStore) : Prop :=
  ∀ path, FileStore.contains store path = true → path.isSource = true

namespace Project

theorem sources_resolve_alike (old store : MemoryStore) (oldSources : old.OnlySources)
    (sources : store.OnlySources) :
    ResolveAlike old store := by
  apply resolve_alike_of_contains
  intro alike path
  by_cases source : path.isSource = true
  · exact alike path source
  · have absent (some : MemoryStore) (only : some.OnlySources) :
        FileStore.contains some path = false :=
      Bool.eq_false_iff.mpr fun held => source (only path held)
    rw [absent old oldSources, absent store sources]

structure Tracks (session : Session) : Prop where
  sources : session.store.OnlySources
  behind : ∃ old, session.project.Mirrors old ∧ old.OnlySources ∧
    (session.project.revision = some session.store.revision → old = session.store)
  past : ∀ revision, session.project.revision = some revision → revision ≤ session.store.revision

theorem tracks_follows (session : Session) (tracks : Tracks session) :
    session.project.Follows session.store where
  behind := by
    obtain ⟨old, mirrors, sources, current⟩ := tracks.behind
    exact ⟨old, mirrors, sources_resolve_alike old session.store sources tracks.sources, current⟩
  past := tracks.past

theorem fresh_tracks (store : MemoryStore) (sources : store.OnlySources) :
    Tracks { store := store } where
  sources := sources
  behind := by
    refine ⟨.empty, empty_mirrors, ?_, ?_⟩
    · intro path held
      cases held
    · intro current
      cases current
  past revision current := by cases current

theorem changed_tracks (session : Session) (store : MemoryStore) (tracks : Tracks session)
    (sources : store.OnlySources) (later : store.revision = session.store.revision + 1) :
    Tracks { session with store := store } where
  sources := sources
  behind := by
    obtain ⟨old, mirrors, oldSources, -⟩ := tracks.behind
    refine ⟨old, mirrors, oldSources, ?_⟩
    intro current
    have past := tracks.past _ current
    dsimp only at past
    omega
  past revision known := by
    have past := tracks.past revision known
    dsimp only
    omega

theorem insert_only_sources (store : MemoryStore) (path : Path) (text : String)
    (sources : store.OnlySources) (source : path.isSource = true) :
    (store.insert path text).OnlySources := by
  intro query held
  rw [MemoryStore.contains_eq, MemoryStore.insert_get] at held
  split at held
  next same => rwa [← Path.is_source_congr path query ((Path.same_iff path query).mp same)]
  next => exact sources query ((store.contains_eq query).trans held)

theorem insert_tracks (session : Session) (path : Path) (text : String) (tracks : Tracks session)
    (source : path.isSource = true) :
    Tracks { session with store := session.store.insert path text } :=
  changed_tracks session _ tracks
    (insert_only_sources session.store path text tracks.sources source) rfl

theorem delete_tracks (session : Session) (path : Path) (tracks : Tracks session) :
    Tracks { session with store := (session.store.delete path).2 } := by
  rcases session.store.delete_cases path with ⟨-, result⟩ | ⟨-, result⟩
  · rw [result]
    refine changed_tracks session _ tracks ?_ rfl
    intro query held
    rw [MemoryStore.contains_eq, PathMap.get_erase] at held
    split at held
    next => cases held
    next => exact tracks.sources query ((session.store.contains_eq query).trans held)
  · rw [result]
    exact tracks

theorem sync_tracks (session : Session) (tracks : Tracks session) :
    Tracks { session with project := (session.project.sync session.store).2 } where
  sources := tracks.sources
  behind := by
    obtain ⟨-, mirrors, -⟩ := follows_sync _ _ (tracks_follows session tracks)
    exact ⟨session.store, mirrors, tracks.sources, fun _ => rfl⟩
  past := (synced_follows _ _ (tracks_follows session tracks)).past

theorem after_tracks (session : Session) (event : Event) (tracks : Tracks session)
    (proper : event.onSource) :
    Tracks (session.after event) := by
  cases event with
  | insert path text => exact insert_tracks session path text tracks proper
  | write path text => exact insert_tracks session path text tracks proper
  | delete path => exact delete_tracks session path tracks
  | sync => exact sync_tracks session tracks
  | ask file position =>
      rw [Session.after, followed_find_references _ _ (tracks_follows session tracks)]
      exact sync_tracks session tracks

theorem history_tracks (events : List Event) (session : Session) (tracks : Tracks session)
    (proper : ∀ event ∈ events, event.onSource) : Tracks (events.foldl Session.after session) := by
  induction events generalizing session with
  | nil => exact tracks
  | cons first rest ih =>
      exact ih (session.after first)
        (after_tracks session first tracks (proper first List.mem_cons_self))
        fun event member => proper event (List.mem_cons_of_mem first member)

def placesIn (answer : Except AnalysisError (List Reference)) :
    Except AnalysisError (List (List Part × Span)) :=
  answer.map (List.map Reference.place)

theorem same_answers (a b : Project) (same : SameIndex a b) (file : Path) (position : Nat) :
    placesIn ((a.symbolAt file position).map a.referencesTo) =
      placesIn ((b.symbolAt file position).map b.referencesTo) := by
  rw [same_symbol_at same]
  cases b.symbolAt file position with
  | error cause => rfl
  | ok symbol => exact congrArg Except.ok (same_references_to same symbol symbol symbol.same_refl)

-- Whatever has happened to the files and whenever the index was asked, bringing it up to date gives
-- what building it from nothing would give, and every question has the answer of an index built
-- from nothing.
theorem sync_equals_rebuild (initial : MemoryStore) (events : List Event)
    (sources : initial.OnlySources) (proper : ∀ event ∈ events, event.onSource) :
    let session := Session.history initial events
    (session.project.sync session.store).1 = .ok () ∧
    (Project.empty.sync session.store).1 = .ok () ∧
      SameIndex (session.project.sync session.store).2 (Project.empty.sync session.store).2 ∧
      ∀ file position,
        placesIn (session.project.findReferences session.store file position).1 =
          placesIn (Project.empty.findReferences session.store file position).1 := by
  intro session
  have tracks : Tracks session := history_tracks events { store :=
    initial } (fresh_tracks initial sources) proper
  have follows := tracks_follows session tracks
  have same := synced_same_index session.project session.store follows
  refine ⟨(follows_sync _ _ follows).1, (follows_sync _ _ (empty_follows session.store)).1,
    same, ?_⟩
  intro file position
  rw [followed_find_references _ _ follows, followed_find_references _ _
    (empty_follows session.store)]
  exact same_answers _ _ same file position

def swapEvents : List Event :=
  [.insert ⟨"/p/a.ts"⟩ "import { x } from './b';\nx;\n", .sync,
    .insert ⟨"/p/b.ts"⟩ "export const x = 1;\n",
    .ask ⟨"/p/b.ts"⟩ 13, .delete ⟨"/p/b.ts"⟩, .sync,
    .write ⟨"/p/b.ts"⟩ "const y = 1;\nexport { y as x };\n"]

theorem swap_events_equal_rebuild :
    let session := Session.history .empty swapEvents
    SameIndex (session.project.sync session.store).2 (Project.empty.sync session.store).2 ∧
      placesIn (session.project.findReferences session.store ⟨"/p/b.ts"⟩ 22).1 =
        placesIn (Project.empty.findReferences session.store ⟨"/p/b.ts"⟩ 22).1 := by
  have none : MemoryStore.empty.OnlySources := fun path held => by cases held
  have proper : ∀ event ∈ swapEvents, event.onSource := by
    simp only [swapEvents, List.forall_mem_cons, Event.onSource]
    refine ⟨by decide +kernel, trivial,
      by decide +kernel, trivial, trivial, trivial, by decide +kernel, ?_⟩
    simp
  obtain ⟨-, -, same, answers⟩ := sync_equals_rebuild .empty swapEvents none proper
  exact ⟨same, answers ⟨"/p/b.ts"⟩ 22⟩

end Project
end DeadExports

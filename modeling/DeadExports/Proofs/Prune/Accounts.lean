import DeadExports.Proofs.Prune.FixedPoint
import DeadExports.Proofs.Prune.Logged
import DeadExports.Proofs.Store.Local
import DeadExports.Proofs.Trace.Recorded

set_option autoImplicit false

namespace DeadExports

-- How a session on a file ends that had the text `start`: the outcome, what was removed, the text
-- that is left, if the file is, and how often it was written.
inductive Ends (start : String) : Outcome → List Removal → Option String → Nat → Prop where
  | unchanged : Ends start .unchanged [] (some start) 0
  | pruned (removed : Nat) (removals : List Removal) (text : String) (writes : Nat)
      (filled : removals ≠ []) (counted : removed = removals.length)
      (shorter : Text.size text < Text.size start) :
      Ends start (.pruned removed writes) removals (some text) writes
  | deleted (removals : List Removal) (writes : Nat) : Ends start .deleted removals none writes

-- What is known of a file after some sessions: what the store tells of it, before and now, its
-- outcome and its entry so far, and how often it was written.
inductive Balanced (before : Option (Option String)) :
    Option (Option String) → Option Outcome → Option FileEdits → Nat → Prop where
  | unseen : Balanced before before none none 0
  | unchanged (edits : FileEdits) (clean : edits.isEdited = false) :
      Balanced before before (some .unchanged) (some edits) 0
  | pruned (edits : FileEdits) (removed passes : Nat) (old text : String)
      (start : before = some (some old)) (kept : edits.deleted = false)
      (filled : edits.removals ≠ []) (counted : removed = edits.removals.length)
      (shorter : Text.size text < Text.size old) :
      Balanced before (some (some text)) (some (.pruned removed passes)) (some edits) passes
  | deleted (edits : FileEdits) (writes : Nat) (held : before.isSome = true)
      (gone : edits.deleted = true) :
      Balanced before none (some .deleted) (some edits) writes

theorem Balanced.session {before : Option (Option String)} {outcome? : Option Outcome}
    {edits? : Option FileEdits} {writes more : Nat} {start : String} {outcome : Outcome}
    {text? : Option String} (path : Path) (session : EditSession)
    (balanced : Balanced before (some (some start)) outcome? edits? writes)
    (ends : Ends start outcome session.removals text? more)
    (told : session.deleted = text?.isNone) :
    Balanced before (text?.map some) (some ((outcome?.map (·.merge outcome)).getD outcome))
      (some (session.note (edits?.getD { path }))) (writes + more) := by
  obtain ⟨file, text, removals, deleted⟩ := session
  dsimp only at ends told
  subst told
  cases balanced with
  | unseen =>
      cases ends with
      | unchanged => exact .unchanged _ rfl
      | pruned removed _ left _ filled counted shorter =>
          rw [Nat.zero_add]
          exact .pruned _ removed _ start left rfl rfl filled counted shorter
      | deleted => exact .deleted _ _ rfl rfl
  | unchanged edits clean =>
      obtain ⟨kept, none⟩ := Bool.or_eq_false_iff.mp clean
      have empty : edits.removals = [] := by simpa using none
      cases ends with
      | unchanged =>
          exact .unchanged _
            (by simp [EditSession.note, FileEdits.isEdited, kept, empty])
      | pruned removed _ left _ filled counted shorter =>
          rw [Nat.zero_add]
          exact .pruned _ removed _ start left rfl (by simp [EditSession.note, kept])
            (by simpa [EditSession.note, empty] using filled)
            (by simpa [EditSession.note, empty] using counted) shorter
      | deleted => exact .deleted _ _ rfl (by simp [EditSession.note])
  | pruned edits removed passes old _ begun kept filled counted shorter =>
      cases ends with
      | unchanged =>
          exact .pruned _ removed _ old start begun (by simp [EditSession.note, kept])
            (by simpa [EditSession.note] using filled)
            (by simpa [EditSession.note] using counted) shorter
      | pruned gone _ left _ _ also less =>
          exact .pruned _ (removed + gone) _ old left begun (by simp [EditSession.note, kept])
            (by simp [EditSession.note, filled]) (by simp [EditSession.note, counted, also])
            (Nat.lt_trans less shorter)
      | deleted => exact .deleted _ _ (by simp [begun]) (by simp [EditSession.note])

namespace Workspace

section Pass

variable {ι σ : Type} [FileStore σ] [LanguageService ι σ]

theorem removed_tells (options : PruneOptions) (file : Path) (space last : Workspace ι σ)
    (count : Nat) (ran : (pass options file).run.run space = (.ok (.removed count), last)) :
    ∃ m rest removals, SourceModule.load space.store file = .ok m ∧ Text.IsProperPart rest m.text ∧
      FileStore.write space.store file rest = (.ok (), last.store) ∧ removals ≠ [] ∧
      count = removals.length ∧
      last.events = space.events ++ removals.map (.removed file) := by
  obtain ⟨m, rest, loaded, part, written⟩ := removed_writes options file space last count ran
  have filled := removed_some options file space last count ran
  have told := pass_told options file space
  rw [ran] at told
  cases told with
  | removed _ _ _ removals _ _ tells =>
      refine ⟨m, rest, removals, loaded, part, written, ?_, rfl, tells⟩
      exact fun none => filled (List.length_eq_zero_iff.mpr none)

theorem deleted_tells (options : PruneOptions) (file : Path) (space last : Workspace ι σ)
    (ran : (pass options file).run.run space = (.ok .deleted, last)) :
    ∃ m, SourceModule.load space.store file = .ok m ∧ FileStore.delete space.store file =
      (.ok (), last.store) ∧
      last.events = space.events ++ [.deleted file] := by
  have told := pass_told options file space
  rw [ran] at told
  cases told with
  | deleted _ tells =>
      obtain ⟨m, unused, asked, found, ⟨-, other, -⟩ | ⟨filled, allowed, -⟩ | ⟨-, -, _, other⟩⟩ :=
        pass_finds options file space last _ ran
      · cases other
      · refine ⟨m, found.loaded, ?_, tells⟩
        have deletes : (pass options file).run.run space = (deleteFile file).run.run asked := by
          rw [pass, run_bind_ok _ _ space space m (run_load file space m found.loaded)]
          simp only [found.proper]
          change ((unusedOf file (m.scan options.skipMarker).candidates : PruneM ι σ
              (List Candidate)) >>= _).run.run space = _
          rw [run_bind_ok _ _ space asked unused found.answered, if_neg (by simpa using filled),
            if_pos allowed]
        rw [deletes] at ran
        obtain ⟨_, later, deleting, rest⟩ := bind_ok _ _ asked last _ ran
        obtain ⟨done, rfl⟩ := change_ok _ _ asked later deleting
        obtain ⟨_, _, emits, rest⟩ := bind_ok _ _ _ last _ rest
        obtain rfl := emit_ok _ _ _ _ emits
        obtain ⟨-, rfl⟩ := pure_ok _ _ _ last rest
        rw [← (unused_of_listed file _ unused space asked found.answered).2, ← done]
      · cases other

theorem settled_tells (options : PruneOptions) (file : Path) (space last : Workspace ι σ)
    (ran : (pass options file).run.run space = (.ok .settled, last)) :
    last.store = space.store ∧ last.events = space.events := by
  have told := pass_told options file space
  rw [ran] at told
  cases told with
  | settled _ silent => exact ⟨settled_store options file space last ran, silent⟩

end Pass

variable {ι σ : Type} [FileStore σ] [LawfulStore σ] [LocalStore σ]

structure Ready (file : Path) (text : String) (space : Workspace ι (Logged σ)) : Prop where
  sound : LocalStore.Sound space.store.store
  held : textAt? space.store.store file = some (some text)

structure Leaves (file : Path) (start : String) (space last : Workspace ι (Logged σ))
    (removals : List Removal) (writes : Nat) (text? : Option String) : Prop where
  events : last.events = space.events ++ removals.map (.removed file) ++
      deletionOf file text?.isNone
  written : last.store.written = space.store.written ++ List.replicate writes file
  touched : Touched LocalStore.Sound space.store.store last.store.store file text?
  left : ∀ text, text? = some text →
    (removals = [] ∧ writes = 0 ∧ text = start) ∨ (removals ≠ [] ∧ Text.size text < Text.size start)

structure Accounted (space last : Workspace ι (Logged σ)) (outcome : Outcome)
    (session : EditSession) (text? : Option String) (writes : Nat) : Prop where
  start : textAt? space.store.store session.file = some (some session.text)
  deleted : session.deleted = text?.isNone
  ends : Ends session.text outcome session.removals text? writes
  events : last.events = space.events ++ session.events
  written : last.store.written = space.store.written ++ List.replicate writes session.file
  touched : Touched LocalStore.Sound space.store.store last.store.store session.file text?

section Leaves

variable {file : Path} {start text : String} {space middle last : Workspace ι (Logged σ)}
    {removals more : List Removal}
  {writes extra : Nat} {text? : Option String}

theorem ready_contains (ready : Ready file start space) :
    FileStore.contains space.store.store file = true := by
  rw [← text_at_held, ready.held]
  rfl

theorem ready_load (ready : Ready file start space) (m : SourceModule)
    (loaded : SourceModule.load space.store file = .ok m) :
    FileStore.read space.store.store file = .ok m.text ∧ m.text = start := by
  have reading : FileStore.read space.store.store file = .ok m.text :=
    SourceModule.load_reads space.store file m loaded
  have told := LocalStore.read _ file m.text ready.sound (ready_contains ready) reading
  rw [ready.held] at told
  exact ⟨reading, (Option.some.inj (Option.some.inj told)).symm⟩

theorem leaves_ready (leaves : Leaves file start space last removals writes (some text)) :
    Ready file text last :=
  ⟨leaves.touched.sound, by rw [leaves.touched.texts, if_pos BEq.rfl, Option.map_some]⟩

theorem leaves_trans (first : Leaves file start space middle removals writes (some text))
    (next : Leaves file text middle last more extra text?) :
    Leaves file start space last (removals ++ more) (writes + extra) text? where
  events := by
    rw [next.events, first.events, List.map_append]
    simp [deletionOf]
  written := by rw [next.written, first.written, List.append_assoc, List.replicate_append_replicate]
  touched := by
    refine ⟨next.touched.sound, fun query => ?_⟩
    rw [next.touched.texts, first.touched.texts]
    split <;> rfl
  left final given := by
    rcases first.left text rfl with ⟨rfl, rfl, rfl⟩ | ⟨filled, shorter⟩
    · simpa using next.left final given
    · refine .inr ⟨by simp [filled], ?_⟩
      rcases next.left final given with ⟨-, -, rfl⟩ | ⟨-, less⟩
      · exact shorter
      · exact Nat.lt_trans less shorter

theorem leaves_nothing (ready : Ready file start space) (store : last.store = space.store)
    (events : last.events = space.events) :
    Leaves file start space last [] 0 (some start) where
  events := by simp [events, deletionOf]
  written := by rw [store, List.replicate_zero, List.append_nil]
  touched := by
    rw [store]
    refine ⟨ready.sound, fun query => ?_⟩
    split
    next same => rw [← text_at_congr _ file query same, ready.held, Option.map_some]
    next => rfl
  left _ given := .inl ⟨rfl, rfl, (Option.some.inj given).symm⟩

variable [LanguageService ι σ] (options : PruneOptions)

theorem removed_leaves (ready : Ready file start space) (count : Nat)
    (ran : (pass options file).run.run space = (.ok (.removed count), last)) :
    ∃ removals text, count = removals.length ∧ Leaves file start space last removals 1
      (some text) := by
  obtain ⟨m, rest, removals, loaded, part, written, filled, counted, tells⟩ :=
    removed_tells options file space last count ran
  obtain ⟨reading, rfl⟩ := ready_load ready m loaded
  obtain ⟨done, noted⟩ := Logged.write_ok space.store last.store file rest written
  refine ⟨removals, rest, counted, ?_, ?_, ?_, ?_⟩
  · rw [tells]
    simp [deletionOf]
  · exact noted
  · exact LocalStore.write _ _ file m.text rest ready.sound (ready_contains ready) reading done
  · intro text given
    obtain rfl := Option.some.inj given
    exact .inr ⟨filled, part.shorter⟩

theorem deleted_leaves (ready : Ready file start space)
    (ran : (pass options file).run.run space = (.ok .deleted, last)) :
    Leaves file start space last [] 0 none := by
  obtain ⟨m, loaded, deleted, tells⟩ := deleted_tells options file space last ran
  obtain ⟨reading, -⟩ := ready_load ready m loaded
  obtain ⟨done, noted⟩ := Logged.delete_ok space.store last.store file deleted
  refine ⟨?_, ?_, ?_, nofun⟩
  · rw [tells]
    simp [deletionOf]
  · rw [noted, List.replicate_zero, List.append_nil]
  · exact LocalStore.delete _ _ file m.text ready.sound (ready_contains ready) reading done

theorem passes_leave (plain : options.cleanup = false) (bound removed count : Nat)
    (outcome : Outcome) (ready : Ready file start space)
    (ran : (passes options file bound removed count).run.run space = (.ok outcome, last)) :
    ∃ removals writes text?, Leaves file start space last removals writes text? ∧
      outcome = text?.elim .deleted fun _ => outcomeOf (removed + removals.length)
        (count + writes) := by
  induction bound generalizing removed count space start with
  | zero => cases ran
  | succ bound ih =>
      rw [passes_turn] at ran
      split at ran
      next => cases ran
      next later passed =>
          obtain ⟨same, rfl⟩ := Prod.mk.inj ran
          exact ⟨[], 0, none, deleted_leaves options ready passed, (Except.ok.inj same).symm⟩
      next gone later passed =>
          obtain ⟨removals, text, rfl, first⟩ := removed_leaves options ready gone passed
          obtain ⟨more, writes, text?, rest, same⟩ := ih _ _ (leaves_ready first) ran
          refine ⟨removals ++ more, 1 + writes, text?, leaves_trans first rest, ?_⟩
          rw [same, List.length_append]
          congr 1
          funext _
          congr 1 <;> omega
      next later passed =>
          obtain ⟨store, events⟩ := settled_tells options file space later passed
          rw [settle, plain] at ran
          obtain ⟨rfl, rfl⟩ := pure_ok _ outcome later last ran
          exact ⟨[], 0, some start, leaves_nothing ready store events, rfl⟩

theorem prune_file_ends (plain : options.cleanup = false) (outcome : Outcome)
    (sound : LocalStore.Sound space.store.store)
    (held : FileStore.contains space.store.store file = true)
    (ran : (pruneFile options file).run.run space = (.ok outcome, last)) :
    ∃ session text? writes, session.file = file ∧ Accounted space last outcome session text?
      writes := by
  obtain ⟨start, present⟩ := prune_file_read options file outcome space last ran
  have told := LocalStore.read space.store.store file start sound held present
  rw [pruneFile, run_prune_within passBound options file start space present, passBound] at ran
  cases passed : (passes options file (Text.size start + 1) 0 0).run.run
      { space with events := space.events ++ [.opened file start] } with
  | mk result ended =>
      rw [passed] at ran
      obtain ⟨rfl, rfl⟩ := Prod.mk.inj ran
      have ready : Ready file start { space with events := space.events ++ [.opened file start] } :=
        ⟨sound, told⟩
      obtain ⟨removals, writes, text?, leaves, same⟩ := passes_leave options plain _ 0 0 outcome
        ready passed
      refine ⟨⟨file, start, removals, text?.isNone⟩, text?, writes, rfl, told, rfl, ?_, ?_,
        leaves.written, leaves.touched⟩
      · cases text? with
        | none =>
            rw [same]
            exact .deleted removals writes
        | some text =>
            rw [Option.elim_some, Nat.zero_add, Nat.zero_add, outcomeOf] at same
            rcases leaves.left text rfl with ⟨rfl, rfl, rfl⟩ | ⟨filled, shorter⟩
            · rw [same]
              exact .unchanged
            · have some : ¬ (removals.length == 0) = true := by simpa using filled
              rw [same, if_neg some]
              exact .pruned _ removals text writes filled rfl shorter
      · rw [EditSession.events]
        dsimp only
        rw [leaves.events]
        simp only [List.append_assoc, List.cons_append, List.nil_append]

end Leaves
end Workspace

namespace Run

variable {ι σ : Type} [FileStore σ] [LawfulStore σ] [LocalStore σ] [LanguageService ι σ]
    (options : PruneOptions) (before : σ)

structure Kept (run : Run ι (Logged σ)) : Prop where
  sound : LocalStore.Sound run.space.store.store
  balanced : ∀ path, Balanced (textAt? before path) (textAt? run.space.store.store path)
      (run.summary.outcome? path)
    ((Recording.empty.observeAll run.space.events).edits? path)
    (run.space.store.written.countP (· == path))

theorem visit_kept (plain : options.cleanup = false) (run : Run ι (Logged σ)) (target : Path)
    (unfailing : (visit (Workspace.pruneFile options) run target).summary.failures = []) :
    run.summary.failures = [] ∧
    (Kept before run → Kept before (visit (Workspace.pruneFile options) run target)) := by
  rw [visit] at unfailing ⊢
  split at unfailing
  next held =>
      rw [if_pos held]
      cases ran : (Workspace.pruneFile options target).run.run run.space with
      | mk result last =>
          rw [ran] at unfailing
          cases result with
          | error cause => exact absurd unfailing (run.summary.fail_some target cause.message)
          | ok outcome =>
              refine ⟨unfailing, fun kept => ?_⟩
              obtain ⟨session, text?, writes, rfl, accounted⟩ :=
                Workspace.prune_file_ends options plain outcome kept.sound held ran
              refine ⟨accounted.touched.sound, fun path => ?_⟩
              dsimp only
              rw [accounted.touched.texts, RunSummary.outcome_record, accounted.events,
                Recording.observe_all_append, Recording.session_edits, accounted.written,
                List.countP_append, List.countP_replicate]
              split
              next same =>
                  have balanced := kept.balanced path
                  rw [← text_at_congr run.space.store.store session.file path same, accounted.start,
                    ← RunSummary.outcome_congr _ session.file path same,
                    ← Recording.edits_congr _ session.file path same] at balanced
                  exact balanced.session session.file session accounted.ends accounted.deleted
              next => exact kept.balanced path
  next missing =>
      rw [if_neg missing]
      exact ⟨unfailing, id⟩

theorem visits_kept (plain : options.cleanup = false) (targets : List Path) (run : Run ι (Logged σ))
    (unfailing : (targets.foldl (visit (Workspace.pruneFile options)) run).summary.failures = []) :
    run.summary.failures = [] ∧
    (Kept before run → Kept before (targets.foldl (visit (Workspace.pruneFile options)) run)) := by
  induction targets generalizing run with
  | nil => exact ⟨unfailing, id⟩
  | cons target rest ih =>
      obtain ⟨middle, later⟩ := ih (visit (Workspace.pruneFile options) run target) unfailing
      obtain ⟨first, here⟩ := visit_kept options before plain run target middle
      exact ⟨first, fun kept => later (here kept)⟩

theorem rounds_kept (plain : options.cleanup = false) (targets : List Path) (left number : Nat)
    (run : Run ι (Logged σ))
    (unfailing : (rounds (Workspace.pruneFile options) targets left number run).summary.failures =
      []) :
    run.summary.failures = [] ∧
    (Kept before run → Kept before
      (rounds (Workspace.pruneFile options) targets left number run)) := by
  induction left generalizing number run with
  | zero => exact ⟨unfailing, id⟩
  | succ left ih =>
      have here := visits_kept options before plain targets
        { run with summary.rounds := number, changed := false }
      have start (kept : Kept before run) :
          Kept before { run with summary.rounds := number, changed := false } :=
        ⟨kept.sound, kept.balanced⟩
      rw [rounds] at unfailing ⊢
      split at unfailing
      next changed =>
          rw [if_pos changed]
          obtain ⟨middle, later⟩ := ih (number + 1) _ unfailing
          obtain ⟨first, round⟩ := here middle
          exact ⟨first, fun kept => later (round (start kept))⟩
      next settled =>
          rw [if_neg settled]
          obtain ⟨first, round⟩ := here unfailing
          exact ⟨first, fun kept => round (start kept)⟩

end Run

section Account

variable {before now : Option (Option String)} {outcome? : Option Outcome}
    {edits? : Option FileEdits} {writes : Nat}
  (balanced : Balanced before now outcome? edits? writes)

include balanced

theorem Balanced.deletion :
    (outcome? = some .deleted ↔ ∃ edits, edits? = some edits ∧ edits.deleted = true) ∧
      (outcome? = some .deleted ↔ before.isSome = true ∧ now.isSome = false) := by
  cases balanced with
  | unseen => cases before <;> simp
  | unchanged edits clean =>
      obtain ⟨kept, -⟩ := Bool.or_eq_false_iff.mp clean
      cases before <;> simp [kept]
  | pruned edits removed passes old text start kept => simp [kept]
  | deleted edits writes held gone => simp [held, gone]

theorem Balanced.pruning (removed passes : Nat) :
    outcome? = some (.pruned removed passes) ↔ ∃ edits, edits? = some edits ∧
      edits.deleted = false ∧ edits.removals ≠ [] ∧
      removed = edits.removals.length ∧ passes = writes := by
  cases balanced with
  | unseen => simp
  | unchanged edits clean =>
      obtain ⟨-, none⟩ := Bool.or_eq_false_iff.mp clean
      have empty : edits.removals = [] := by simpa using none
      simp [empty]
  | pruned edits gone count old text start kept filled counted =>
      constructor
      · intro same
        cases same
        exact ⟨edits, rfl, kept, filled, counted, rfl⟩
      · rintro ⟨_, same, -, -, rfl, rfl⟩
        cases same
        rw [counted]
  | deleted edits writes held gone => simp [gone]

theorem Balanced.change : now ≠ before ↔ ∃ edits, edits? = some edits ∧ edits.isEdited = true := by
  cases balanced with
  | unseen => simp
  | unchanged edits clean => simp [clean]
  | pruned edits removed passes old text start kept filled counted shorter =>
      have other : text ≠ old := by
        rintro rfl
        exact Nat.lt_irrefl _ shorter
      simp [start, other, FileEdits.isEdited, filled]
  | deleted edits writes held gone =>
      obtain ⟨old, rfl⟩ := Option.isSome_iff_exists.mp held
      simp [FileEdits.isEdited, gone]

end Account

namespace Workspace

variable {ι σ : Type} [FileStore σ] [LawfulStore σ] [LocalStore σ] [LanguageService ι σ]

-- A run that does not fail leaves accounts that agree. A file is deleted by its outcome just when
-- it is by its entry, and when the store has lost it. Its outcome tells the removals of its entry
-- and how often it was written. And the entries with an edit are those of the files that the store
-- tells something else of than before, one for each of them.
theorem accounts_agree (options : PruneOptions) (targets : List Path) (service : ι) (store : σ)
    (plain : options.cleanup = false) (sound : LocalStore.Sound store)
    (unfailing : (run options targets { service, store }).1.failures = []) :
    let ran := run options targets { service, store }
    let recording := Recording.empty.observeAll ran.2.events
    (∀ path,
      ((ran.1.outcome? path = some .deleted ↔ ∃ edits, recording.edits? path = some edits ∧
        edits.deleted = true) ∧
        (ran.1.outcome? path = some .deleted ↔
          FileStore.contains store path = true ∧ FileStore.contains ran.2.store path = false)) ∧
      (∀ removed passes, ran.1.outcome? path = some (.pruned removed passes) ↔
        ∃ edits, recording.edits? path = some edits ∧ edits.deleted = false ∧ edits.removals ≠ [] ∧
          removed = edits.removals.length ∧
          passes = (writesOf options targets { service, store }).countP (· == path)) ∧
      (textAt? ran.2.store path ≠ textAt? store path ↔ ∃ edits ∈ recording.edited,
        (edits.path == path) = true)) ∧
    recording.edited.Pairwise fun a b => (a.path == b.path) = false := by
  intro ran recording
  have noted := run_logged options targets ({ service, store } : Workspace ι σ)
  have distinct : recording.Distinct := Recording.distinct_observe_all .empty _ .nil
  have kept := (Run.rounds_kept options store plain targets options.roundLimit 1
    { space := logged ({ service, store } : Workspace ι σ) }
    (by rw [noted] at unfailing; exact unfailing)).2
    ⟨sound, fun path => .unseen⟩
  refine ⟨fun path => ?_, distinct.filter _⟩
  have balanced : Balanced (textAt? store path) (textAt? ran.2.store path) (ran.1.outcome? path)
    (recording.edits? path)
      ((writesOf options targets { service, store }).countP (· == path)) := by
    have told := kept.balanced path
    dsimp only [ran, recording]
    rw [noted]
    exact told
  refine ⟨?_, balanced.pruning, ?_⟩
  · rw [← text_at_held, ← text_at_held]
    exact balanced.deletion
  · rw [balanced.change]
    constructor
    · rintro ⟨edits, found, edited⟩
      obtain ⟨member, spelled⟩ := (Recording.edits_iff recording distinct path edits).mp found
      exact ⟨edits, List.mem_filter.mpr ⟨member, edited⟩, spelled⟩
    · rintro ⟨edits, listed, spelled⟩
      obtain ⟨member, edited⟩ := List.mem_filter.mp listed
      exact ⟨edits, (Recording.edits_iff recording distinct path edits).mpr ⟨member, spelled⟩,
        edited⟩

def relay : Workspace Project MemoryStore :=
  fresh [(⟨"/a.ts"⟩, "export\x7by\x7dfrom'./b'"),
    (⟨"/b.ts"⟩, "export let y\nexport let z\n//k\nexport let w")]

def relaying : PruneOptions := { deleteFiles := true, skipMarker := "k" }

def relayed : RunSummary × Workspace Project MemoryStore := run relaying [⟨"/b.ts"⟩, ⟨"/a.ts"⟩,
      ⟨"/b.ts"⟩] relay

theorem relay_is_accounted :
    relayed.1.failures.isEmpty = true ∧ relayed.1.outcome? ⟨"/b.ts"⟩ = some (.pruned 2 2) ∧
      (∃ edits, (Recording.empty.observeAll relayed.2.events).edits? ⟨"/b.ts"⟩ = some edits ∧
        edits.removals.length = 2) ∧
      (writesOf relaying [⟨"/b.ts"⟩, ⟨"/a.ts"⟩, ⟨"/b.ts"⟩] relay).countP (· == ⟨"/b.ts"⟩) = 2 ∧
      relayed.1.outcome? ⟨"/a.ts"⟩ = some .deleted ∧ FileStore.contains relayed.2.store
        ⟨"/a.ts"⟩ = false ∧
      ∃ edits ∈ (Recording.empty.observeAll relayed.2.events).edited, (edits.path == ⟨"/a.ts"⟩) =
        true := by
  have summary : (fun ended : RunSummary =>
    (ended.failures.isEmpty, ended.outcome? ⟨"/b.ts"⟩, ended.outcome? ⟨"/a.ts"⟩)) relayed.1 =
      (true, some (.pruned 2 2), some .deleted) := by decide +kernel
  obtain ⟨unfailing, outcomes⟩ := Prod.mk.inj summary
  obtain ⟨pruned, deleted⟩ := Prod.mk.inj outcomes
  obtain ⟨accounts, -⟩ := accounts_agree relaying [⟨"/b.ts"⟩, ⟨"/a.ts"⟩, ⟨"/b.ts"⟩] Project.empty
    relay.store rfl trivial
    (List.isEmpty_iff.mp unfailing)
  obtain ⟨-, counted, -⟩ := accounts ⟨"/b.ts"⟩
  obtain ⟨⟨-, gone⟩, -, changed⟩ := accounts ⟨"/a.ts"⟩
  obtain ⟨edits, found, -, -, removals, writes⟩ := (counted 2 2).mp pruned
  obtain ⟨held, lost⟩ := gone.mp deleted
  refine ⟨unfailing, pruned, ⟨edits, found, removals.symm⟩, writes.symm, deleted, lost,
    changed.mp fun same => ?_⟩
  have still := congrArg Option.isSome same
  rw [text_at_held, text_at_held, held] at still
  exact absurd (still.symm.trans lost) (by decide)

end Workspace
end DeadExports

import DeadExports.Proofs.Prune.Sessions
import DeadExports.Trace.Basic

set_option autoImplicit false

namespace DeadExports

namespace Recording

def edits? (recording : Recording) (file : Path) :
    Option FileEdits := recording.files.find? (·.path == file)

def Distinct (recording : Recording) :
    Prop := recording.files.Pairwise fun a b => (a.path == b.path) = false

theorem edits_congr (recording : Recording) (a b : Path) (same : (a == b) = true) :
    recording.edits? a = recording.edits? b := by
  have alike : (fun edits : FileEdits => edits.path == a) = fun edits => edits.path == b :=
    funext fun edits => congrFun (Path.same_congr a b same) edits.path
  rw [edits?, edits?, alike]

theorem edits_path (recording : Recording) (file : Path) (edits : FileEdits)
    (found : recording.edits? file = some edits) :
    (edits.path == file) = true :=
  List.find?_some (p := fun edits : FileEdits => edits.path == file) found

section Update

variable (recording : Recording) (file : Path) (change : FileEdits → FileEdits)
  (stays : ∀ edits, (change edits).path = edits.path)

include stays

theorem edits_update (query : Path) :
    (recording.update file change).edits? query =
      if file == query then some (change ((recording.edits? file).getD { path := file }))
        else recording.edits? query := by
  rw [update]
  split
  next known =>
      have paths (edits : FileEdits) : (if edits.path == file then change edits else edits).path =
          edits.path := by
        split
        next => exact stays edits
        next => rfl
      rw [edits?, List.find?_map]
      simp only [Function.comp_def, paths]
      cases same : file == query with
      | true =>
          obtain ⟨edits, found⟩ : ∃ edits, recording.edits? file = some edits := by
            rw [← Option.isSome_iff_exists, edits?, List.find?_isSome]
            simpa using known
          have spelled := edits_path recording file edits found
          rw [← edits?, ← edits_congr recording file query same, found, Option.map_some,
            if_pos spelled, if_pos rfl, Option.getD_some]
      | false =>
          rw [if_neg Bool.false_ne_true, ← edits?]
          cases found : recording.edits? query with
          | none => rfl
          | some edits =>
              have spelled := edits_path recording query edits found
              have other : ¬ (edits.path == file) = true := by
                rw [Path.same_iff] at spelled ⊢
                rw [Bool.eq_false_iff, ne_eq, Path.same_iff] at same
                exact fun equal => same (equal.symm.trans spelled)
              rw [Option.map_some, if_neg other]
  next unknown =>
      have none : recording.edits? file = none := by
        rw [edits?, List.find?_eq_none]
        simpa using unknown
      rw [edits?, List.find?_append, ← edits?]
      cases same : file == query with
      | true =>
          rw [← edits_congr recording file query same, none, Option.none_or, if_pos rfl,
            Option.getD_none, List.find?_singleton, stays, same, if_pos rfl]
      | false =>
          rw [if_neg Bool.false_ne_true, List.find?_singleton, stays, same,
            if_neg Bool.false_ne_true, Option.or_none]

theorem distinct_update (distinct : recording.Distinct) :
    (recording.update file change).Distinct := by
  rw [update]
  split
  next =>
      rw [Distinct, List.pairwise_map]
      refine distinct.imp fun {a b} apart => ?_
      have paths (edits : FileEdits) : (if edits.path == file then change edits else edits).path =
          edits.path := by
        split
        next => exact stays edits
        next => rfl
      rw [paths, paths]
      exact apart
  next unknown =>
      refine List.pairwise_append.mpr ⟨distinct, List.pairwise_singleton _ _,
        fun edits member other new => ?_⟩
      obtain rfl := List.mem_singleton.mp new
      rw [stays, Bool.eq_false_iff]
      exact fun same => unknown (List.any_eq_true.mpr ⟨edits, member, same⟩)

end Update

theorem observe_all_append (recording : Recording) (events more : List EditEvent) :
    recording.observeAll (events ++ more) = (recording.observeAll events).observeAll more :=
  List.foldl_append

theorem distinct_observe (recording : Recording) (event : EditEvent)
    (distinct : recording.Distinct) :
    (recording.observe event).Distinct := by
  cases event with
  | opened file text => exact distinct_update recording file id (fun _ => rfl) distinct
  | removed file removal => exact distinct_update recording file _ (fun _ => rfl) distinct
  | deleted file => exact distinct_update recording file _ (fun _ => rfl) distinct
  | closed file => exact distinct

theorem distinct_observe_all (recording : Recording) (events : List EditEvent)
    (distinct : recording.Distinct) :
    (recording.observeAll events).Distinct := by
  induction events generalizing recording with
  | nil => exact distinct
  | cons event rest ih => exact ih _ (distinct_observe recording event distinct)

theorem edits_iff (recording : Recording) (distinct : recording.Distinct) (file : Path)
    (edits : FileEdits) :
    recording.edits? file = some edits ↔ edits ∈ recording.files ∧ (edits.path == file) = true := by
  refine ⟨fun found => ⟨List.mem_of_find?_eq_some found, edits_path recording file edits found⟩, ?_⟩
  rintro ⟨member, spelled⟩
  rw [edits?]
  rw [Distinct] at distinct
  generalize recording.files = files at distinct member
  induction files with
  | nil => cases member
  | cons first rest ih =>
      obtain ⟨apart, distinct⟩ := List.pairwise_cons.mp distinct
      rcases List.mem_cons.mp member with rfl | later
      · rw [List.find?_cons, spelled]
      · have other : ¬ (first.path == file) = true := by
          intro same
          have unlike := apart edits later
          rw [Bool.eq_false_iff, ne_eq, Path.same_iff] at unlike
          exact unlike (((Path.same_iff _ _).mp same).trans ((Path.same_iff _ _).mp spelled).symm)
        rw [List.find?_cons, Bool.eq_false_iff.mpr other]
        exact ih distinct later

theorem removals_edits (recording : Recording) (file : Path) (removals : List Removal)
    (edits : FileEdits) (known : recording.edits? file = some edits) (query : Path) :
    (recording.observeAll (removals.map (.removed file))).edits? query =
      if file == query then some { edits with removals := edits.removals ++ removals }
        else recording.edits? query := by
  induction removals generalizing recording edits with
  | nil =>
      rw [List.append_nil]
      split
      next same => exact (edits_congr recording file query same).symm.trans known
      next => rfl
  | cons removal rest ih =>
      have next (query : Path) := edits_update recording file
        (fun edits => { edits with removals := edits.removals ++ [removal] }) (fun _ => rfl) query
      have here := next file
      rw [if_pos BEq.rfl, known, Option.getD_some] at here
      have after := ih (recording.observe (.removed file removal)) _ here
      refine after.trans ?_
      split
      next => rw [List.append_assoc, List.singleton_append]
      next other => exact (next query).trans (if_neg other)

end Recording

def EditSession.note (session : EditSession) (edits : FileEdits) : FileEdits :=
  { edits with
    removals := edits.removals ++ session.removals
    deleted := edits.deleted || session.deleted }

namespace Recording

theorem session_edits (recording : Recording) (session : EditSession) (query : Path) :
    (recording.observeAll session.events).edits? query =
      if session.file == query then some
        (session.note ((recording.edits? session.file).getD { path := session.file }))
      else recording.edits? query := by
  obtain ⟨file, text, removals, deleted⟩ := session
  have opened (query : Path) : (recording.observe (.opened file text)).edits? query =
      if file == query then some ((recording.edits? file).getD { path := file })
      else recording.edits? query :=
    edits_update recording file id (fun _ => rfl) query
  have here := opened file
  rw [if_pos BEq.rfl] at here
  have cut := removals_edits _ file removals _ here
  change ((recording.observe (.opened file text)).observeAll (removals.map (.removed file) ++
    deletionOf file deleted ++
    [.closed file])).edits? query = _
  rw [observe_all_append, observe_all_append]
  change (((recording.observe (.opened file text)).observeAll
    (removals.map (.removed file))).observeAll
    (deletionOf file deleted)).edits? query = _
  cases deleted with
  | false =>
      refine (cut query).trans ?_
      split
      next => simp only [EditSession.note, Bool.or_false]
      next other => exact (opened query).trans (if_neg other)
  | true =>
      have now := cut file
      rw [if_pos BEq.rfl] at now
      refine (edits_update _ file (fun edits => { edits with deleted := true })
        (fun _ => rfl) query).trans ?_
      rw [now, Option.getD_some]
      split
      next => simp only [EditSession.note, Bool.or_true]
      next other => rw [cut, if_neg other, opened, if_neg other]

end Recording

namespace RunSummary

def outcome? (summary : RunSummary) (path : Path) : Option Outcome :=
  (summary.outcomes.find? (·.1 == path)).map Prod.snd

theorem outcome_congr (summary : RunSummary) (a b : Path) (same : (a == b) = true) :
    summary.outcome? a = summary.outcome? b := by
  have alike : (fun entry : Path × Outcome => entry.1 == a) = fun entry => entry.1 == b :=
    funext fun entry => congrFun (Path.same_congr a b same) entry.1
  rw [outcome?, outcome?, alike]

theorem outcome_record (summary : RunSummary) (path query : Path) (outcome : Outcome) :
    (summary.record path outcome).outcome? query =
      if path == query then some (((summary.outcome? path).map (·.merge outcome)).getD outcome)
        else summary.outcome? query := by
  rw [record, outcome?, outcome?, outcome?]
  dsimp only
  induction summary.outcomes with
  | nil => cases same : path == query <;> simp [putOutcome, same]
  | cons first rest ih =>
      obtain ⟨key, before⟩ := first
      rw [putOutcome]
      cases here : key == path with
      | true =>
          have alike : (key == query) = (path == query) := by
            simp only [Path.same_eq_decide, (Path.same_iff key path).mp here]
          cases same : path == query <;> simp [here, alike, same]
      | false =>
          cases hit : key == query with
          | true =>
              have other : (path == query) = false := by
                simp only [Path.same_eq_decide, decide_eq_true_eq, decide_eq_false_iff_not]
                  at here hit ⊢
                exact fun same => here (hit.trans same.symm)
              simp [hit, other]
          | false => simpa [here, hit] using ih

end RunSummary
end DeadExports

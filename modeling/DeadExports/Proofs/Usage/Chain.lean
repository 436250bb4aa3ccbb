import DeadExports.Proofs.Facts.Places
import DeadExports.Proofs.Path.Order
import DeadExports.Usage.Chain
import Mathlib.Data.List.Dedup
import Mathlib.Data.List.Perm.Subperm

set_option autoImplicit false

namespace DeadExports

namespace Tree

theorem flat_map_words (spans : Tree → List Span) (children : List Tree)
    (each : ∀ child ∈ children, (spans child).Sublist child.words) :
    (children.flatMap spans).Sublist (wordsAll children) := by
  induction children with
  | nil => exact List.nil_sublist _
  | cons first rest ih =>
      rw [List.flatMap_cons, wordsAll]
      exact (each first List.mem_cons_self).append
        (ih fun child member => each child (List.mem_cons_of_mem _ member))

theorem words_of_some (children some : List Tree) (sublist : some.Sublist children) :
    (wordsAll some).Sublist (wordsAll children) := by
  induction sublist with
  | slnil => exact List.nil_sublist _
  | cons first _ ih => exact ih.trans (List.sublist_append_right _ _)
  | cons_cons first _ ih => exact (List.Sublist.refl _).append ih

end Tree

namespace SourceModule

theorem forwarding_of_candidates (candidates : List Candidate)
    (forwarded : Candidate → Option Forwarding)
    (placed : ∀ candidate forwarding, forwarded candidate = some forwarding → ∃ rest,
      candidate.identifiers = forwarding.span :: rest) :
    ((candidates.filterMap forwarded).map Forwarding.span).Sublist
      (candidates.flatMap Candidate.identifiers) := by
  induction candidates with
  | nil => exact List.nil_sublist _
  | cons first rest ih =>
      rw [List.flatMap_cons]
      cases found : forwarded first with
      | none =>
          rw [List.filterMap_cons_none found]
          exact ih.trans (List.sublist_append_right _ _)
      | some forwarding =>
          obtain ⟨others, identifiers⟩ := placed first forwarding found
          rw [List.filterMap_cons_some found, List.map_cons, identifiers]
          exact (ih.trans (List.sublist_append_right others _)).cons_cons forwarding.span

theorem forwarding_words (m : SourceModule) :
    (m.forwardings.map Forwarding.span).Sublist (Tree.wordsAll m.tree.children) := by
  have below := (Tree.laid_out_parts m.tree m.laidOut).2.2
  rw [forwardings, List.map_flatMap]
  refine (Tree.flat_map_words _ _ fun statement stated => ?_).trans
    (Tree.words_of_some _ _ List.filter_sublist)
  have laidOut := Tree.laid_out_member _ below statement (List.mem_filter.mp stated).1
  split
  next clause _ found =>
      obtain ⟨member, isClause⟩ := Tree.child_of_kind_cases statement _ clause found
      have clauseLaidOut := Tree.laid_out_child statement laidOut clause member
      have listed := Tree.clause_exports_words m.text none clause clauseLaidOut
        (by rw [isClause]; rfl)
      have names : (Scan.specifierCandidates m.text (Scan.importedNames m.text m.statements)
        statement clause).flatMap
          Candidate.identifiers = (clause.clauseExports m.text none).map ExportBinding.span := by
        rw [Scan.specifierCandidates, Tree.clauseExports, List.flatMap_map, List.map_map]
        exact (List.map_eq_flatMap ..).symm
      refine List.Sublist.trans ?_
        (listed.trans (Tree.words_of_child statement laidOut clause member))
      rw [← names]
      refine forwarding_of_candidates _ _ fun candidate forwarding taken => ?_
      split at taken
      next specifier span rest _ identifiers =>
          cases taken
          exact ⟨rest, identifiers⟩
      next => cases taken
  next => exact List.nil_sublist _

theorem forwarding_unique (m : SourceModule) (one other : Forwarding) (member : one ∈ m.forwardings)
    (among : other ∈ m.forwardings) (same : one.span = other.span) : one = other := by
  obtain ⟨ordered, -, below⟩ := Tree.laid_out_parts m.tree m.laidOut
  have words := Tree.words_all_in_order _ _ _ ordered below
  have apart := (Span.in_order_apart _ _ _ words).sublist m.forwarding_words
  have filled (span : Span) (placed : span ∈ m.forwardings.map Forwarding.span) :
      span.start < span.stop :=
    (Span.in_order_bounds _ _ _ words span (m.forwarding_words.mem placed)).2.1
  have nodup : (m.forwardings.map Forwarding.span).Nodup := by
    refine apart.imp_of_mem fun {a b} inA inB before equal => ?_
    have := filled a inA
    rw [equal] at before this
    omega
  exact List.inj_on_of_nodup_map nodup member among same

end SourceModule

namespace Chain

def HandsOn (m : SourceModule) (file : Path) (reference : Reference) (specifier : String) : Prop :=
  reference.file.parts = file.parts ∧ ∃ forwarding ∈ m.forwardings, forwarding.span =
    reference.span ∧ forwarding.specifier = specifier

def TakesFrom (references : List Reference) (m : SourceModule) (file : Path) (specifier : String) :
    Prop :=
  ∃ before reference after, references = before ++ reference :: after ∧
    HandsOn m file reference specifier ∧
    ∀ earlier ∈ before, ∀ other, ¬ HandsOn m file earlier other

def Ends (references : List Reference) (m : SourceModule) (file : Path) : Prop :=
  ∀ reference ∈ references, ∀ specifier, ¬ HandsOn m file reference specifier

def handedOn? (m : SourceModule) (file : Path) (reference : Reference) : Option String :=
  if reference.file == file then
    (m.forwardings.find? fun forwarding => forwarding.span == reference.span).map
      Forwarding.specifier
  else none

theorem handed_on_iff (m : SourceModule) (file : Path) (reference : Reference)
    (specifier : String) :
    handedOn? m file reference = some specifier ↔ HandsOn m file reference specifier := by
  rw [handedOn?, Path.same_eq_decide, HandsOn]
  by_cases here : reference.file.parts = file.parts
  · rw [decide_eq_true here, if_pos rfl, Option.map_eq_some_iff, and_iff_right here]
    constructor
    · rintro ⟨forwarding, found, rfl⟩
      exact ⟨forwarding, List.mem_of_find?_eq_some found, by simpa using List.find?_some found, rfl⟩
    · rintro ⟨forwarding, member, placed, rfl⟩
      obtain ⟨other, found⟩ : ∃ other,
          (m.forwardings.find? fun forwarding => forwarding.span == reference.span) = some other :=
        Option.isSome_iff_exists.mp (List.find?_isSome.mpr ⟨forwarding, member, by simp [placed]⟩)
      have same : other.span = reference.span := by simpa using List.find?_some found
      refine ⟨other, found, ?_⟩
      rw [m.forwarding_unique other forwarding (List.mem_of_find?_eq_some found) member
        (same.trans placed.symm)]
  · simp [here]

theorem next_specifier_eq (references : List Reference) (m : SourceModule) (file : Path) :
    nextSpecifier? (within references file) m.forwardings = references.findSome?
      (handedOn? m file) := by
  rw [nextSpecifier?, within]
  induction references with
  | nil => rfl
  | cons first rest ih =>
      rw [List.filter_cons, List.findSome?_cons, ← ih, handedOn?]
      split
      next => rw [List.findSome?_cons]
      next => rfl

theorem takes_from_iff (references : List Reference) (m : SourceModule) (file : Path)
    (specifier : String) :
    nextSpecifier? (within references file) m.forwardings = some specifier ↔
    TakesFrom references m file specifier := by
  rw [next_specifier_eq, List.findSome?_eq_some_iff, TakesFrom]
  simp only [handed_on_iff, Option.eq_none_iff_forall_ne_some, ne_eq]

theorem ends_iff (references : List Reference) (m : SourceModule) (file : Path) :
    nextSpecifier? (within references file) m.forwardings = none ↔ Ends references m file := by
  rw [next_specifier_eq, List.findSome?_eq_none_iff, Ends]
  simp only [← handed_on_iff, Option.eq_none_iff_forall_ne_some, ne_eq]

def Mentioned (references : List Reference) (file : Path) :
    Prop := ∃ reference ∈ references, reference.file.parts = file.parts

theorem mentioned_iff (references : List Reference) (file : Path) :
    (within references file).isEmpty = false ↔ Mentioned references file := by
  simp [within, Mentioned, List.isEmpty_eq_false_iff, Path.same_eq_decide]

def fileCount (references : List Reference) :
    Nat := (references.map fun reference => reference.file.parts).dedup.length

def Distinct (files : List Path) : Prop := files.Pairwise fun file other => file.parts ≠ other.parts

theorem distinct_mentioned_bound (references : List Reference) (files : List Path)
    (distinct : Distinct files) (mentioned : ∀ file ∈ files, Mentioned references file) :
    files.length ≤ fileCount references := by
  have nodup : (files.map Path.parts).Nodup := List.pairwise_map.mpr distinct
  have within : files.map Path.parts ⊆ (references.map fun reference =>
    reference.file.parts).dedup := by
    intro parts member
    obtain ⟨file, listed, rfl⟩ := List.mem_map.mp member
    obtain ⟨reference, among, same⟩ := mentioned file listed
    exact List.mem_dedup.mpr (List.mem_map.mpr ⟨reference, among, same⟩)
  have bound := (List.subperm_of_subset nodup within).length_le
  rwa [List.length_map] at bound

section Walks

variable {ι σ : Type} [FileStore σ] [LanguageService ι σ]

-- From `specifier` in `importer` the chain comes to `file`: the service says so, some reference
-- stands in the file, and the file can be parsed.
structure Enters (store : σ) (references : List Reference) (service : ι) (importer : Path)
    (specifier : String) (file : Path) (m : SourceModule) (later : ι) : Prop where
  resolved : LanguageService.resolveModule service store specifier importer = (some file, later)
  mentioned : Mentioned references file
  parsed : SourceModule.load store file = .ok m

-- Files that hand a name on, one to the next, from what `specifier` stands for in `importer` down
-- to one that does not. The service may change with every question, so it is passed along.
inductive Forwards (store : σ) (references : List Reference) :
    ι → Path → String → List Path → Prop where
  | last (service later : ι) (importer file : Path) (specifier : String) (m : SourceModule)
      (enters : Enters store references service importer specifier file m later)
      (ends : Ends references m file) :
      Forwards store references service importer specifier [file]
  | next (service later : ι) (importer file : Path) (specifier further : String) (m : SourceModule)
      (files : List Path) (enters : Enters store references service importer specifier file m later)
      (takes : TakesFrom references m file further)
      (rest : Forwards store references later file further files) :
      Forwards store references service importer specifier (file :: files)

structure Walk (ι : Type) where
  service : ι
  passed : List Path
  importer : Path
  specifier : String

namespace Walk

def turn (store : σ) (references : List Reference) (walk : Walk ι) :
    Walk ι ⊕ Option (List Path) × ι :=
  match LanguageService.resolveModule walk.service store walk.specifier walk.importer with
  | (none, later) => .inr (none, later)
  | (some file, later) =>
    if walk.passed.contains file || (within references file).isEmpty then .inr (none, later)
    else
      match SourceModule.load store file with
      | .error _ => .inr (none, later)
      | .ok m =>
        match nextSpecifier? (within references file) m.forwardings with
        | none => .inr (some (walk.passed ++ [file]), later)
        | some next =>
          .inl
            { service := later
              passed := walk.passed ++ [file]
              importer := file
              specifier := next }

def after (store : σ) (references : List Reference) : Nat → Walk ι → Option (Walk ι)
  | 0, walk => some walk
  | hops + 1, walk =>
    match walk.turn store references with
    | .inl next => next.after store references hops
    | .inr _ => none

variable {store : σ} {references : List Reference} {walk next : Walk ι}

theorem passed_iff (passed : List Path) (file : Path) (distinct : Distinct passed) :
    passed.contains file = false ↔ Distinct (passed ++ [file]) := by
  rw [Distinct, List.pairwise_append]
  simp only [List.contains_eq_any_beq, List.any_eq_false, Path.same_eq_decide, decide_eq_true_eq,
    List.pairwise_singleton, List.mem_singleton, forall_eq, true_and]
  constructor
  · exact fun fresh => ⟨distinct, fun earlier member same => fresh earlier member same.symm⟩
  · exact fun apart earlier member same => apart.2 earlier member same.symm

theorem turn_enters (walk : Walk ι) (distinct : Distinct walk.passed) (file : Path)
    (m : SourceModule) (later : ι)
    (enters : Enters store references walk.service walk.importer walk.specifier file m later)
    (apart : Distinct (walk.passed ++ [file])) :
    walk.turn store references =
      match nextSpecifier? (within references file) m.forwardings with
      | none => .inr (some (walk.passed ++ [file]), later)
      | some next =>
        .inl
          { service := later, passed := walk.passed ++ [file], importer := file,
            specifier := next } := by
  rw [turn, enters.resolved]
  dsimp only
  rw [(passed_iff walk.passed file distinct).mpr apart,
    (mentioned_iff references file).mpr enters.mentioned, Bool.or_self, if_neg Bool.false_ne_true,
    enters.parsed]

theorem turn_astray (distinct : Distinct walk.passed)
    (nowhere : ∀ file m later, Enters store references walk.service walk.importer walk.specifier
      file m later → ¬ Distinct (walk.passed ++ [file])) :
    ∃ later, walk.turn store references = .inr (none, later) := by
  rw [turn]
  cases asked : LanguageService.resolveModule walk.service store walk.specifier walk.importer with
  | mk found later =>
      refine ⟨later, ?_⟩
      cases found with
      | none => rfl
      | some file =>
          dsimp only
          split
          next => rfl
          next goesOn =>
              rw [Bool.not_eq_true, Bool.or_eq_false_iff, passed_iff walk.passed file distinct,
                mentioned_iff] at goesOn
              cases parsed : SourceModule.load store file with
              | error cause => rfl
              | ok m => exact absurd goesOn.1 (nowhere file m later ⟨asked, goesOn.2, parsed⟩)

theorem turn_cases (store : σ) (references : List Reference) (walk : Walk ι)
    (distinct : Distinct walk.passed) :
    (∃ file m later, Enters store references walk.service walk.importer walk.specifier file
      m later ∧
      Distinct (walk.passed ++ [file]) ∧
      ((Ends references m file ∧ walk.turn store references =
        .inr (some (walk.passed ++ [file]), later)) ∨
        ∃ specifier, TakesFrom references m file specifier ∧
          walk.turn store references =
            .inl
              { service := later, passed := walk.passed ++ [file], importer := file, specifier })) ∨
    ∃ later, walk.turn store references = .inr (none, later) := by
  by_cases entered : ∃ file m later,
    Enters store references walk.service walk.importer walk.specifier file m later ∧
      Distinct (walk.passed ++ [file])
  · obtain ⟨file, m, later, enters, apart⟩ := entered
    refine .inl ⟨file, m, later, enters, apart, ?_⟩
    rw [turn_enters walk distinct file m later enters apart]
    cases follows : nextSpecifier? (within references file) m.forwardings with
    | none => exact .inl ⟨(ends_iff references m file).mp follows, rfl⟩
    | some next => exact .inr ⟨next, (takes_from_iff references m file next).mp follows, rfl⟩
  · exact .inr (turn_astray distinct fun file m later enters apart =>
      entered ⟨file, m, later, enters, apart⟩)

theorem follow_turn (store : σ) (references : List Reference) (steps : Nat) (walk : Walk ι) :
    follow store references (steps + 1) walk.service walk.passed walk.importer walk.specifier =
      match walk.turn store references with
      | .inl next => follow store references steps next.service next.passed next.importer
          next.specifier
      | .inr answer => answer := by
  rw [follow, turn]
  cases LanguageService.resolveModule walk.service store walk.specifier walk.importer with
  | mk found later =>
      cases found with
      | none => rfl
      | some file =>
          dsimp only
          split
          next => rfl
          next =>
              have parses : SourceParser.parse later store file = (SourceModule.load store file,
                later) := rfl
              rw [parses]
              cases SourceModule.load store file with
              | error cause => rfl
              | ok m =>
                  dsimp only
                  cases nextSpecifier? (within references file) m.forwardings <;> rfl

structure Sound (references : List Reference) (walk : Walk ι) : Prop where
  distinct : Distinct walk.passed
  mentioned : ∀ file ∈ walk.passed, Mentioned references file

theorem hop_sound (sound : walk.Sound references) (hops : walk.turn store references = .inl next) :
    next.Sound references ∧ next.passed.length = walk.passed.length + 1 := by
  obtain ⟨file, m, later, enters, apart, ⟨-, ends⟩ | ⟨specifier, -, goesOn⟩⟩ | ⟨later, astray⟩ :=
    turn_cases store references walk sound.distinct
  · cases ends.symm.trans hops
  · cases goesOn.symm.trans hops
    refine ⟨⟨apart, fun passed member => ?_⟩, List.length_append⟩
    rcases List.mem_append.mp member with early | here
    · exact sound.mentioned passed early
    · exact List.mem_singleton.mp here ▸ enters.mentioned
  · cases astray.symm.trans hops

theorem walk_ends (store : σ) (steps : Nat) (walk : Walk ι) (sound : walk.Sound references)
    (enough : fileCount references < walk.passed.length + steps) :
    ∃ hops last, walk.passed.length + hops ≤ fileCount references ∧
      walk.after store references hops = some last ∧
      last.turn store references =
        .inr (follow store references steps walk.service walk.passed walk.importer
          walk.specifier) := by
  induction steps generalizing walk with
  | zero =>
      have bound := distinct_mentioned_bound references walk.passed sound.distinct sound.mentioned
      omega
  | succ steps ih =>
      rw [follow_turn]
      cases turned : walk.turn store references with
      | inr answer =>
          exact ⟨0, walk, distinct_mentioned_bound references walk.passed sound.distinct
            sound.mentioned, rfl, turned⟩
      | inl next =>
          obtain ⟨soundly, longer⟩ := hop_sound sound turned
          obtain ⟨hops, last, bound, reached, ended⟩ := ih next soundly (by omega)
          refine ⟨hops + 1, last, by omega, ?_, ended⟩
          rw [after, turned]
          exact reached

theorem follow_sound (steps : Nat) (walk : Walk ι) (distinct : Distinct walk.passed)
    (files : List Path)
    (found : (follow store references steps walk.service walk.passed walk.importer
      walk.specifier).1 = some files) :
    ∃ rest, files = walk.passed ++ rest ∧ Distinct files ∧
      Forwards store references walk.service walk.importer walk.specifier rest := by
  induction steps generalizing walk with
  | zero => cases found
  | succ steps ih =>
      rw [follow_turn] at found
      obtain ⟨file, m, later, enters, apart, ⟨stops, ends⟩ | ⟨specifier, takes, goesOn⟩⟩ | ⟨later,
          astray⟩ :=
        turn_cases store references walk distinct
      · rw [ends] at found
        obtain rfl := Option.some.inj found
        exact ⟨[file], rfl, apart, .last _ later _ file _ m enters stops⟩
      · rw [goesOn] at found
        obtain ⟨rest, rfl, distinct, forwards⟩ := ih _ apart found
        exact ⟨file :: rest, List.append_assoc .., distinct, .next _ later _ file _ specifier m rest
          enters takes forwards⟩
      · rw [astray] at found
        cases found

theorem follow_complete (service : ι) (importer : Path) (specifier : String) (rest : List Path)
    (forwards : Forwards store references service importer specifier rest) (passed : List Path)
    (steps : Nat) (distinct : Distinct (passed ++ rest)) (enough : rest.length ≤ steps) :
    (follow store references steps service passed importer specifier).1 =
      some (passed ++ rest) := by
  induction forwards generalizing passed steps with
  | last service later importer file specifier m enters ends =>
      obtain ⟨fewer, rfl⟩ := Nat.exists_eq_add_of_le' enough
      have turned := turn_enters ⟨service, passed, importer, specifier⟩
        (List.pairwise_append.mp distinct).1 file m later enters
        distinct
      have opened := follow_turn store references fewer ⟨service, passed, importer, specifier⟩
      rw [turned, (ends_iff references m file).mpr ends] at opened
      exact congrArg Prod.fst opened
  | next service later importer file specifier further m files enters takes _ ih =>
      obtain ⟨fewer, rfl⟩ := Nat.exists_eq_add_of_le' enough
      rw [List.append_cons] at distinct ⊢
      have apart := (List.pairwise_append.mp distinct).1
      have turned := turn_enters ⟨service, passed, importer, specifier⟩
        (List.pairwise_append.mp apart).1 file m later enters
        apart
      have opened := follow_turn store references (fewer + files.length)
        ⟨service, passed, importer, specifier⟩
      rw [turned, (takes_from_iff references m file further).mpr takes] at opened
      exact (congrArg Prod.fst opened).trans (ih _ _ distinct (Nat.le_add_left _ _))

end Walk

theorem forwards_mentioned (store : σ) (references : List Reference) (service : ι) (importer : Path)
    (specifier : String) (files : List Path)
    (forwards : Forwards store references service importer specifier files) :
    ∀ file ∈ files, Mentioned references file := by
  induction forwards with
  | last service later importer file specifier m enters ends =>
      intro passed member
      exact List.mem_singleton.mp member ▸ enters.mentioned
  | next service later importer file specifier further m files enters takes _ ih =>
      intro passed member
      rcases List.mem_cons.mp member with rfl | later
      · exact enters.mentioned
      · exact ih passed later

-- The walk ends after at most as many hops as the references have files. Its answer is the one list
-- of different files that hand the name on from the given specifier, down to a file that does not;
-- where there is none it has no answer.
theorem chain_is_forwarding (service : ι) (store : σ) (origin : Path) (specifier : String)
    (references : List Reference) :
    (∃ hops last, hops ≤ fileCount references ∧
      (Walk.mk service [] origin specifier).after store references hops = some last ∧
      last.turn store references = .inr (find service store origin specifier references)) ∧
    (∀ files, (find service store origin specifier references).1 = some files ↔
      Distinct files ∧ Forwards store references service origin specifier files) ∧
    ((find service store origin specifier references).1 = none ↔
      ¬ ∃ files, Distinct files ∧ Forwards store references service origin specifier files) := by
  have fewer : fileCount references ≤ references.length := by
    have shorter := (List.dedup_sublist
      (references.map fun reference => reference.file.parts)).length_le
    rwa [List.length_map] at shorter
  have answers (files : List Path) : (find service store origin specifier references).1 =
    some files ↔
      Distinct files ∧ Forwards store references service origin specifier files := by
    constructor
    · intro found
      obtain ⟨rest, rfl, distinct, forwards⟩ :=
        Walk.follow_sound _ ⟨service, [], origin, specifier⟩ List.Pairwise.nil files found
      exact ⟨distinct, forwards⟩
    · rintro ⟨distinct, forwards⟩
      have bound := distinct_mentioned_bound references files distinct
        (forwards_mentioned store references service origin specifier files forwards)
      exact Walk.follow_complete service origin specifier files forwards [] _ distinct (by omega)
  refine ⟨?_, answers, ?_⟩
  · have start : (Walk.mk service [] origin specifier).Sound references := ⟨List.Pairwise.nil,
      fun _ member => by cases member⟩
    obtain ⟨hops, last, bound, reached, ended⟩ :=
      Walk.walk_ends store (references.length + 1) _ start
      (Nat.lt_of_le_of_lt fewer (by simp))
    exact ⟨hops, last, by simpa using bound, reached, ended⟩
  · rw [Option.eq_none_iff_forall_ne_some, not_exists]
    exact forall_congr' fun files => not_congr (answers files)

end Walks

end Chain
end DeadExports

import DeadExports.Proofs.Project.Completeness
import DeadExports.Proofs.Project.Mentions

set_option autoImplicit false

namespace DeadExports.Project

structure Search where
  pending : List ExportKey
  expanded : List ExportKey
  found : List Reference

inductive Turn (project : Project) : Search → Search → Prop where
  | skip (before after expanded : List ExportKey) (key : ExportKey) (found : List Reference)
      (known : expanded.contains key = true) :
      Turn project ⟨before ++ key :: after, expanded, found⟩ ⟨before ++ after, expanded, found⟩
  | expand (before after pending expanded : List ExportKey) (key : ExportKey)
      (found : List Reference) (fresh : expanded.contains key = false)
      (placed : pending.Perm (before ++ after ++ project.handedOn key)) :
      Turn project ⟨before ++ key :: after, expanded, found⟩ ⟨pending, key :: expanded, found ++
        project.usesOf key⟩

def searchFor (project : Project) (symbol : Symbol) : Search :=
  match project.facts? symbol.file with
  | none => ⟨[], [], []⟩
  | some facts => ⟨baseKeys symbol facts, [], baseReferences symbol facts⟩

structure Sought (project : Project) (symbol : Symbol) (facts : Facts) (search : Search) :
    Prop where
  waiting : ∀ key ∈ search.pending, project.SpreadsTo symbol key
  spread : ∀ key ∈ search.expanded, project.SpreadsTo symbol key
  base : ∀ key ∈ baseKeys symbol facts, search.expanded.contains key = true ∨
      search.pending.contains key = true
  led : ∀ key ∈ search.expanded, ∀ next ∈ project.handedOn key,
    search.expanded.contains next = true ∨ search.pending.contains next = true
  found : ∀ reference, reference ∈ search.found ↔
    reference ∈ baseReferences symbol facts ++ search.expanded.flatMap project.usesOf

section Turns

variable {project : Project} {symbol : Symbol} {facts : Facts}

theorem search_sought (known : project.facts? symbol.file = some facts) :
    project.Sought symbol facts (project.searchFor symbol) := by
  rw [searchFor, known]
  constructor
  · exact spreads_base facts known
  · simp
  · exact fun key member => .inr (contains_of_member _ key member)
  · simp
  · simp

theorem known_after_turn (before after expanded pending later : List ExportKey)
    (key other : ExportKey) (taken : later.contains key = true)
    (kept : ∀ key ∈ expanded, key ∈ later) (moved : ∀ key ∈ before ++ after, key ∈ pending)
    (held : expanded.contains other = true ∨ (before ++ key :: after).contains other = true) :
    later.contains other = true ∨ pending.contains other = true := by
  rcases held with held | held
  · obtain ⟨item, member, same⟩ := List.contains_iff_exists_mem_beq.mp held
    exact .inl (List.contains_iff_exists_mem_beq.mpr ⟨item, kept item member, same⟩)
  · obtain ⟨item, member, same⟩ := List.contains_iff_exists_mem_beq.mp held
    rcases List.mem_append.mp member with early | late
    · exact .inr (List.contains_iff_exists_mem_beq.mpr
        ⟨item, moved item (List.mem_append_left _ early), same⟩)
    · rcases List.mem_cons.mp late with rfl | late
      · exact .inl (contains_of_same later item other (BEq.symm same) taken)
      · exact .inr (List.contains_iff_exists_mem_beq.mpr
          ⟨item, moved item (List.mem_append_right _ late), same⟩)

theorem turn_exists (search : Search) (waits : search.pending ≠ []) :
    ∃ later, project.Turn search later := by
  obtain ⟨pending, expanded, found⟩ := search
  obtain ⟨key, after, rfl⟩ := List.exists_cons_of_ne_nil waits
  cases known : expanded.contains key with
  | true => exact ⟨_, .skip [] after expanded key found known⟩
  | false => exact ⟨_, .expand [] after _ expanded key found known (List.Perm.refl _)⟩

theorem turn_sought (search later : Search) (turn : project.Turn search later)
    (sought : project.Sought symbol facts search) :
    project.Sought symbol facts later := by
  cases turn with
  | skip before after expanded key found known =>
      have left : ∀ other ∈ before ++ after, other ∈ before ++ key :: after := by
        intro other member
        rcases List.mem_append.mp member with early | late
        · exact List.mem_append_left _ early
        · exact List.mem_append_right _ (List.mem_cons_of_mem _ late)
      have still (other : ExportKey) := known_after_turn before after expanded (before ++ after)
        expanded key other known
        (fun _ member => member) (fun _ member => member)
      constructor
      · exact fun other member => sought.waiting other (left other member)
      · exact sought.spread
      · exact fun other member => still other (sought.base other member)
      · exact fun one member other handed => still other (sought.led one member other handed)
      · exact sought.found
  | expand before after pending expanded key found fresh placed =>
      have here := sought.waiting key (List.mem_append_right _ List.mem_cons_self)
      have taken : (key :: expanded).contains key = true :=
        contains_of_member _ key List.mem_cons_self
      have moved : ∀ other ∈ before ++ after, other ∈ pending := fun other member =>
        placed.mem_iff.mpr (List.mem_append_left _ member)
      have still (other : ExportKey) := known_after_turn before after expanded pending
        (key :: expanded) key other taken
        (fun _ member => List.mem_cons_of_mem _ member) moved
      constructor
      · intro other member
        rcases List.mem_append.mp (placed.mem_iff.mp member) with old | handed
        · refine sought.waiting other ?_
          rcases List.mem_append.mp old with early | late
          · exact List.mem_append_left _ early
          · exact List.mem_append_right _ (List.mem_cons_of_mem _ late)
        · exact spreads_handed_on key here other handed
      · intro other member
        rcases List.mem_cons.mp member with rfl | old
        · exact here
        · exact sought.spread other old
      · exact fun other member => still other (sought.base other member)
      · intro one member other handed
        rcases List.mem_cons.mp member with rfl | old
        · exact .inr (contains_of_member _ other
            (placed.mem_iff.mpr (List.mem_append_right _ handed)))
        · exact still other (sought.led one old other handed)
      · intro reference
        have before := sought.found reference
        simp only [List.mem_append, List.mem_flatMap, List.flatMap_cons] at before ⊢
        rw [before, or_assoc]
        exact or_congr_right or_comm

theorem turns_sought (search later : Search)
    (turns : Relation.ReflTransGen project.Turn search later)
    (sought : project.Sought symbol facts search) : project.Sought symbol facts later := by
  induction turns with
  | refl => exact sought
  | tail _ turn ih => exact turn_sought _ _ turn ih

theorem finished_places (indexed : project.Indexed)
    (known : project.facts? symbol.file = some facts) (last : Search)
    (sought : project.Sought symbol facts last) (finished : last.pending = [])
    (place : List Part × Span) :
    place ∈ last.found.map Reference.place ↔
      place ∈ (baseReferences symbol facts ++ (project.reachedKeys symbol facts).flatMap
        project.usesOf).map Reference.place := by
  obtain ⟨begun, closed⟩ := reached_keys_closed project symbol facts known
  have done (key : ExportKey) (held : last.expanded.contains key = true ∨
    last.pending.contains key = true) :
      last.expanded.contains key = true := by
    rcases held with held | held
    · exact held
    · rw [finished] at held
      cases held
  have full := spreads_within indexed facts known last.expanded
    (fun key member => done key (sought.base key member))
    fun key member next handed => done next (sought.led key member next handed)
  have reached := spreads_within indexed facts known _ begun closed
  -- two lists that hold the same exports, up to the spelling of paths, have uses at the same places
  have carry (some others : List ExportKey) (inside : ∀ key ∈ some, others.contains key = true) :
      place ∈ (some.flatMap project.usesOf).map Reference.place →
      place ∈ (others.flatMap project.usesOf).map Reference.place := by
    intro listed
    obtain ⟨reference, member, rfl⟩ := List.mem_map.mp listed
    obtain ⟨key, present, used⟩ := List.mem_flatMap.mp member
    obtain ⟨other, there, same⟩ := List.contains_iff_exists_mem_beq.mp (inside key present)
    rw [ExportKey.same_eq_decide, decide_eq_true_iff] at same
    have uses : reference.place ∈ (project.usesOf key).map Reference.place :=
      List.mem_map_of_mem used
    rw [same_uses_of (same_index_refl project) key other same] at uses
    obtain ⟨found, used, alike⟩ := List.mem_map.mp uses
    exact List.mem_map.mpr ⟨found, List.mem_flatMap.mpr ⟨other, there, used⟩, alike⟩
  have whole : place ∈ last.found.map Reference.place ↔
      place ∈ (baseReferences symbol facts ++ last.expanded.flatMap project.usesOf).map
      Reference.place := by
    simp only [List.mem_map, sought.found]
  rw [whole, List.map_append, List.map_append, List.mem_append, List.mem_append]
  refine or_congr_right ⟨carry _ _ ?_, carry _ _ ?_⟩
  · exact fun key member => reached key (sought.spread key member)
  · exact fun key member => full key (reached_spreads facts known key member)

theorem spreads_all_keys (key : ExportKey) (spread : project.SpreadsTo symbol key) :
    project.allKeys.contains key = true := by
  induction spread with
  | base facts binding known member given =>
      exact all_keys_contains project _ facts known
        (exported_name_listed project symbol.file facts binding known member)
  | step key next reached step same _ ih =>
      cases step with
      | reexport file facts binding specifier imported target known member origin found =>
          exact all_keys_contains project _ facts known
            (exported_name_listed project file facts binding known member)
      | own file facts binding taken _ known member origin bound found =>
          exact all_keys_contains project _ facts known
            (exported_name_listed project file facts binding known member)
      | wildcard file facts name specifier target known proper missing member found =>
          have named : name = reached.name := congrArg Prod.snd same
          refine all_keys_contains project ⟨file, name⟩ facts known ?_
          rw [named]
          exact name_of_all_keys project reached ih

theorem search_ends (search : Search) (sought : project.Sought symbol facts search) :
    Acc (fun later earlier => project.Turn earlier later) search := by
  induction unexpanded : unseen project.allKeys search.expanded
      using Nat.strongRecOn generalizing search with
  | ind bound fewer =>
      induction size : search.pending.length using Nat.strongRecOn generalizing search with
      | ind length shorter =>
          constructor
          intro later turn
          have after := turn_sought search later turn sought
          cases turn with
          | skip before rest expanded key found known =>
              refine shorter _ ?_ _ after unexpanded rfl
              subst size
              simp
          | expand before rest pending expanded key found fresh placed =>
              refine fewer _ ?_ _ after rfl
              subst unexpanded
              have waits := sought.waiting key (List.mem_append_right _ List.mem_cons_self)
              exact unseen_decreases project.allKeys expanded key (spreads_all_keys key waits) fresh

end Turns

variable {σ : Type} [FileStore σ]

-- The references to a symbol are the least set that the rules over all files of the project allow,
-- in order and each once. A search that keeps the exports that wait in any order comes to an end
-- and finds them.
theorem references_least [LawfulStore σ] (stores : List σ) (symbol : Symbol) :
    let project := syncedWith stores
    ((project.referencesTo symbol).Pairwise fun a b => a.compare b = .lt) ∧
      (∀ file span, project.Refers symbol file span ↔
        ∃ facts, project.facts? file = some facts ∧ project.Mention symbol file facts span) ∧
      (∀ search, search.pending ≠ [] → ∃ later, project.Turn search later) ∧
      Acc (fun later earlier => project.Turn earlier later) (project.searchFor symbol) ∧
      ∀ last, Relation.ReflTransGen project.Turn (project.searchFor symbol) last →
        last.pending = [] →
        (Reference.inOrder last.found).map Reference.place = (project.referencesTo symbol).map
          Reference.place := by
  intro project
  have indexed : project.Indexed := synced_with_indexed stores
  refine ⟨?_, ?_, fun search waits => turn_exists search waits, ?_, ?_⟩
  · rw [referencesTo]
    split
    next => exact List.Pairwise.nil
    next => exact Reference.in_order_ascending _
  · intro file span
    constructor
    · exact refers_mention file span
    · rintro ⟨facts, known, mention⟩
      exact mention_refers indexed file facts known span mention
  · cases known : project.facts? symbol.file with
    | some facts => exact search_ends _ (search_sought known)
    | none =>
        rw [searchFor, known]
        constructor
        intro later turn
        generalize idle : (⟨[], [], []⟩ : Search) = search at turn
        cases turn <;> simp at idle
  · intro last turns finished
    cases known : project.facts? symbol.file with
    | some facts =>
        have sought := turns_sought _ last turns (search_sought known)
        rw [referencesTo, known]
        exact Reference.in_order_ext _ _ (finished_places indexed known last sought finished)
    | none =>
        have start : last = ⟨[], [], []⟩ := by
          rw [searchFor, known] at turns
          rcases Relation.ReflTransGen.cases_head turns with same | ⟨later, turn, -⟩
          · exact same.symm
          · generalize idle : (⟨[], [], []⟩ : Search) = search at turn
            cases turn <;> simp at idle
        rw [start, referencesTo, known]
        rfl

def mutualStore : MemoryStore :=
  .ofList [(⟨"/p/a.ts"⟩, "export let x;\nexport { z } from './b';\n"),
    (⟨"/p/b.ts"⟩, "export { x as z } from './a';\n")]

theorem returned_name_is_mentioned :
    ∃ facts, (syncedWith [mutualStore]).facts? ⟨"/p/a.ts"⟩ = some facts ∧
      (syncedWith [mutualStore]).Mention (.own ⟨"/p/a.ts"⟩ "x") ⟨"/p/a.ts"⟩ facts ⟨23, 24⟩ := by
  have listed : ((syncedWith [mutualStore]).referencesTo (.own ⟨"/p/a.ts"⟩ "x")).map (fun found =>
    (found.file.parts, found.span)) =
      [((⟨"/p/a.ts"⟩ : Path).parts, ⟨11, 12⟩), ((⟨"/p/a.ts"⟩ : Path).parts, ⟨23, 24⟩),
        ((⟨"/p/b.ts"⟩ : Path).parts, ⟨9, 10⟩)] := by
    decide +kernel
  have member : ((⟨"/p/a.ts"⟩ : Path).parts, (⟨23, 24⟩ : Span)) ∈
      ((syncedWith [mutualStore]).referencesTo (.own ⟨"/p/a.ts"⟩ "x")).map fun found =>
        (found.file.parts, found.span) := by
    rw [listed]
    exact List.mem_cons_of_mem _ List.mem_cons_self
  exact ((references_least [mutualStore] (.own ⟨"/p/a.ts"⟩ "x")).2.1 ⟨"/p/a.ts"⟩ ⟨23, 24⟩).mp
    (List.mem_map.mp member)

end DeadExports.Project

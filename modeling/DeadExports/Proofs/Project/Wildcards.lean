import DeadExports.Proofs.Project.Moves
import Mathlib.Logic.Relation

set_option autoImplicit false

namespace DeadExports.Project

def Forwards (project : Project) (file target : Path) : Prop :=
  ∃ facts, project.facts? file = some facts ∧ ∃ specifier ∈ facts.wildcards,
    project.target? file specifier = some target

def Exports (project : Project) (file : Path) (name : String) : Prop :=
  ∃ facts, project.facts? file = some facts ∧ facts.exportsName name = true

variable {project : Project}

theorem import_move_ends (file : Path) (binding : ImportBinding) (keys : List ExportKey) :
    project.importMove file binding ≠ .each keys := by
  rw [importMove]
  cases project.importKey? file binding <;> simp

theorem origin_move_ends (file : Path) (name : String) (origin : ExportOrigin)
    (keys : List ExportKey) :
    project.originMove file name origin ≠ .each keys := by
  cases origin with
  | own own =>
      rw [originMove]
      cases (project.facts? file).bind (·.importOf? own) with
      | none => simp
      | some binding => exact import_move_ends file binding keys
  | default => simp [originMove]
  | everything specifier => simp [originMove]
  | reexport specifier imported =>
      rw [originMove]
      cases project.target? file specifier <;> simp

-- Looking up ends at a file that exports the name itself; any other file hands over to those it
-- forwards, and for the name `default` to none.
theorem move_cases (project : Project) (key : ExportKey) :
    (project.Exports key.file key.name ∧ ∀ keys, project.move key ≠ .each keys) ∨
      (¬ project.Exports key.file key.name ∧ ∃ keys, project.move key = .each keys ∧
        ∀ next : ExportKey, next ∈ keys ↔
          key.name ≠ "default" ∧ next.name = key.name ∧ project.Forwards key.file next.file) := by
  rw [move]
  cases known : project.facts? key.file with
  | none =>
      refine .inr ⟨?_, [], rfl, fun next => ?_⟩
      · rintro ⟨facts, found, -⟩
        rw [known] at found
        cases found
      · simp [Forwards, known]
  | some facts =>
      dsimp only
      cases found : facts.exports.find? fun binding => binding.exported == key.name with
      | some binding =>
          refine .inl ⟨⟨facts, known, ?_⟩, origin_move_ends _ _ _⟩
          exact List.any_eq_true.mpr ⟨binding, List.mem_of_find?_eq_some found,
            by simpa using List.find?_some found⟩
      | none =>
          refine .inr ⟨?_, _, rfl, fun next => ?_⟩
          · rintro ⟨other, again, exported⟩
            obtain rfl := Option.some.inj (known.symm.trans again)
            rw [exports_name_of_find facts key.name found] at exported
            cases exported
          · by_cases proper : key.name = "default"
            · simp [proper]
            · simp only [beq_iff_eq, proper, if_false, not_false_eq_true, true_and, wildcardKeys,
                List.mem_filterMap, Option.map_eq_some_iff, Forwards, known, Option.some.injEq,
                exists_eq_left', ne_eq]
              constructor
              · rintro ⟨specifier, listed, target, points, rfl⟩
                exact ⟨rfl, specifier, listed, points⟩
              · rintro ⟨same, specifier, listed, points⟩
                exact ⟨specifier, listed, next.file, points, by rw [← same]⟩

theorem run_none (lookup : Lookup) (passed later : List ExportKey) (move : Move)
    (result : move.run lookup passed = (none, later)) :
    ∃ keys, move = .each keys ∧ firstSymbol lookup keys passed = (none, later) := by
  cases move with
  | done symbol => cases result
  | follow next otherwise =>
      rw [Move.run] at result
      generalize lookup next passed = answer at result
      rcases answer with ⟨_ | symbol, after⟩ <;> cases result
  | each keys => exact ⟨keys, rfl, result⟩

theorem resolve_export_reaches (steps : Nat) (key : ExportKey) (passed later : List ExportKey)
    (symbol : Symbol) (result : project.resolveExport steps key passed = (some symbol, later)) :
    ∃ target, project.Exports target key.name ∧ Relation.ReflTransGen project.Forwards
      key.file target ∧
      (key.name = "default" → target = key.file) := by
  induction steps generalizing key passed later with
  | zero => cases result
  | succ steps ih =>
      rcases move_cases project key with ⟨exported, -⟩ | ⟨-, keys, moves, leads⟩
      · exact ⟨key.file, exported, .refl, fun _ => rfl⟩
      · rw [resolve_export_move, moves] at result
        split at result
        next => cases result
        next =>
            obtain ⟨next, member, before, after, found⟩ :=
              first_symbol_found keys _ symbol later result
            obtain ⟨proper, same, forwards⟩ := (leads next).mp member
            obtain ⟨target, exported, reached, -⟩ := ih next before after found
            exact ⟨target, same ▸ exported, .head forwards reached, fun default =>
              absurd default proper⟩

-- What a vain search leaves behind: each export it has come upon since `passed` is one that its
-- file does not have, and the search has come upon all exports that this file leads to.
def Explored (project : Project) (passed later : List ExportKey) : Prop :=
  ∀ key ∈ later, key ∈ passed ∨
    ∃ keys, project.move key = .each keys ∧ ∀ next ∈ keys, later.contains next = true

theorem explored_trans (passed middle later : List ExportKey) (wider : middle ⊆ later)
    (first : project.Explored passed middle) (second : project.Explored middle later) :
    project.Explored passed later := by
  intro key member
  rcases second key member with before | done
  · rcases first key before with earlier | ⟨keys, moves, led⟩
    · exact .inl earlier
    · exact .inr ⟨keys, moves, fun next listed => contains_of_subset middle later next wider
        (led next listed)⟩
  · exact .inr done

theorem first_symbol_explores (lookup : Lookup) (grows : Grows lookup)
    (keys passed later : List ExportKey)
    (explores : ∀ key ∈ keys, ∀ before after, passed ⊆ before → lookup key before = (none, after) →
      after.contains key = true ∧ project.Explored before after)
    (result : firstSymbol lookup keys passed = (none, later)) :
    (∀ key ∈ keys, later.contains key = true) ∧ project.Explored passed later := by
  induction keys generalizing passed with
  | nil =>
      cases result
      exact ⟨nofun, fun key member => .inl member⟩
  | cons first rest ih =>
      have wider := grows first passed
      rw [firstSymbol] at result
      cases answer : lookup first passed with
      | mk found middle =>
          rw [answer] at result wider
          cases found with
          | some symbol => cases result
          | none =>
              dsimp only at result wider
              obtain ⟨here, explored⟩ := explores first List.mem_cons_self passed middle
                (List.Subset.refl passed) answer
              have further : middle ⊆ later := by
                have grown := first_symbol_grows lookup grows rest middle
                rwa [result] at grown
              obtain ⟨others, rest⟩ := ih middle (fun key member before after beyond =>
                explores key (List.mem_cons_of_mem first member) before after
                  (List.Subset.trans wider beyond)) result
              refine ⟨?_, explored_trans passed middle later further explored rest⟩
              intro key member
              rcases List.mem_cons.mp member with rfl | among
              · exact contains_of_subset middle later key further here
              · exact others key among

theorem resolve_export_explores (name : String) (steps : Nat) (key : ExportKey)
    (passed later : List ExportKey) (named : key.name ∈ project.mentioned name)
    (enough : unseen (project.chainKeys name) passed < steps)
    (result : project.resolveExport steps key passed = (none, later)) :
    later.contains key = true ∧ project.Explored passed later := by
  induction steps generalizing key passed later with
  | zero => cases enough
  | succ steps ih =>
      rw [resolve_export_move] at result
      cases held : passed.contains key with
      | true =>
          rw [held, if_pos rfl] at result
          cases result
          exact ⟨held, fun key member => .inl member⟩
      | false =>
          rw [held, if_neg Bool.false_ne_true] at result
          obtain ⟨keys, moves, result⟩ := run_none _ _ _ _ result
          have grows := resolve_export_grows project steps
          have wider := first_symbol_grows _ grows keys (key :: passed)
          rw [result] at wider
          obtain ⟨led, explored⟩ := first_symbol_explores _ grows keys (key :: passed) later (by
            intro next member before after beyond none
            have step := move_step project key next (moves ▸ member)
            have less := unseen_decreases (project.chainKeys name) passed key
              (chain_keys_contains project name key next step named) held
            have rest := unseen_antitone (project.chainKeys name) (key :: passed) before beyond
            exact ih next before after (step_mentioned project name key next step named)
              (by omega) none) result
          refine ⟨contains_of_member later key (wider List.mem_cons_self), fun other member => ?_⟩
          rcases explored other member with before | done
          · rcases List.mem_cons.mp before with rfl | earlier
            · exact .inr ⟨keys, moves, led⟩
            · exact .inl earlier
          · exact .inr done

theorem explored_key (later : List ExportKey) (explored : project.Explored [] later) (file : Path)
    (name : String) (here : later.contains ⟨file, name⟩ = true) :
    ¬ project.Exports file name ∧
      (name ≠ "default" → ∀ target, project.Forwards file target → later.contains ⟨target, name⟩ =
        true) := by
  obtain ⟨item, member, same⟩ := List.contains_iff_exists_mem_beq.mp here
  rw [ExportKey.same_eq_decide, decide_eq_true_iff] at same
  obtain ⟨alike, rfl⟩ : file.parts = item.file.parts ∧ name = item.name := Prod.mk.inj same
  have facts := facts_congr project file item.file alike
  have targets := target_congr project file item.file alike
  rcases explored item member with none | ⟨keys, moves, led⟩
  · cases none
  rcases move_cases project item with ⟨-, ends⟩ | ⟨absent, others, again, leads⟩
  · exact absurd moves (ends keys)
  rw [moves] at again
  cases again
  refine ⟨by rwa [Exports, facts], fun proper target forwards => ?_⟩
  rw [Forwards, facts, targets] at forwards
  exact led ⟨target, item.name⟩ ((leads _).mpr ⟨proper, rfl, forwards⟩)

theorem explored_reached (later : List ExportKey) (explored : project.Explored [] later)
    (file target : Path) (name : String)
    (proper : name ≠ "default") (here : later.contains ⟨file, name⟩ = true)
    (reached : Relation.ReflTransGen project.Forwards file target) :
    later.contains ⟨target, name⟩ = true := by
  induction reached with
  | refl => exact here
  | tail _ forwards ih => exact (explored_key later explored _ name ih).2 proper _ forwards

theorem lookup_none (file : Path) (name : String)
    (none : (project.lookup ⟨file, name⟩ []).1 = none) :
    ¬ project.Exports file name ∧
      (name ≠ "default" → ∀ target, Relation.ReflTransGen project.Forwards file target →
        ¬ project.Exports target name) := by
  have result : project.lookup ⟨file, name⟩ [] = (Option.none,
    (project.lookup ⟨file, name⟩ []).2) := Prod.ext none rfl
  obtain ⟨here, explored⟩ := resolve_export_explores name project.chainBound ⟨file, name⟩
    [] _ List.mem_cons_self
    (unseen_fresh project name) result
  refine ⟨(explored_key _ explored file name here).1, fun proper target reached => ?_⟩
  exact (explored_key _ explored target name
    (explored_reached _ explored file target name proper here reached)).1

theorem lookup_some (file : Path) (name : String)
    (found : (project.lookup ⟨file, name⟩ []).1.isSome = true) :
    ∃ target, project.Exports target name ∧ Relation.ReflTransGen project.Forwards file target ∧
      (name = "default" → target = file) := by
  obtain ⟨symbol, same⟩ := Option.isSome_iff_exists.mp found
  exact resolve_export_reaches project.chainBound ⟨file, name⟩ [] _ symbol (Prod.ext same rfl)

-- Looking up ends whatever the wildcards form: nothing beyond its bound is ever asked. It finds a
-- name just when some file that the wildcards lead to, the first one included, exports it; the name
-- `default` no wildcard hands on.
theorem lookup_reaches_exports (project : Project) (file : Path) (name : String) :
    (∀ beyond, project.resolveBeyond beyond project.chainBound ⟨file, name⟩ [] = project.lookup
      ⟨file, name⟩ []) ∧
    (name ≠ "default" → ((project.lookup ⟨file, name⟩ []).1.isSome = true ↔
      ∃ target, Relation.ReflTransGen project.Forwards file target ∧ project.Exports target name)) ∧
    ((project.lookup ⟨file, "default"⟩ []).1.isSome = true ↔ project.Exports file "default") := by
  have fresh := unseen_fresh project name
  refine ⟨fun beyond => ?_, fun proper => ⟨fun found => ?_, ?_⟩, fun found => ?_,
    fun exported => ?_⟩
  · exact (resolve_export_beyond project beyond name _ _ ⟨file, name⟩ [] List.mem_cons_self fresh
      fresh).symm
  · obtain ⟨target, exported, reached, -⟩ := lookup_some file name found
    exact ⟨target, reached, exported⟩
  · rintro ⟨target, reached, exported⟩
    exact Option.isSome_iff_ne_none.mpr fun missed => (lookup_none file name missed).2 proper target
      reached exported
  · obtain ⟨target, exported, -, same⟩ := lookup_some file "default" found
    rwa [← same rfl]
  · exact Option.isSome_iff_ne_none.mpr fun missed => (lookup_none file "default" missed).1 exported

def relay (specifiers : List String) : FileEntry :=
  { text := "", facts := { wildcards := specifiers }, resolved := specifiers.map fun specifier =>
    (specifier, ⟨specifier⟩) }

def meshed : Project :=
  { files := .ofList
      [(⟨"a.ts"⟩, relay ["b.ts", "c.ts"]), (⟨"b.ts"⟩, relay ["d.ts"]),
        (⟨"c.ts"⟩, relay ["d.ts", "e.ts"]),
        (⟨"d.ts"⟩, relay ["b.ts", "d.ts"]),
        (⟨"e.ts"⟩, { text := "", facts := { exports := [⟨"x", .own "x", ⟨11, 12⟩, false⟩] } })] }

theorem mesh_is_searched :
    "x" ≠ "default" ∧ (meshed.lookup ⟨⟨"a.ts"⟩, "x"⟩ []).1.isSome = true ∧
    (∃ target, Relation.ReflTransGen meshed.Forwards ⟨"a.ts"⟩ target ∧ meshed.Exports target "x") ∧
    (meshed.lookup ⟨⟨"b.ts"⟩, "x"⟩ []).1.isSome = false ∧
    ¬ ∃ target, Relation.ReflTransGen meshed.Forwards ⟨"b.ts"⟩ target ∧
      meshed.Exports target "x" := by
  have proper : "x" ≠ "default" := by decide
  have found : (meshed.lookup ⟨⟨"a.ts"⟩, "x"⟩ []).1.isSome = true := by decide +kernel
  have missed : (meshed.lookup ⟨⟨"b.ts"⟩, "x"⟩ []).1.isSome = false := by decide +kernel
  refine ⟨proper, found, ((lookup_reaches_exports meshed ⟨"a.ts"⟩ "x").2.1 proper).mp found, missed,
    fun reached => ?_⟩
  rw [((lookup_reaches_exports meshed ⟨"b.ts"⟩ "x").2.1 proper).mpr reached] at missed
  cases missed

end DeadExports.Project

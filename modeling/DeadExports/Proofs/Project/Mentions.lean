import DeadExports.Proofs.Project.Reach
import DeadExports.Proofs.Project.ReferenceOrder

set_option autoImplicit false

namespace DeadExports.Project

-- The exports that a symbol spreads to: those of its own file that give it out, and then, whatever
-- file of the project it is in, every export from which a step leads to one that the symbol has
-- spread to.
inductive SpreadsTo (project : Project) (symbol : Symbol) : ExportKey → Prop where
  | base (facts : Facts) (binding : ExportBinding) (known : project.facts? symbol.file = some facts)
      (member : binding ∈ facts.exports) (given : givesOut symbol binding = true) :
      SpreadsTo project symbol ⟨symbol.file, binding.exported⟩
  | step (key next reached : ExportKey) (step : project.Step key next)
      (same : next.place = reached.place) (before : SpreadsTo project symbol reached) :
      SpreadsTo project symbol key

def Escapes (facts : Facts) (binding : ImportBinding) : Prop :=
  (facts.members.countP fun access => access.object == binding.bound) <
    (facts.occurrencesOf binding.bound).length ∨
    ∃ given ∈ facts.exports, given.origin = .own binding.bound

inductive Uses (project : Project) (key : ExportKey) (file : Path) (facts : Facts) :
    Span → Prop where
  | import (binding : ImportBinding) (member : binding ∈ facts.imports)
      (named : importedName? binding = some key.name)
      (points : project.pointsTo file binding.specifier key.file = true) :
      Uses project key file facts binding.span
  | occurrence (binding : ImportBinding) (member : binding ∈ facts.imports)
      (named : importedName? binding = some key.name)
      (points : project.pointsTo file binding.specifier key.file = true) (span : Span)
      (occurs : span ∈ facts.occurrencesOf binding.bound) : Uses project key file facts span
  | again (binding : ImportBinding) (member : binding ∈ facts.imports)
      (named : importedName? binding = some key.name)
      (points : project.pointsTo file binding.specifier key.file = true) (given : ExportBinding)
      (listed : given ∈ facts.exports) (origin : given.origin = .own binding.bound) :
      Uses project key file facts given.span
  | reexport (binding : ExportBinding) (member : binding ∈ facts.exports) (specifier : String)
      (origin : binding.origin = .reexport specifier key.name)
      (points : project.pointsTo file specifier key.file = true) :
      Uses project key file facts binding.span
  | object (binding : ExportBinding) (member : binding ∈ facts.exports) (specifier : String)
      (origin : binding.origin = .everything specifier)
      (points : project.pointsTo file specifier key.file = true) :
      Uses project key file facts binding.span
  | call (specifier : String) (span : Span) (member : (specifier, span) ∈ facts.dynamicImports)
      (points : project.pointsTo file specifier key.file = true) : Uses project key file facts span
  | member (binding : ImportBinding) (member : binding ∈ facts.imports)
      (everything : binding.imported = .everything)
      (points : project.pointsTo file binding.specifier key.file = true) (access : MemberAccess)
      (listed : access ∈ facts.members) (object : access.object = binding.bound)
      (property : access.property = key.name) :
      Uses project key file facts access.span
  | escape (binding : ImportBinding) (member : binding ∈ facts.imports)
      (everything : binding.imported = .everything)
      (points : project.pointsTo file binding.specifier key.file = true)
      (escapes : Escapes facts binding) :
      Uses project key file facts binding.span

-- The places that refer to a symbol: in its own file its occurrences, its import and the exports
-- that give it out; in every file of the project the uses of the exports that it spreads to.
inductive Mention (project : Project) (symbol : Symbol) (file : Path) (facts : Facts) :
    Span → Prop where
  | occurrence (name : String) (own : symbol = .own symbol.file name)
      (here : file.parts = symbol.file.parts) (span : Span)
      (occurs : span ∈ facts.occurrencesOf name) : Mention project symbol file facts span
  | import (name : String) (own : symbol = .own symbol.file name)
      (here : file.parts = symbol.file.parts) (binding : ImportBinding)
      (found : facts.importOf? name = some binding) : Mention project symbol file facts binding.span
  | export (here : file.parts = symbol.file.parts) (binding : ExportBinding)
      (member : binding ∈ facts.exports) (given : givesOut symbol binding = true) :
      Mention project symbol file facts binding.span
  | use (key : ExportKey) (spread : project.SpreadsTo symbol key) (span : Span)
      (use : project.Uses key file facts span) :
      Mention project symbol file facts span

section Rules

variable {project : Project} {symbol : Symbol}

theorem escapes_iff (facts : Facts) (binding : ImportBinding) :
    (decide ((facts.members.filter fun access => access.object == binding.bound).length <
        (facts.occurrencesOf binding.bound).length) || facts.exportsOwn binding.bound) = true ↔
        Escapes facts binding := by
  rw [Bool.or_eq_true, decide_eq_true_eq, ← List.countP_eq_length_filter, Facts.exportsOwn,
    List.any_eq_true]
  simp only [ExportBinding.isOwn, beq_iff_eq]
  rfl

theorem everything_spans_iff (facts : Facts) (name : String) (binding : ImportBinding)
    (span : Span) :
    span ∈ everythingSpans facts name binding ↔ (Escapes facts binding ∧ span = binding.span) ∨
      ∃ access ∈ facts.members, access.object = binding.bound ∧ access.property = name ∧
        access.span = span := by
  rw [everythingSpans, List.mem_append]
  refine or_congr ?_ ?_
  · rw [← escapes_iff]
    split <;> simp [*]
  · simp [List.mem_map, List.mem_filter, and_assoc, and_left_comm]

theorem uses_in_parts (key : ExportKey) (file : Path) (facts : Facts)
    (known : project.facts? file = some facts) (span : Span) :
    ⟨file, span⟩ ∈ project.usesIn key file ↔
      ((((∃ binding ∈ project.bindingsOf file facts key, span ∈ bindingSpans facts binding) ∨
        ∃ binding ∈ project.everythingImports file facts key.file,
          span ∈ everythingSpans facts key.name binding) ∨
        ∃ binding ∈ project.reexportsOf file facts key, binding.span = span) ∨
        ∃ binding ∈ project.everythingExports file facts key.file, binding.span = span) ∨
        ∃ call ∈ facts.dynamicImports.filter (fun found => project.pointsTo file found.1 key.file),
          call.2 = span := by
  rw [usesIn, known]
  simp only [referencesIn, List.mem_map, Reference.mk.injEq, true_and, exists_eq_right,
    List.mem_append, List.mem_flatMap]

theorem uses_in_iff (key : ExportKey) (file : Path) (facts : Facts)
    (known : project.facts? file = some facts) (span : Span) :
    ⟨file, span⟩ ∈ project.usesIn key file ↔ project.Uses key file facts span := by
  rw [uses_in_parts key file facts known]
  constructor
  · rintro ((((⟨binding, taken, spanned⟩ | ⟨binding, taken, spanned⟩) | ⟨binding, taken, rfl⟩)
      | ⟨binding, taken, rfl⟩) |
      ⟨⟨specifier, place⟩, taken, rfl⟩)
    · obtain ⟨member, points⟩ := List.mem_filter.mp taken
      rw [Bool.and_eq_true, takes, beq_iff_eq] at points
      simp only [bindingSpans, List.cons_append, List.mem_cons, List.mem_append, List.mem_map,
        List.mem_filter] at spanned
      rcases spanned with rfl | occurs | ⟨given, ⟨listed, own⟩, rfl⟩
      · exact .import binding member points.2 points.1
      · exact .occurrence binding member points.2 points.1 span occurs
      · exact .again binding member points.2 points.1 given listed
          (by simpa [ExportBinding.isOwn] using own)
    · obtain ⟨member, points⟩ := List.mem_filter.mp taken
      rw [Bool.and_eq_true, beq_iff_eq] at points
      rcases (everything_spans_iff facts key.name binding span).mp spanned with ⟨escapes, rfl⟩ |
        ⟨access, listed, object, property, rfl⟩
      · exact .escape binding member points.1 points.2 escapes
      · exact .member binding member points.1 points.2 access listed object property
    · obtain ⟨member, points⟩ := List.mem_filter.mp taken
      split at points
      next specifier imported origin =>
          rw [Bool.and_eq_true, beq_iff_eq] at points
          exact .reexport binding member specifier (points.1 ▸ origin) points.2
      next => cases points
    · obtain ⟨member, points⟩ := List.mem_filter.mp taken
      split at points
      next specifier origin => exact .object binding member specifier origin points
      next => cases points
    · obtain ⟨member, points⟩ := List.mem_filter.mp taken
      exact .call specifier place member points
  · intro use
    cases use with
    | «import» binding member named points =>
        exact .inl
          (.inl (.inl (.inl ⟨binding, List.mem_filter.mpr ⟨member, by simp [points, takes, named]⟩,
          by simp [bindingSpans]⟩)))
    | occurrence binding member named points _ occurs =>
        exact .inl
          (.inl (.inl (.inl ⟨binding, List.mem_filter.mpr ⟨member, by simp [points, takes, named]⟩,
          by simp [bindingSpans, occurs]⟩)))
    | again binding member named points given listed origin =>
        refine .inl
          (.inl
          (.inl (.inl ⟨binding, List.mem_filter.mpr ⟨member, by simp [points, takes, named]⟩, ?_⟩)))
        simp only [bindingSpans, List.cons_append, List.mem_cons, List.mem_append, List.mem_map,
          List.mem_filter]
        exact .inr (.inr ⟨given, ⟨listed, by simp [ExportBinding.isOwn, origin]⟩, rfl⟩)
    | reexport binding member specifier origin points =>
        exact .inl
          (.inl (.inr ⟨binding, List.mem_filter.mpr ⟨member, by simp [origin, points]⟩, rfl⟩))
    | object binding member specifier origin points =>
        exact .inl (.inr ⟨binding, List.mem_filter.mpr ⟨member, by simp [origin, points]⟩, rfl⟩)
    | call specifier _ member points =>
        exact .inr ⟨(specifier, span), List.mem_filter.mpr ⟨member, points⟩, rfl⟩
    | member binding member everything points access listed object property =>
        exact .inl
          (.inl (.inl (.inr ⟨binding, List.mem_filter.mpr ⟨member, by simp [everything, points]⟩,
          (everything_spans_iff facts key.name binding _).mpr
          (.inr ⟨access, listed, object, property, rfl⟩)⟩)))
    | escape binding member everything points escapes =>
        exact .inl
          (.inl (.inl (.inr ⟨binding, List.mem_filter.mpr ⟨member, by simp [everything, points]⟩,
          (everything_spans_iff facts key.name binding _).mpr (.inl ⟨escapes, rfl⟩)⟩)))

theorem step_of_handed_on (key found : ExportKey) (member : found ∈ project.handedOn key) :
    ∃ next, project.Step found next ∧ next.place = key.place := by
  obtain ⟨importer, -, handed⟩ := List.mem_flatMap.mp member
  rw [handedOnBy] at handed
  cases known : project.facts? importer with
  | none =>
      rw [known] at handed
      cases handed
  | some facts =>
      rw [known] at handed
      rcases List.mem_append.mp handed with listed | forwarded
      · obtain ⟨binding, either, rfl⟩ := List.mem_map.mp listed
        rcases List.mem_append.mp either with own | again
        · obtain ⟨taken, takes, given⟩ := List.mem_flatMap.mp own
          obtain ⟨bound, points⟩ := List.mem_filter.mp takes
          obtain ⟨exported, isOwn⟩ := List.mem_filter.mp given
          rw [Bool.and_eq_true, Project.takes, beq_iff_eq] at points
          obtain ⟨target, pointed, same⟩ :=
            points_to_target importer key.file taken.specifier points.1
          have leads : project.importKey? importer taken = some ⟨target, key.name⟩ := by
            rw [importKey?, points.2, pointed]
            rfl
          refine ⟨⟨target, key.name⟩, ?_, by simp [ExportKey.place, same]⟩
          exact .own importer facts binding taken _ known exported
            (by simpa [ExportBinding.isOwn] using isOwn) bound leads
        · obtain ⟨exported, points⟩ := List.mem_filter.mp again
          split at points
          next specifier imported origin =>
              rw [Bool.and_eq_true, beq_iff_eq] at points
              obtain ⟨target, pointed, same⟩ :=
                points_to_target importer key.file specifier points.2
              refine ⟨⟨target, imported⟩, ?_, by simp [ExportKey.place, same, points.1]⟩
              exact .reexport importer facts binding specifier imported target known exported
                origin pointed
          next => cases points
      · split at forwarded
        next forwards =>
            obtain rfl := List.mem_singleton.mp forwarded
            simp only [forwardsByWildcard, Bool.and_eq_true, bne_iff_ne, Bool.not_eq_true',
              List.any_eq_true] at forwards
            obtain ⟨⟨proper, missing⟩, specifier, wildcard, points⟩ := forwards
            obtain ⟨target, pointed, same⟩ := points_to_target importer key.file specifier points
            refine ⟨⟨target, key.name⟩, ?_, by simp [ExportKey.place, same]⟩
            exact .wildcard importer facts key.name specifier target known proper missing
              wildcard pointed
        next => cases forwarded

theorem spreads_handed_on (key : ExportKey) (spread : project.SpreadsTo symbol key)
    (found : ExportKey) (member : found ∈ project.handedOn key) :
    project.SpreadsTo symbol found := by
  obtain ⟨next, step, same⟩ := step_of_handed_on key found member
  exact .step found next key step same spread

theorem spreads_base (facts : Facts) (known : project.facts? symbol.file = some facts)
    (key : ExportKey) (member : key ∈ baseKeys symbol facts) : project.SpreadsTo symbol key := by
  obtain ⟨binding, listed, rfl⟩ := List.mem_map.mp member
  obtain ⟨exported, given⟩ := List.mem_filter.mp listed
  exact .base facts binding known exported given

theorem reached_spreads (facts : Facts) (known : project.facts? symbol.file = some facts)
    (key : ExportKey) (member : key ∈ project.reachedKeys symbol facts) :
    project.SpreadsTo symbol key :=
  closure_from_sound project.handedOn (project.SpreadsTo symbol) spreads_handed_on
    project.keyBound _ []
    (spreads_base facts known) (by simp) key member

-- A list of exports with all that give the symbol out, and with what hands them on, has every
-- export that the symbol spreads to, whatever file that is in.
theorem spreads_within (indexed : project.Indexed) (facts : Facts)
    (known : project.facts? symbol.file = some facts) (keys : List ExportKey)
    (begun : ∀ key ∈ baseKeys symbol facts, keys.contains key = true)
    (closed : Closed project.handedOn keys) (key : ExportKey)
    (spread : project.SpreadsTo symbol key) :
    keys.contains key = true := by
  induction spread with
  | base others binding present member given =>
      obtain rfl := Option.some.inj (known.symm.trans present)
      exact begun _ (List.mem_map.mpr ⟨binding, List.mem_filter.mpr ⟨member, given⟩, rfl⟩)
  | step key next reached step same _ ih =>
      obtain ⟨other, member, alike⟩ := List.contains_iff_exists_mem_beq.mp ih
      rw [ExportKey.same_eq_decide, decide_eq_true_iff] at alike
      obtain ⟨found, handed, place⟩ := handed_on_of_step project indexed key next other step
        (same.trans alike)
      refine contains_of_same keys found key ?_ (closed other member found handed)
      rw [ExportKey.same_eq_decide, place]
      exact decide_eq_true rfl

theorem spreads_gives (indexed : project.Indexed) (key : ExportKey)
    (spread : project.SpreadsTo symbol key) :
    project.Gives symbol key := by
  have known : ∃ facts, project.facts? symbol.file = some facts := by
    induction spread with
    | base facts _ known => exact ⟨facts, known⟩
    | step _ _ _ _ _ _ ih => exact ih
  obtain ⟨facts, known⟩ := known
  obtain ⟨begun, closed⟩ := reached_keys_closed project symbol facts known
  exact ⟨facts, known, spreads_within indexed facts known _ begun closed key spread⟩

theorem use_respelled (key : ExportKey) (importer file : Path) (span : Span)
    (same : importer.parts = file.parts) (use : ⟨importer, span⟩ ∈ project.usesIn key importer) :
    ⟨file, span⟩ ∈ project.usesIn key file := by
  have listed : (file.parts, span) ∈ (project.usesIn key importer).map Reference.place :=
    List.mem_map.mpr ⟨_, use, by rw [Reference.place, same]⟩
  rw [same_uses_in (same_index_refl project) key key importer file rfl same] at listed
  obtain ⟨reference, member, place⟩ := List.mem_map.mp listed
  obtain ⟨here, -⟩ := use_points file key reference member
  have there : reference.span = span := congrArg Prod.snd place
  have same : (⟨file, span⟩ : Reference) = reference := by rw [← here, ← there]
  rwa [same]

theorem base_mention (file : Path) (facts : Facts) (here : file.parts = symbol.file.parts)
    (span : Span) (member : ⟨symbol.file, span⟩ ∈ baseReferences symbol facts) :
    project.Mention symbol file facts span := by
  obtain ⟨_, listed, same⟩ := List.mem_map.mp member
  obtain ⟨-, rfl⟩ := Reference.mk.inj same
  rcases List.mem_append.mp listed with named | exported
  · cases symbol with
    | own owner name =>
        rcases List.mem_append.mp named with occurs | imported
        · exact .occurrence name rfl here _ occurs
        · obtain ⟨binding, found, rfl⟩ := Option.map_eq_some_iff.mp (Option.mem_toList.mp imported)
          exact .import name rfl here binding found
    | default owner => cases named
    | exported owner name => cases named
  · obtain ⟨binding, filtered, rfl⟩ := List.mem_map.mp exported
    obtain ⟨member, given⟩ := List.mem_filter.mp filtered
    exact .export here binding member given

theorem refers_mention (file : Path) (span : Span) (refers : project.Refers symbol file span) :
    ∃ facts, project.facts? file = some facts ∧ project.Mention symbol file facts span := by
  obtain ⟨reference, found, place⟩ := refers
  obtain ⟨parts, rfl⟩ := Prod.mk.inj place
  rw [referencesTo] at found
  cases known : project.facts? symbol.file with
  | none =>
      rw [known] at found
      cases found
  | some facts =>
      rw [known] at found
      rcases List.mem_append.mp (Reference.in_order_sound _ reference found) with base | use
      · have owner : reference.file = symbol.file := by
          obtain ⟨_, -, rfl⟩ := List.mem_map.mp base
          rfl
        have here : file.parts = symbol.file.parts := parts.symm.trans (congrArg Path.parts owner)
        refine ⟨facts, (facts_congr project file symbol.file here).trans known,
          base_mention file facts here _ ?_⟩
        rwa [← owner]
      · obtain ⟨key, reached, used⟩ := List.mem_flatMap.mp use
        obtain ⟨importer, -, inside⟩ := List.mem_flatMap.mp used
        obtain ⟨here, specifier, points⟩ := use_points importer key reference inside
        have there : ⟨file, reference.span⟩ ∈ project.usesIn key file := by
          subst here
          exact use_respelled key reference.file file _ parts inside
        cases present : project.facts? file with
        | none =>
            rw [usesIn, present] at there
            cases there
        | some others =>
            exact ⟨others, rfl, .use key (reached_spreads facts known key reached) _
              ((uses_in_iff key file others present _).mp there)⟩

theorem mention_refers (indexed : project.Indexed) (file : Path) (facts : Facts)
    (known : project.facts? file = some facts) (span : Span)
    (mention : project.Mention symbol file facts span) : project.Refers symbol file span := by
  have based (here : file.parts = symbol.file.parts)
    (member : ⟨symbol.file, span⟩ ∈ baseReferences symbol facts) :
      project.Refers symbol file span := by
    have refers := refers_base project symbol facts span
      ((facts_congr project file symbol.file here).symm.trans known) member
    rwa [Refers, here]
  cases mention with
  | occurrence name own here _ occurs =>
      refine based here ?_
      have member := base_occurrence symbol.file facts name span occurs
      rwa [← own] at member
  | «import» name own here binding found =>
      refine based here ?_
      have member := base_import symbol.file facts name binding found
      rwa [← own] at member
  | «export» here binding member given =>
      exact based here (base_export symbol facts binding member given)
  | use key spread _ use =>
      exact use_refers indexed file key span ((uses_in_iff key file facts known span).mpr use)
        (spreads_gives indexed key spread)

end Rules
end DeadExports.Project

import DeadExports.Proofs.Project.Resolution

set_option autoImplicit false

namespace DeadExports

namespace Reference

theorem same_place_of_compare (a b : Reference) (same : a.compare b = .eq) : a.place = b.place := by
  rw [compare, Ordering.then_eq_eq, Path.compare_same_iff, Span.compare, Ordering.then_eq_eq]
    at same
  have starts : a.span.start = b.span.start := Std.LawfulEqCmp.eq_of_compare same.2.1
  have stops : a.span.stop = b.span.stop := Std.LawfulEqCmp.eq_of_compare same.2.2
  rw [place, place, same.1, show a.span = ⟨b.span.start, b.span.stop⟩ by rw [← starts, ← stops]]

theorem enter_keeps (reference found : Reference) (ordered : List Reference)
    (member : found ∈ ordered) :
    found ∈ reference.enter ordered := by
  induction ordered with
  | nil => cases member
  | cons first rest ih =>
      rw [enter]
      cases reference.compare first with
      | lt => exact List.mem_cons_of_mem _ member
      | eq => exact member
      | gt =>
          rcases List.mem_cons.mp member with rfl | later
          · exact List.mem_cons_self
          · exact List.mem_cons_of_mem _ (ih later)

theorem enter_enters (reference : Reference) (ordered : List Reference) :
    ∃ found ∈ reference.enter ordered, found.place = reference.place := by
  induction ordered with
  | nil => exact ⟨reference, List.mem_singleton_self _, rfl⟩
  | cons first rest ih =>
      rw [enter]
      cases order : reference.compare first with
      | lt => exact ⟨reference, List.mem_cons_self, rfl⟩
      | eq => exact ⟨first, List.mem_cons_self, (same_place_of_compare reference first order).symm⟩
      | gt =>
          obtain ⟨found, member, same⟩ := ih
          exact ⟨found, List.mem_cons_of_mem _ member, same⟩

theorem in_order_complete (references : List Reference) (reference : Reference)
    (member : reference ∈ references) :
    ∃ found ∈ inOrder references, found.place = reference.place := by
  have folded : ∀ (references begun : List Reference),
      (∀ found ∈ begun, found ∈ references.foldl
        (fun ordered reference => reference.enter ordered) begun) ∧
        ∀ reference ∈ references, ∃ found ∈ references.foldl
        (fun ordered reference => reference.enter ordered) begun,
          found.place = reference.place := by
    intro references
    induction references with
    | nil => exact fun begun => ⟨fun found member => member, by simp⟩
    | cons first rest ih =>
        intro begun
        obtain ⟨kept, entered⟩ := ih (first.enter begun)
        refine ⟨fun found member => kept found (enter_keeps first found begun member), ?_⟩
        intro reference member
        rcases List.mem_cons.mp member with rfl | later
        · obtain ⟨found, present, same⟩ := enter_enters reference begun
          exact ⟨found, kept found present, same⟩
        · exact entered reference later
  exact (folded references []).2 reference member

end Reference

namespace Project

def Refers (project : Project) (symbol : Symbol) (file : Path) (span : Span) : Prop :=
  ∃ reference ∈ project.referencesTo symbol, reference.place = (file.parts, span)

theorem refers_same (project : Project) (left right : Symbol) (symbols : left.Same right)
    (file : Path) (span : Span) (refers : project.Refers left file span) :
    project.Refers right file span := by
  obtain ⟨reference, member, place⟩ := refers
  have listed : reference.place ∈ (project.referencesTo left).map Reference.place :=
    List.mem_map_of_mem member
  rw [same_references_to (same_index_refl project) left right symbols] at listed
  obtain ⟨found, present, same⟩ := List.mem_map.mp listed
  exact ⟨found, present, same.trans place⟩

theorem refers_base (project : Project) (symbol : Symbol) (facts : Facts) (span : Span)
    (known : project.facts? symbol.file = some facts)
    (member : ⟨symbol.file, span⟩ ∈ baseReferences symbol facts) :
    project.Refers symbol symbol.file span := by
  rw [Refers, referencesTo, known]
  exact Reference.in_order_complete _ ⟨symbol.file, span⟩ (List.mem_append_left _ member)

theorem refers_use (project : Project) (symbol : Symbol) (key : ExportKey) (file : Path)
    (span : Span) (given : project.Gives symbol key)
    (listed : ∃ importer ∈ project.importersOf key.file, importer.parts = file.parts)
    (use : ⟨file, span⟩ ∈ project.usesIn key file) : project.Refers symbol file span := by
  have same := same_index_refl project
  obtain ⟨facts, known, held⟩ := given
  obtain ⟨other, reached, alike⟩ := List.contains_iff_exists_mem_beq.mp held
  rw [ExportKey.same_eq_decide, decide_eq_true_iff] at alike
  obtain ⟨importer, member, parts⟩ := listed
  have here : (file.parts, span) ∈ (project.usesIn key importer).map Reference.place := by
    rw [same_uses_in same key key importer file rfl parts]
    exact List.mem_map.mpr ⟨_, use, rfl⟩
  have everywhere : (file.parts, span) ∈ (project.usesOf other).map Reference.place := by
    rw [← same_uses_of same key other alike]
    obtain ⟨reference, present, place⟩ := List.mem_map.mp here
    exact List.mem_map.mpr ⟨reference, List.mem_flatMap.mpr ⟨importer, member, present⟩, place⟩
  obtain ⟨reference, present, place⟩ := List.mem_map.mp everywhere
  rw [Refers, referencesTo, known]
  obtain ⟨found, ordered, equal⟩ := Reference.in_order_complete
    (baseReferences symbol facts ++ (project.reachedKeys symbol facts).flatMap project.usesOf)
    reference
    (List.mem_append_right _ (List.mem_flatMap.mpr ⟨other, reached, present⟩))
  exact ⟨found, ordered, equal.trans place⟩

theorem import_use (project : Project) (file : Path) (facts : Facts) (binding : ImportBinding)
    (key : ExportKey) (span : Span) (known : project.facts? file = some facts)
    (member : binding ∈ facts.imports) (leads : project.importKey? file binding = some key)
    (spanned : span ∈ bindingSpans facts binding) :
    ⟨file, span⟩ ∈ project.usesIn key file := by
  obtain ⟨named, points⟩ := import_key_cases project file binding key leads
  have taken : binding ∈ project.bindingsOf file facts key := by
    refine List.mem_filter.mpr ⟨member, ?_⟩
    rw [points_to_of_target project file file key.file key.file _ rfl points rfl, takes, named]
    simp
  rw [usesIn, known]
  refine List.mem_map.mpr ⟨span, ?_, rfl⟩
  simp only [List.mem_append, List.mem_flatMap]
  exact .inl (.inl (.inl (.inl ⟨binding, taken, spanned⟩)))

theorem reexport_use (project : Project) (file target : Path) (facts : Facts)
    (binding : ExportBinding) (specifier imported : String)
    (known : project.facts? file = some facts) (member : binding ∈ facts.exports)
    (origin : binding.origin = .reexport specifier imported)
    (found : project.target? file specifier = some target) :
    ⟨file, binding.span⟩ ∈ project.usesIn ⟨target, imported⟩ file := by
  have handed : binding ∈ project.reexportsOf file facts ⟨target, imported⟩ := by
    refine List.mem_filter.mpr ⟨member, ?_⟩
    simp only [origin]
    rw [points_to_of_target project file file target target _ rfl found rfl]
    simp
  rw [usesIn, known]
  refine List.mem_map.mpr ⟨binding.span, ?_, rfl⟩
  simp only [List.mem_append, List.mem_map]
  exact .inl (.inl (.inr ⟨binding, handed, rfl⟩))

theorem import_refers (project : Project) (indexed : project.Indexed) (symbol : Symbol)
    (file : Path) (facts : Facts) (binding : ImportBinding) (key : ExportKey) (span : Span)
    (known : project.facts? file = some facts) (member : binding ∈ facts.imports)
    (leads : project.importKey? file binding = some key) (given : project.Gives symbol key)
    (spanned : span ∈ bindingSpans facts binding) :
    project.Refers symbol file span := by
  have points := (import_key_cases project file binding key leads).2
  exact refers_use project symbol key file span given
    (target_importer project indexed file key.file key.file _ points rfl)
    (import_use project file facts binding key span known member leads spanned)

theorem base_occurrence (file : Path) (facts : Facts) (name : String) (span : Span)
    (member : span ∈ facts.occurrencesOf name) :
    ⟨file, span⟩ ∈ baseReferences (.own file name) facts := by
  refine List.mem_map.mpr ⟨span, ?_, rfl⟩
  simp [member]

theorem base_import (file : Path) (facts : Facts) (name : String) (binding : ImportBinding)
    (found : facts.importOf? name = some binding) :
    ⟨file, binding.span⟩ ∈ baseReferences (.own file name) facts := by
  refine List.mem_map.mpr ⟨binding.span, ?_, rfl⟩
  simp [found]

theorem base_export (symbol : Symbol) (facts : Facts) (binding : ExportBinding)
    (member : binding ∈ facts.exports) (given : givesOut symbol binding = true) :
    ⟨symbol.file, binding.span⟩ ∈ baseReferences symbol facts := by
  refine List.mem_map.mpr ⟨binding.span, List.mem_append_right _ ?_, rfl⟩
  exact List.mem_map.mpr ⟨binding, List.mem_filter.mpr ⟨member, given⟩, rfl⟩

section Places

variable {project : Project} {lookup : Lookup}

theorem own_symbol_refers (indexed : project.Indexed) (sound : Found project lookup) (file : Path)
    (facts : Facts) (name : String) (span : Span) (passed : List ExportKey)
    (known : project.facts? file = some facts)
    (base : ⟨file, span⟩ ∈ baseReferences (.own file name) facts)
    (used : ∀ binding : ImportBinding, binding.bound = name → span ∈ bindingSpans facts binding) :
    project.Refers (project.ownSymbol lookup file name passed).1 file span := by
  rcases own_symbol_cases sound file facts name passed known
    with ⟨binding, key, found, leads, given⟩ | same
  · obtain ⟨member, bound⟩ := import_of_cases facts name binding found
    exact import_refers project indexed _ file facts binding key span known member leads given
      (used binding bound)
  · rw [same]
    exact refers_base project (.own file name) facts span known base

theorem export_refers (indexed : project.Indexed) (sound : Found project lookup) (file : Path)
    (facts : Facts) (binding : ExportBinding) (passed : List ExportKey)
    (known : project.facts? file = some facts) (member : binding ∈ facts.exports) :
    project.Refers (project.originSymbol lookup file binding.exported binding.origin passed).1 file
      binding.span := by
  cases origin : binding.origin with
  | own name =>
      have isOwn : binding.isOwn name = true := by simp [ExportBinding.isOwn, origin]
      refine own_symbol_refers indexed sound file facts name binding.span passed known ?_ ?_
      · exact base_export (.own file name) facts binding member isOwn
      · rintro taken rfl
        refine List.mem_append_right _ (List.mem_map.mpr ⟨binding, ?_, rfl⟩)
        exact List.mem_filter.mpr ⟨member, isOwn⟩
  | default =>
      exact refers_base project (.default file) facts binding.span known
        (base_export (.default file) facts binding member (by simp [givesOut, origin]))
  | everything specifier =>
      exact refers_base project (.exported file binding.exported) facts binding.span known
        (base_export (.exported file binding.exported) facts binding member (by simp [givesOut]))
  | reexport specifier imported =>
      rcases reexport_cases sound file binding.exported specifier imported passed
        with ⟨target, found, given⟩ | same
      · exact refers_use project _ ⟨target, imported⟩ file binding.span given
          (target_importer project indexed file target target _ found rfl)
          (reexport_use project file target facts binding specifier imported known member
            origin found)
      · rw [same]
        exact refers_base project (.exported file binding.exported) facts binding.span known
          (base_export (.exported file binding.exported) facts binding member (by simp [givesOut]))

theorem import_place_refers (indexed : project.Indexed) (sound : Found project lookup) (file : Path)
    (facts : Facts) (binding : ImportBinding) (passed : List ExportKey)
    (known : project.facts? file = some facts) (member : binding ∈ facts.imports)
    (first : facts.importOf? binding.bound = some binding) :
    project.Refers (project.importSymbol lookup file binding passed).1 file binding.span := by
  rcases import_symbol_cases sound file binding passed with ⟨key, leads, given⟩ | same
  · exact import_refers project indexed _ file facts binding key binding.span known member leads
      given List.mem_cons_self
  · rw [same]
    exact refers_base project (.own file binding.bound) facts binding.span known
      (base_import file facts binding.bound binding first)

theorem occurrence_refers (indexed : project.Indexed) (sound : Found project lookup) (file : Path)
    (facts : Facts) (name : String) (span : Span) (passed : List ExportKey)
    (known : project.facts? file = some facts) (member : (name, span) ∈ facts.occurrences) :
    project.Refers (project.ownSymbol lookup file name passed).1 file span := by
  have occurs : span ∈ facts.occurrencesOf name :=
    List.mem_map.mpr ⟨(name, span), List.mem_filter.mpr ⟨member, by simp⟩, rfl⟩
  refine own_symbol_refers indexed sound file facts name span passed known ?_ ?_
  · exact base_occurrence file facts name span occurs
  · rintro taken rfl
    exact List.mem_append_left _ (List.mem_cons_of_mem _ occurs)

end Places
end Project
end DeadExports

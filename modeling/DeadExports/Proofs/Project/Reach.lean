import DeadExports.Proofs.Project.Referring
import Mathlib.Logic.Relation

set_option autoImplicit false

namespace DeadExports.Project

def Leads (project : Project) (key : ExportKey) (file : Path) (name : String) : Prop :=
  ∃ path, path.parts = file.parts ∧ Relation.ReflTransGen project.Step key ⟨path, name⟩

def sources (project : Project) (importer : Path) : List ExportKey :=
  match project.facts? importer with
  | none => []
  | some facts =>
    facts.imports.filterMap (project.importKey? importer) ++ facts.exports.filterMap fun binding =>
      match binding.origin with
      | .reexport specifier imported => (project.target? importer specifier).map fun target =>
        ⟨target, imported⟩
      | _ => none

section Search

variable {project : Project} {symbol : Symbol}

theorem leads_gives (indexed : project.Indexed) (key : ExportKey) (file : Path) (name : String)
    (leads : project.Leads key file name) (given : project.Gives symbol ⟨file, name⟩) :
    project.Gives symbol key := by
  obtain ⟨path, same, chain⟩ := leads
  have last : project.Gives symbol ⟨path, name⟩ := by
    obtain ⟨facts, known, held⟩ := given
    refine ⟨facts, known, contains_of_same _ _ _ ?_ held⟩
    rw [ExportKey.same_eq_decide]
    simp [ExportKey.place, same]
  induction chain using Relation.ReflTransGen.head_induction_on with
  | refl => exact last
  | head step _ ih => exact gives_step project indexed symbol _ _ step ih

theorem points_to_target (importer file : Path) (specifier : String)
    (points : project.pointsTo importer specifier file = true) :
    ∃ target, project.target? importer specifier = some target ∧ target.parts = file.parts := by
  rw [pointsTo] at points
  cases found : project.target? importer specifier with
  | none =>
      rw [found] at points
      cases points
  | some target =>
      rw [found] at points
      exact ⟨target, rfl, (Path.same_iff target file).mp points⟩

theorem use_points (importer : Path) (key : ExportKey) (reference : Reference)
    (use : reference ∈ project.usesIn key importer) :
    reference.file = importer ∧ ∃ specifier, project.pointsTo importer specifier key.file =
      true := by
  rw [usesIn] at use
  cases known : project.facts? importer with
  | none =>
      rw [known] at use
      cases use
  | some facts =>
      rw [known] at use
      obtain ⟨span, spanned, rfl⟩ := List.mem_map.mp use
      refine ⟨rfl, ?_⟩
      simp only [List.mem_append, List.mem_flatMap, List.mem_map] at spanned
      rcases spanned with (((⟨binding, taken, -⟩ | ⟨binding, taken, -⟩) | ⟨binding, taken, -⟩)
        | ⟨binding, taken, -⟩) | ⟨call, taken, -⟩
      · have points := (List.mem_filter.mp taken).2
        rw [Bool.and_eq_true] at points
        exact ⟨binding.specifier, points.1⟩
      · have points := (List.mem_filter.mp taken).2
        rw [Bool.and_eq_true] at points
        exact ⟨binding.specifier, points.2⟩
      · have points := (List.mem_filter.mp taken).2
        split at points
        next specifier _ _ =>
            rw [Bool.and_eq_true] at points
            exact ⟨specifier, points.2⟩
        next => cases points
      · have points := (List.mem_filter.mp taken).2
        split at points
        next specifier _ => exact ⟨specifier, points⟩
        next => cases points
      · exact ⟨call.1, (List.mem_filter.mp taken).2⟩

theorem use_refers (indexed : project.Indexed) (importer : Path) (key : ExportKey) (span : Span)
    (use : ⟨importer, span⟩ ∈ project.usesIn key importer) (given : project.Gives symbol key) :
    project.Refers symbol importer span := by
  obtain ⟨-, specifier, points⟩ := use_points importer key _ use
  obtain ⟨target, found, same⟩ := points_to_target importer key.file specifier points
  exact refers_use project symbol key importer span given
    (target_importer project indexed importer target key.file specifier found same) use

theorem source_used (importer : Path) (key : ExportKey) (taken : key ∈ project.sources importer) :
    ∃ span, ⟨importer, span⟩ ∈ project.usesIn key importer := by
  rw [sources] at taken
  cases known : project.facts? importer with
  | none =>
      rw [known] at taken
      cases taken
  | some facts =>
      rw [known] at taken
      rcases List.mem_append.mp taken with imported | handed
      · obtain ⟨binding, member, leads⟩ := List.mem_filterMap.mp imported
        exact ⟨binding.span, import_use project importer facts binding key binding.span known member
          leads List.mem_cons_self⟩
      · obtain ⟨binding, member, found⟩ := List.mem_filterMap.mp handed
        split at found
        next specifier name origin =>
            obtain ⟨target, points, rfl⟩ := Option.map_eq_some_iff.mp found
            exact ⟨binding.span, reexport_use project importer target facts binding specifier name
              known member origin points⟩
        next => cases found

end Search
end DeadExports.Project

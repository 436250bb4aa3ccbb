import DeadExports.Cleanup
import DeadExports.Project.Reference

set_option autoImplicit false

/-!
What removing exports needs to know about a project. A service answers from the texts that the store
holds now; it may keep what it found out, so every answer comes with the service as it is
afterwards.
-/

namespace DeadExports

class LanguageService (ι σ : Type) where
  findReferences : ι → σ → Path → Nat → Except AnalysisError (List Reference) × ι
  resolveModule : ι → σ → String → Path → Option Path × ι
  applyFix : ι → σ → Fix → Path → Except AnalysisError String × ι

class SourceParser (ι σ : Type) where
  parse : ι → σ → Path → Except AnalysisError SourceModule × ι

instance (priority := low) parsesStored {ι σ : Type} [FileStore σ] : SourceParser ι σ where
  parse service store file := (SourceModule.load store file, service)

namespace Project

variable {σ : Type} [FileStore σ]

def findReferences (project : Project) (store : σ) (file : Path) (position : Nat) :
    Except AnalysisError (List Reference) × Project :=
  match project.sync store with
  | (.error cause, later) => (.error cause, later)
  | (.ok (), later) => ((later.symbolAt file position).map later.referencesTo, later)

def resolveModule (project : Project) (store : σ) (specifier : String) (importer : Path) :
    Option Path :=
  let known? :=
    if project.revision == some (FileStore.revision store) then project.target? importer specifier
    else none
  known?.or (Resolve.resolve store specifier importer)

def applyFix (store : σ) (fix : Fix) (file : Path) : Except AnalysisError String :=
  (SourceModule.load store file).map fix.apply

instance : LanguageService Project σ where
  findReferences := findReferences
  resolveModule project store specifier importer :=
    (project.resolveModule store specifier importer, project)
  applyFix project store fix file := (applyFix store fix file, project)

end Project
end DeadExports

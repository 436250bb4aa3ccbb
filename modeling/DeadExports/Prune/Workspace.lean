import DeadExports.Error
import DeadExports.Service
import DeadExports.Trace.Basic

set_option autoImplicit false

/-!
Where exports are removed: a language service, a store of files, and the events so far. A
computation on it may stop with an error; what it did before it stopped stays done.
-/

namespace DeadExports

structure Workspace (ι σ : Type) where
  service : ι
  store : σ
  events : List EditEvent := []

abbrev PruneM (ι σ : Type) := ExceptT PruneError (StateM (Workspace ι σ))

namespace Workspace

variable {ι σ : Type}

def emit (event : EditEvent) : PruneM ι σ Unit :=
  modify fun space => { space with events := space.events ++ [event] }

def ofExcept {ε α : Type} (wrap : ε → PruneError) : Except ε α → PruneM ι σ α
  | .ok value => pure value
  | .error cause => throw (wrap cause)

def ask {α : Type} (question : ι → σ → Except AnalysisError α × ι) : PruneM ι σ α := do
  let space ← get
  let (answer, later) := question space.service space.store
  set { space with service := later }
  ofExcept PruneError.analysis answer

variable [FileStore σ]

def read (file : Path) : PruneM ι σ String := do
  ofExcept PruneError.store (FileStore.read (← get).store file)

def load [SourceParser ι σ] (file : Path) : PruneM ι σ SourceModule :=
  ask fun service store => SourceParser.parse service store file

def change (edit : σ → Except StoreError Unit × σ) : PruneM ι σ Unit := do
  let space ← get
  let (result, later) := edit space.store
  set { space with store := later }
  ofExcept PruneError.store result

def write (file : Path) (text : String) : PruneM ι σ Unit :=
  change fun store => FileStore.write store file text

def delete (file : Path) : PruneM ι σ Unit :=
  change fun store => FileStore.delete store file

end Workspace
end DeadExports

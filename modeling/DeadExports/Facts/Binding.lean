import DeadExports.Graph.Basic
import DeadExports.Text.Basic

set_option autoImplicit false

namespace DeadExports

inductive Imported where
  | named (name : String)
  | default
  | everything
deriving DecidableEq, Repr

structure ImportBinding where
  bound : String
  imported : Imported
  specifier : String
  /-- Where the imported name is written, or the bound one where the import has no other. -/
  span : Span
deriving DecidableEq, Repr

inductive ExportOrigin where
  | own (name : String)
  | default
  | reexport (specifier : String) (imported : String)
  | everything (specifier : String)
deriving DecidableEq, Repr

structure ExportBinding where
  exported : String
  origin : ExportOrigin
  span : Span
  inClause : Bool
deriving DecidableEq, Repr

structure MemberAccess where
  object : String
  property : String
  span : Span
deriving DecidableEq, Repr

def ExportBinding.isOwn (binding : ExportBinding) (name : String) : Bool :=
  binding.origin == .own name

def ExportBinding.specifier? (binding : ExportBinding) : Option String :=
  match binding.origin with
  | .reexport specifier _ => some specifier
  | .everything specifier => some specifier
  | .own _ | .default => none

end DeadExports

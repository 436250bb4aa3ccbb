import DeadExports.Text.Basic

set_option autoImplicit false

namespace DeadExports

inductive CandidateKind where
  | variableList
  | function
  | classLike
  | interface
  | typeAlias
  | defaultValue
  | specifier
deriving DecidableEq, Repr

namespace CandidateKind

def label : CandidateKind → String
  | variableList => "variable"
  | function => "function"
  | classLike => "class"
  | interface => "interface"
  | typeAlias => "type alias"
  | defaultValue => "default export"
  | specifier => "export specifier"

end CandidateKind

structure Clause where
  span : Span
  specifiers : List Span
  commas : List Span
deriving DecidableEq, Repr

structure Candidate where
  kind : CandidateKind
  names : List String
  identifiers : List Span
  statement : Span
  exportWord : Option Span
  node : Span
  specifier : Option String
  clause : Option Clause
deriving DecidableEq, Repr

namespace Candidate

def positions (candidate : Candidate) : List Nat := candidate.identifiers.map Span.start

def label (candidate : Candidate) : String := ", ".intercalate candidate.names

end Candidate
end DeadExports

import DeadExports.Candidate.Scan
import DeadExports.Service

set_option autoImplicit false

namespace DeadExports.Chain

def nextSpecifier? (references : List Reference) (forwardings : List Forwarding) : Option String :=
  references.findSome? fun reference =>
    (forwardings.find? fun forwarding => forwarding.span == reference.span).map Forwarding.specifier

def within (references : List Reference) (file : Path) : List Reference :=
  references.filter fun reference => reference.file == file

variable {ι σ : Type} [FileStore σ] [SourceParser ι σ] [LanguageService ι σ]

/--
The files from `specifier` in `importer` on, behind the files that were passed already. There is no
chain when a specifier cannot be resolved, a file comes twice, or a file has no reference or cannot
be parsed. Each file passed takes a reference of its own, so their number bounds the steps.
-/
def follow (store : σ) (references : List Reference) :
    Nat → ι → List Path → Path → String → Option (List Path) × ι
  | 0, service, _, _, _ => (none, service)
  | steps + 1, service, passed, importer, specifier =>
    match LanguageService.resolveModule service store specifier importer with
    | (none, later) => (none, later)
    | (some file, later) =>
      let here := within references file
      if passed.contains file || here.isEmpty then (none, later)
      else
        match SourceParser.parse later store file with
        | (.error _, last) => (none, last)
        | (.ok m, last) =>
          match nextSpecifier? here m.forwardings with
          | none => (some (passed ++ [file]), last)
          | some next => follow store references steps last (passed ++ [file]) file next

def find (service : ι) (store : σ) (origin : Path) (specifier : String)
    (references : List Reference) :
    Option (List Path) × ι :=
  follow store references (references.length + 1) service [] origin specifier

end DeadExports.Chain

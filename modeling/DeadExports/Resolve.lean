import DeadExports.Language
import DeadExports.Path.Basic
import DeadExports.Store.Basic

set_option autoImplicit false

namespace DeadExports.Resolve

def endings : List String := ["ts", "tsx", "d.ts", "mts", "cts", "js", "jsx", "mjs", "cjs"]

def typedEndings : String → List String
  | "js" => ["ts", "tsx", "d.ts"]
  | "jsx" => ["tsx"]
  | "mjs" => ["mts", "d.mts"]
  | "cjs" => ["cts", "d.cts"]
  | _ => []

def isRelative (specifier : String) : Bool :=
  specifier == "." || specifier == ".." || specifier.startsWith "./" ||
    specifier.startsWith "../" ||
    specifier.startsWith "/"

def candidates (base : Path) : List Path :=
  let typed := ((base.extension?.map typedEndings).getD []).map base.withoutEnding.withEnding
  base :: typed ++ endings.map base.withEnding ++ endings.map (base.join "index").withEnding

def base? (specifier : String) (importer : Path) : Option Path :=
  if isRelative specifier then importer.parent?.map fun folder => (folder.join specifier).normalize
  else none

def resolve {σ : Type} [FileStore σ] (store : σ) (specifier : String) (importer : Path) :
    Option Path :=
  (base? specifier importer).bind fun base => (candidates base).find? (FileStore.contains store)

end DeadExports.Resolve

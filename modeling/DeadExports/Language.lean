import DeadExports.Path.Basic

set_option autoImplicit false

namespace DeadExports

inductive Language where
  | javascript
  | typescript
  | tsx
  | jsx
deriving DecidableEq, Repr

namespace Language

/-- The letters of the endings are plain ones, so only those change case. -/
def ofExtension? (ending : String) : Option Language :=
  match ending.toLower with
  | "js" | "mjs" | "cjs" => some javascript
  | "jsx" => some jsx
  | "ts" | "mts" | "cts" => some typescript
  | "tsx" => some tsx
  | _ => none

def ofPath? (path : Path) : Option Language := path.extension?.bind ofExtension?

def isTyped : Language → Bool
  | typescript | tsx => true
  | javascript | jsx => false

def hasMarkup : Language → Bool
  | typescript => false
  | javascript | tsx | jsx => true

def label : Language → String
  | javascript => "javascript"
  | typescript => "typescript"
  | tsx => "tsx"
  | jsx => "jsx"

end Language

def Path.isSource (path : Path) : Bool := (Language.ofPath? path).isSome

def Path.isDeclarationFile (path : Path) : Bool :=
  match path.fileName? with
  | some name => name.endsWith ".d.ts" || name.endsWith ".d.mts" || name.endsWith ".d.cts"
  | none => false

end DeadExports

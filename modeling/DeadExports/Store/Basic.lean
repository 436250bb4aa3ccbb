import DeadExports.Path.Basic

set_option autoImplicit false

namespace DeadExports

inductive StoreError where
  | notInStore (path : Path)
  | outsideRoot (path root : Path)
  | rootNotDirectory (root : Path)
  | notText
  | missing
  | isDirectory
  | notDirectory
deriving Repr

namespace StoreError

def kind : StoreError → String
  | notInStore _ | rootNotDirectory _ | missing => "NotFound"
  | outsideRoot _ _ => "PermissionDenied"
  | notText => "InvalidData"
  | isDirectory => "IsADirectory"
  | notDirectory => "NotADirectory"

def message : StoreError → String
  | notInStore path => "File not found in store: " ++ path.spelling
  | outsideRoot path root =>
    "Path " ++ path.spelling ++ " is outside project root " ++ root.spelling
  | rootNotDirectory root => "Project root is not a directory: " ++ root.spelling
  | notText => "stream did not contain valid UTF-8"
  | missing => "No such file or directory (os error 2)"
  | isDirectory => "Is a directory (os error 21)"
  | notDirectory => "Not a directory (os error 20)"

def isFromSystem : StoreError → Bool
  | missing | isDirectory | notDirectory => true
  | notInStore _ | outsideRoot _ _ | rootNotDirectory _ | notText => false

end StoreError

class FileStore (σ : Type) where
  read : σ → Path → Except StoreError String
  write : σ → Path → String → Except StoreError Unit × σ
  delete : σ → Path → Except StoreError Unit × σ
  contains : σ → Path → Bool
  files : σ → List Path
  revision : σ → Nat

end DeadExports

import DeadExports.Error
import DeadExports.Source.Grammar.Statements
import DeadExports.Source.Layout
import DeadExports.Store.Basic

set_option autoImplicit false

/-!
Parsed source files. A text that is not a program gets an empty tree here, where a parser that
recovers from errors would keep the parts it could read: nothing is said of those parts.
-/

namespace DeadExports

structure SourceModule where
  path : Path
  language : Language
  text : String
  tree : Tree
  laidOut : tree.isLaidOut = true
  placed : tree.isPlacedIn text = true
  inked : tree.isInkedIn text = true
  hasErrors : Bool

namespace SourceModule

def treeOf? (language : Language) (text : String) :
    Option { tree : Tree // tree.isLaidOut = true ∧ tree.isPlacedIn text = true ∧
      tree.isInkedIn text = true } :=
  let grammar := Source.Grammar.ofDepth (Text.size text + 2)
  (Source.Grammar.program grammar { text, language } { position := 0 }).bind fun (tree, _) =>
    if sound : tree.isLaidOut = true ∧ tree.isPlacedIn text = true ∧ tree.isInkedIn text = true then
      some ⟨tree, sound⟩
    else none

def parse (path : Path) (text : String) : Except AnalysisError SourceModule :=
  let ending := path.extension?.getD ""
  match Language.ofExtension? ending with
  | none => .error (.unsupported ending)
  | some language =>
    match treeOf? language text with
    | some ⟨tree, sound⟩ =>
      .ok {
        path, language, text, tree, hasErrors := false
        laidOut := sound.1, placed := sound.2.1, inked := sound.2.2 }
    | none =>
      let tree := Tree.branch .program ⟨0, Text.size text⟩ []
      have laidOut : tree.isLaidOut = true := by
        simp [tree, Tree.branch, Tree.isLaidOut, Tree.areInOrder, Tree.mayHold, Tree.areLaidOut,
          Kind.isWord, Kind.hasPlainName]
      have placed : tree.isPlacedIn text = true := by
        simp [tree, Tree.branch, Tree.isPlacedIn, Tree.arePlacedIn]
      have inked : tree.isInkedIn text = true := rfl
      .ok { path, language, text, tree, laidOut, placed, inked, hasErrors := true }

def load {σ : Type} [FileStore σ] (store : σ) (path : Path) : Except AnalysisError SourceModule :=
  match FileStore.read store path with
  | .error cause => .error (.unreadable cause)
  | .ok text => parse path text

def statements (m : SourceModule) : List Tree := m.tree.namedChildren

end SourceModule
end DeadExports

import DeadExports.Text.Basic

set_option autoImplicit false

/-!
Replacing spans of a text. The changes of one list refer to the same text and are made at once, in
the order of their spans; a change that starts before the end of the one made last, or ends past the
text, is left out.
-/

namespace DeadExports

structure Change where
  span : Span
  replacement : String
deriving DecidableEq, Repr

namespace Change

def delete (span : Span) : Change := ⟨span, ""⟩

def inOrder (changes : List Change) : List Change :=
  changes.mergeSort fun a b => a.span.atMost b.span

def splice (text : String) : Nat → List Change → Option String
  | position, [] => Text.slice? text position (Text.size text)
  | position, change :: rest =>
    if change.span.start < position ∨ Text.size text < change.span.stop then
      splice text position rest
    else do
      let kept ← Text.slice? text position change.span.start
      let tail ← splice text change.span.stop rest
      some (kept ++ change.replacement ++ tail)

def applyAll? (text : String) (changes : List Change) : Option String :=
  splice text 0 (inOrder changes)

end Change
end DeadExports

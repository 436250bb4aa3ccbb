import DeadExports.Source.Module

set_option autoImplicit false

namespace DeadExports

namespace Source

theorem bind_result {α β : Type} (first : Parse α) (next : α → Parse β) (setting : Setting)
    (cursor : Cursor) (result : β × Cursor) (read : (first >>= next) setting cursor = some result) :
    ∃ value rest, first setting cursor = some (value, rest) ∧ next value setting rest =
      some result := by
  simp only [Bind.bind] at read
  split at read
  next value rest found => exact ⟨value, rest, found, read⟩
  next => cases read

theorem program_kind (g : Grammar) (setting : Setting) (cursor later : Cursor) (tree : Tree)
    (read : Grammar.program g setting cursor = some (tree, later)) : tree.kind = .program := by
  rw [Grammar.program] at read
  obtain ⟨_, _, -, read⟩ := bind_result _ _ _ _ _ read
  obtain ⟨_, _, -, read⟩ := bind_result _ _ _ _ _ read
  obtain ⟨_, _, -, read⟩ := bind_result _ _ _ _ _ read
  obtain ⟨rfl, -⟩ := Prod.mk.inj (Option.some.inj read)
  rfl

end Source

namespace SourceModule

theorem tree_of_kind (language : Language) (text : String)
    (tree : { tree : Tree // tree.isLaidOut = true ∧ tree.isPlacedIn text = true ∧
      tree.isInkedIn text = true })
    (found : treeOf? language text = some tree) : tree.val.kind = .program := by
  obtain ⟨⟨whole, later⟩, read, kept⟩ := Option.bind_eq_some_iff.mp found
  dsimp only at kept
  split at kept
  next =>
      obtain rfl := Option.some.inj kept
      exact Source.program_kind _ _ _ later whole read
  next => cases kept

theorem parse_program (path : Path) (text : String) (m : SourceModule)
    (parsed : parse path text = .ok m) :
    m.text = text ∧ m.tree.kind = .program := by
  rw [parse] at parsed
  split at parsed
  next => cases parsed
  next language =>
      split at parsed
      next tree sound found =>
          cases parsed
          exact ⟨rfl, tree_of_kind _ text ⟨tree, sound⟩ found⟩
      next =>
          cases parsed
          exact ⟨rfl, rfl⟩

end SourceModule
end DeadExports

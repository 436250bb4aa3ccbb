import DeadExports.Proofs.Source.Laying

set_option autoImplicit false

namespace DeadExports

namespace Source

theorem gap_comments_lie (text : String) (offset : Nat)
    (opens : Text.isBoundary text offset = true) :
    Span.InOrder offset (gapAt text offset).comments (gapAt text offset).stop ∧
      ∀ span ∈ (gapAt text offset).comments, (Tree.leaf .comment span).Stands text := by
  have blanks (start : Nat) := Text.run_passes text isBlank start
  fun_induction gapAt text offset with
  | case1 start blanksEnd => exact ⟨(blanks start).ordered, by simp⟩
  | case2 start blanksEnd lineEnd stop found forward rest ih =>
      have begins := (blanks start).closes opens
      obtain ⟨filled, closes, ink, before⟩ := comment_ends text _ stop found begins
      obtain ⟨ordered, each⟩ := ih closes
      refine ⟨⟨(blanks start).ordered, filled, ordered⟩, fun span member => ?_⟩
      rcases List.mem_cons.mp member with rfl | later
      · exact .close [] rfl ⟨begins, fun _ => ink⟩ filled closes before (by simp) filled.le rfl rfl
      · exact each span later
  | case3 start blanksEnd => exact ⟨(blanks start).ordered, by simp⟩

end Source

namespace Tree

/-- Nothing but a gap lies in front of each tree. -/
def Follow (text : String) : Nat → List Tree → Nat → Prop
  | first, [], last => first = last
  | first, tree :: rest, last => (Source.gapAt text first).stop ≤ tree.span.start ∧
      tree.span.start < tree.span.stop ∧ Follow text tree.span.stop rest last

theorem follow_append (text : String) (first last : Nat) (trees : List Tree) (tree : Tree)
    (follow : Follow text first trees last)
    (starts : (Source.gapAt text last).stop ≤ tree.span.start)
    (filled : tree.span.start < tree.span.stop) :
    Follow text first (trees ++ [tree]) tree.span.stop := by
  induction trees generalizing first with
  | nil =>
      obtain rfl : first = last := follow
      exact ⟨starts, filled, rfl⟩
  | cons other rest ih => exact ⟨follow.1, follow.2.1, ih _ follow.2.2⟩

theorem follow_in_order (text : String) (first last : Nat) (trees : List Tree)
    (opens : Text.isBoundary text first = true) (stands : ∀ tree ∈ trees, tree.Stands text)
    (follow : Follow text first trees last) :
    Span.InOrder first ((Source.Grammar.withComments text first trees).map Tree.span)
      (Source.gapAt text last).stop := by
  have gap (offset : Nat) (opens : Text.isBoundary text offset = true) :
      Span.InOrder offset ((Source.Grammar.gapComments text offset).map Tree.span)
        (Source.gapAt text offset).stop := by
    have same : Tree.span ∘ Tree.leaf .comment = id := rfl
    rw [Source.Grammar.gapComments, List.map_map, same, List.map_id]
    exact (Source.gap_comments_lie text offset opens).1
  induction trees generalizing first with
  | nil =>
      obtain rfl : first = last := follow
      exact gap first opens
  | cons tree rest ih =>
      obtain ⟨starts, filled, later⟩ := follow
      have closes := (stands tree List.mem_cons_self).ends.1
      have after := ih _ closes (fun other member => stands other (List.mem_cons_of_mem _ member))
        later
      rw [Source.Grammar.withComments, List.map_append, List.map_cons]
      exact Span.in_order_append _ _ _ _ _ (gap first opens) ⟨starts, filled, after⟩

theorem with_comments_stand (text : String) (first : Nat) (trees : List Tree)
    (opens : Text.isBoundary text first = true) (stands : ∀ tree ∈ trees, tree.Stands text)
    (tree : Tree) (member : tree ∈ Source.Grammar.withComments text first trees) :
    tree.Stands text ∧ (tree.kind = .comment ∨ tree ∈ trees) := by
  have comment (offset : Nat) (opens : Text.isBoundary text offset = true)
      (found : tree ∈ Source.Grammar.gapComments text offset) :
      tree.Stands text ∧ tree.kind = .comment := by
    obtain ⟨span, inside, rfl⟩ := List.mem_map.mp found
    exact ⟨(Source.gap_comments_lie text offset opens).2 span inside, rfl⟩
  induction trees generalizing first with
  | nil => exact (comment first opens member).imp_right .inl
  | cons next rest ih =>
      rcases List.mem_append.mp member with early | later
      · exact (comment first opens early).imp_right .inl
      · rcases List.mem_cons.mp later with rfl | later
        · exact ⟨stands _ List.mem_cons_self, .inr List.mem_cons_self⟩
        · have closes := (stands next List.mem_cons_self).ends.1
          have each := ih _ closes (fun other inside =>
            stands other (List.mem_cons_of_mem _ inside))
            later
          exact each.imp_right (.imp_right (List.mem_cons_of_mem _))

def HasLastInk (text : String) (tree : Tree) : Prop :=
  Text.hasInk text (tree.span.stop - 1) = true

end Tree

namespace Source

structure Cursor.Follows (text : String) (holds : Tree → Prop) (first : Nat) (trees : List Tree)
    (cursor : Cursor) : Prop where
  sound : cursor.Sound text
  each : ∀ tree ∈ trees, tree.Stands text ∧ holds tree
  follow : Tree.Follow text first trees cursor.position

structure Cursor.Inked (text : String) (cursor : Cursor) : Prop where
  sound : cursor.Sound text
  ink : Text.hasInk text (cursor.position - 1) = true

namespace Parse

variable {α : Type} {text : String} {holds : Tree → Prop} {moved : Bool} {first : Nat}
  {trees : List Tree}

theorem Looks.follows {reader : Parse α} (looks : reader.Looks text) :
    reader.Reads text (Cursor.Follows text holds first trees) fun _ =>
      Cursor.Follows text holds first trees := by
  intro setting cursor value rest here follows read
  obtain ⟨sound, same⟩ := looks setting cursor value rest here follows.sound read
  exact ⟨sound, follows.each, same ▸ follows.follow⟩

theorem Lays.follows {reader : Parse Tree} (lays : reader.Lays text)
    (ends : reader.Reads text (Cursor.Sound text) fun tree rest =>
      tree.span.stop = rest.position ∧ holds tree) :
    reader.Reads text (Cursor.Follows text holds first trees) fun tree =>
      Cursor.Follows text holds first (trees ++ [tree]) := by
  intro setting cursor tree rest here follows read
  have begins : cursor.Begins text (gapAt text cursor.position).stop := ⟨follows.sound, rfl⟩
  have behind := lays.begins setting cursor tree rest here begins read
  obtain ⟨stop, here⟩ := ends setting cursor tree rest here follows.sound read
  refine ⟨behind.1.sound, fun other member => ?_, ?_⟩
  · rcases List.mem_append.mp member with old | new
    · exact follows.each other old
    · obtain rfl := List.mem_singleton.mp new
      exact ⟨behind.stands _ (List.mem_singleton_self _), here⟩
  · obtain ⟨starts, filled, -⟩ := behind.1.ordered
    exact stop ▸ Tree.follow_append text _ _ trees tree follows.follow starts filled

theorem Skips.sound {reader : Parse α} (skips : reader.Skips text) :
    reader.Reads text (Cursor.Sound text) fun _ => Cursor.Sound text :=
  .since (fun _ sound => .inr ⟨sound, rfl, Nat.zero_le _⟩)
    ((skips false 0 []).weaken fun _ _ => Cursor.Behind.sound)

theorem Looks.inked {reader : Parse α} (looks : reader.Looks text) :
    reader.Reads text (Cursor.Inked text) fun _ => Cursor.Inked text := by
  intro setting cursor value rest here inked read
  obtain ⟨sound, same⟩ := looks setting cursor value rest here inked.sound read
  exact ⟨sound, same ▸ inked.ink⟩

theorem take_inks : take.Reads text (Cursor.Sound text) fun token rest =>
    rest.Inked text ∧ token.span.stop = rest.position := by
  intro setting cursor token rest here sound read
  obtain ⟨-, rfl, starts, lies⟩ := take_finds setting cursor rest token here sound read
  have opens := starts ▸ (Text.gap_opens text _ sound.boundary).1
  exact ⟨⟨moved_sound _ (lies.inks.closes opens), lies.inks.ink opens lies.filled⟩, rfl⟩

theorem leaf_inks (kind : Kind) : (leaf kind).Reads text (Cursor.Sound text) fun tree rest =>
    rest.Inked text ∧ tree.span.stop = rest.position :=
  .step take_inks fun _ => .pure fun _ => id

theorem accept_inks (word : String) : (accept word).Reads text (Cursor.Inked text) fun _ =>
    Cursor.Inked text := by
  refine .step peek_looks.inked fun _ => .branch ?_ (.pure fun _ => id)
  exact .since (fun _ => Cursor.Inked.sound) (.step take_inks fun _ => .pure fun _ => And.left)

theorem close_inks (kind : Kind) (first : Nat) (children : List Tree) :
    (closeNode kind first children).Reads text (Cursor.Inked text) fun tree rest =>
      rest.Inked text ∧ tree.span.stop = rest.position := by
  intro _ _ _ _ _ inked read
  cases read
  exact ⟨inked, rfl⟩

end Parse

theorem Cursor.Inked.last {cursor : Cursor} {text : String} {tree : Tree}
    (ends : cursor.Inked text ∧ tree.span.stop = cursor.position) :
    tree.span.stop = cursor.position ∧ tree.HasLastInk text :=
  ⟨ends.2, by rw [Tree.HasLastInk, ends.2]; exact ends.1.ink⟩

end Source
end DeadExports

import DeadExports.Source.Layout

set_option autoImplicit false

namespace DeadExports

namespace Span

def InOrder (first : Nat) : List Span → Nat → Prop
  | [], last => first ≤ last
  | span :: rest, last => first ≤ span.start ∧ span.start < span.stop ∧ InOrder span.stop rest last

theorem in_order_le (first : Nat) (spans : List Span) (last : Nat)
    (ordered : InOrder first spans last) : first ≤ last := by
  induction spans generalizing first with
  | nil => exact ordered
  | cons span rest ih =>
      obtain ⟨before, filled, after⟩ := ordered
      have rest := ih span.stop after
      omega

theorem in_order_append (first middle last : Nat) (left right : List Span)
    (before : InOrder first left middle) (after : InOrder middle right last) :
    InOrder first (left ++ right) last := by
  induction left generalizing first with
  | nil =>
      cases right with
      | nil => exact Nat.le_trans before after
      | cons span rest => exact ⟨Nat.le_trans before after.1, after.2⟩
  | cons span rest ih => exact ⟨before.1, before.2.1, ih span.stop before.2.2⟩

theorem in_order_widen (first start stop last : Nat) (spans : List Span) (below : first ≤ start)
    (above : stop ≤ last) (ordered : InOrder start spans stop) : InOrder first spans last := by
  have whole := in_order_append start stop last spans [] ordered above
  rw [List.append_nil] at whole
  exact in_order_append first start last [] spans below whole

theorem in_order_bounds (first : Nat) (spans : List Span) (last : Nat)
    (ordered : InOrder first spans last) (span : Span) (member : span ∈ spans) :
    first ≤ span.start ∧ span.start < span.stop ∧ span.stop ≤ last := by
  induction spans generalizing first with
  | nil => cases member
  | cons head rest ih =>
      obtain ⟨before, filled, after⟩ := ordered
      rcases List.mem_cons.mp member with rfl | later
      · exact ⟨before, filled, in_order_le span.stop rest last after⟩
      · have bounds := ih head.stop after later
        omega

theorem in_order_apart (first : Nat) (spans : List Span) (last : Nat)
    (ordered : InOrder first spans last) :
    spans.Pairwise fun a b => a.stop ≤ b.start := by
  induction spans generalizing first with
  | nil => exact List.Pairwise.nil
  | cons head rest ih =>
      obtain ⟨-, -, after⟩ := ordered
      refine List.pairwise_cons.mpr ⟨?_, ih head.stop after⟩
      exact fun span member => (in_order_bounds head.stop rest last after span member).1

theorem in_order_unique (first : Nat) (spans : List Span) (last : Nat)
    (ordered : InOrder first spans last) (a b : Span) (inA : a ∈ spans) (inB : b ∈ spans)
    (offset : Nat) (overA : a.contains offset = true) (overB : b.contains offset = true) :
    a = b := by
  simp only [contains, Bool.and_eq_true, decide_eq_true_eq] at overA overB
  induction spans generalizing first with
  | nil => cases inA
  | cons head rest ih =>
      obtain ⟨-, -, after⟩ := ordered
      rcases List.mem_cons.mp inA with rfl | laterA
      · rcases List.mem_cons.mp inB with rfl | laterB
        · rfl
        · have bounds := in_order_bounds a.stop rest last after b laterB
          omega
      · rcases List.mem_cons.mp inB with rfl | laterB
        · have bounds := in_order_bounds b.stop rest last after a laterA
          omega
        · exact ih head.stop after laterA laterB

theorem in_order_split (first last : Nat) (left right : List Span) (span : Span)
    (ordered : InOrder first (left ++ span :: right) last) :
    InOrder first left span.start ∧ InOrder span.start (span :: right) last := by
  induction left generalizing first with
  | nil => exact ⟨ordered.1, Nat.le_refl _, ordered.2⟩
  | cons other rest ih =>
      obtain ⟨before, filled, later⟩ := ordered
      obtain ⟨front, back⟩ := ih other.stop later
      exact ⟨⟨before, filled, front⟩, back⟩

theorem in_order_sublist (first last : Nat) (fewer more : List Span)
    (sub : fewer.Sublist more) (ordered : InOrder first more last) :
    InOrder first fewer last := by
  induction sub generalizing first with
  | slnil => exact ordered
  | cons span _ ih =>
      have before := Nat.le_trans ordered.1 (Nat.le_of_lt ordered.2.1)
      exact ih first (in_order_widen _ _ _ _ _ before (Nat.le_refl _) ordered.2.2)
  | cons_cons span _ ih => exact ⟨ordered.1, ordered.2.1, ih span.stop ordered.2.2⟩

theorem in_order_before (first last : Nat) (left right : List Span)
    (ordered : InOrder first (left ++ right) last) : InOrder first left last := by
  induction left generalizing first with
  | nil => exact in_order_le first right last ordered
  | cons span rest ih => exact ⟨ordered.1, ordered.2.1, ih span.stop ordered.2.2⟩

end Span

namespace Tree

mutual
def words : Tree → List Span
  | node _ kind span children => if kind.isWord then [span] else wordsAll children

def wordsAll : List Tree → List Span
  | [] => []
  | tree :: rest => words tree ++ wordsAll rest
end

theorem words_of_word (tree : Tree) (word : tree.kind.isWord = true) :
    tree.words = [tree.span] := by
  cases tree with
  | node role kind span children => exact if_pos word

theorem words_of_phrase (tree : Tree) (phrase : tree.kind.isWord = false) :
    tree.words = wordsAll tree.children := by
  cases tree with
  | node role kind span children => exact if_neg (by simpa [Tree.kind] using phrase)

theorem children_in_order (children : List Tree) (first last : Nat)
    (ordered : areInOrder first children last = true) :
    Span.InOrder first (children.map Tree.span) last := by
  induction children generalizing first with
  | nil =>
      rw [areInOrder, decide_eq_true_eq] at ordered
      exact ordered
  | cons child rest ih =>
      simp only [areInOrder, Bool.and_eq_true, decide_eq_true_eq] at ordered
      exact ⟨ordered.1.1, ordered.1.2, ih child.span.stop ordered.2⟩

theorem laid_out_parts (tree : Tree) (laidOut : tree.isLaidOut = true) :
    areInOrder tree.span.start tree.children tree.span.stop = true ∧
    mayHold tree.kind tree.children = true ∧
      areLaidOut tree.children = true := by
  cases tree with
  | node role kind span children =>
      rw [isLaidOut, Bool.and_eq_true, Bool.and_eq_true] at laidOut
      exact ⟨laidOut.1.1, laidOut.1.2, laidOut.2⟩

theorem laid_out_member (children : List Tree) (laidOut : areLaidOut children = true) (child : Tree)
    (member : child ∈ children) : child.isLaidOut = true := by
  induction children with
  | nil => cases member
  | cons first rest ih =>
      rw [areLaidOut, Bool.and_eq_true] at laidOut
      rcases List.mem_cons.mp member with rfl | later
      · exact laidOut.1
      · exact ih laidOut.2 later

theorem laid_out_child (tree : Tree) (laidOut : tree.isLaidOut = true) (child : Tree)
    (member : child ∈ tree.children) :
    child.isLaidOut = true :=
  laid_out_member tree.children (laid_out_parts tree laidOut).2.2 child member

theorem word_has_no_children (tree : Tree) (laidOut : tree.isLaidOut = true)
    (word : tree.kind.isWord = true) :
    tree.children = [] := by
  have holds := (laid_out_parts tree laidOut).2.1
  rw [mayHold, if_pos word] at holds
  exact List.isEmpty_iff.mp holds

theorem plain_name (tree : Tree) (laidOut : tree.isLaidOut = true)
    (plain : tree.kind.hasPlainName = true) (name : Tree)
    (found : tree.childInRole? .name = some name) :
    name ∈ tree.children ∧ name.kind.isWord = true := by
  have member := List.mem_of_find?_eq_some found
  refine ⟨member, ?_⟩
  have holds := (laid_out_parts tree laidOut).2.1
  have phrase : tree.kind.isWord = false := by
    cases kind : tree.kind <;> simp_all [Kind.isWord, Kind.hasPlainName]
  rw [mayHold, phrase, if_neg Bool.false_ne_true, if_pos plain, List.all_eq_true] at holds
  have named : name.role? = some .name := by simpa using List.find?_some found
  simpa [named] using holds name member

theorem child_words (children : List Tree) (child : Tree) (member : child ∈ children) :
    child.words.Sublist (wordsAll children) := by
  induction children with
  | nil => cases member
  | cons first rest ih =>
      rcases List.mem_cons.mp member with rfl | later
      · exact List.sublist_append_left child.words (wordsAll rest)
      · exact (ih later).trans (List.sublist_append_right first.words (wordsAll rest))

theorem words_of_child (tree : Tree) (laidOut : tree.isLaidOut = true) (child : Tree)
    (member : child ∈ tree.children) :
    child.words.Sublist tree.words := by
  cases word : tree.kind.isWord with
  | true =>
      rw [word_has_no_children tree laidOut word] at member
      cases member
  | false =>
      rw [words_of_phrase tree word]
      exact child_words tree.children child member

mutual
theorem words_in_order : ∀ tree : Tree, tree.isLaidOut = true → tree.span.start < tree.span.stop →
    Span.InOrder tree.span.start tree.words tree.span.stop
  | node role kind span children => by
      intro laidOut filled
      cases word : kind.isWord with
      | true =>
          rw [words_of_word (node role kind span children) word]
          exact ⟨Nat.le_refl _, filled, Nat.le_refl _⟩
      | false =>
          obtain ⟨ordered, -, below⟩ := laid_out_parts _ laidOut
          rw [words_of_phrase (node role kind span children) word]
          exact words_all_in_order children _ _ ordered below

theorem words_all_in_order : ∀ (children : List Tree) (first last : Nat),
    areInOrder first children last = true →
    areLaidOut children = true → Span.InOrder first (wordsAll children) last
  | [], first, last, ordered, _ => by
      rw [areInOrder, decide_eq_true_eq] at ordered
      exact ordered
  | tree :: rest, first, last, ordered, laidOut => by
      simp only [areInOrder, Bool.and_eq_true, decide_eq_true_eq] at ordered
      rw [areLaidOut, Bool.and_eq_true] at laidOut
      have here := words_in_order tree laidOut.1 ordered.1.2
      have later := words_all_in_order rest tree.span.stop last ordered.2 laidOut.2
      have both := Span.in_order_append _ _ _ _ _ here later
      exact Span.in_order_widen first _ _ last _ ordered.1.1 (Nat.le_refl _) both
end

mutual
theorem visited_laid_out : ∀ tree : Tree, tree.isLaidOut = true → ∀ part ∈ tree.visited,
    part.isLaidOut = true
  | node role kind span children => by
      intro laidOut part member
      have below := (laid_out_parts _ laidOut).2.2
      rw [visited] at member
      rcases List.mem_cons.mp member with rfl | later
      · exact laidOut
      · split at later
        · cases later
        · exact visited_all_laid_out children below part later

theorem visited_all_laid_out : ∀ children : List Tree, areLaidOut children = true →
    ∀ part ∈ visitedAll children, part.isLaidOut = true
  | [], _ => by simp [visitedAll]
  | tree :: rest, laidOut => by
      intro part member
      rw [areLaidOut, Bool.and_eq_true] at laidOut
      rw [visitedAll] at member
      rcases List.mem_append.mp member with here | later
      · exact visited_laid_out tree laidOut.1 part here
      · exact visited_all_laid_out rest laidOut.2 part later
end

mutual
theorem visited_words : ∀ tree : Tree, tree.isLaidOut = true → ∀ part ∈ tree.visited,
    part.words.Sublist tree.words
  | node role kind span children => by
      intro laidOut part member
      have below := (laid_out_parts _ laidOut).2.2
      rw [visited] at member
      rcases List.mem_cons.mp member with rfl | later
      · exact List.Sublist.refl _
      · split at later
        · cases later
        · cases word : kind.isWord with
          | true =>
              have none : children = [] := word_has_no_children _ laidOut word
              subst none
              simp [visitedAll] at later
          | false =>
              rw [words_of_phrase (node role kind span children) word]
              exact visited_all_words children below part later

theorem visited_all_words : ∀ children : List Tree, areLaidOut children = true →
    ∀ part ∈ visitedAll children, part.words.Sublist (wordsAll children)
  | [], _ => by simp [visitedAll]
  | tree :: rest, laidOut => by
      intro part member
      rw [areLaidOut, Bool.and_eq_true] at laidOut
      rw [visitedAll] at member
      rcases List.mem_append.mp member with here | later
      · exact (visited_words tree laidOut.1 part here).trans (List.sublist_append_left _ _)
      · exact (visited_all_words rest laidOut.2 part later).trans (List.sublist_append_right _ _)
end

end Tree
end DeadExports

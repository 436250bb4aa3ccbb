import DeadExports.Proofs.Source.Scanning
import DeadExports.Proofs.Source.Words

set_option autoImplicit false

namespace DeadExports

/-- The kinds that a tree of any phrase may have; the others stand in an export only. -/
def Kind.isCommon : Kind → Bool
  | star | namespaceExport | exportClause => false
  | _ => true

def Kind.isOpen (kind : Kind) : Bool :=
  !kind.isWord && !kind.hasPlainName && kind != .namespaceExport && kind != .exportStatement

namespace Tree

def bare : Tree → Tree
  | node _ kind span children => node none kind span children

def outline (tree : Tree) : Tree := leaf .group tree.span

@[simp] theorem bare_in_role (role : Role) (tree : Tree) : (tree.inRole role).bare = tree.bare := by
  cases tree
  rfl

@[simp] theorem bare_bare (tree : Tree) : tree.bare.bare = tree.bare := by
  cases tree
  rfl

@[simp] theorem bare_span (tree : Tree) : tree.bare.span = tree.span := by
  cases tree
  rfl

@[simp] theorem outline_span (tree : Tree) : tree.outline.span = tree.span := rfl

@[simp] theorem bare_outline (tree : Tree) : tree.bare.outline = tree.outline := by
  rw [outline, outline, bare_span]

@[simp] theorem bare_kind (tree : Tree) : tree.bare.kind = tree.kind := by
  cases tree
  rfl

@[simp] theorem bare_laid_out (tree : Tree) : tree.bare.isLaidOut = tree.isLaidOut := by
  cases tree
  rfl

@[simp] theorem bare_placed (text : String) (tree : Tree) :
    tree.bare.isPlacedIn text = tree.isPlacedIn text := by
  cases tree
  rfl

theorem bare_of_role (tree : Tree) (none : tree.role? = none) : tree.bare = tree := by
  cases tree
  cases none
  rfl

theorem may_hold_open (kind : Kind) (children : List Tree) (isOpen : kind.isOpen = true) :
    mayHold kind children = true := by
  simp only [Kind.isOpen, Bool.and_eq_true, Bool.not_eq_true', bne_iff_ne] at isOpen
  obtain ⟨⟨⟨word, named⟩, other⟩, statement⟩ := isOpen
  rw [mayHold, word, named, if_neg Bool.false_ne_true, if_neg Bool.false_ne_true,
    if_neg (by simpa using other), if_neg (by simpa using statement)]

theorem in_order_spans (children : List Tree) (first last : Nat)
    (ordered : Span.InOrder first (children.map span) last) :
    areInOrder first children last = true := by
  induction children generalizing first with
  | nil => exact decide_eq_true ordered
  | cons child rest ih =>
      obtain ⟨before, filled, later⟩ := ordered
      simp only [areInOrder, Bool.and_eq_true, decide_eq_true_eq]
      exact ⟨⟨before, filled⟩, ih child.span.stop later⟩

theorem may_hold_named (kind : Kind) (children : List Tree) (named : kind.hasPlainName = true)
    (words : ∀ child ∈ children, child.role? = some .name → child.kind.isWord = true) :
    mayHold kind children = true := by
  have phrase : kind.isWord = false := by
    cases kind <;> first | rfl | cases named
  rw [mayHold, phrase, if_neg Bool.false_ne_true, if_pos named, List.all_eq_true]
  intro child member
  cases isName : child.role? == some .name with
  | true => rw [words child member (beq_iff_eq.mp isName), Bool.or_true]
  | false => rw [bne, isName, Bool.not_false, Bool.true_or]

theorem all_laid_out (children : List Tree) (each : ∀ child ∈ children, child.isLaidOut = true) :
    areLaidOut children = true := by
  induction children with
  | nil => rfl
  | cons child rest ih =>
      rw [areLaidOut, each child List.mem_cons_self, Bool.true_and]
      exact ih fun other member => each other (List.mem_cons_of_mem _ member)

theorem all_placed (text : String) (children : List Tree)
    (each : ∀ child ∈ children, child.isPlacedIn text = true) :
    arePlacedIn text children = true := by
  induction children with
  | nil => rfl
  | cons child rest ih =>
      rw [arePlacedIn, each child List.mem_cons_self, Bool.true_and]
      exact ih fun other member => each other (List.mem_cons_of_mem _ member)

structure Stands (text : String) (tree : Tree) : Prop where
  laidOut : tree.isLaidOut = true
  placed : tree.isPlacedIn text = true
  inked : tree.isInked text = true
  role : tree.role? = none
  common : tree.kind.isCommon = true

end Tree

def Text.Opens (text : String) (start : Nat) : Prop :=
  isBoundary text start = true ∧ (start < size text → hasInk text start = true)

theorem Text.gap_opens (text : String) (offset : Nat) (boundary : isBoundary text offset = true) :
    Opens text (Source.gapAt text offset).stop := by
  obtain ⟨-, opens, visible⟩ := Source.gap_goes_on text offset boundary
  exact ⟨opens, fun inside => ink_of_char text _ 0 opens inside
    (Source.ink_of_visible _ visible) (Char.utf8Size_pos _)⟩

namespace Tree

variable {text : String} {kind : Kind} {span : Span} {children trees : List Tree} {tree : Tree}

theorem Stands.bare (stands : ∀ tree ∈ trees, tree.Stands text) : trees.map Tree.bare = trees := by
  conv => rhs; rw [← List.map_id trees]
  exact List.map_congr_left fun tree member => bare_of_role tree (stands tree member).role

theorem Stands.opens (stands : tree.Stands text) : Text.Opens text tree.span.start := by
  have inked := stands.inked
  have placed := stands.placed
  cases tree with
  | node role kind span children =>
      rw [isPlacedIn, Bool.and_eq_true, Bool.and_eq_true] at placed
      rw [isInked, Bool.and_eq_true, Bool.and_eq_true] at inked
      exact ⟨placed.1.1, fun _ => inked.1.1⟩

theorem Stands.ends (stands : tree.Stands text) :
    Text.isBoundary text tree.span.stop = true ∧
      Text.hasInkBefore text tree.span.stop = true := by
  have inked := stands.inked
  have placed := stands.placed
  cases tree with
  | node role kind span children =>
      rw [isPlacedIn, Bool.and_eq_true, Bool.and_eq_true] at placed
      rw [isInked, Bool.and_eq_true, Bool.and_eq_true] at inked
      exact ⟨placed.1.2, inked.1.2⟩

theorem alike_member (same : children.map Tree.bare = trees.map Tree.bare) (child : Tree)
    (member : child ∈ children) : ∃ tree ∈ trees, tree.bare = child.bare :=
  List.mem_map.mp (same ▸ List.mem_map_of_mem member)

theorem branch_lies (kind : Kind) (span : Span) (opens : Text.isBoundary text span.start = true)
    (closes : Text.isBoundary text span.stop = true)
    (ordered : Span.InOrder span.start (children.map Tree.span) span.stop)
    (holds : mayHold kind children = true)
    (each : ∀ child ∈ children, child.isLaidOut = true ∧ child.isPlacedIn text = true) :
    (branch kind span children).isLaidOut = true ∧
      (branch kind span children).isPlacedIn text = true := by
  constructor
  · rw [branch, isLaidOut, in_order_spans _ _ _ ordered, holds, Bool.true_and, Bool.true_and]
    exact all_laid_out children fun child member => (each child member).1
  · rw [branch, isPlacedIn, opens, closes, Bool.true_and, Bool.true_and]
    exact all_placed text children fun child member => (each child member).2

theorem Stands.close (trees : List Tree) (common : kind.isCommon = true)
    (opens : Text.Opens text span.start) (filled : span.start < span.stop)
    (boundary : Text.isBoundary text span.stop = true)
    (ink : Text.hasInkBefore text span.stop = true) (stands : ∀ tree ∈ trees, tree.Stands text)
    (ordered : Span.InOrder span.start (trees.map Tree.span) span.stop)
    (same : children.map Tree.bare = trees.map Tree.bare) (holds : mayHold kind children = true) :
    (branch kind span children).Stands text := by
  have spans : children.map Tree.span = trees.map Tree.span := by
    have := congrArg (List.map Tree.span) same
    simpa only [List.map_map, Function.comp_def, bare_span] using this
  have lies := branch_lies kind span opens.1 boundary (spans ▸ ordered) holds fun child member => by
    obtain ⟨tree, known, alike⟩ := alike_member same child member
    rw [← bare_laid_out, ← bare_placed, ← alike, bare_laid_out, bare_placed]
    exact ⟨(stands tree known).laidOut, (stands tree known).placed⟩
  refine ⟨lies.1, lies.2, ?_, rfl, common⟩
  have inside := filled.trans_le (Text.boundary_le text span.stop boundary)
  rw [branch, isInked, Bool.and_eq_true, Bool.and_eq_true]
  refine ⟨⟨opens.2 inside, ink⟩, List.all_eq_true.mpr fun child member => ?_⟩
  obtain ⟨tree, known, alike⟩ := alike_member same child member
  have other : child.kind ≠ .exportClause := by
    intro clause
    have usual := (stands tree known).common
    rw [← bare_kind, alike, bare_kind, clause] at usual
    cases usual
  rw [bne_iff_ne.mpr other, Bool.true_or]

theorem Stands.widen (stands : tree.Stands text) (stop : Nat) (order : tree.span.stop ≤ stop)
    (boundary : Text.isBoundary text stop = true) (ink : Text.hasInkBefore text stop = true) :
    (branch tree.kind ⟨tree.span.start, stop⟩ tree.children).Stands text := by
  obtain ⟨laidOut, placed, inked, -, common⟩ := stands
  cases tree with
  | node role kind span children =>
      rw [isLaidOut, Bool.and_eq_true, Bool.and_eq_true] at laidOut
      rw [isPlacedIn, Bool.and_eq_true, Bool.and_eq_true] at placed
      rw [isInked, Bool.and_eq_true, Bool.and_eq_true] at inked
      have ordered := Span.in_order_widen _ _ _ _ _ (Nat.le_refl _) order
        (children_in_order children _ _ laidOut.1.1)
      refine ⟨?_, ?_, ?_, rfl, common⟩
      · rw [branch, isLaidOut, Bool.and_eq_true, Bool.and_eq_true]
        exact ⟨⟨in_order_spans _ _ _ ordered, laidOut.1.2⟩, laidOut.2⟩
      · rw [branch, isPlacedIn, Bool.and_eq_true, Bool.and_eq_true]
        exact ⟨⟨placed.1.1, boundary⟩, placed.2⟩
      · rw [isInked, Bool.and_eq_true, Bool.and_eq_true]
        exact ⟨⟨inked.1.1, ink⟩, inked.2⟩

theorem Stands.leaf {other : Kind} (filled : span.start < span.stop)
    (stands : (Tree.leaf kind span).Stands text) (common : other.isCommon = true) :
    (Tree.leaf other span).Stands text := by
  refine .close [] common stands.opens filled stands.ends.1 stands.ends.2 nofun filled.le rfl ?_
  cases other <;> rfl

theorem Stands.outline (stands : tree.Stands text) (filled : tree.span.start < tree.span.stop) :
    tree.outline.Stands text :=
  .close [] rfl stands.opens filled stands.ends.1 stands.ends.2 nofun filled.le rfl rfl

end Tree

namespace Source

structure Cursor.Sound (text : String) (cursor : Cursor) : Prop where
  seen : cursor.IsAt text cursor.position
  boundary : Text.isBoundary text cursor.position = true

structure Cursor.Holds (text : String) (first : Nat) (trees : List Tree) (cursor : Cursor) :
    Prop where
  sound : cursor.Sound text
  stands : ∀ tree ∈ trees, tree.Stands text
  ordered : Span.InOrder first (trees.map Tree.span) cursor.position

structure Cursor.Begins (text : String) (first : Nat) (cursor : Cursor) : Prop where
  sound : cursor.Sound text
  next : (gapAt text cursor.position).stop = first

/--
The trees that were read since `first` lie behind one another before the cursor. Where something
was taken since then, the cursor is behind `first` and has ink before it in its row.
-/
def Cursor.Behind (text : String) : Bool → Nat → List Tree → Cursor → Prop
  | true, first, trees, cursor => cursor.Holds text first trees ∧ first < cursor.position ∧
      Text.hasInkBefore text cursor.position = true
  | false, first, trees, cursor => cursor.Holds text first trees ∨
      cursor.Sound text ∧ trees = [] ∧ first ≤ (gapAt text cursor.position).stop

namespace Cursor

variable {text : String} {moved : Bool} {first last : Nat} {trees more : List Tree}
  {cursor rest : Cursor}

theorem Behind.sound (behind : cursor.Behind text moved first trees) : cursor.Sound text := by
  cases moved with
  | true => exact behind.1.sound
  | false => exact behind.elim Holds.sound And.left

theorem Behind.stands (behind : cursor.Behind text moved first trees) :
    ∀ tree ∈ trees, tree.Stands text := by
  cases moved with
  | true => exact behind.1.stands
  | false =>
      rcases behind with holds | ⟨-, rfl, -⟩
      · exact holds.stands
      · exact nofun

theorem Sound.gap (sound : cursor.Sound text) :
    cursor.position ≤ (gapAt text cursor.position).stop :=
  (gap_goes_on text cursor.position sound.boundary).1

theorem Behind.gap (behind : cursor.Behind text moved first trees) :
    Span.InOrder first (trees.map Tree.span) (gapAt text cursor.position).stop := by
  have order := behind.sound.gap
  cases moved with
  | true => exact Span.in_order_widen _ _ _ _ _ (Nat.le_refl _) order behind.1.ordered
  | false =>
      rcases behind with holds | ⟨-, rfl, before⟩
      · exact Span.in_order_widen _ _ _ _ _ (Nat.le_refl _) order holds.ordered
      · exact before

theorem Behind.held (behind : cursor.Behind text moved first trees) :
    Holds text first trees { position := (gapAt text cursor.position).stop } :=
  ⟨⟨moved_is_at text _, (gap_goes_on text _ behind.sound.boundary).2.1⟩, behind.stands, behind.gap⟩

theorem Behind.start (behind : cursor.Behind text true first trees) :
    cursor.Behind text moved first trees := by
  cases moved with
  | true => exact behind
  | false => exact .inl behind.1

theorem Behind.look (behind : cursor.Behind text moved first trees) (seen : rest.Sound text)
    (same : rest.position = cursor.position) : rest.Behind text moved first trees := by
  cases moved with
  | true => exact ⟨⟨seen, behind.1.stands, same ▸ behind.1.ordered⟩, same ▸ behind.2⟩
  | false =>
      rcases behind with holds | ⟨-, rfl, before⟩
      · exact .inl ⟨seen, holds.stands, same ▸ holds.ordered⟩
      · exact .inr ⟨seen, rfl, same ▸ before⟩

theorem Behind.take (behind : cursor.Behind text moved first trees) (more : List Tree)
    (later : rest.Sound text) (filled : (gapAt text cursor.position).stop < rest.position)
    (ink : Text.hasInkBefore text rest.position = true) (stands : ∀ tree ∈ more, tree.Stands text)
    (ordered : Span.InOrder (gapAt text cursor.position).stop (more.map Tree.span) rest.position) :
    rest.Behind text true first (trees ++ more) := by
  have before := behind.gap
  refine ⟨⟨later, fun tree member => ?_, ?_⟩, ?_, ink⟩
  · rcases List.mem_append.mp member with old | new
    · exact behind.stands tree old
    · exact stands tree new
  · rw [List.map_append]
    exact Span.in_order_append _ _ _ _ _ before ordered
  · exact (Span.in_order_le _ _ _ before).trans_lt filled

theorem Behind.filled (behind : cursor.Behind text true first trees) (tree : Tree)
    (member : tree ∈ trees) : tree.span.start < tree.span.stop :=
  (Span.in_order_bounds _ _ _ behind.1.ordered tree.span (List.mem_map_of_mem member)).2.1

theorem Behind.exchange {others : List Tree}
    (behind : cursor.Behind text true first (trees ++ more))
    (spans : others.map Tree.span = more.map Tree.span)
    (stands : ∀ tree ∈ others, tree.Stands text) :
    cursor.Behind text true first (trees ++ others) := by
  refine ⟨⟨behind.1.sound, fun tree member => ?_, ?_⟩, behind.2⟩
  · rcases List.mem_append.mp member with old | new
    · exact behind.1.stands tree (List.mem_append_left _ old)
    · exact stands tree new
  · rw [List.map_append, spans, ← List.map_append]
    exact behind.1.ordered

theorem Behind.renamed {kind : Kind} {span : Span} (other : Kind)
    (common : other.isCommon = true)
    (behind : cursor.Behind text true first (trees ++ [.leaf kind span])) :
    cursor.Behind text true first (trees ++ [.leaf other span]) := by
  have member : Tree.leaf kind span ∈ trees ++ [.leaf kind span] := by simp
  refine behind.exchange rfl fun tree new => ?_
  obtain rfl := List.mem_singleton.mp new
  exact (behind.stands _ member).leaf (behind.filled _ member) common

theorem Behind.outlined (behind : cursor.Behind text true first (trees ++ more)) :
    cursor.Behind text true first (trees ++ more.map Tree.outline) := by
  refine behind.exchange (by simp [Function.comp_def]) fun tree member => ?_
  obtain ⟨tree, inside, rfl⟩ := List.mem_map.mp member
  have known := List.mem_append_right trees inside
  exact (behind.stands tree known).outline (behind.filled tree known)

theorem Begins.behind (begins : cursor.Begins text first) :
    cursor.Behind text false first [] :=
  .inr ⟨begins.sound, rfl, begins.next.ge⟩

theorem Begins.opens (begins : cursor.Begins text first) : Text.Opens text first :=
  begins.next ▸ Text.gap_opens text cursor.position begins.sound.boundary

theorem Behind.close {kind : Kind} {children : List Tree}
    (behind : cursor.Behind text true first trees) (opens : Text.Opens text first)
    (common : kind.isCommon = true) (same : children.map Tree.bare = trees.map Tree.bare)
    (holds : Tree.mayHold kind children = true) :
    (Tree.branch kind ⟨first, cursor.position⟩ children).Stands text :=
  .close trees common opens behind.2.1 behind.1.sound.boundary behind.2.2 behind.1.stands
    behind.1.ordered same holds

theorem Behind.whole {tree : Tree} (behind : cursor.Behind text true first trees)
    (stands : tree.Stands text) (span : tree.span = ⟨first, cursor.position⟩) :
    cursor.Behind text true first [tree] := by
  refine ⟨⟨behind.1.sound, fun other member => ?_, ?_⟩, behind.2⟩
  · obtain rfl := List.mem_singleton.mp member
    exact stands
  · rw [List.map_cons, List.map_nil, span]
    exact ⟨Nat.le_refl _, behind.2.1, Nat.le_refl _⟩

theorem Behind.placed (behind : cursor.Behind text true first trees)
    (opens : Text.Opens text first) :
    cursor.Behind text true first [.leaf .group ⟨first, cursor.position⟩] :=
  behind.whole (.close [] rfl opens behind.2.1 behind.1.sound.boundary behind.2.2 nofun
    behind.2.1.le rfl rfl) rfl

end Cursor

end Source
end DeadExports

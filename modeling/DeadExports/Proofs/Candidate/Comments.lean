import DeadExports.Proofs.Candidate.Placement
import DeadExports.Proofs.Text.Cuts

set_option autoImplicit false

namespace DeadExports

def Span.moved (cuts : List Span) (span : Span) :
    Span := ⟨Text.moved cuts span.start, Text.moved cuts span.stop⟩

namespace Tree

def Stays (marker source edited : String) (cuts : List Span) (old new : Tree) : Prop :=
  new.span = old.span.moved cuts ∧ (new.kind == .comment) = (old.kind == .comment) ∧
    (old.kind = .comment → Text.mentions (new.text edited) marker = Text.mentions
      (old.text source) marker)

instance (marker source edited : String) (cuts : List Span) (old new : Tree) :
    Decidable (Stays marker source edited cuts old new) := inferInstanceAs (Decidable (_ ∧ _))

def EndsRows (text : String) (cuts : List Span) (node : Tree) : Prop :=
  ∀ cut ∈ cuts, Text.rowOf text cut.start < Text.rowOf text cut.stop → node.span.start < cut.start →
    node.span.stop < cut.stop → node.lastRow text < Text.rowOf text cut.start

instance (text : String) (cuts : List Span) (node : Tree) : Decidable (EndsRows text cuts node) :=
  inferInstanceAs (Decidable (∀ cut ∈ cuts, _))

def isMarkedAbove (source marker : String) (row : Nat) (behind : List Tree) : Bool :=
  (commentsAbove source row behind).any fun comment => Text.mentions (comment.text source) marker

def isBehindCode (source : String) (comment : Tree) : List Tree → Bool
  | [] => false
  | before :: _ => before.kind != .comment && before.lastRow source == comment.firstRow source

theorem comments_above_cons (source : String) (row : Nat) (nearest : Tree) (earlier : List Tree) :
    commentsAbove source row (nearest :: earlier) =
      if nearest.kind != .comment || decide (nearest.lastRow source + 1 < row) then []
      else if isBehindCode source nearest earlier then []
      else nearest :: commentsAbove source (nearest.firstRow source) earlier := by
  cases earlier <;> rfl

theorem marked_above_cons (source marker : String) (row : Nat) (nearest : Tree)
    (earlier : List Tree) :
    isMarkedAbove source marker row (nearest :: earlier) = true ↔
      nearest.kind = .comment ∧ row ≤ nearest.lastRow source + 1 ∧
      isBehindCode source nearest earlier = false ∧
        (Text.mentions (nearest.text source) marker = true ∨
          isMarkedAbove source marker (nearest.firstRow source) earlier = true) := by
  rw [isMarkedAbove, comments_above_cons]
  by_cases isComment : nearest.kind = .comment
  · by_cases near : row ≤ nearest.lastRow source + 1
    · cases isBehindCode source nearest earlier <;>
        simp [isMarkedAbove, isComment, near, Nat.not_lt.mpr near]
    · simp [isComment, near, Nat.lt_of_not_le near]
  · simp [isComment]

section Comments

variable {marker source edited : String} {cuts : List Span}

structure Remain (marker source edited : String) (cuts : List Span) (stays : Tree → Bool)
    (olds news : List Tree) : Prop where
  pairs : List.Forall₂ (Stays marker source edited cuts) (olds.filter stays) news
  filled : ∀ node ∈ news, node.span.start < node.span.stop
  comments : ∀ node ∈ olds, node.kind = .comment → stays node = true
  rows : ∀ node ∈ olds, node.kind ≠ .comment → stays node = true → EndsRows source cuts node

theorem rows_apart_stay (left : Text.Leaves source cuts edited) (old new : Tree)
    (same : Stays marker source edited cuts old new) (filled : new.span.start < new.span.stop)
    (ends : EndsRows source cuts old) (offset : Nat) (inside : offset ≤ Text.size source)
    (apart : old.lastRow source < Text.rowOf source offset) :
    new.lastRow edited < Text.rowOf edited (Text.moved cuts offset) := by
  rw [lastRow, same.1]
  refine Text.rows_stay_apart left old.span.stop offset inside apart fun cut member feeds ahead =>
    ?_
  by_cases behind : old.span.start < cut.start
  · exact ends cut member feeds behind ahead
  · rw [same.1] at filled
    obtain ⟨place, ⟨low, high⟩, stays⟩ := Nat.exists_of_count_lt_count filled
    have := (Text.not_cut_iff cuts place).mp stays cut member (by omega)
    omega

theorem alone_stays (left : Text.Leaves source cuts edited) (stays : Tree → Bool)
    (comment comment' : Tree) (same : Stays marker source edited cuts comment comment')
    (earlier news : List Tree) (remain : Remain marker source edited cuts stays earlier news)
    (inside : comment.span.start ≤ Text.size source)
    (before : ∀ node ∈ earlier, node.span.start < node.span.stop ∧
      node.span.stop ≤ comment.span.start)
    (ordered : earlier.Pairwise fun later earlier => earlier.span.stop ≤ later.span.start)
    (alone : isBehindCode source comment earlier = false) :
    isBehindCode edited comment' news = false := by
  cases news with
  | nil => rfl
  | cons node' rest' =>
      obtain ⟨node, rest, stays', -, kept⟩ := List.forall₂_cons_right_iff.mp remain.pairs
      obtain ⟨member, staying⟩ :=
        List.mem_filter.mp (kept ▸ List.mem_cons_self : node ∈ earlier.filter stays)
      have kinds := stays'.2.1
      rw [isBehindCode, Bool.and_eq_false_iff]
      by_cases code : node'.kind = .comment
      · exact .inl (bne_eq_false_iff_eq.mpr code)
      · right
        rw [beq_eq_false_iff_ne.mpr code, eq_comm, beq_eq_false_iff_ne] at kinds
        have ends := remain.rows node member kinds staying
        have filled := remain.filled node' List.mem_cons_self
        have starts : comment'.firstRow edited = Text.rowOf edited
            (Text.moved cuts comment.span.start) := by
          rw [firstRow, same.1]
          rfl
        rw [beq_eq_false_iff_ne, starts]
        refine Nat.ne_of_lt (rows_apart_stay left node node' stays' filled ends _ inside ?_)
        cases earlier with
        | nil => cases member
        | cons first others =>
            have isCode : first.kind ≠ .comment := by
              intro isComment
              rw [List.filter_cons_of_pos (remain.comments first List.mem_cons_self isComment)]
                at kept
              exact kinds ((List.cons.inj kept).1 ▸ isComment)
            have between := before first List.mem_cons_self
            have last : node.span.stop ≤ first.span.stop := by
              rcases List.mem_cons.mp member with rfl | further
              · exact Nat.le_refl _
              · have := (List.pairwise_cons.mp ordered).1 node further
                omega
            rw [isBehindCode, bne_iff_ne.mpr isCode, Bool.true_and, beq_eq_false_iff_ne] at alone
            have row : first.lastRow source < comment.firstRow source :=
              Nat.lt_of_le_of_ne (Text.row_of_le _ _ between.2) alone
            exact (Text.row_of_le _ _ last).trans_lt row

theorem marked_above_stays (left : Text.Leaves source cuts edited) (stays : Tree → Bool)
    (behind news : List Tree) (remain : Remain marker source edited cuts stays behind news)
    (offset : Nat) (inside : offset ≤ Text.size source)
    (before : ∀ node ∈ behind, node.span.start < node.span.stop ∧ node.span.stop ≤ offset)
    (ordered : behind.Pairwise fun later earlier => earlier.span.stop ≤ later.span.start)
    (marked : isMarkedAbove source marker (Text.rowOf source offset) behind = true) :
    isMarkedAbove edited marker (Text.rowOf edited (Text.moved cuts offset)) news = true := by
  induction behind generalizing news offset with
  | nil => cases marked
  | cons nearest earlier ih =>
      obtain ⟨isComment, near, alone, marked⟩ :=
        (marked_above_cons source marker _ nearest earlier).mp marked
      obtain ⟨-, ends⟩ := before nearest List.mem_cons_self
      obtain ⟨pairs, filled, comments, rows⟩ := remain
      rw [List.filter_cons_of_pos (comments nearest List.mem_cons_self isComment)] at pairs
      obtain ⟨nearest', news', same, others, rfl⟩ := List.forall₂_cons_left_iff.mp pairs
      obtain ⟨further, ordered⟩ := List.pairwise_cons.mp ordered
      have isComment' : nearest'.kind = .comment := by
        have code := same.2.1
        rw [isComment] at code
        exact beq_iff_eq.mp code
      have later : Remain marker source edited cuts stays earlier news' :=
        ⟨others, fun node member => filled node (List.mem_cons_of_mem _ member),
          fun node member => comments node (List.mem_cons_of_mem _ member),
          fun node member => rows node (List.mem_cons_of_mem _ member)⟩
      have starts : nearest'.firstRow edited = Text.rowOf edited
          (Text.moved cuts nearest.span.start) := by
        rw [firstRow, same.1]
        rfl
      have started := (before nearest List.mem_cons_self).1
      refine (marked_above_cons edited marker _ nearest' news').mpr ⟨isComment', ?_, ?_, ?_⟩
      · have shrinks := Text.rows_shrink left nearest.span.stop offset ends inside
        rw [lastRow, same.1]
        rw [lastRow] at near
        dsimp only [Span.moved]
        omega
      · exact alone_stays left stays nearest nearest' same earlier news' later (by omega)
          (fun node member => ⟨(before node (List.mem_cons_of_mem _ member)).1,
            further node member⟩) ordered alone
      · rcases marked with holds | above
        · exact .inl ((same.2.2 isComment).trans holds)
        · right
          rw [starts]
          exact ih news' later nearest.span.start (by omega)
            (fun node member => ⟨(before node (List.mem_cons_of_mem _ member)).1,
              further node member⟩) ordered above

theorem is_marked_above (source marker : String) (earlier : List Tree) (node : Tree) :
    Scan.isMarked source marker earlier node = isMarkedAbove source marker (node.firstRow source)
      earlier.reverse := by
  rw [Scan.isMarked, leadingComments, List.any_reverse, isMarkedAbove]

theorem marked_stays (left : Text.Leaves source cuts edited) (stays : Tree → Bool)
    (earlier earlier' : List Tree) (node node' : Tree)
    (remain : Remain marker source edited cuts stays earlier earlier')
    (same : Stays marker source edited cuts node node')
    (inside : node.span.start ≤ Text.size source)
    (before : ∀ other ∈ earlier, other.span.start < other.span.stop ∧
      other.span.stop ≤ node.span.start)
    (ordered : earlier.Pairwise fun earlier later => earlier.span.stop ≤ later.span.start)
    (marked : Scan.isMarked source marker earlier node = true) :
    Scan.isMarked edited marker earlier' node' = true := by
  rw [is_marked_above] at marked ⊢
  have starts : node'.firstRow edited = Text.rowOf edited (Text.moved cuts node.span.start) := by
    rw [firstRow, same.1]
    rfl
  rw [starts]
  refine marked_above_stays left stays earlier.reverse earlier'.reverse ?_ node.span.start inside
    (fun other member => before other (List.mem_reverse.mp member))
    (List.pairwise_reverse.mpr ordered) marked
  refine ⟨?_, fun other member => remain.filled other (List.mem_reverse.mp member),
    fun other member => remain.comments other (List.mem_reverse.mp member),
    fun other member => remain.rows other (List.mem_reverse.mp member)⟩
  rw [List.filter_reverse]
  exact List.forall₂_reverse_iff.mpr remain.pairs

end Comments

theorem mem_with_earlier {α : Type} (items earlier : List α) (item : α) :
    (earlier, item) ∈ withEarlier items ↔ ∃ after, items = earlier ++ item :: after := by
  rw [withEarlier, List.mem_mapIdx]
  constructor
  · rintro ⟨index, inside, same⟩
    obtain ⟨rfl, rfl⟩ := Prod.mk.inj same
    exact ⟨items.drop (index + 1),
      by rw [← List.drop_eq_getElem_cons inside, List.take_append_drop]⟩
  · rintro ⟨after, rfl⟩
    exact ⟨earlier.length, by simp, by simp⟩

theorem with_earlier_member {α : Type} {items : List α} {entry : List α × α}
    (member : entry ∈ withEarlier items) :
    entry.2 ∈ items := by
  obtain ⟨after, rfl⟩ := (mem_with_earlier items entry.1 entry.2).mp member
  exact List.mem_append_right _ List.mem_cons_self

theorem pairs_append {R : Tree → Tree → Prop} (front back news : List Tree)
    (pairs : List.Forall₂ R (front ++ back) news) :
    ∃ front' back', news = front' ++ back' ∧ List.Forall₂ R front front' ∧
      List.Forall₂ R back back' := by
  induction front generalizing news with
  | nil => exact ⟨[], news, rfl, .nil, pairs⟩
  | cons first rest ih =>
      obtain ⟨first', news', same, others, rfl⟩ := List.forall₂_cons_left_iff.mp pairs
      obtain ⟨rest', back', rfl, left, right⟩ := ih news' others
      exact ⟨first' :: rest', back', rfl, .cons same left, right⟩

theorem pairs_split {R : Tree → Tree → Prop} (stays : Tree → Bool) (olds news : List Tree)
    (pairs : List.Forall₂ R (olds.filter stays) news) (earlier : List Tree) (node : Tree)
    (member : (earlier, node) ∈ withEarlier olds) (staying : stays node = true) :
    ∃ earlier' node', (earlier', node') ∈ withEarlier news ∧ List.Forall₂ R (earlier.filter stays)
      earlier' ∧ R node node' := by
  obtain ⟨after, rfl⟩ := (mem_with_earlier olds earlier node).mp member
  rw [List.filter_append, List.filter_cons_of_pos staying] at pairs
  obtain ⟨earlier', back', rfl, before, pairs⟩ := pairs_append _ _ news pairs
  obtain ⟨node', after', same, -, rfl⟩ := List.forall₂_cons_left_iff.mp pairs
  exact ⟨earlier', node', (mem_with_earlier _ earlier' node').mpr ⟨after', rfl⟩, before, same⟩

theorem named_in_order (text : String) (tree : Tree) (fits : tree.Fits text) :
    (tree.namedChildren.Pairwise fun earlier later => earlier.span.stop ≤ later.span.start) ∧
      ∀ node ∈ tree.namedChildren, node.span.IsPiece text := by
  have apart := Span.in_order_apart _ _ _ (fits_in_order text tree fits)
  rw [List.pairwise_map] at apart
  exact ⟨apart.sublist List.filter_sublist, fun node member => child_piece text tree fits node
    (List.mem_filter.mp member).1⟩

theorem sibling_stays {R : Tree → Tree → Prop} {marker source edited : String} {cuts : List Span}
    (left : Text.Leaves source cuts edited) (tree : Tree) (fits : tree.Fits source)
    (stays : Tree → Bool) (news : List Tree)
    (pairs : List.Forall₂ R (tree.namedChildren.filter stays) news)
    (weaken : ∀ old new, R old new → Stays marker source edited cuts old new)
    (filled : ∀ node ∈ news, node.span.start < node.span.stop)
    (comments : ∀ node ∈ tree.namedChildren, node.kind = .comment → stays node = true)
    (rows : ∀ node ∈ tree.namedChildren, node.kind ≠ .comment → stays node = true →
      EndsRows source cuts node)
    (earlier : List Tree) (node : Tree) (member : (earlier, node) ∈ withEarlier tree.namedChildren)
    (staying : stays node = true) :
    ∃ earlier' node', (earlier', node') ∈ withEarlier news ∧ R node node' ∧
      (Scan.isMarked source marker earlier node = true →
        Scan.isMarked edited marker earlier' node' = true) := by
  obtain ⟨earlier', node', member', before, same⟩ := pairs_split stays _ news pairs earlier node
    member staying
  obtain ⟨ordered, pieces⟩ := named_in_order source tree fits
  obtain ⟨after, whole⟩ := (mem_with_earlier _ earlier node).mp member
  obtain ⟨after', whole'⟩ := (mem_with_earlier _ earlier' node').mp member'
  rw [whole] at ordered pieces comments rows
  rw [whole'] at filled
  rw [List.pairwise_append] at ordered
  have piece := pieces node (List.mem_append_right _ List.mem_cons_self)
  have remain : Remain marker source edited cuts stays earlier earlier' :=
    ⟨before.imp weaken, fun other early => filled other (List.mem_append_left _ early),
      fun other early => comments other (List.mem_append_left _ early),
      fun other early => rows other (List.mem_append_left _ early)⟩
  refine ⟨earlier', node', member', same, marked_stays left stays earlier earlier' node node' remain
    (weaken node node' same)
    (Text.boundary_le source _ piece.opens) (fun other early => ?_) ordered.1⟩
  exact ⟨(pieces other (List.mem_append_left _ early)).filled,
    ordered.2.2 other early node List.mem_cons_self⟩

theorem with_earlier_unique (source : String) (tree : Tree) (fits : tree.Fits source)
    (a b : List Tree × Tree) (inA : a ∈ withEarlier tree.namedChildren)
    (inB : b ∈ withEarlier tree.namedChildren) (same : a.2.span = b.2.span) :
    a = b := by
  obtain ⟨ordered, pieces⟩ := named_in_order source tree fits
  rw [List.pairwise_iff_getElem] at ordered
  obtain ⟨i, insideI, rfl⟩ := List.mem_mapIdx.mp inA
  obtain ⟨j, insideJ, rfl⟩ := List.mem_mapIdx.mp inB
  dsimp only at same
  have filledI := (pieces _ (List.getElem_mem insideI)).filled
  have filledJ := (pieces _ (List.getElem_mem insideJ)).filled
  rcases Nat.lt_trichotomy i j with before | rfl | behind
  · have apart := ordered i j insideI insideJ before
    rw [same] at apart
    omega
  · rfl
  · have apart := ordered j i insideJ insideI behind
    rw [same] at apart
    omega

end Tree
end DeadExports

import DeadExports.Proofs.Grammar.Types

set_option autoImplicit false

namespace DeadExports.Source.Grammar

open Parse

variable {text : String} {g : Grammar} {moved : Bool} {first : Nat} {trees : List Tree}

theorem skip_gap_reads :
    skipGap.Reads text (Cursor.Behind text moved first trees) fun offset rest =>
      rest.Holds text first trees ∧ offset = rest.position := by
  intro _ _ _ _ here behind read
  cases read
  rw [here]
  exact ⟨behind.held, rfl⟩

theorem skip_gap_begins :
    skipGap.Reads text (Cursor.Begins text first) fun offset rest =>
      rest.Holds text first [] ∧ offset = first := by
  intro _ _ _ _ here begins read
  cases read
  rw [here]
  exact ⟨begins.behind.held, begins.next⟩

theorem tag_end_eats : tagEnd.Eats text := by
  refine fun _ first trees => .step skip_gap_reads fun offset => .step setting_reads fun now =>
    .given fun here => ?_
  rw [here]
  refine .guarded fun closes => ?_
  rintro _ cursor _ _ _ ⟨holds, rfl⟩ read
  cases read
  exact sign_taken holds (by rw [beq_iff_eq.mp closes]; decide)

theorem element_word_lays {kind : Kind} (common : kind.isCommon = true) :
    (elementWord kind).Lays text := by
  refine .alone fun first opens => .step skip_gap_begins fun _ => .given fun same => ?_
  obtain rfl := same
  refine .step setting_reads fun now => .given fun here => ?_
  rw [here]
  refine .guarded fun named => .step (move_reads opens (Text.run_inks text _ _ ?_) ?_) fun _ =>
    close_reads_from common opens rfl ?_
  · intro char accepted
    rcases (Bool.or_eq_true _ _).mp accepted with letter | dash
    · exact Token.name_char_ink char letter
    · obtain rfl := beq_iff_eq.mp dash
      decide
  · have letter := ((Bool.and_eq_true _ _).mp named).1
    exact Text.run_moves text _ _ (by decide) (by rw [isElementNameChar, letter, Bool.true_or])
  · cases kind <;> rfl

theorem element_word_leaf (kind : Kind) :
    (elementWord kind).Yields text fun word => ∃ span, word = .leaf kind span :=
  .last fun _ => .last fun _ => .last fun _ => .last fun _ => .close fun span => ⟨span, rfl⟩

theorem element_name_lays : elementName.Lays text := by
  refine fun _ first trees => .lay (element_word_lays rfl) fun name => ?_
  refine .skip (next_is_skips ":") fun _ => .branch ?_ (member_chain_grows name)
  refine .eat take_eats fun _ => .lay (element_word_lays rfl) fun second => ?_
  exact close_over trees [second] (by simp) rfl rfl rfl

theorem element_hole_lays (lays : g.LaysOut text) : (elementHole g).Lays text := by
  refine node_lays rfl rfl fun first => .eat (expect_eats "\x7b") fun _ => .inBrackets ?_
  refine .skip (accept_skips "\x7d") fun _ => .branch (.children rfl) ?_
  refine .skip (accept_skips "...") fun _ => .lay lays.expression fun inner => ?_
  exact .eat (expect_eats "\x7d") fun _ => .children rfl

theorem quoted_inks {quoteMark : Char} {start : Nat} (sign : Text.isSign quoteMark = true)
    (here : Text.charAt text start = quoteMark)
    (inside : Text.runEnd text (· != quoteMark) (start + 1) < Text.size text) :
    Text.Inks text start (Text.runEnd text (· != quoteMark) (start + 1) + 1) := by
  have opening : Text.Inks text start (start + 1) := Text.sign_inks (here ▸ sign)
  have body := Text.run_passes text (· != quoteMark) (start + 1)
  have closes : Text.charAt text (Text.runEnd text (· != quoteMark) (start + 1)) = quoteMark := by
    simpa using Text.run_end_refuses text (· != quoteMark) (start + 1) inside
  refine (opening.toPasses.trans body).inks (Text.sign_inks ?_) (Nat.lt_succ_self _)
  rwa [closes]

theorem attribute_value_lays (lays : g.LaysOut text) : (attributeValue g).Lays text := by
  refine .alone fun first opens => .step skip_gap_begins fun begin => .given fun same => ?_
  obtain rfl := same
  refine .step setting_reads fun now => .given fun here => ?_
  rw [here]
  dsimp only
  split
  · exact .fromHeld (element_hole_lays lays _ _ _)
  · exact .fromHeld (lays.element _ _ _)
  next =>
      refine .guarded fun quoted => .guarded fun closes => ?_
      have sign : Text.isSign (Text.charAt text begin) = true := by
        rcases (Bool.or_eq_true _ _).mp quoted with double | single
        · rw [beq_iff_eq.mp double]
          decide
        · rw [beq_iff_eq.mp single]
          decide
      have inks := quoted_inks sign rfl (of_decide_eq_true closes)
      have moves := (Text.run_passes text (· != Text.charAt text begin) (begin + 1)).ordered
      exact .step (move_reads opens inks (by omega)) fun _ => close_reads_from rfl opens rfl rfl

theorem attribute_name_lays : attributeName.Lays text := by
  refine fun _ first trees => .layKnown (element_word_lays rfl) (element_word_leaf _)
    fun word isLeaf => ?_
  refine .skip (next_is_skips ":") fun _ => .branch ?_ (.pure fun _ => id)
  obtain ⟨span, rfl⟩ := isLeaf
  refine .since (fun _ => Cursor.Behind.renamed .identifier rfl) (.eat take_eats fun _ => ?_)
  refine .lay (element_word_lays rfl) fun second => ?_
  change (closeNode .group (Tree.leaf .identifier span).span.start _).Reads _ _ _
  exact close_over trees [second] (by simp) rfl rfl rfl

theorem element_attribute_reads (lays : g.LaysOut text) :
    (elementAttribute g).Reads text (Cursor.Behind text false first trees) fun found =>
      Cursor.Behind text false first (trees ++ found.toList) := by
  refine .step skip_gap_reads fun offset => .step (setting_reads.weaken fun _ _ => And.left)
    fun now => .since (fun _ => And.left) (.fromHeld ?_)
  refine .branch (.lay (element_hole_lays lays) fun _ => .item) (.branch ?_ .ended)
  refine .lay attribute_name_lays fun name => .skip (next_is_skips "=") fun _ => .branch ?_ .item
  refine .eat take_eats fun _ => .lay (attribute_value_lays lays) fun value => ?_
  exact .step (close_over trees [value] (by simp) rfl rfl rfl) fun _ => .item

theorem move_past_reads {start stop : Nat} (passes : Text.Passes text start stop) :
    (moveTo stop).Reads text (fun cursor => cursor.Holds text first trees ∧ start = cursor.position)
      fun _ => Cursor.Holds text first trees := by
  rintro _ cursor _ _ _ ⟨⟨sound, stands, ordered⟩, rfl⟩ read
  cases read
  exact ⟨moved_sound _ (passes.closes sound.boundary), stands,
    Span.in_order_widen _ _ _ _ _ (Nat.le_refl _) passes.ordered ordered⟩

theorem element_content_step (lays : g.LaysOut text) :
    Parse.Reads (do
      let text := (← setting).text
      let stop := Text.runEnd text (fun char => char != '<' && char != '\x7b') (← position)
      Parse.guard (decide (stop < Text.size text))
      moveTo stop
      if Text.charAt text stop == '\x7b' then return some (← elementHole g)
      else if (← peekSecond).text == "/" then return none
      else return some (← g.element)) text (Cursor.Holds text first trees) fun found =>
        Cursor.Holds text first (trees ++ found.toList) := by
  refine .step setting_reads fun now => .given fun here => .step position_reads fun offset => ?_
  rw [here]
  refine .guarded fun _ => .step (move_past_reads (Text.run_passes text _ offset)) fun _ =>
    .branch ?_ (.step peek_second_looks.holds fun _ => .branch (.pure fun _ => ?_) ?_)
  · exact .fromHeld (.lay (element_hole_lays lays) fun _ => .pure fun _ => And.left)
  · simp
  · exact .fromHeld (.lay lays.element fun _ => .pure fun _ => And.left)

theorem element_content_reads (lays : g.LaysOut text) :
    (elementContent g).Reads text (Cursor.Holds text first trees) fun content =>
      Cursor.Holds text first (trees ++ content) := by
  have run := Reads.manyFrom (fun content => Cursor.Holds text first (trees ++ content))
    fun content => (element_content_step lays).weaken fun _ _ => List.append_assoc _ _ _ ▸ id
  rwa [List.append_nil] at run

theorem closing_tag_lays (isFragment : Bool) : (closingTag isFragment).LaysAll text := by
  refine fun _ _ _ => .eat (expect_eats "<") fun _ => .eat (expect_eats "/") fun _ => ?_
  refine .branch (.set (.eat tag_end_eats fun _ => .found (by simp))) ?_
  exact .lay element_name_lays fun name => .set (.eat tag_end_eats fun _ => .found rfl)

theorem element_body_reads (lays : g.LaysOut text) (isFragment : Bool) :
    Parse.Reads (do
      let content ← elementContent g
      return trees ++ content ++ (← closingTag isFragment)) text
      (Cursor.Behind text true first trees) fun children =>
        Cursor.Behind text true first (children.map Tree.bare) := by
  refine .held (.step (element_content_reads lays) fun content => .fromHeld ?_)
  exact .layAll (closing_tag_lays isFragment) fun name => .children (by simp)

theorem any_element_lays (lays : g.LaysOut text) : (anyElement g).Lays text := by
  refine node_lays rfl rfl fun first => .eat (expect_eats "<") fun _ => .skip peek_skips fun _ =>
    .branch (.eat tag_end_eats fun _ => element_body_reads lays true) ?_
  refine .lay element_name_lays fun name => .skip is_typed_skips fun _ =>
    .branch (.mayLay (optional_type_arguments_lay lays) fun generics => ?_) (.set ?_)
  all_goals
    refine .held (.fromHeld ?_)
    refine .step (many_lays fun trees => element_attribute_reads lays) fun attributes => ?_
    refine .skip (accept_skips "/") fun _ => .branch ?_ ?_
    · exact .eat tag_end_eats fun _ => .children (by simp)
    · exact .eat tag_end_eats fun _ => .regroup (by simp) (element_body_reads lays false)

end DeadExports.Source.Grammar

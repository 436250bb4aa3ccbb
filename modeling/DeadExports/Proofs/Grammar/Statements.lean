import DeadExports.Proofs.Grammar.Markup
import DeadExports.Proofs.Grammar.Modules

set_option autoImplicit false

namespace DeadExports

namespace Source.Grammar

open Parse

variable {text : String} {g : Grammar}

theorem expression_statement_lays (lays : g.LaysOut text) : (expressionStatement g).Lays text :=
  node_lays rfl rfl fun _ => .lay (any_expression_lays lays) fun _ =>
    .step (statement_end_reads _) fun _ => .children rfl

theorem value_is_missing_skips : valueIsMissing.Skips text :=
  fun _ _ _ => .skip peek_skips fun _ => .pure fun _ => id

theorem throw_statement_lays (lays : g.LaysOut text) : (throwStatement g).Lays text :=
  node_lays rfl rfl fun _ => .eat take_eats fun _ => .lay lays.expression fun _ =>
    .step (statement_end_reads _) fun _ => .children rfl

theorem return_statement_lays (lays : g.LaysOut text) : (returnStatement g).Lays text := by
  refine node_lays rfl rfl fun first => .eat take_eats fun _ =>
    .skip value_is_missing_skips fun _ =>
    .branch (.step (statement_end_reads _) fun _ => .children rfl) ?_
  exact .lay lays.expression fun _ => .step (statement_end_reads _) fun _ => .children rfl

theorem labelled_jump_lays : labelledJump.Lays text := by
  refine node_lays rfl rfl fun first => .eat take_eats fun _ =>
    .skip value_is_missing_skips fun _ =>
    .branch (.eat (expect_shape_eats .word) fun _ => ?_) ?_
  all_goals exact .step (statement_end_reads _) fun _ => .children rfl

theorem if_statement_lays (lays : g.LaysOut text) : (ifStatement g).Lays text := by
  refine node_lays rfl rfl fun first => .eat (expect_eats "if") fun _ =>
    .lay (parenthesized_lays lays) fun condition => .lay lays.statement fun positive => ?_
  exact .skip (accept_skips "else") fun _ =>
    .branch (.lay lays.statement fun _ => .children rfl) (.children rfl)

theorem loop_start_lays (lays : g.LaysOut text) : (loopStart g).MayLay text := by
  refine fun _ _ _ => .skip peek_skips fun _ => .skip peek_second_skips fun _ => .branch .nothing ?_
  refine .branch (.eat take_eats fun _ => ?_) (.lay (any_expression_lays lays) fun _ => .found rfl)
  exact (declarators_lay lays _ _ _).weaken fun _ _ => Cursor.Behind.start

theorem counting_rest_lays (lays : g.LaysOut text) : (countingRest g).LaysAll text := by
  refine fun _ _ _ => .eat (expect_eats ";") fun _ => .skip (next_is_skips ";") fun _ =>
    .branch (.set ?_) (.lay lays.expression fun condition => .set ?_)
  all_goals
    refine .eat (expect_eats ";") fun _ => .skip (next_is_skips ")") fun _ =>
      .branch (.set (.found (by simp))) (.lay lays.expression fun step => .set (.found (by simp)))

theorem for_statement_lays (lays : g.LaysOut text) : (forStatement g).Lays text := by
  have head : Parse.LaysAll (do
      let first ← within (fun old => { old with withoutIn := true }) (loopStart g)
      if ← nextIsOneOf ["of", "in"] then
        let _ ← take
        return first ++ [← g.expression]
      else return first ++ (← countingRest g)) text := by
    refine fun _ _ _ => .step (.within (fun _ => rfl) (loop_start_lays lays _ _ _)) fun head =>
      .skip (next_is_one_of_skips _) fun _ => .branch (.eat take_eats fun _ => ?_) ?_
    · exact .lay lays.expression fun _ => .found (by simp)
    · exact .layAll (counting_rest_lays lays) fun _ => .found (by simp)
  refine node_lays rfl rfl fun first => .eat (expect_eats "for") fun _ =>
    .skip (accept_skips "await") fun _ => .eat (expect_eats "(") fun _ =>
    .step (.inBrackets (head _ _ _)) fun head => .eat (expect_eats ")") fun _ => ?_
  exact .lay lays.statement fun _ => .children (by simp)

theorem while_statement_lays (lays : g.LaysOut text) : (whileStatement g).Lays text :=
  node_lays rfl rfl fun _ => .eat take_eats fun _ => .lay (parenthesized_lays lays) fun _ =>
    .lay lays.statement fun _ => .children rfl

theorem do_statement_lays (lays : g.LaysOut text) : (doStatement g).Lays text := by
  refine node_lays rfl rfl fun first => .eat (expect_eats "do") fun _ => .lay lays.statement
    fun body => .eat (expect_eats "while") fun _ => .lay (parenthesized_lays lays)
    fun condition => ?_
  refine .skip (accept_skips ";") fun _ => .branch ?_ (.children rfl)
  exact .step (optional_end_reads _) fun _ => .children rfl

theorem switch_case_lays (lays : g.LaysOut text) : (switchCase g).Lays text := by
  refine node_lays rfl rfl fun first => .skip (accept_skips "default") fun _ =>
    .branch (.set ?_) (.eat (expect_eats "case") fun _ =>
      .step (.inBrackets (lays.expression _ _ _)) fun label => .set ?_)
  all_goals
    refine .eat (expect_eats ":") fun _ => .step (many_lays fun trees => ?_) fun body =>
      .children (by simp)
    exact .skip (next_is_one_of_skips _) fun _ =>
      .branch .ended (.lay lays.statement fun _ => .item)

theorem switch_statement_lays (lays : g.LaysOut text) : (switchStatement g).Lays text := by
  refine node_lays rfl rfl fun first => .eat (expect_eats "switch") fun _ =>
    .lay (parenthesized_lays lays) fun subject => .eat (expect_eats "\x7b") fun _ =>
    .step (.inBlock (many_lays fun trees => ?_)) fun cases => .eat (expect_eats "\x7d") fun _ =>
      .children (by simp)
  exact .skip (next_is_skips "\x7d") fun _ =>
    .branch .ended (.lay (switch_case_lays lays) fun _ => .item)

theorem catch_clause_lays (lays : g.LaysOut text) : (catchClause g).MayLay text := by
  refine fun _ _ _ => .skip (accept_skips "catch") fun _ => .branch ?_ .nothing
  refine .skip (accept_skips "(") fun _ => .branch (.lay (any_binding_lays lays) fun target =>
    .mayLay (optional_annotation_lays lays) fun annotation => .eat (expect_eats ")") fun _ =>
      .set ?_) (.set ?_)
  all_goals exact .lay (block_lays lays) fun _ => .found (by simp)

theorem try_statement_lays (lays : g.LaysOut text) : (tryStatement g).Lays text := by
  refine node_lays rfl rfl fun first => .eat (expect_eats "try") fun _ => .lay (block_lays lays)
    fun body => .mayLay (catch_clause_lays lays) fun caught => ?_
  refine .skip (accept_skips "finally") fun _ => .option (block_lays lays) fun finished => ?_
  exact .guarded fun _ => .children (by simp)

theorem labelled_statement_lays (lays : g.LaysOut text) : (labelledStatement g).Lays text :=
  node_lays rfl rfl fun _ => .eat take_eats fun _ => .eat (expect_eats ":") fun _ =>
    .lay lays.statement fun _ => .children rfl

theorem decorated_statement_lays (lays : g.LaysOut text) : (decoratedStatement g).Lays text := by
  refine .alone fun first opens => .step start_begins fun begin => .given fun same => ?_
  obtain rfl := same
  refine .since (fun _ => Cursor.Begins.behind) (.mayLay (decorators_lay lays) fun marks => ?_)
  exact .skip (next_is_skips "export") fun _ =>
    .branch (export_statement_reads lays opens) (class_declaration_reads lays opens)

theorem export_name_lays : exportName.Lays text := by
  refine .alone fun first opens => .step start_begins fun begin => .given fun same => ?_
  obtain rfl := same
  refine .since (fun _ => Cursor.Begins.behind) (.eat (expect_eats "export") fun _ => ?_)
  refine .step position_reads fun stop => .since (fun cursor start => ?_)
    (.step (automatic_end_reads _) fun _ => close_reads_from rfl opens rfl rfl)
  obtain ⟨behind, rfl⟩ := start
  exact behind.whole (behind.close opens rfl rfl rfl) rfl

theorem word_statement_lays (lays : g.LaysOut text) {first : Nat} (opens : Text.Opens text first)
    (token : Token) (starts : token.span.start = first) :
    (wordStatement g token).Reads text (Cursor.Begins text first) fun tree =>
      Cursor.Behind text true first [tree] := by
  obtain rfl := starts
  refine .since (fun _ => Cursor.Begins.behind) ?_
  rw [wordStatement]
  split
  case h_1 => exact .either (export_name_lays _ _ _) (export_statement_reads lays opens)
  case h_2 =>
    exact .skip peek_second_skips fun _ => .branch (expression_statement_lays lays _ _ _)
      (import_statement_lays lays _ _ _)
  case h_3 | h_4 | h_5 | h_6 => exact plain_declaration_lays lays _ _ _
  case h_7 => exact if_statement_lays lays _ _ _
  case h_8 => exact for_statement_lays lays _ _ _
  case h_9 | h_10 => exact while_statement_lays lays _ _ _
  case h_11 => exact do_statement_lays lays _ _ _
  case h_12 => exact switch_statement_lays lays _ _ _
  case h_13 => exact try_statement_lays lays _ _ _
  case h_14 => exact return_statement_lays lays _ _ _
  case h_15 => exact throw_statement_lays lays _ _ _
  case h_16 | h_17 | h_18 => exact labelled_jump_lays _ _ _
  case h_19 =>
    refine .skip peek_second_skips fun _ => .branch (labelled_statement_lays lays _ _ _) ?_
    refine .branch (.either ?_ ?_) (expression_statement_lays lays _ _ _)
    · exact declaration_lays lays _ _ _
    · exact expression_statement_lays lays _ _ _

theorem any_statement_lays (lays : g.LaysOut text) : (anyStatement g).Lays text := by
  refine .alone fun first opens => .step peek_begins fun token => .given fun starts => ?_
  split
  · exact (leaf_lays rfl).begins
  · exact (block_lays lays).begins
  · exact (decorated_statement_lays lays).begins
  · exact .branch (word_statement_lays lays opens token starts)
      (expression_statement_lays lays).begins

theorem empty_lays_out (text : String) : empty.LaysOut text where
  expression _ _ _ := .refuse
  assignment _ _ _ := .refuse
  operand _ _ _ := .refuse
  typeTerm _ _ _ := .refuse
  binding _ _ _ := .refuse
  statement _ _ _ := .refuse
  element _ _ _ := .refuse

theorem unroll_lays_out (lays : g.LaysOut text) : (unroll g).LaysOut text where
  expression := any_expression_lays lays
  assignment := any_assignment_lays lays
  operand := any_operand_lays lays
  typeTerm := any_type_lays lays
  binding := any_binding_lays lays
  statement := any_statement_lays lays
  element := any_element_lays lays

theorem of_depth_lays_out (text : String) (depth : Nat) : (ofDepth depth).LaysOut text := by
  induction depth with
  | zero => exact empty_lays_out text
  | succ depth ih => exact unroll_lays_out ih

section Ends

variable {before : Cursor → Prop}

theorem close_ends {kind : Kind} {first : Nat} {children : List Tree} :
    (closeNode kind first children).Reads text before fun tree rest =>
      tree.span.stop = rest.position := by
  intro _ _ _ _ _ _ read
  cases read
  rfl

theorem node_ends {kind : Kind} {reader : Parse (List Tree)} :
    (node kind reader).Reads text before fun tree rest => tree.span.stop = rest.position :=
  .last fun _ => .last fun _ => close_ends

theorem any_statement_ends :
    (anyStatement g).Reads text before fun tree rest => tree.span.stop = rest.position := by
  refine any_statement_reads (fun _ _ _ stop => stop) g ?_ fun first marks _ => ?_
  · exact .last fun _ => .branch (.either node_ends (.either node_ends node_ends)) node_ends
  · exact .last fun _ => .last fun _ => .last fun _ => .last fun _ => close_ends

end Ends

theorem interpreter_line_stands (text : String)
    (opens : (Text.charAt text 0 == '#' && Text.charAt text 1 == '!') = true) :
    (Tree.leaf .interpreterLine ⟨0, lineCommentEnd text 2⟩).Stands text ∧
      (gapAt text 0).stop = 0 ∧ 0 < lineCommentEnd text 2 := by
  simp only [Bool.and_eq_true, beq_iff_eq] at opens
  obtain ⟨hash, mark⟩ := opens
  have begin := Text.boundary_zero text
  have first : Text.Inks text 0 1 := Text.sign_inks (by rw [hash]; decide)
  have both : Text.Inks text 0 2 := first.trans (Text.sign_inks (by rw [mark]; decide))
  have more := Text.run_passes text (fun char => !isLineEnd char) 2
  have filled : 0 < lineCommentEnd text 2 := Nat.zero_lt_of_lt more.ordered
  have before := Text.ink_before text 2 Nat.two_pos (both.ink begin Nat.two_pos)
  have ends := line_comment_ends text 2 (both.closes begin) before
  refine ⟨.close [] rfl ⟨begin, fun _ => first.ink begin Nat.one_pos⟩ filled
    (more.closes (both.closes begin)) ends nofun filled.le rfl rfl, ?_, filled⟩
  exact gap_at_code text 0 (by rw [hash]; decide) (by rw [hash]; decide)

theorem interpreter_line_reads :
    interpreterLine.Reads text (fun cursor => cursor = { position := 0 }) fun lines =>
      Cursor.Follows text (fun _ => True) 0 lines := by
  refine .step setting_reads fun now => .given fun here => ?_
  rw [here]
  dsimp only
  split
  next opens =>
      intro _ _ _ _ _ _ read
      cases read
      obtain ⟨stands, starts, filled⟩ := interpreter_line_stands text opens
      refine ⟨moved_sound _ stands.ends.1, fun tree member => ?_, starts.le, filled, rfl⟩
      obtain rfl := List.mem_singleton.mp member
      exact ⟨stands, trivial⟩
  next =>
      refine .pure fun cursor start => ?_
      obtain rfl := start
      exact ⟨moved_sound 0 (Text.boundary_zero text), nofun, rfl⟩

theorem statements_follow (lays : g.LaysOut text) (opening : List Tree) :
    Parse.Reads (many do
      if (← peek).shape == .finish then return none else return some (← anyStatement g)) text
      (Cursor.Follows text (fun _ => True) 0 opening) fun statements =>
        Cursor.Follows text (fun _ => True) 0 (opening ++ statements) := by
  refine .since (fun _ follows => ?_) (.manyFrom
    (fun statements => Cursor.Follows text (fun _ => True) 0 (opening ++ statements)) fun _ => ?_)
  · rwa [List.append_nil]
  · refine .step peek_looks.follows fun _ => .branch (.pure fun _ => by simp) ?_
    have ends : (anyStatement g).Reads text (Cursor.Sound text) fun tree rest =>
        tree.span.stop = rest.position ∧ True :=
      any_statement_ends.weaken fun _ _ stop => ⟨stop, trivial⟩
    exact .step ((any_statement_lays lays).follows ends) fun _ => .pure fun _ => by simp

theorem program_lays_out (lays : g.LaysOut text) :
    (program g).Reads text (fun cursor => cursor = { position := 0 }) fun tree _ =>
      tree.isLaidOut = true ∧ tree.isPlacedIn text = true ∧ tree.isInkedIn text = true := by
  refine .step setting_reads fun now => .given fun here => .step interpreter_line_reads
    fun opening => .step (statements_follow lays opening) fun statements =>
      .pure fun cursor follows => ?_
  rw [here]
  have begin := Text.boundary_zero text
  have stands (tree : Tree) (member : tree ∈ opening ++ statements) := (follows.each tree member).1
  have each (child : Tree) (member : child ∈ withComments text 0 (opening ++ statements)) :=
    (Tree.with_comments_stand text 0 _ begin stands child member).1
  have last := Text.boundary_le text _ (Text.gap_opens text _ follows.sound.boundary).1
  have ordered := Span.in_order_widen _ _ _ _ _ (Nat.le_refl _) last
    (Tree.follow_in_order text _ _ _ begin stands follows.follow)
  have lies := Tree.branch_lies .program ⟨0, Text.size text⟩ begin (Text.boundary_size text)
    ordered rfl
    fun child member => ⟨(each child member).laidOut, (each child member).placed⟩
  exact ⟨lies.1, lies.2, List.all_eq_true.mpr fun child member => (each child member).inked⟩

end Source.Grammar

theorem SourceModule.tree_of_program (language : Language) (text : String) :
    (treeOf? language text).map Subtype.val =
      (Source.Grammar.program (Source.Grammar.ofDepth (Text.size text + 2)) { text, language }
        { position := 0 }).map Prod.fst := by
  rw [treeOf?]
  cases read : Source.Grammar.program (Source.Grammar.ofDepth (Text.size text + 2))
      { text, language } { position := 0 } with
  | none => rfl
  | some result =>
      obtain ⟨tree, rest⟩ := result
      have sound := Source.Grammar.program_lays_out
        (Source.Grammar.of_depth_lays_out text (Text.size text + 2)) _ _ _ _ rfl rfl read
      rw [Option.bind_some]
      dsimp only
      rw [dif_pos sound]
      rfl

theorem SourceModule.errors_of_program (path : Path) (text : String) (m : SourceModule)
    (parsed : parse path text = .ok m) :
    m.hasErrors = (Source.Grammar.program (Source.Grammar.ofDepth (Text.size text + 2))
      { text, language := m.language } { position := 0 }).isNone := by
  rw [parse] at parsed
  split at parsed
  next => cases parsed
  next language _ =>
      have trees := congrArg Option.isNone (tree_of_program language text)
      rw [Option.isNone_map, Option.isNone_map] at trees
      split at parsed
      next found =>
          cases parsed
          rw [← trees, found]
          rfl
      next found =>
          cases parsed
          rw [← trees, found]
          rfl

end DeadExports

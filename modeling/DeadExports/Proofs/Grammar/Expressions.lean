import DeadExports.Proofs.Grammar.Types

set_option autoImplicit false

namespace DeadExports.Source.Grammar

open Parse

variable {text : String} {g : Grammar}

theorem with_default_grows (lays : g.LaysOut text) {first : Nat} {trees : List Tree}
    (target : Tree) :
    (withDefault g target).Reads text (Cursor.Behind text true first (trees ++ [target]))
      fun tree => Cursor.Behind text true first (trees ++ [tree]) := by
  refine .skip (accept_skips "=") fun _ => .branch ?_ (.pure fun _ => id)
  exact .lay lays.assignment fun value => close_over trees [value] (by simp) rfl rfl (by simp)

theorem rest_binding_lays (lays : g.LaysOut text) : (restBinding g).Lays text :=
  node_lays rfl rfl fun _ => .eat (expect_eats "...") fun _ => .lay lays.binding fun _ =>
    .children rfl

theorem shorthand_binding_lays (lays : g.LaysOut text) : (shorthandBinding g).Lays text := by
  refine fun _ first trees => .skip peek_skips fun _ => .guarded fun _ => ?_
  refine .lay (leaf_lays rfl) fun name => .skip (accept_skips "=") fun _ =>
    .branch ?_ (.pure fun _ => id)
  exact .lay lays.assignment fun value => close_over trees [value] (by simp) rfl rfl (by simp)

theorem pair_binding_lays (lays : g.LaysOut text) : (pairBinding g).Lays text := by
  refine node_lays rfl rfl fun first => .lay (member_key_lays lays) fun key => ?_
  refine .eat (expect_eats ":") fun _ => .lay lays.binding fun target => ?_
  exact .step (with_default_grows lays target) fun target => .children (by simp)

theorem object_pattern_lays (lays : g.LaysOut text) : (objectPattern g).Lays text := by
  refine node_lays rfl rfl fun first => .eat (expect_eats "\x7b") fun _ =>
    .inBrackets (separated_lays fun _ _ _ => ?_).children
  refine .skip (next_is_skips "...") fun _ => .branch (rest_binding_lays lays _ _ _) ?_
  refine .skip peek_second_skips fun _ => .skip peek_skips fun _ => ?_
  exact .branch (pair_binding_lays lays _ _ _) (shorthand_binding_lays lays _ _ _)

theorem array_item_lays (lays : g.LaysOut text) : (arrayItem g).MayLay text := by
  refine fun _ _ _ => .skip (next_is_skips ",") fun _ => .branch .nothing ?_
  refine .skip (next_is_skips "...") fun _ => .branch ?_ ?_
  · exact .lay (rest_binding_lays lays) fun _ => .found rfl
  · exact .lay lays.binding fun target => .step (with_default_grows lays target) fun _ => .found rfl

theorem array_pattern_lays (lays : g.LaysOut text) : (arrayPattern g).Lays text := by
  refine node_lays rfl rfl fun first => .eat (expect_eats "[") fun _ => ?_
  exact .step (.inBrackets (separated_flat (array_item_lays lays))) fun items => .children (by simp)

theorem any_binding_lays (lays : g.LaysOut text) : (anyBinding g).Lays text := by
  refine fun _ _ _ => .skip peek_skips fun _ => ?_
  split
  · exact object_pattern_lays lays _ _ _
  · exact array_pattern_lays lays _ _ _
  · exact identifier_lays _ _ _

theorem block_lays (lays : g.LaysOut text) : (block g).Lays text := by
  refine node_lays rfl rfl fun first => .eat (expect_eats "\x7b") fun _ => ?_
  refine .step (.inBlock (many_lays fun trees => ?_)) fun statements => ?_
  · exact .skip (next_is_skips "\x7d") fun _ => .branch .ended (.lay lays.statement fun _ => .item)
  · exact .eat (expect_eats "\x7d") fun _ => .children rfl

theorem function_head_reads {first : Nat} :
    functionHead.Reads text (Cursor.Begins text first) fun head rest =>
      rest.Behind text true first [] ∧ head.start = first := by
  refine .step start_begins fun _ => .given fun same => .since (fun _ => Cursor.Begins.behind) ?_
  refine .skip (accept_skips "async") fun _ =>
    .branch (.skip peek_skips fun _ => .guarded fun _ => ?_)
    ?_
  all_goals
    exact .eat (expect_eats "function") fun _ => .skip (accept_skips "*") fun _ =>
      .pure fun _ behind => ⟨behind, same⟩

theorem starts_function_looks : startsFunction.Looks text := by
  intro setting cursor value rest here sound read
  obtain ⟨token, middle, peeked, read⟩ := bind_result _ _ _ _ _ read
  obtain ⟨sound', same⟩ := peek_looks setting cursor token middle here sound peeked
  split at read
  next =>
      cases read
      exact ⟨sound', same⟩
  next =>
      split at read
      next =>
          obtain ⟨second, later, peeked, read⟩ := bind_result _ _ _ _ _ read
          obtain ⟨sound'', same'⟩ := peek_second_looks setting middle second later here
            sound' peeked
          cases read
          exact ⟨sound'', same'.trans same⟩
      next =>
          cases read
          exact ⟨sound', same⟩

theorem function_expression_lays (lays : g.LaysOut text) : (functionExpression g).Lays text := by
  refine .alone fun first opens => .step function_head_reads fun head => .given fun same => ?_
  obtain rfl := same
  refine .skip (next_is_skips "(") fun _ => .skip (next_is_skips "<") fun _ =>
    .branch (.set ?_) (.branch (.set ?_) (.layKnown identifier_lays identifier_kind
      fun name plain => .set ?_))
  case refine_3 =>
    refine .layAll (signature_lays lays) fun inputs => .lay (block_lays lays) fun body => ?_
    refine close_named [] [name] (inputs ++ [body]) (by simp) (by simp) ?_ ?_ opens ?_
    · split <;> rfl
    · split <;> rfl
    · simp [plain, Kind.isWord]
  all_goals
    refine .layAll (signature_lays lays) fun inputs => .lay (block_lays lays) fun body => ?_
    refine close_named [] [] (inputs ++ [body]) (by simp) (by simp) ?_ ?_ opens (by simp)
    · split <;> rfl
    · split <;> rfl

theorem keyless_member_lays (lays : g.LaysOut text) : (keylessMember g).Lays text := by
  refine fun _ _ _ => .skip (next_is_skips "static") fun _ => .skip peek_second_skips fun _ =>
    .branch (.eat take_eats fun _ => block_lays lays _ _ _) ?_
  refine .skip is_typed_skips fun _ => .guarded fun _ => .step (many_skips ?_) fun _ =>
    index_signature_lays lays _ _ _
  refine .skip (next_is_one_of_skips _) fun _ => .skip peek_second_skips fun _ => ?_
  exact .mayTake

theorem skip_member_modifiers_skips : skipMemberModifiers.Skips text := by
  refine fun _ _ _ => .skip is_typed_skips fun _ => .step (many_skips ?_) fun _ =>
    .skip (accept_skips "*") fun _ => .pure fun _ => id
  refine .skip peek_skips fun _ => .skip peek_second_skips fun _ => ?_
  exact .mayTake

theorem class_member_lays (lays : g.LaysOut text) : (classMember g).Lays text := by
  refine node_lays rfl rfl fun first => .mayLay (decorators_lay lays) fun marks => ?_
  refine .attempting (fun member => Cursor.Behind text true first ([] ++ marks ++ [member]))
    (keyless_member_lays lays _ _ _) (fun member => .children rfl) ?_
  refine .skip skip_member_modifiers_skips fun _ => .lay (member_key_lays lays) fun key => ?_
  refine .skip is_typed_skips fun _ => .branch (.skip (accept_skips "?") fun _ =>
    .branch (.skip (accept_skips "!") fun _ => ?_) ?_) ?_
  all_goals
    refine .skip (next_is_one_of_skips _) fun _ => .branch ?_ ?_
    · refine .layAll (signature_lays lays) fun inputs => .skip (next_is_skips "\x7b") fun _ =>
        .branch (.lay (block_lays lays) fun _ => .children (by simp)) ?_
      refine .skip is_typed_skips fun _ => .guarded fun _ => .skip (accept_skips ",") fun _ => ?_
      exact .branch (.step (statement_end_reads _) fun _ => .children (by simp))
        (.children (by simp))
    · refine .mayLay (optional_annotation_lays lays) fun annotation => .skip (accept_skips "=")
        fun _ => .branch (.step (.inBlock (lays.assignment _ _ _)) fun value => .set ?_) (.set ?_)
      all_goals
        refine .skip (accept_typed_skips ",") fun _ => ?_
        exact .branch (.step (statement_end_reads _) fun _ => .children (by simp))
          (.children (by simp))

theorem class_body_lays (lays : g.LaysOut text) : (classBody g).Lays text := by
  refine node_lays rfl rfl fun first => .eat (expect_eats "\x7b") fun _ => ?_
  refine .step (.inBlock (many_emits id [] fun trees => ?_)) fun members =>
    .eat (expect_eats "\x7d") fun _ => .children (by simp)
  refine .skip (next_is_skips "\x7d") fun _ => .branch (.pure fun _ => by simp) ?_
  refine .skip (accept_skips ";") fun _ => .branch (.pure fun _ => by simp) ?_
  exact .lay (class_member_lays lays) fun _ => .pure fun _ => by simp

theorem class_heritage_reads (lays : g.LaysOut text) {first : Nat} {trees : List Tree} :
    (classHeritage g).Reads text (Cursor.Behind text true first trees) fun found =>
      Cursor.Behind text true first (trees ++ found) := by
  refine .skip (accept_skips "extends") fun _ => .branch (.lay lays.operand fun base =>
    .skip is_typed_skips fun _ => .branch (.mayLay (optional_type_arguments_lay lays)
      fun generics => .set ?_) (.set (.set ?_))) (.set ?_)
  all_goals
    refine .skip (accept_typed_skips "implements") fun _ => .branch
      (.step (many_lays fun trees => ?_) fun promises => .found (by simp)) (.set (.found (by simp)))
    refine .skip (next_is_skips "\x7b") fun _ =>
      .branch .ended (.lay lays.typeTerm fun promise => ?_)
    refine .skip (next_is_skips "\x7b") fun _ => ?_
    exact .branch (.eat (expect_eats ",") fun _ => .item) .item

theorem names_class_looks : namesClass.Looks text :=
  peek_looks.answer fun token => token.isVariable && token.text != "implements"

theorem class_name_lays : className.Lays text := by
  refine fun _ _ _ => .skip peek_skips fun _ => .guarded fun _ => .skip is_typed_skips fun _ => ?_
  exact leaf_lays (by split <;> rfl) _ _ _

theorem class_name_word : className.Yields text fun name => name.kind.isWord = true := by
  refine .last fun _ => .last fun _ => .last fun _ => .leaf fun _ => ?_
  split <;> rfl

theorem class_rest_reads (lays : g.LaysOut text) {kind : Kind} {first : Nat} {marks : List Tree}
    (common : kind.isCommon = true) (named : kind.hasPlainName = true)
    (opens : Text.Opens text first) :
    (classRest g kind first marks).Reads text (Cursor.Behind text true first marks) fun tree =>
      Cursor.Behind text true first [tree] := by
  refine .skip names_class_looks.skips fun _ => .branch
    (.layKnown class_name_lays class_name_word fun name isWord => .set ?_) (.set ?_)
  all_goals
    refine .mayLay (optional_type_parameters_lay lays) fun generics => ?_
    refine .step (class_heritage_reads lays) fun heritage => .lay (class_body_lays lays) ?_
    intro body
  · exact close_named marks [name] (generics ++ heritage ++ [body]) (by simp) (by simp) common named
      opens (by simpa using isWord)
  · exact close_named marks [] (generics ++ heritage ++ [body]) (by simp) (by simp) common named
      opens nofun

theorem class_expression_lays (lays : g.LaysOut text) : (classExpression g).Lays text := by
  refine .alone fun first opens => .step start_begins fun _ => .given fun same => ?_
  obtain rfl := same
  refine .since (fun _ => Cursor.Begins.behind) (.mayLay (decorators_lay lays) fun marks => ?_)
  exact .eat (expect_eats "class") fun _ => class_rest_reads lays rfl rfl opens

theorem array_literal_lays (lays : g.LaysOut text) : (arrayLiteral g).Lays text := by
  refine node_lays rfl rfl fun first => .eat (expect_eats "[") fun _ => ?_
  refine .step (.inBrackets (separated_flat fun _ _ _ => ?_)) fun items => .children (by simp)
  refine .skip (next_is_skips ",") fun _ => .branch .nothing ?_
  exact .lay (spreadable_lays lays) fun _ => .found rfl

theorem skip_method_words_skips : skipMethodWords.Skips text := by
  refine fun _ _ _ => .step (many_skips ?_) fun _ => .skip (accept_skips "*") fun _ =>
    .pure fun _ => id
  refine .skip peek_skips fun _ => .skip peek_second_skips fun _ => ?_
  exact .mayTake

theorem shorthand_member_lays (lays : g.LaysOut text) : (shorthandMember g).Lays text := by
  refine fun _ first trees => .skip peek_skips fun _ => .skip peek_second_skips fun _ =>
    .guarded fun _ => .lay (leaf_lays rfl) fun name => ?_
  refine .skip (accept_skips "=") fun _ => .branch ?_ (.pure fun _ => id)
  exact .lay lays.assignment fun value => close_over trees [value] (by simp) rfl rfl (by simp)

theorem keyed_value_lays (lays : g.LaysOut text) : (keyedValue g).Lays text := by
  refine node_lays rfl rfl fun first => .skip skip_method_words_skips fun _ => ?_
  refine .lay (member_key_lays lays) fun key => .skip (accept_skips ":") fun _ => .branch ?_ ?_
  · exact .lay lays.assignment fun _ => .children rfl
  · refine .skip (accept_skips "?") fun _ => .layAll (signature_lays lays) fun inputs => ?_
    exact .lay (block_lays lays) fun body => .children (by simp)

theorem object_literal_lays (lays : g.LaysOut text) : (objectLiteral g).Lays text := by
  refine node_lays rfl rfl fun first => .eat (expect_eats "\x7b") fun _ =>
    .inBrackets (separated_lays fun _ _ _ => ?_).children
  refine .skip (next_is_skips "...") fun _ => .branch (spreadable_lays lays _ _ _) ?_
  exact .either (shorthand_member_lays lays _ _ _) (keyed_value_lays lays _ _ _)

theorem call_types_lay (lays : g.LaysOut text) : (callTypes g).Lays text :=
  fun _ _ _ => .lay (type_arguments_lays lays) fun _ => .skip peek_skips fun _ =>
    .guarded fun _ => .pure fun _ => id

section Chains

variable {first : Nat} {trees : List Tree}

theorem call_of_grows (lays : g.LaysOut text) (callee : Tree) (types : List Tree) :
    (callOf g callee types).Reads text
      (Cursor.Behind text true first (trees ++ callee :: types)) fun call =>
        Cursor.Behind text true first (trees ++ [call]) :=
  .lay (call_arguments_lays lays) fun inputs =>
    close_over trees (types ++ [inputs]) (by simp) rfl rfl (by simp)

theorem tagged_template_grows (lays : g.LaysOut text) (callee : Tree) (types : List Tree) :
    (taggedTemplate g callee types).Reads text
      (Cursor.Behind text true first (trees ++ callee :: types)) fun call =>
        Cursor.Behind text true first (trees ++ [call]) :=
  .lay (template_lays lays.expression) fun inputs =>
    close_over trees (types ++ [inputs]) (by simp) rfl rfl (by simp)

theorem member_of_grows (object : Tree) :
    (memberOf object).Reads text (Cursor.Behind text true first (trees ++ [object])) fun chain =>
      Cursor.Behind text true first (trees ++ [chain]) :=
  .lay member_name_lays fun property => close_over trees [property] (by simp) rfl rfl (by simp)

theorem item_of_grows (lays : g.LaysOut text) (object : Tree) :
    (itemOf g object).Reads text (Cursor.Behind text true first (trees ++ [object])) fun item =>
      Cursor.Behind text true first (trees ++ [item]) := by
  refine .eat (expect_eats "[") fun _ => .step (.inBrackets (lays.expression _ _ _)) fun key => ?_
  exact .eat (expect_eats "]") fun _ => close_over trees [key] (by simp) rfl rfl (by simp)

theorem optional_step_grows (lays : g.LaysOut text) (object : Tree) :
    (optionalStep g object).Reads text (Cursor.Behind text true first (trees ++ [object]))
      fun chain => Cursor.Behind text true first (trees ++ [chain]) := by
  refine .skip peek_skips fun _ => .branch (call_of_grows lays object []) ?_
  refine .branch (item_of_grows lays object) (.branch (tagged_template_grows lays object []) ?_)
  refine .branch (.lay (type_arguments_lays lays) fun types => ?_) (member_of_grows object)
  exact .regroup (by simp) (call_of_grows lays object [types])

theorem typed_step_grows (lays : g.LaysOut text) (object : Tree) :
    (typedStep g object).Reads text (Cursor.Behind text true first (trees ++ [object]))
      fun found => Cursor.Behind text true first (trees ++ [found.getD object]) := by
  refine .attempting (fun types => Cursor.Behind text true first (trees ++ object :: [types])) ?_
    (fun types => .skip peek_skips fun _ => ?_) (.pure fun _ => id)
  · exact (call_types_lay lays _ _ _).weaken fun _ _ behind => by simpa using behind
  · refine .branch (.step (call_of_grows lays object [types]) fun _ => .pure fun _ => id) ?_
    refine .branch (.step (tagged_template_grows lays object [types]) fun _ => .pure fun _ => id) ?_
    exact .step (close_over trees [types] rfl rfl rfl rfl) fun _ => .pure fun _ => id

theorem postfix_step_grows (lays : g.LaysOut text) (object : Tree) :
    (postfixStep g object).Reads text (Cursor.Behind text true first (trees ++ [object]))
      fun found => Cursor.Behind text true first (trees ++ [found.getD object]) := by
  refine .skip peek_skips fun next => .branch (.step (tagged_template_grows lays object []) fun _ =>
    .pure fun _ => id) ?_
  split
  · exact .eat take_eats fun _ => .step (member_of_grows object) fun _ => .pure fun _ => id
  · exact .eat take_eats fun _ => .step (optional_step_grows lays object) fun _ => .pure fun _ => id
  · exact .step (item_of_grows lays object) fun _ => .pure fun _ => id
  · exact .step (call_of_grows lays object []) fun _ => .pure fun _ => id
  · refine .skip is_typed_skips fun _ => .skip continues_line_skips fun _ =>
      .branch (.eat take_eats fun _ => ?_) (.pure fun _ => id)
    exact .step (close_over trees [] (by simp) rfl rfl (by simp)) fun _ => .pure fun _ => id
  · exact .skip is_typed_skips fun _ => .branch (typed_step_grows lays object) (.pure fun _ => id)
  · exact .pure fun _ => id

theorem constructor_step_grows (lays : g.LaysOut text) (object : Tree) :
    (constructorStep g object).Reads text (Cursor.Behind text true first (trees ++ [object]))
      fun found => Cursor.Behind text true first (trees ++ [found.getD object]) := by
  refine .skip (accept_skips ".") fun _ => .branch
    (.step (member_of_grows object) fun _ => .pure fun _ => id) ?_
  refine .skip (next_is_skips "[") fun _ => .branch
    (.step (item_of_grows lays object) fun _ => .pure fun _ => id) ?_
  refine .skip is_typed_skips fun _ => .skip (next_is_skips "!") fun _ =>
    .branch (.eat take_eats fun _ => ?_) (.pure fun _ => id)
  exact .step (close_over trees [] (by simp) rfl rfl (by simp)) fun _ => .pure fun _ => id

end Chains

theorem import_expression_lays (lays : g.LaysOut text) : (importExpression g).Lays text := by
  refine fun _ first trees => .lay (leaf_lays rfl) fun callee => .skip (accept_skips ".") fun _ =>
    .branch (.eat member_name_lays.eats fun _ => ?_) (call_of_grows lays callee [])
  exact close_some trees [] [] rfl (List.nil_sublist _) rfl rfl rfl

theorem word_expression_lays (lays : g.LaysOut text) : (wordExpression g).Lays text := by
  refine fun _ _ _ => .skip peek_skips fun token => .skip starts_function_looks.skips fun _ =>
    .branch (function_expression_lays lays _ _ _) ?_
  split
  · exact class_expression_lays lays _ _ _
  · exact import_expression_lays lays _ _ _
  iterate 6 exact leaf_lays rfl _ _ _
  · exact identifier_lays _ _ _

theorem primary_lays (lays : g.LaysOut text) : (primary g).Lays text := by
  refine .alone fun first opens => .step peek_sign fun token => .given fun sign => ?_
  split
  · exact (word_expression_lays lays).begins
  · exact (leaf_lays rfl).begins
  · exact (leaf_lays rfl).begins
  · exact (template_lays lays.expression).begins
  · exact (leaf_lays rfl).begins
  · exact .refuse
  next isMark =>
      split
      · exact (parenthesized_lays lays).begins
      · exact (array_literal_lays lays).begins
      · exact (object_literal_lays lays).begins
      · exact regular_expression_reads (sign isMark)
      · exact regular_expression_reads (sign isMark)
      · exact (class_expression_lays lays).begins
      · refine .since (fun _ => Cursor.Begins.behind) (.skip has_markup_skips fun _ => ?_)
        exact .guarded fun _ => lays.element _ _ _
      · exact .refuse

theorem constructed_lays (lays : g.LaysOut text) : (constructed g).Lays text := by
  refine fun _ first trees => .skip (next_is_skips "new") fun _ =>
    .branch (lays.operand _ _ _) (.lay (primary_lays lays) fun object => ?_)
  exact .repeatFrom (fun object => Cursor.Behind text true first (trees ++ [object]))
    (constructor_step_grows lays)

theorem new_expression_lays (lays : g.LaysOut text) : (newExpression g).Lays text := by
  refine .alone fun first opens => .step start_begins fun begin => .given fun same => ?_
  obtain rfl := same
  refine .since (fun _ => Cursor.Begins.behind) (.eat (expect_eats "new") fun _ => ?_)
  refine .skip (accept_skips ".") fun _ => .branch (.eat member_name_lays.eats fun _ =>
    close_reads_from rfl opens rfl rfl) (.lay (constructed_lays lays) fun callee => ?_)
  refine .skip is_typed_skips fun _ => .branch (.attempting
    (fun types => Cursor.Behind text true begin [callee, types]) (call_types_lay lays _ _ _)
    (fun types => ?_) ?_) (.set ?_)
  all_goals
    refine .skip (next_is_skips "(") fun _ => .option (call_arguments_lays lays) fun inputs => ?_
    exact close_reads_from rfl opens (by simp) rfl

theorem chain_lays (lays : g.LaysOut text) : (chain g).Lays text := by
  refine fun _ first trees => .skip (next_is_skips "new") fun _ =>
    .branch (.lay (new_expression_lays lays) fun object => ?_)
      (.lay (primary_lays lays) fun object => ?_)
  all_goals
    exact .repeatFrom (fun object => Cursor.Behind text true first (trees ++ [object]))
      (postfix_step_grows lays)

theorem counted_lays (lays : g.LaysOut text) : (counted g).Lays text := by
  refine fun _ first trees => .lay (chain_lays lays) fun value => .skip peek_skips fun _ =>
    .branch (.eat take_eats fun _ => ?_) (.pure fun _ => id)
  exact close_over trees [] rfl rfl rfl rfl

theorem assertion_lays (lays : g.LaysOut text) : (assertion g).Lays text := by
  refine node_lays rfl rfl fun first => .eat (expect_eats "<") fun _ => ?_
  refine .step (.inBrackets (lays.typeTerm _ _ _)) fun type => .eat close_angle_eats fun _ => ?_
  exact .lay lays.operand fun _ => .children rfl

theorem any_operand_lays (lays : g.LaysOut text) : (anyOperand g).Lays text := by
  have applied : (node .group do
      let _ ← take
      return [← g.operand]).Lays text :=
    node_lays rfl rfl fun _ => .eat take_eats fun _ => .lay lays.operand fun _ => .children rfl
  refine fun _ _ _ => .skip peek_skips fun token => .branch (applied _ _ _) ?_
  refine .branch (.branch (.either (applied _ _ _) (counted_lays lays _ _ _)) (applied _ _ _)) ?_
  refine .skip is_typed_skips fun _ => .skip has_markup_skips fun _ => ?_
  exact .branch (assertion_lays lays _ _ _) (counted_lays lays _ _ _)

theorem next_is_binary_skips : nextIsBinary.Skips text := by
  refine fun _ _ _ => .skip peek_skips fun token => .branch (.pure fun _ => id) ?_
  exact .branch (.skip setting_skips fun _ => .pure fun _ => id) (.pure fun _ => id)

theorem cast_type_lays (lays : g.LaysOut text) {first : Nat} {trees : List Tree} :
    (castType g).Reads text (Cursor.Behind text true first trees) fun found =>
      Cursor.Behind text true first (trees ++ found) :=
  .skip (accept_skips "const") fun _ => .branch .nothing (.lay lays.typeTerm fun _ => .found rfl)

theorem operands_lay (lays : g.LaysOut text) : (operands g).Lays text := by
  refine fun _ first trees => .lay (any_operand_lays lays) fun head => ?_
  refine .since (fun _ behind => ⟨behind, [], rfl⟩) (.step (.repeatFrom (fun found cursor =>
    cursor.Behind text true first (trees ++ found) ∧ ∃ more, found = head :: more) fun found => ?_)
    fun all => .given fun ⟨more, same⟩ => ?_)
  · refine .given fun ⟨more, same⟩ => .skip next_is_binary_skips fun _ => .branch ?_ ?_
    · refine .eat take_eats fun _ => .lay (any_operand_lays lays) fun value =>
        .pure fun _ behind => ?_
      exact ⟨by simpa using behind, more ++ [value], by simp [same]⟩
    · refine .skip is_typed_skips fun _ => .skip (next_is_one_of_skips _) fun _ =>
        .skip continues_line_skips fun _ => .branch ?_ (.pure fun _ behind => ⟨behind, more, same⟩)
      refine .eat take_eats fun _ => .step (cast_type_lays lays) fun type =>
        .pure fun _ behind => ?_
      exact ⟨by simpa using behind, more ++ type, by simp [same]⟩
  · obtain rfl := same
    refine .skip position_skips fun _ => .branch ?_ (close_over trees more rfl rfl rfl rfl)
    exact .dropping (by simp) (.pure fun _ => id)

theorem conditional_lays (lays : g.LaysOut text) : (conditional g).Lays text := by
  refine fun _ first trees => .lay (operands_lay lays) fun condition => ?_
  refine .skip (accept_skips "?") fun _ => .branch ?_ (.pure fun _ => id)
  have branch (plain : Bool) : Parse.Lays (do
      let value ← within
        (fun old => { old with withoutIn := false, plainBranch := plain }) g.assignment
      let _ ← expect ":"
      return value) text :=
    fun _ _ _ => .step (.within (fun _ => rfl) (lays.assignment _ _ _)) fun _ =>
      .eat (expect_eats ":") fun _ => .pure fun _ => id
  refine .step (.either (branch false _ _ _) (branch true _ _ _)) fun positive => ?_
  exact .lay lays.assignment fun negative =>
    close_over trees [positive, negative] (by simp) rfl rfl (by simp)

theorem arrow_body_lays (lays : g.LaysOut text) : (arrowBody g).Lays text :=
  fun _ _ _ => .eat (expect_eats "=>") fun _ => .skip (next_is_skips "\x7b") fun _ =>
    .branch (block_lays lays _ _ _) (lays.assignment _ _ _)

theorem arrow_signature_lays (lays : g.LaysOut text) : (arrowSignature g).LaysAll text := by
  refine fun _ _ _ => .skip is_typed_skips fun _ => .skip (next_is_skips "<") fun _ =>
    .option (type_parameters_lays lays) fun generics => .lay (parameters_lays lays) fun inputs => ?_
  refine .skip setting_skips fun _ => .branch (.set ?_)
    (.mayLay (optional_return_type_lays lays) fun output => ?_)
  all_goals
    exact .skip (next_is_skips "=>") fun _ => .guarded fun _ => .found (by simp)

theorem arrow_function_lays (lays : g.LaysOut text) : (arrowFunction g).Lays text := by
  have inputs : Parse.LaysAll (do
      if (← peek).isWord then
        let name ← identifier
        Parse.guard (← nextIs "=>")
        return [name]
      else arrowSignature g) text := by
    refine fun _ _ _ => .skip peek_skips fun _ => .branch ?_ (arrow_signature_lays lays _ _ _)
    refine .lay identifier_lays fun name => .skip (next_is_skips "=>") fun _ => .guarded fun _ => ?_
    exact .found rfl
  refine node_lays rfl rfl fun first => .step (.either ?_ (inputs _ _ _)) fun names =>
    .lay (arrow_body_lays lays) fun _ => .children (by simp)
  exact .eat (expect_eats "async") fun _ => .skip peek_skips fun _ => .guarded fun _ =>
    inputs _ _ _

theorem yield_expression_lays (lays : g.LaysOut text) : (yieldExpression g).Lays text := by
  refine node_lays rfl rfl fun first => .eat (expect_eats "yield") fun _ => ?_
  refine .skip (accept_skips "*") fun _ => .branch (.lay lays.assignment fun _ => .children rfl) ?_
  refine .skip peek_skips fun _ => .branch (.children rfl) ?_
  exact .attempting (fun value => Cursor.Behind text true first [value]) (lays.assignment _ _ _)
    (fun _ => .children rfl) (.children rfl)

theorem assignment_or_value_lays (lays : g.LaysOut text) : (assignmentOrValue g).Lays text := by
  refine fun _ first trees => .lay (conditional_lays lays) fun target => .skip peek_skips fun _ =>
    .branch (.eat take_eats fun _ => ?_) (.pure fun _ => id)
  exact .lay lays.assignment fun value => close_over trees [value] (by simp) rfl rfl (by simp)

theorem any_assignment_lays (lays : g.LaysOut text) : (anyAssignment g).Lays text := by
  refine fun _ _ _ => .skip peek_skips fun _ => .branch (yield_expression_lays lays _ _ _) ?_
  refine .branch ?_ (assignment_or_value_lays lays _ _ _)
  exact .either (arrow_function_lays lays _ _ _) (assignment_or_value_lays lays _ _ _)

theorem any_expression_lays (lays : g.LaysOut text) : (anyExpression g).Lays text := by
  refine fun _ first trees => .lay (any_assignment_lays lays) fun head => ?_
  refine .step (many_lays fun _ => ?_) fun rest => ?_
  · exact .skip (accept_skips ",") fun _ => .branch (.lay (any_assignment_lays lays) fun _ => .item)
      .ended
  · exact .branch (.dropping (by simp) (.pure fun _ => id))
      (close_over trees rest (by simp) rfl rfl rfl)

end DeadExports.Source.Grammar

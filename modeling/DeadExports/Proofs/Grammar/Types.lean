import DeadExports.Proofs.Source.Laying

set_option autoImplicit false

namespace DeadExports.Source.Grammar

open Parse

structure LaysOut (text : String) (g : Grammar) : Prop where
  expression : g.expression.Lays text
  assignment : g.assignment.Lays text
  operand : g.operand.Lays text
  typeTerm : g.typeTerm.Lays text
  binding : g.binding.Lays text
  statement : g.statement.Lays text
  element : g.element.Lays text

variable {text : String} {g : Grammar}

theorem identifier_lays : identifier.Lays text :=
  fun _ _ _ => .skip peek_skips fun _ => .guarded fun _ => leaf_lays rfl _ _ _

theorem member_name_lays : memberName.Lays text :=
  fun _ _ _ => .skip peek_skips fun _ => .guarded fun _ => leaf_lays rfl _ _ _

theorem member_key_lays (lays : g.LaysOut text) : (memberKey g).Lays text := by
  refine fun _ _ _ => .skip peek_skips fun token => ?_
  split
  · exact leaf_lays rfl _ _ _
  · exact leaf_lays rfl _ _ _
  · exact leaf_lays rfl _ _ _
  · exact leaf_lays rfl _ _ _
  · refine node_lays rfl rfl (fun _ => ?_) _ _ _
    refine .eat (expect_eats "[") fun _ => .step (.inBrackets (lays.expression _ _ _)) fun key => ?_
    exact .eat (expect_eats "]") fun _ => .children (by simp)

theorem parenthesized_lays (lays : g.LaysOut text) : (parenthesized g).Lays text := by
  refine node_lays rfl rfl fun _ => .eat (expect_eats "(") fun _ => ?_
  refine .step (.inBrackets (lays.expression _ _ _)) fun inner => ?_
  exact .eat (expect_eats ")") fun _ => .children (by simp)

theorem template_text_reads {first : Nat} {trees : List Tree} :
    templateText.Reads text (Cursor.Behind text true first trees) fun _ =>
      Cursor.Behind text true first trees := by
  refine .step setting_reads fun now => .given fun here => .step position_reads fun offset => ?_
  intro _ cursor _ _ _ start read
  obtain ⟨⟨⟨sound, stands, ordered⟩, moved, -⟩, rfl⟩ := start
  rw [here] at read
  cases found : templateStop? text cursor.position with
  | some stopped =>
      obtain ⟨_, stop⟩ := stopped
      rw [found] at read
      cases read
      obtain ⟨inks, filled⟩ := template_stop_inks text cursor.position stop _ found
      refine ⟨⟨moved_sound stop (inks.closes sound.boundary), stands, ?_⟩, moved.trans filled, ?_⟩
      · exact Span.in_order_widen _ _ _ _ _ (Nat.le_refl _) filled.le ordered
      · exact Text.ink_before text stop (Nat.zero_lt_of_lt filled)
          (inks.ink sound.boundary filled)
  | none =>
      rw [found] at read
      cases read

theorem template_lays {hole : Parse Tree} (lays : hole.Lays text) : (template hole).Lays text := by
  refine node_lays rfl rfl fun first => .eat (expect_shape_eats .template) fun _ => ?_
  refine .step template_text_reads fun _ => .branch (.step (.repeatFrom
    (fun (found : List Tree × Bool) => Cursor.Behind text true first found.1) fun found => ?_)
    fun _ => .children rfl)
    (.children rfl)
  refine .branch ?_ (.pure fun _ => id)
  refine .step (.inBrackets (lays _ _ _)) fun inner => .eat (expect_eats "\x7d") fun _ => ?_
  exact .step template_text_reads fun _ => .pure fun _ => id

theorem regular_expression_reads {first : Nat}
    (sign : Text.isSign (Text.charAt text first) = true) :
    regularExpression.Reads text (Cursor.Begins text first) fun tree =>
      Cursor.Behind text true first [tree] := by
  refine .step peek_begins fun token => .given fun same => .step setting_reads fun now =>
    .given fun here => ?_
  obtain rfl := same
  rw [here]
  dsimp only
  split
  next stop found =>
      have opens := Text.sign_inks sign
      obtain ⟨inks, filled⟩ := regex_end_inks text false _ stop found
      have flags := Text.run_inks text (fun char => char.isAlpha) stop fun char letter =>
        (Bool.and_eq_true _ _ ▸ letter_sign char (by rw [Char.isAlphanum, letter]; rfl)).2
      have moves := filled.trans_le flags.ordered
      intro setting cursor tree rest here begins read
      refine Reads.step (move_reads begins.opens ((opens.trans inks).trans flags) (by omega))
        (fun _ => close_reads_from rfl begins.opens rfl rfl) setting cursor tree rest here
        begins read
  next => exact .refuse

theorem spreadable_lays (lays : g.LaysOut text) : (spreadable g).Lays text := by
  refine fun _ _ _ => .skip (next_is_skips "...") fun _ => .branch ?_ (lays.assignment _ _ _)
  refine node_lays rfl rfl (fun _ => ?_) _ _ _
  exact .eat take_eats fun _ => .lay lays.assignment fun _ => .children (by simp)

theorem call_arguments_lays (lays : g.LaysOut text) : (callArguments g).Lays text :=
  node_lays rfl rfl fun _ => .eat (expect_eats "(") fun _ =>
    .inBrackets (separated_lays (spreadable_lays lays)).children

theorem member_chain_grows {first : Nat} {trees : List Tree} (object : Tree) :
    (memberChain object).Reads text (Cursor.Behind text true first (trees ++ [object])) fun chain =>
      Cursor.Behind text true first (trees ++ [chain]) := by
  refine .repeatFrom (fun object => Cursor.Behind text true first (trees ++ [object])) fun object =>
    ?_
  refine .skip (accept_skips ".") fun _ => .branch ?_ (.pure fun _ => id)
  refine .lay member_name_lays fun property => ?_
  exact .step (close_over trees [property] (by simp) rfl rfl (by simp)) fun _ => .pure fun _ => id

theorem type_arguments_lays (lays : g.LaysOut text) : (typeArguments g).Lays text := by
  refine node_lays rfl rfl fun first => .eat (expect_eats "<") fun _ => ?_
  refine .step (.inBrackets (many_lays fun trees => ?_)) fun types =>
    .eat close_angle_eats fun _ => .children (by simp)
  refine .skip peek_skips fun _ => .branch .ended (.lay lays.typeTerm fun item => ?_)
  exact .skip peek_skips fun _ => .branch (.eat (expect_eats ",") fun _ => .item) .item

theorem optional_type_arguments_lay (lays : g.LaysOut text) :
    (optionalTypeArguments g).MayLay text :=
  fun _ _ _ => .skip (next_is_skips "<") fun _ =>
    .branch (.lay (type_arguments_lays lays) fun _ => .found rfl) .nothing

theorem type_parameter_lays (lays : g.LaysOut text) : (typeParameter g).Lays text := by
  refine node_lays rfl rfl fun first => .step (many_skips ?_) fun _ => ?_
  · refine .skip peek_second_skips fun _ => .skip (next_is_one_of_skips _) fun _ => ?_
    exact .mayTake
  · refine .skip peek_skips fun _ => .guarded fun _ => .lay (leaf_lays rfl) fun name => ?_
    refine .skip (accept_skips "extends") fun _ => .option lays.typeTerm fun bound => ?_
    exact .skip (accept_skips "=") fun _ => .option lays.typeTerm fun _ => .children (by simp)

theorem type_parameters_lays (lays : g.LaysOut text) : (typeParameters g).Lays text := by
  refine node_lays rfl rfl fun first => .eat (expect_eats "<") fun _ => ?_
  refine .step (.inBrackets (many_lays fun trees => ?_)) fun types =>
    .eat close_angle_eats fun _ => .children (by simp)
  refine .skip peek_skips fun _ => .branch .ended (.lay (type_parameter_lays lays) fun item => ?_)
  exact .skip peek_skips fun _ => .branch (.eat (expect_eats ",") fun _ => .item) .item

theorem optional_type_parameters_lay (lays : g.LaysOut text) :
    (optionalTypeParameters g).MayLay text :=
  fun _ _ _ => .skip is_typed_skips fun _ => .skip (next_is_skips "<") fun _ =>
    .branch (.lay (type_parameters_lays lays) fun _ => .found rfl) .nothing

theorem optional_annotation_lays (lays : g.LaysOut text) : ( optionalAnnotation g).MayLay text :=
  fun _ _ _ => .skip (accept_typed_skips ":") fun _ =>
    .branch (.lay lays.typeTerm fun _ => .found rfl) .nothing

theorem type_predicate_lays (lays : g.LaysOut text) : (typePredicate g).Lays text := by
  have subject : Parse.Lays (do
      let token ← peek
      Parse.guard token.isWord
      if token.text == "this" then leaf .literal else leaf .identifier) text :=
    fun _ _ _ => .skip peek_skips fun _ => .guarded fun _ =>
      .branch (leaf_lays rfl _ _ _) (leaf_lays rfl _ _ _)
  refine node_lays rfl rfl fun first => .either ?_ ?_
  · refine .eat (expect_eats "asserts") fun _ => .skip peek_skips fun _ => .guarded fun _ => ?_
    refine .lay subject fun name => .skip (accept_skips "is") fun _ => .branch ?_ (.children rfl)
    exact .lay lays.typeTerm fun _ => .children rfl
  · refine .lay subject fun name => .skip peek_skips fun _ => .guarded fun _ => ?_
    exact .eat (expect_eats "is") fun _ => .lay lays.typeTerm fun _ => .children rfl

theorem return_type_lays (lays : g.LaysOut text) : (returnType g).Lays text :=
  fun _ _ _ => .either (type_predicate_lays lays _ _ _) (lays.typeTerm _ _ _)

theorem optional_return_type_lays (lays : g.LaysOut text) :
    (optionalReturnType g).MayLay text :=
  fun _ _ _ => .skip (accept_typed_skips ":") fun _ =>
    .branch (.lay (return_type_lays lays) fun _ => .found rfl) .nothing

theorem decorator_lays (lays : g.LaysOut text) : (decorator g).Lays text := by
  refine node_lays rfl rfl fun first => .eat (expect_eats "@") fun _ => ?_
  refine .skip (next_is_skips "(") fun _ => .branch ?_ ?_
  · exact .lay (parenthesized_lays lays) fun _ => .children rfl
  · refine .lay identifier_lays fun name => .step (member_chain_grows name) fun callee => ?_
    refine .mayLay (optional_type_arguments_lay lays) fun generics => ?_
    refine .skip (next_is_skips "(") fun _ => .branch ?_ (.children rfl)
    refine .lay (call_arguments_lays lays) fun inputs => ?_
    exact .step (close_over [] (generics ++ [inputs]) (by simp) rfl rfl (by simp)) fun call =>
      .children rfl

theorem decorators_lay (lays : g.LaysOut text) : (decorators g).MayLay text := by
  refine fun _ _ _ => many_lays fun trees => .skip (next_is_skips "@") fun _ => ?_
  exact .branch (.lay (decorator_lays lays) fun _ => .item) .ended

theorem skip_parameter_modifiers_skips : skipParameterModifiers.Skips text := by
  refine fun _ _ _ => .skip is_typed_skips fun _ => .branch ?_ (.pure fun _ => id)
  refine .step (many_skips ?_) fun _ => .pure fun _ => id
  refine .skip peek_second_skips fun _ => .skip (next_is_one_of_skips _) fun _ => ?_
  exact .mayTake

theorem parameter_lays (lays : g.LaysOut text) : (parameter g).Lays text := by
  refine node_lays rfl rfl fun first => .mayLay (decorators_lay lays) fun marks => ?_
  refine .skip skip_parameter_modifiers_skips fun _ => ?_
  refine .skip (next_is_skips "...") fun _ => .skip (next_is_skips "this") fun _ =>
    .branch (.lay (node_lays rfl rfl fun _ => ?_) fun target => ?_)
      (.branch (.lay (leaf_lays rfl) fun target => ?_) (.lay lays.binding fun target => ?_))
  case refine_1 => exact .eat take_eats fun _ => .lay lays.binding fun _ => .children rfl
  all_goals
    refine .skip is_typed_skips fun _ => .branch (.skip (accept_skips "?") fun _ => ?_) ?_
    all_goals
      refine .mayLay (optional_annotation_lays lays) fun annotation => ?_
      exact .skip (accept_skips "=") fun _ => .option lays.assignment fun _ => .children (by simp)

theorem parameters_lays (lays : g.LaysOut text) : (parameters g).Lays text :=
  node_lays rfl rfl fun _ => .eat (expect_eats "(") fun _ =>
    .inBrackets (separated_lays (parameter_lays lays)).children

theorem signature_lays (lays : g.LaysOut text) : (signature g).LaysAll text := by
  refine fun _ _ _ => .mayLay (optional_type_parameters_lay lays) fun generics => ?_
  refine .lay (parameters_lays lays) fun inputs => ?_
  exact .mayLay (optional_return_type_lays lays) fun output => .found (by simp)

theorem function_type_lays (lays : g.LaysOut text) : (functionType g).Lays text := by
  refine node_lays rfl rfl fun first => .skip (accept_skips "abstract") fun _ =>
    .skip (accept_skips "new") fun _ => ?_
  refine .mayLay (optional_type_parameters_lay lays) fun generics => ?_
  refine .lay (parameters_lays lays) fun inputs => .eat (expect_eats "=>") fun _ => ?_
  exact .lay (return_type_lays lays) fun _ => .children (by simp)

theorem mapped_member_lays (lays : g.LaysOut text) : (mappedMember g).Lays text := by
  refine node_lays rfl rfl fun first => .skip (accept_skips "+") fun _ =>
    .skip (accept_skips "-") fun _ => .skip (accept_skips "readonly") fun _ =>
    .eat (expect_eats "[") fun _ => .skip peek_skips fun _ => .guarded fun _ => ?_
  refine .lay (leaf_lays rfl) fun key => .eat (expect_eats "in") fun _ => ?_
  refine .lay lays.typeTerm fun range => .skip (accept_skips "as") fun _ => ?_
  refine .option lays.typeTerm fun renamed => .eat (expect_eats "]") fun _ => ?_
  refine .skip (accept_skips "+") fun _ => .skip (accept_skips "-") fun _ =>
    .skip (accept_skips "?") fun _ => ?_
  exact .mayLay (optional_annotation_lays lays) fun _ => .children (by simp)

theorem index_signature_lays (lays : g.LaysOut text) : (indexSignature g).Lays text := by
  refine node_lays rfl rfl fun first => .eat (expect_eats "[") fun _ => ?_
  refine .lay identifier_lays fun key => .eat (expect_eats ":") fun _ => ?_
  refine .step (.inBrackets (lays.typeTerm _ _ _)) fun range => .eat (expect_eats "]") fun _ => ?_
  exact .mayLay (optional_return_type_lays lays) fun _ => .children (by simp)

theorem skip_words_before_key_skips (words : List String) :
    (skipWordsBeforeKey words).Skips text := by
  refine fun _ _ _ => .step (many_skips ?_) fun _ => .pure fun _ => id
  refine .skip peek_second_skips fun _ => .skip (next_is_one_of_skips _) fun _ => ?_
  exact .mayTake

theorem keyed_member_lays (lays : g.LaysOut text) : (keyedMember g).Lays text := by
  refine node_lays rfl rfl fun first => .skip (skip_words_before_key_skips _) fun _ => ?_
  refine .lay (member_key_lays lays) fun key => .skip (accept_skips "?") fun _ => ?_
  refine .skip (next_is_one_of_skips _) fun _ => .branch ?_ ?_
  · exact .layAll (signature_lays lays) fun _ => .children (by simp)
  · exact .mayLay (optional_annotation_lays lays) fun _ => .children (by simp)

theorem type_member_lays (lays : g.LaysOut text) : (typeMember g).Lays text := by
  refine fun _ _ _ => .either (mapped_member_lays lays _ _ _) (.either ?_ (.either ?_
    (keyed_member_lays lays _ _ _)))
  · refine .step (many_skips ?_) fun _ => index_signature_lays lays _ _ _
    refine .skip (next_is_one_of_skips _) fun _ => .skip peek_second_skips fun _ => ?_
    exact .mayTake
  · refine node_lays rfl rfl (fun _ => ?_) _ _ _
    refine .skip (next_is_skips "new") fun _ => .skip peek_second_skips fun _ => ?_
    exact .branch (.eat take_eats fun _ => (signature_lays lays).children)
      (signature_lays lays).children

theorem type_members_lays (lays : g.LaysOut text) : (typeMembers g).Lays text := by
  refine node_lays rfl rfl fun first => .eat (expect_eats "\x7b") fun _ => ?_
  refine .step (.inBrackets (many_lays fun trees => ?_)) fun members =>
    .eat (expect_eats "\x7d") fun _ => ?_
  · refine .skip (next_is_skips "\x7d") fun _ => .branch .ended ?_
    refine .skip (next_is_one_of_skips _) fun _ => .branch (.lay (leaf_lays rfl) fun _ => .item) ?_
    exact .lay (type_member_lays lays) fun _ => .skip peek_skips fun _ => .guarded fun _ => .item
  · exact .dropping (by simp) (.children rfl)

theorem tuple_item_lays (lays : g.LaysOut text) : (tupleItem g).Lays text := by
  refine node_lays rfl rfl fun first => .skip (accept_skips "...") fun _ => .either ?_ ?_
  · refine .skip peek_skips fun _ => .guarded fun _ => .lay (leaf_lays rfl) fun name => ?_
    refine .skip (accept_skips "?") fun _ => .eat (expect_eats ":") fun _ => ?_
    exact .lay lays.typeTerm fun _ => .children rfl
  · exact .lay lays.typeTerm fun _ => .skip (accept_skips "?") fun _ => .children rfl

theorem import_call_lays (lays : g.LaysOut text) : (importCall g).Lays text := by
  refine node_lays rfl rfl fun first => .skip (next_is_skips "import") fun _ => .guarded fun _ => ?_
  refine .lay (leaf_lays rfl) fun callee => .lay (call_arguments_lays lays) fun inputs => ?_
  exact .children (by simp)

theorem type_query_lays (lays : g.LaysOut text) : (typeQuery g).Lays text := by
  refine node_lays rfl rfl fun first => .eat (expect_eats "typeof") fun _ => ?_
  refine .skip (next_is_skips "import") fun _ => .skip (next_is_skips "this") fun _ =>
    .branch (.lay (import_call_lays lays) fun head => ?_)
      (.branch (.lay (leaf_lays rfl) fun head => ?_) (.lay identifier_lays fun head => ?_))
  all_goals
    refine .step (member_chain_grows head) fun value => .skip peek_skips fun _ => ?_
    exact .branch (.step .nothing fun _ => .children (by simp))
      (.mayLay (optional_type_arguments_lay lays) fun _ => .children (by simp))

def nestedName (head : Span) (object : Tree) (part : Span) : Tree :=
  .branch .nestedIdentifier ⟨head.start, part.stop⟩
    [object.inRole .object, (Tree.leaf .propertyIdentifier part).inRole .property]

theorem nested_behind {first : Nat} {more : List Tree} {cursor : Cursor} (head : Span)
    (rest : List Span) (object : Tree) (starts : object.span.start = head.start)
    (behind : cursor.Behind text true first
      (object :: rest.map (Tree.leaf .identifier) ++ more)) :
    cursor.Behind text true first (rest.foldl (nestedName head) object :: more) := by
  induction rest generalizing object with
  | nil => exact behind
  | cons part rest ih =>
      obtain ⟨⟨sound, stands, ordered⟩, moved, ink⟩ := behind
      obtain ⟨before, filled, after, filled', later⟩ := ordered
      have after : object.span.stop ≤ part.start := after
      have filled' : part.start < part.stop := filled'
      have object' := stands object (by simp)
      have part' := stands (.leaf .identifier part) (by simp)
      have order : head.start < part.stop := by omega
      have inside : (nestedName head object part).Stands text := by
        refine .close [object, .leaf .propertyIdentifier part] rfl (starts ▸ object'.opens) order
          part'.ends.1 part'.ends.2 ?_ ⟨starts.ge, filled, after, filled', Nat.le_refl _⟩ (by simp)
          rfl
        intro tree member
        rcases List.mem_pair.mp member with rfl | rfl
        · exact object'
        · exact part'.leaf filled' rfl
      refine ih (nestedName head object part) rfl ⟨⟨sound, fun tree member => ?_, ?_⟩, moved, ink⟩
      · rcases List.mem_cons.mp member with rfl | old
        · exact inside
        · exact stands tree (List.mem_cons_of_mem _ (List.mem_cons_of_mem _ old))
      · exact ⟨starts ▸ before, order, later⟩

theorem type_name_lays : typeName.Lays text := by
  refine .alone fun first opens => .step peek_begins fun _ => .given fun _ => .guarded fun _ => ?_
  refine .step peek_begins fun begin => .given fun starts =>
    .since (fun _ => Cursor.Begins.behind) ?_
  refine .step (many_emits (fun span => [Tree.leaf .identifier span]) [] fun trees => ?_)
    fun path => ?_
  · refine .step peek_behind fun token => .step (peek_second_seen token) fun _ => .branch ?_ ?_
    · refine .step (take_seen .identifier rfl token) fun _ => .given fun _ => ?_
      exact .eat take_eats fun _ => .pure fun _ behind => behind.start
    · exact .pure fun _ behind => by simpa using behind.1
  · refine .skip peek_skips fun _ => .guarded fun _ => .lay (leaf_lays rfl) fun name => ?_
    obtain rfl := starts
    cases path with
    | nil => exact .pure fun _ => id
    | cons head rest =>
        have nested (cursor : Cursor) (behind : cursor.Behind text true begin.span.start
            ([] ++ (head :: rest).flatMap (fun span => [Tree.leaf .identifier span]) ++ [name])) :
            cursor.Behind text true begin.span.start
              [rest.foldl (nestedName head) (.leaf .identifier head), name] :=
          nested_behind head rest _ rfl (by simpa [List.map_eq_flatMap] using behind)
        refine .since nested (close_reads_from rfl opens ?_ rfl)
        simp only [List.map_cons, List.map_nil, Tree.bare_in_role]
        rfl

theorem primary_type_lays (lays : g.LaysOut text) : (primaryType g).Lays text := by
  refine .alone fun first opens => .step peek_begins fun token => .given fun starts => ?_
  obtain rfl := starts
  split
  · exact (leaf_lays rfl).begins
  · exact (leaf_lays rfl).begins
  · exact (template_lays lays.typeTerm).begins
  · refine .branch (type_query_lays lays).begins (.branch (node_lays rfl rfl fun _ => ?_).begins ?_)
    · refine .lay (import_call_lays lays) fun head => .step (member_chain_grows head)
        fun value => ?_
      exact .mayLay (optional_type_arguments_lay lays) fun _ => .children (by simp)
    · refine .since (fun _ => Cursor.Begins.behind) (.skip peek_second_skips fun _ => .branch ?_ ?_)
      · exact .eat take_eats fun _ => leaf_lays rfl _ _ _
      · refine .branch (leaf_lays rfl _ _ _) (.skip peek_second_skips fun _ => ?_)
        refine .branch (leaf_lays rfl _ _ _) (.guarded fun _ => ?_)
        refine node_lays rfl rfl (fun _ => ?_) _ _ _
        refine .lay type_name_lays fun name => ?_
        exact .mayLay (optional_type_arguments_lay lays) fun _ => .children (by simp)
  · split
    · refine (node_lays rfl rfl fun _ => .eat take_eats fun _ => ?_).begins
      refine .step (.inBrackets (lays.typeTerm _ _ _)) fun inner => ?_
      exact .eat (expect_eats ")") fun _ => .children rfl
    · refine (node_lays rfl rfl fun _ => .eat take_eats fun _ => ?_).begins
      exact .inBrackets (separated_lays (tuple_item_lays lays)).children
    · exact (type_members_lays lays).begins
    · refine .since (fun _ => Cursor.Begins.behind) (.eat take_eats fun _ => ?_)
      exact .eat (expect_shape_eats .number) fun _ => close_reads_from rfl opens rfl rfl
    · exact .refuse

theorem postfix_type_lays (lays : g.LaysOut text) : (postfixType g).Lays text := by
  refine fun _ first trees => .lay (primary_type_lays lays) fun base => ?_
  refine .repeatFrom (fun base => Cursor.Behind text true first (trees ++ [base])) fun base => ?_
  refine .skip (next_is_skips "[") fun _ => .skip continues_line_skips fun _ =>
    .branch ?_ (.pure fun _ => id)
  refine .eat take_eats fun _ => .skip (accept_skips "]") fun _ => .branch ?_ ?_
  · exact .step (close_over trees [] (by simp) rfl rfl (by simp)) fun _ => .pure fun _ => id
  · refine .step (.inBrackets (lays.typeTerm _ _ _)) fun key => .eat (expect_eats "]") fun _ => ?_
    exact .step (close_over trees [key] (by simp) rfl rfl (by simp)) fun _ => .pure fun _ => id

theorem infer_type_lays (lays : g.LaysOut text) : (inferType g).Lays text := by
  refine node_lays rfl rfl fun first => .eat (expect_eats "infer") fun _ =>
    .skip peek_skips fun _ =>
    .guarded fun _ => .lay (leaf_lays rfl) fun name => ?_
  refine .attempting (fun bound => Cursor.Behind text true first [name, bound]) ?_
    (fun bound => .children rfl) (.children rfl)
  refine .eat (expect_eats "extends") fun _ => .lay (postfix_type_lays lays) fun bound => ?_
  exact .skip (next_is_skips "?") fun _ => .guarded fun _ => .pure fun _ => id

theorem type_operand_lays (lays : g.LaysOut text) : (typeOperand g).Lays text := by
  refine .alone fun first opens => .since (fun _ begins => ⟨fun _ => begins, by simp⟩)
    (.step (.manyFrom (fun (operators : List Token) cursor =>
      (operators = [] → cursor.Begins text first) ∧ ∀ operator ∈ operators.head?,
        cursor.Behind text true first [] ∧ operator.span.start = first)
      fun operators => ?_) fun operators => ?_)
  · cases operators with
    | nil =>
        refine .since (fun _ holds => holds.1 rfl) (.step peek_second_looks.begins fun _ => ?_)
        refine .step (next_is_one_of_looks _).begins fun _ => .branch ?_ ?_
        · exact .step take_begins fun operator => .pure fun _ behind =>
            ⟨by simp, by simpa using behind⟩
        · exact .pure fun _ begins => ⟨fun _ => begins, by simp⟩
    | cons operator rest =>
        refine .since (fun _ holds => holds.2 operator rfl) (.given fun same => ?_)
        refine .skip peek_second_skips fun _ => .skip (next_is_one_of_skips _) fun _ => ?_
        refine .branch (.eat take_eats fun _ => ?_) ?_
        all_goals exact .pure fun _ behind => ⟨by simp, by simpa using ⟨behind, same⟩⟩
  · cases operators with
    | nil =>
        refine .since (fun _ holds => (holds.1 rfl).behind) (.skip (next_is_skips "infer") ?_)
        refine fun _ => .skip peek_second_skips fun _ => .branch ?_ ?_
        · exact .lay (infer_type_lays lays) fun _ => .pure fun _ => id
        · exact .lay (postfix_type_lays lays) fun _ => .pure fun _ => id
    | cons operator rest =>
        refine .since (fun _ holds => holds.2 operator rfl) (.given fun same => ?_)
        refine .skip (next_is_skips "infer") fun _ => .skip peek_second_skips fun _ => ?_
        obtain rfl := same
        refine .branch (.lay (infer_type_lays lays) fun _ => ?_)
          (.lay (postfix_type_lays lays) fun _ => ?_)
        all_goals exact close_reads_from rfl opens (by simp) rfl

theorem type_operands_lay (mark : String) {operand : Parse Tree} (lays : operand.Lays text) :
    (typeOperands mark operand).Lays text := by
  refine .alone fun first opens => .step start_begins fun _ => .given fun same => ?_
  obtain rfl := same
  refine .since (fun _ => Cursor.Begins.behind) (.skip (accept_skips mark) fun _ => ?_)
  refine .lay lays fun head => .step (many_lays fun trees => ?_) fun rest => ?_
  · exact .skip (accept_skips mark) fun _ => .branch (.lay lays fun _ => .item) .ended
  · cases rest with
    | nil => exact .pure fun _ => id
    | cons => exact close_reads_from rfl opens (by simp) rfl

theorem union_type_lays (lays : g.LaysOut text) : (unionType g).Lays text :=
  type_operands_lay "|" (type_operands_lay "&" fun _ _ _ =>
    .either (function_type_lays lays _ _ _) (type_operand_lays lays _ _ _))

theorem any_type_lays (lays : g.LaysOut text) : (anyType g).Lays text := by
  refine fun _ first trees => .lay (union_type_lays lays) fun subject => ?_
  refine .skip (next_is_skips "extends") fun _ => .skip continues_line_skips fun _ =>
    .branch ?_ (.pure fun _ => id)
  refine .attempting (fun tree => Cursor.Behind text true first (trees ++ [tree])) ?_
    (fun _ => .pure fun _ => id) (.pure fun _ => id)
  refine .eat take_eats fun _ => .lay lays.typeTerm fun bound => ?_
  refine .eat (expect_eats "?") fun _ => .lay lays.typeTerm fun positive => ?_
  refine .eat (expect_eats ":") fun _ => .lay lays.typeTerm fun negative => ?_
  exact close_over trees [bound, positive, negative] (by simp) rfl rfl (by simp)

end DeadExports.Source.Grammar

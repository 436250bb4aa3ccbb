import DeadExports.Proofs.Grammar.Expressions

set_option autoImplicit false

namespace DeadExports.Source.Grammar

open Parse

variable {text : String} {g : Grammar}

theorem declarator_lays (lays : g.LaysOut text) : (declarator g).Lays text := by
  refine node_lays rfl rfl fun first => .lay (any_binding_lays lays) fun target => ?_
  refine .skip is_typed_skips fun _ => .branch (.skip (accept_skips "!") fun _ => ?_) ?_
  all_goals
    refine .mayLay (optional_annotation_lays lays) fun annotation => .skip (accept_skips "=")
      fun _ => .branch (.lay (any_assignment_lays lays) fun value => .set ?_) (.set ?_)
    all_goals exact .children (by simp)

theorem declarators_lay (lays : g.LaysOut text) : (declarators g).LaysAll text := by
  refine fun _ _ _ => .lay (declarator_lays lays) fun head => .step (many_lays fun _ => ?_)
    fun rest => .found (by simp)
  exact .skip (accept_skips ",") fun _ =>
    .branch (.lay (declarator_lays lays) fun _ => .item) .ended

theorem variable_list_lays (lays : g.LaysOut text) : (variableList g).Lays text := by
  refine .alone fun first opens => .step take_begins fun token => .given fun same => ?_
  obtain rfl := same
  refine .layAll (declarators_lay lays) fun found => .step (statement_end_reads _) fun _ => ?_
  have kind (word : String) : (variableKind word).isCommon = true ∧
      (variableKind word).isOpen = true := by
    rw [variableKind]
    split <;> exact ⟨rfl, rfl⟩
  exact close_reads_from (kind _).1 opens rfl (Tree.may_hold_open _ _ (kind _).2)

theorem function_declaration_lays (lays : g.LaysOut text) : (functionDeclaration g).Lays text := by
  refine .alone fun first opens => .step function_head_reads fun head => .given fun same => ?_
  obtain rfl := same
  refine .layKnown identifier_lays identifier_kind fun name plain => ?_
  refine .layAll (signature_lays lays) fun inputs => .skip (next_is_skips "\x7b") fun _ =>
    .branch (.lay (block_lays lays) fun body => .step (optional_end_reads _) fun _ => ?_) ?_
  · refine close_named [] [name] (inputs ++ [body]) (by simp) (by simp) ?_ ?_ opens ?_
    · split <;> rfl
    · split <;> rfl
    · simp [plain, Kind.isWord]
  · refine .skip is_typed_skips fun _ => .guarded fun _ => .step (statement_end_reads _) fun _ => ?_
    exact close_reads_from rfl opens (by simp) rfl

theorem class_rest_known (kind : Kind) (first : Nat) (marks : List Tree) :
    (classRest g kind first marks).Yields text fun tree =>
      tree.kind = kind ∧ tree.span.start = first := by
  refine .last fun _ => .branch (.last fun _ => .last fun _ => ?_) (.last fun _ => ?_)
  all_goals exact .last fun _ => .last fun _ => .last fun _ => .last fun _ => .pure ⟨rfl, rfl⟩

theorem class_declaration_reads (lays : g.LaysOut text) {moved : Bool} {first : Nat}
    {marks : List Tree} (opens : Text.Opens text first) :
    (classDeclaration g first marks).Reads text (Cursor.Behind text moved first marks) fun tree =>
      Cursor.Behind text true first [tree] := by
  refine .skip is_typed_skips fun _ => .branch (.skip (accept_skips "abstract") fun _ => ?_)
    (.set ?_)
  all_goals
    refine .eat (expect_eats "class") fun _ => .skip names_class_looks.skips fun _ =>
      .guarded fun _ => .branch (class_rest_reads lays rfl rfl opens) ?_
    refine .step ((class_rest_reads lays rfl rfl opens).known (class_rest_known _ _ _)) fun found =>
      .given fun ⟨kind, starts⟩ => .step (optional_end_reads _) fun _ => ?_
    exact close_again _ kind starts

theorem interface_declaration_lays (lays : g.LaysOut text) :
    (interfaceDeclaration g).Lays text := by
  refine node_lays rfl rfl fun first => .eat (expect_eats "interface") fun _ => ?_
  refine .lay class_name_lays fun name => .mayLay (optional_type_parameters_lay lays)
    fun generics => .skip (accept_skips "extends") fun _ =>
      .branch (.step (many_lays fun trees => ?_) fun bases => ?_) (.set ?_)
  · refine .skip (next_is_skips "\x7b") fun _ => .branch .ended ?_
    refine .lay (any_type_lays lays) fun base => .skip (next_is_skips "\x7b") fun _ => ?_
    exact .branch (.eat (expect_eats ",") fun _ => .item) .item
  all_goals exact .lay (type_members_lays lays) fun _ => .children (by simp)

theorem type_alias_lays (lays : g.LaysOut text) : (typeAlias g).Lays text := by
  refine node_lays rfl rfl fun first => .eat (expect_eats "type") fun _ => .skip peek_skips fun _ =>
    .guarded fun _ => .lay class_name_lays fun name => ?_
  refine .mayLay (optional_type_parameters_lay lays) fun generics => .eat (expect_eats "=")
    fun _ => .lay (any_type_lays lays) fun value => ?_
  exact .step (statement_end_reads _) fun _ => .children (by simp)

theorem enum_member_lays (lays : g.LaysOut text) : (enumMember g).Lays text := by
  refine node_lays rfl rfl fun first => .lay (member_key_lays lays) fun key => ?_
  exact .skip (accept_skips "=") fun _ =>
    .branch (.lay lays.assignment fun _ => .children rfl) (.children rfl)

theorem enum_declaration_lays (lays : g.LaysOut text) : (enumDeclaration g).Lays text := by
  refine node_lays rfl rfl fun first => .skip (accept_skips "const") fun _ =>
    .eat (expect_eats "enum") fun _ => .lay identifier_lays fun name => ?_
  refine .eat (expect_eats "\x7b") fun _ => ?_
  exact .step (.inBrackets (separated_lays (enum_member_lays lays) _ _ _)) fun _ =>
    .children (by simp)

theorem dotted_name_lays : dottedName.Lays text := by
  refine fun _ first trees => .lay identifier_lays fun name => ?_
  refine .repeatFrom (fun object => Cursor.Behind text true first (trees ++ [object]))
    fun object => ?_
  refine .skip (accept_skips ".") fun _ => .branch ?_ (.pure fun _ => id)
  refine .lay member_name_lays fun property => ?_
  exact .step (close_over trees [property] (by simp) rfl rfl (by simp)) fun _ => .pure fun _ => id

theorem namespace_declaration_lays (lays : g.LaysOut text) :
    (namespaceDeclaration g).Lays text := by
  refine node_lays rfl rfl fun first => .eat take_eats fun word => .guarded fun _ =>
    .skip peek_skips fun next => .guarded fun _ =>
      .branch (.lay (leaf_lays rfl) fun name => ?_) (.lay dotted_name_lays fun name => ?_)
  all_goals
    refine .skip (next_is_skips "\x7b") fun _ => .branch ?_ ?_
    · exact .lay (block_lays lays) fun _ => .children (by simp)
    · exact .guarded fun _ => .children (by simp)

theorem import_alias_lays : importAlias.Lays text := by
  refine node_lays rfl rfl fun first => .eat (expect_eats "import") fun _ =>
    .lay identifier_lays fun name => .eat (expect_eats "=") fun _ => ?_
  refine .skip (would_accept_skips _) fun _ => .guarded fun _ => .lay dotted_name_lays
    fun target => ?_
  exact .step (statement_end_reads _) fun _ => .children rfl

theorem plain_declaration_lays (lays : g.LaysOut text) : (plainDeclaration g).Lays text := by
  refine .alone fun first opens => .step peek_begins fun token => .given fun same => ?_
  obtain rfl := same
  refine .step starts_function_looks.begins fun _ =>
    .branch (function_declaration_lays lays).begins ?_
  refine .since (fun _ => Cursor.Begins.behind) (.branch ?_ (.branch ?_ ?_))
  · exact .mayLay (decorators_lay lays) fun marks => class_declaration_reads lays opens
  · exact class_declaration_reads lays opens
  · refine .skip is_typed_skips fun typed => .skip peek_second_skips fun second => ?_
    split
    case h_1 => exact .branch (enum_declaration_lays lays _ _ _) (variable_list_lays lays _ _ _)
    case h_4 => exact class_declaration_reads lays opens
    case h_5 => exact .guarded fun _ => interface_declaration_lays lays _ _ _
    case h_6 => exact .guarded fun _ => type_alias_lays lays _ _ _
    case h_7 => exact .guarded fun _ => enum_declaration_lays lays _ _ _
    case h_8 | h_9 => exact .guarded fun _ => namespace_declaration_lays lays _ _ _
    case h_10 => exact .guarded fun _ => import_alias_lays _ _ _
    case h_11 => exact .refuse
    case h_2 | h_3 => exact variable_list_lays lays _ _ _

theorem ambient_declaration_lays (lays : g.LaysOut text) : (ambientDeclaration g).Lays text := by
  refine node_lays rfl rfl fun first => .skip is_typed_skips fun _ => .guarded fun _ =>
    .eat (expect_eats "declare") fun _ => .skip peek_skips fun _ => .guarded fun _ => ?_
  refine .skip (next_is_skips "global") fun _ => .branch ?_ ?_
  · exact .eat take_eats fun _ => .lay (block_lays lays) fun _ => .children rfl
  · exact .lay (plain_declaration_lays lays) fun _ => .children rfl

theorem declaration_lays (lays : g.LaysOut text) : (declaration g).Lays text :=
  fun _ _ _ => .skip (next_is_skips "declare") fun _ =>
    .branch (ambient_declaration_lays lays _ _ _) (plain_declaration_lays lays _ _ _)

end DeadExports.Source.Grammar

import DeadExports.Proofs.Grammar.Declarations
import DeadExports.Proofs.Source.Following

set_option autoImplicit false

namespace DeadExports

namespace Tree

structure Listed (text : String) (clause : Tree) (first last : Nat) : Prop where
  opens : clause.span.start < first
  ordered : Span.InOrder first (clause.children.map Tree.span) last
  closes : last < clause.span.stop
  ink : clause.HasLastInk text
  each : ∀ child ∈ clause.children, child.Stands text ∧
    (child.kind = .comment ∨ child.HasLastInk text)

structure Lies (text : String) (tree : Tree) : Prop where
  laidOut : tree.isLaidOut = true
  placed : tree.isPlacedIn text = true
  listed : tree.kind = .exportClause → tree.isInkedList text = true

structure Exported (text : String) (what : List Tree) : Prop where
  each : ∀ tree ∈ what, tree.Lies text
  apart : (∀ tree ∈ what, tree.isExportTarget = false) ∨ ∀ tree ∈ what, tree.kind.isCommon = true

variable {text : String} {trees what : List Tree} {tree : Tree}

theorem listed_inked {first last : Nat} (listed : tree.Listed text first last)
    (opens : Text.hasInk text tree.span.start = true)
    (inside : tree.span.stop ≤ Text.size text) : tree.isInkedList text = true := by
  rw [isInkedList, opens, listed.ink, Bool.true_and, Bool.true_and, List.all_eq_true]
  intro child member
  obtain ⟨stands, known⟩ := listed.each child member
  obtain ⟨early, filled, late⟩ := Span.in_order_bounds _ _ _ listed.ordered child.span
    (List.mem_map_of_mem member)
  have before := listed.opens.trans_le early
  have behind := late.trans_lt listed.closes
  have ink := stands.opens.2 ((filled.trans behind).trans_le inside)
  rw [decide_eq_true before, decide_eq_true behind, Bool.true_and, Bool.true_and]
  rcases known with comment | last
  · rw [comment, beq_self_eq_true, Bool.true_or]
  · rw [ink, last, Bool.true_and, Bool.or_true]

theorem lies_of_bare (alike : ∀ child ∈ what, ∃ tree ∈ trees, tree.bare = child.bare)
    (stands : ∀ tree ∈ trees, tree.Stands text) : ∀ child ∈ what,
      child.Lies text ∧ child.kind.isCommon = true := by
  intro child member
  obtain ⟨tree, known, same⟩ := alike child member
  obtain ⟨laidOut, placed, -, -, common⟩ := stands tree known
  rw [← bare_laid_out, same, bare_laid_out] at laidOut
  rw [← bare_placed, same, bare_placed] at placed
  rw [← bare_kind, same, bare_kind] at common
  refine ⟨⟨laidOut, placed, fun clause => ?_⟩, common⟩
  rw [clause] at common
  cases common

theorem exported_of_bare (same : what.map bare = trees.map bare)
    (stands : ∀ tree ∈ trees, tree.Stands text) : Exported text what :=
  have lies := lies_of_bare (alike_member same) stands
  ⟨fun tree member => (lies tree member).1, .inr fun tree member => (lies tree member).2⟩

section Statement

variable {before : List Tree} (stands : ∀ tree ∈ before, tree.Stands text)
  (exported : Exported text what)

include stands

theorem no_target_before (tree : Tree) (member : tree ∈ before) :
    tree.isExportTarget = false := by
  rw [isExportTarget, (stands tree member).role]
  rfl

include exported

theorem export_apart : (before ++ what).any isExportTarget = false ∨
    ∀ tree ∈ before ++ what, tree.kind.isCommon = true := by
  refine exported.apart.imp (fun none => ?_) fun common tree member => ?_
  · rw [List.any_eq_false]
    intro tree member
    rcases List.mem_append.mp member with early | late
    · exact Bool.eq_false_iff.mp (no_target_before stands tree early)
    · exact Bool.eq_false_iff.mp (none tree late)
  · rcases List.mem_append.mp member with early | late
    · exact (stands tree early).common
    · exact common tree late

theorem may_hold_export (word : Tree) (member : word ∈ before) (isWord : word.kind = .exportWord) :
    mayHold .exportStatement (before ++ what) = true := by
  change (!(before ++ what).any isExportTarget ||
    ((before ++ what).takeWhile fun child => !child.isExportTarget).any
      (fun child => child.kind == .exportWord) &&
    (before ++ what).all fun child => child.kind != .namespaceExport && child.kind != .star) = true
  rcases export_apart stands exported with none | common
  · rw [none]
    rfl
  · have found : ((before ++ what).takeWhile fun child => !child.isExportTarget).any
        (fun child => child.kind == .exportWord) = true := by
      rw [List.takeWhile_append_of_pos fun tree early => by
        rw [no_target_before stands tree early]; rfl]
      exact List.any_eq_true.mpr
        ⟨word, List.mem_append_left _ member, beq_iff_eq.mpr isWord⟩
    have others : ((before ++ what).all fun child =>
        child.kind != .namespaceExport && child.kind != .star) = true := by
      refine List.all_eq_true.mpr fun tree member => ?_
      have usual := common tree member
      generalize tree.kind = kind at usual ⊢
      cases kind <;> first | rfl | cases usual
    rw [found, others, Bool.true_and, Bool.or_true]

theorem export_inked : ((before ++ what).all fun child => child.kind != .exportClause ||
    (child.isInkedList text && !(before ++ what).any isExportTarget)) = true := by
  refine List.all_eq_true.mpr fun child member => ?_
  cases clause : child.kind != .exportClause with
  | true => rfl
  | false =>
      have isClause : child.kind = .exportClause := by simpa using clause
      have special : child.kind.isCommon = false := by rw [isClause]; rfl
      rcases export_apart stands exported with none | common
      · rcases List.mem_append.mp member with early | late
        · exact absurd (stands child early).common (Bool.eq_false_iff.mp special)
        · rw [none, (exported.each child late).listed isClause]
          rfl
      · exact absurd (common child member) (Bool.eq_false_iff.mp special)

end Statement

end Tree

namespace Source.Grammar

open Parse

variable {text : String} {g : Grammar} {moved : Bool} {first : Nat} {trees : List Tree}

theorem module_source_reads :
    moduleSource.Reads text (Cursor.Behind text moved first trees) fun source =>
      Cursor.Behind text true first (trees ++ [source.bare]) := by
  refine .skip peek_skips fun _ => .guarded fun _ => .lay (leaf_lays rfl) fun source => ?_
  refine .pure fun _ behind => ?_
  have plain := (behind.stands source (by simp)).role
  rwa [Tree.bare_in_role, Tree.bare_of_role source plain]

theorem from_clause_reads :
    fromClause.Reads text (Cursor.Behind text moved first trees) fun source =>
      Cursor.Behind text true first (trees ++ [source.bare]) :=
  .eat (expect_eats "from") fun _ => module_source_reads

theorem import_attributes_skips (lays : g.LaysOut text) : (importAttributes g).Skips text := by
  refine fun _ _ _ => .skip (next_is_one_of_skips _) fun _ => .skip peek_second_skips fun _ =>
    .branch (.eat take_eats fun _ => ?_) (.pure fun _ => id)
  exact .eat (object_literal_lays lays).eats fun _ => .pure fun _ behind => behind.start

theorem listed_name_lays : listedName.Lays text := by
  refine fun _ _ _ => .skip peek_skips fun _ => ?_
  split
  · exact leaf_lays rfl _ _ _
  · exact leaf_lays rfl _ _ _
  · exact .refuse

theorem listed_name_word : listedName.Yields text fun name => name.kind.isWord = true := by
  refine .last fun _ => ?_
  split
  · exact .leaf fun _ => rfl
  · exact .leaf fun _ => rfl
  · exact .refuse

theorem identifier_inks :
    identifier.Reads text (Cursor.Sound text) fun _ => Cursor.Inked text :=
  .step peek_skips.sound fun _ => .guarded fun _ => (leaf_inks _).weaken fun _ _ => And.left

theorem listed_name_inks :
    listedName.Reads text (Cursor.Sound text) fun _ => Cursor.Inked text := by
  refine .step peek_skips.sound fun _ => ?_
  split
  · exact (leaf_inks _).weaken fun _ _ => And.left
  · exact (leaf_inks _).weaken fun _ _ => And.left
  · exact .refuse

theorem skip_type_word_skips : skipTypeWord.Skips text := by
  refine fun _ _ _ => .skip is_typed_skips fun _ => .skip (next_is_one_of_skips _) fun _ =>
    .branch ?_ (.pure fun _ => id)
  exact .skip peek_second_skips fun _ => .mayTake

theorem may_hold_specifier (kind : Kind) (name : Tree) (more : List Tree)
    (named : kind.hasPlainName = true) (word : name.kind.isWord = true)
    (plain : ∀ child ∈ more, child.role? ≠ some .name) :
    Tree.mayHold kind (name.inRole .name :: more) = true := by
  refine Tree.may_hold_named kind _ named fun child member isName => ?_
  rcases List.mem_cons.mp member with rfl | later
  · rwa [Tree.in_role_kind]
  · exact absurd isName (plain child later)

theorem export_specifier_lays : exportSpecifier.Lays text := by
  refine node_holds rfl fun first => .skip skip_type_word_skips fun _ =>
    .layKnown listed_name_lays listed_name_word fun name word => ?_
  refine .skip (accept_skips "as") fun _ => .branch (.lay listed_name_lays fun newName => ?_) ?_
  all_goals
    refine (Reads.children (by simp)).known (.pure (may_hold_specifier _ _ _ rfl word ?_))
    simp

theorem import_specifier_lays : importSpecifier.Lays text := by
  refine node_holds rfl fun first => .skip skip_type_word_skips fun _ =>
    .layKnown listed_name_lays listed_name_word fun name word => ?_
  refine .skip (accept_skips "as") fun _ =>
    .branch (.lay identifier_lays fun newName => ?_) (.guarded fun _ => ?_)
  all_goals
    refine (Reads.children (by simp)).known (.pure (may_hold_specifier _ _ _ rfl word ?_))
    simp

theorem export_specifier_ends : exportSpecifier.Reads text (Cursor.Sound text) fun tree rest =>
    tree.span.stop = rest.position ∧ tree.HasLastInk text := by
  refine .step start_skips.sound fun _ => .step (.step skip_type_word_skips.sound fun _ =>
    .step listed_name_inks fun _ => .step (accept_inks "as") fun _ => .branch ?_ ?_)
      fun _ => (close_inks _ _ _).weaken fun _ _ => Cursor.Inked.last
  · exact .since (fun _ => Cursor.Inked.sound) (.step listed_name_inks fun _ => .pure fun _ => id)
  · exact .pure fun _ => id

theorem import_specifier_ends : importSpecifier.Reads text (Cursor.Sound text) fun tree rest =>
    tree.span.stop = rest.position ∧ tree.HasLastInk text := by
  refine .step start_skips.sound fun _ => .step (.step skip_type_word_skips.sound fun _ =>
    .step listed_name_inks fun _ => .step (accept_inks "as") fun _ => .branch ?_ ?_)
      fun _ => (close_inks _ _ _).weaken fun _ _ => Cursor.Inked.last
  · exact .since (fun _ => Cursor.Inked.sound) (.step identifier_inks fun _ => .pure fun _ => id)
  · exact .guarded fun _ => .pure fun _ => id

theorem entries_follow {specifier : Parse Tree} (lays : specifier.Lays text)
    (ends : specifier.Reads text (Cursor.Sound text) fun tree rest =>
      tree.span.stop = rest.position ∧ tree.HasLastInk text) :
    Parse.Reads (many do
      if ← nextIs "\x7d" then return none
      let entry ← specifier
      if ← nextIs "\x7d" then return some [entry]
      else
        Parse.guard (← nextIs ",")
        return some [entry, ← leaf .comma]) text
      (Cursor.Follows text (Tree.HasLastInk text) first []) fun found =>
        Cursor.Follows text (Tree.HasLastInk text) first found.flatten := by
  refine .manyFrom (fun found => Cursor.Follows text (Tree.HasLastInk text) first found.flatten)
    fun found => ?_
  refine .step (next_is_looks _).follows fun _ => .branch (.pure fun _ => by simp) ?_
  refine .step (lays.follows ends) fun entry => .step (next_is_looks _).follows fun _ => ?_
  refine .branch (.pure fun _ => by simp) (.step (next_is_looks _).follows fun _ =>
    .guarded fun _ => ?_)
  refine .step (Lays.follows (leaf_lays rfl) ?_) fun comma => .pure fun _ => by simp
  exact (leaf_inks .comma).weaken fun _ _ => Cursor.Inked.last

theorem specifier_list_reads {kind : Kind} {specifier : Parse Tree} (lays : specifier.Lays text)
    (ends : specifier.Reads text (Cursor.Sound text) fun tree rest =>
      tree.span.stop = rest.position ∧ tree.HasLastInk text) :
    (specifierList kind specifier).Reads text (Cursor.Begins text first) fun clause rest =>
      rest.Behind text true first [] ∧ ∃ children left right,
        clause = .branch kind ⟨first, rest.position⟩ children ∧ clause.Listed text left right := by
  intro setting cursor clause rest here begins read
  obtain ⟨opening, inside, opened, read⟩ := bind_result _ _ _ _ _ read
  obtain ⟨found, before, listed, read⟩ := bind_result _ _ _ _ _ read
  obtain ⟨closing, behind, closed, read⟩ := bind_result _ _ _ _ _ read
  cases read
  obtain ⟨rfl, starts, opens⟩ := expect_finds _ _ _ _ _ here begins.sound opened
  have begin := opens.inks.closes (starts ▸ (Text.gap_opens text _ begins.sound.boundary).1)
  have follows := entries_follow lays ends setting _ found before here
    ⟨moved_sound _ begin, nofun, rfl⟩ listed
  obtain ⟨rfl, later, closes⟩ := expect_finds _ _ _ _ _ here follows.sound closed
  have stands (tree : Tree) (member : tree ∈ found.flatten) := (follows.each tree member).1
  have gap := (Text.gap_opens text _ follows.sound.boundary).1
  have ordered := Tree.follow_in_order text _ _ _ begin stands follows.follow
  have order := Span.in_order_le _ _ _ ordered
  have last := closes.inks.closes (later ▸ gap)
  have ink := closes.inks.ink (later ▸ gap) closes.filled
  obtain rfl := starts.trans begins.next
  have filled : opening.span.start < closing.span.stop :=
    (opens.filled.trans_le (later ▸ order)).trans closes.filled
  refine ⟨⟨⟨moved_sound _ last, nofun, filled.le⟩, filled,
    Text.ink_before text _ (Nat.zero_lt_of_lt filled) ink⟩, _, opening.span.stop,
    closing.span.start, rfl, ?_⟩
  refine ⟨opens.filled, later ▸ here ▸ ordered, closes.filled, ink, fun child member => ?_⟩
  obtain ⟨stands, known⟩ := Tree.with_comments_stand text _ _ begin stands child
    (here ▸ member)
  exact ⟨stands, known.imp_right fun entry => (follows.each child entry).2⟩

theorem named_imports_lays : (specifierList .namedImports importSpecifier).Lays text := by
  refine .alone fun first opens => ?_
  intro setting cursor clause rest here begins read
  obtain ⟨behind, children, left, right, rfl, listed⟩ :=
    specifier_list_reads import_specifier_lays import_specifier_ends setting cursor clause rest here
      begins read
  have ordered := Span.in_order_widen _ _ _ _ _ listed.opens.le listed.closes.le listed.ordered
  have inside : rest.Behind text true first children :=
    ⟨⟨behind.1.sound, fun child member => (listed.each child member).1, ordered⟩, behind.2⟩
  exact behind.whole (inside.close opens rfl rfl rfl) rfl

theorem namespace_import_lays : namespaceImport.Lays text :=
  node_lays rfl rfl fun _ => .eat (expect_eats "*") fun _ => .eat (expect_eats "as") fun _ =>
    .lay identifier_lays fun _ => .children rfl

theorem import_clause_lays : importClause.Lays text := by
  have group : Parse.Lays (do
      if ← nextIs "*" then namespaceImport else specifierList .namedImports importSpecifier) text :=
    fun _ _ _ => .skip (next_is_skips "*") fun _ =>
      .branch (namespace_import_lays _ _ _) (named_imports_lays _ _ _)
  refine node_lays rfl rfl fun first => .skip (next_is_one_of_skips _) fun _ => .branch ?_ ?_
  · exact .lay group fun _ => .children rfl
  · refine .lay identifier_lays fun name => .skip (accept_skips ",") fun _ => ?_
    exact .branch (.lay group fun _ => .children rfl) (.children rfl)

theorem skip_import_type_skips : skipImportType.Skips text := by
  refine fun _ _ _ => .skip is_typed_skips fun _ => .skip (next_is_one_of_skips _) fun _ =>
    .branch (.skip peek_second_skips fun _ => .skip (would_accept_skips _) fun _ => ?_)
      (.pure fun _ => id)
  exact .mayTake

theorem import_require_lays : importRequire.Lays text := by
  refine node_lays rfl rfl fun first => .skip is_typed_skips fun _ => .guarded fun _ =>
    .eat (expect_eats "import") fun _ => .skip skip_import_type_skips fun _ =>
    .eat identifier_lays.eats fun _ => .eat (expect_eats "=") fun _ =>
    .eat (expect_eats "require") fun _ => .eat (expect_eats "(") fun _ => ?_
  refine .eat (expect_shape_eats .string) fun _ => .eat (expect_eats ")") fun _ => ?_
  exact .step (statement_end_reads _) fun _ => .children rfl

theorem plain_import_lays (lays : g.LaysOut text) : (plainImport g).Lays text := by
  refine node_lays rfl rfl fun first => .eat (expect_eats "import") fun _ => .skip peek_skips
    fun _ => .branch (.step module_source_reads fun source => ?_)
      (.skip skip_import_type_skips fun _ => .lay import_clause_lays fun clause =>
        .step from_clause_reads fun source => ?_)
  all_goals
    refine .skip (import_attributes_skips lays) fun _ => .step (statement_end_reads _) fun _ => ?_
    exact .children (by simp)

theorem import_statement_lays (lays : g.LaysOut text) : (importStatement g).Lays text := by
  refine fun _ _ _ => .skip is_typed_skips fun _ => .branch ?_ (plain_import_lays lays _ _ _)
  exact .either (import_require_lays _ _ _)
    (.either (import_alias_lays _ _ _) (plain_import_lays lays _ _ _))

theorem exported_common {more what : List Tree}
    (same : what.map Tree.bare = more.map Tree.bare) :
    (pure what : Parse (List Tree)).Reads text (Cursor.Behind text true first (trees ++ more))
      fun what rest => rest.Behind text true first (trees ++ what.map Tree.outline) ∧
        Tree.Exported text what := by
  refine .pure fun cursor behind => ⟨?_, Tree.exported_of_bare same fun tree member =>
    behind.stands tree (List.mem_append_right _ member)⟩
  have outlines : what.map Tree.outline = more.map Tree.outline := by
    have := congrArg (List.map Tree.outline) same
    simpa only [List.map_map, Function.comp_def, Tree.bare_outline] using this
  exact outlines ▸ behind.outlined

theorem from_module_reads (lays : g.LaysOut text) (what : Tree) (lies : what.Lies text)
    (plain : what.role? = none) :
    Parse.Reads (do
      let source ← fromClause
      importAttributes g
      statementEnd {}
      return [what, source]) text (Cursor.Behind text true first (trees ++ [what.outline]))
      fun what rest => rest.Behind text true first (trees ++ what.map Tree.outline) ∧
        Tree.Exported text what := by
  refine .step (from_clause_reads.known from_clause_source) fun source => .given fun isSource => ?_
  refine .skip (import_attributes_skips lays) fun _ => .step (statement_end_reads _) fun _ =>
    .pure fun cursor behind => ⟨by simpa using behind.outlined, ?_, .inl ?_⟩
  · intro tree member
    rcases List.mem_pair.mp member with rfl | rfl
    · exact lies
    · have same : [tree].map Tree.bare = [tree.bare].map Tree.bare := by simp
      exact (Tree.exported_of_bare same fun other known =>
        behind.stands other (List.mem_append_right _ known)).each tree (List.mem_singleton_self _)
  · simp [Tree.isExportTarget, plain, isSource]

theorem star_reads :
    (leaf .star).Reads text (Cursor.Behind text moved first trees) fun mark rest =>
      rest.Behind text true first (trees ++ [mark.outline]) ∧ mark.kind = .star ∧
        mark.role? = none ∧ mark.Lies text := by
  refine .step (take_leaf .group rfl) fun token => .pure fun cursor behind => ?_
  have stands := behind.stands (.leaf .group token.span) (by simp)
  have filled := behind.filled (.leaf .group token.span) (by simp)
  have lies : (Tree.leaf .star token.span).isLaidOut = true ∧
      (Tree.leaf .star token.span).isPlacedIn text = true :=
    Tree.branch_lies .star token.span stands.opens.1 stands.ends.1 filled.le rfl nofun
  exact ⟨behind, rfl, rfl, lies.1, lies.2, nofun⟩

theorem namespace_parts_read :
    Parse.Reads (do
      let mark ← leaf .star
      let _ ← expect "as"
      return [mark, ← listedName]) text (Cursor.Behind text moved first trees)
      fun parts rest => rest.Behind text true first (trees ++ parts.map Tree.outline) ∧
        Tree.mayHold .namespaceExport parts = true ∧
        ∀ part ∈ parts, part.isLaidOut = true ∧ part.isPlacedIn text = true := by
  refine .step star_reads fun mark => .given fun ⟨kind, _, lies⟩ => .eat (expect_eats "as") fun _ =>
    .layKnown listed_name_lays listed_name_word fun name word => .pure fun cursor behind => ?_
  have stands := behind.stands name (by simp)
  refine ⟨by simpa using behind.outlined, ?_, fun part member => ?_⟩
  · have early : (!mark.kind.isNamed || mark.kind.isWord) = true := by
      rw [kind]
      rfl
    have late : (!name.kind.isNamed || name.kind.isWord) = true := by rw [word, Bool.or_true]
    change (_ && (_ && true)) = true
    dsimp only
    rw [early, late]
    rfl
  · rcases List.mem_pair.mp member with rfl | rfl
    · exact ⟨lies.laidOut, lies.placed⟩
    · exact ⟨stands.laidOut, stands.placed⟩

theorem namespace_export_reads :
    namespaceExport.Reads text (Cursor.Behind text moved first trees) fun what rest =>
      rest.Behind text true first (trees ++ [what.outline]) ∧ what.role? = none ∧
        what.Lies text := by
  refine .alone (fun (what : Tree) => [what.outline])
    (fun what => what.role? = none ∧ what.Lies text) fun first opens =>
      .step start_begins fun _ => .given fun same => .since (fun _ => Cursor.Begins.behind) ?_
  obtain rfl := same
  refine .step namespace_parts_read fun children => .given fun ⟨holds, each⟩ => ?_
  intro _ cursor _ _ _ behind read
  cases read
  have lies := Tree.branch_lies .namespaceExport ⟨_, cursor.position⟩ opens.1
    behind.1.sound.boundary (by simpa [Function.comp_def] using behind.1.ordered) holds each
  exact ⟨behind.placed opens, rfl, lies.1, lies.2, nofun⟩

theorem export_clause_reads :
    (specifierList .exportClause exportSpecifier).Reads text (Cursor.Behind text moved first trees)
      fun clause rest => rest.Behind text true first (trees ++ [clause.outline]) ∧
        clause.role? = none ∧ clause.Lies text := by
  refine .alone (fun (clause : Tree) => [clause.outline])
    (fun clause => clause.role? = none ∧ clause.Lies text) fun first opens => ?_
  intro setting cursor clause rest here begins read
  obtain ⟨behind, children, left, right, rfl, listed⟩ :=
    specifier_list_reads export_specifier_lays export_specifier_ends setting cursor clause rest here
      begins read
  have inside := behind.1.sound.boundary
  have ordered := Span.in_order_widen _ _ _ _ _ listed.opens.le listed.closes.le listed.ordered
  have lies := Tree.branch_lies .exportClause ⟨first, rest.position⟩ opens.1 inside ordered rfl
    fun child member => ⟨(listed.each child member).1.laidOut, (listed.each child member).1.placed⟩
  have ends := Text.boundary_le text _ inside
  refine ⟨behind.placed opens, rfl, lies.1, lies.2, fun _ => ?_⟩
  exact Tree.listed_inked listed (opens.2 (behind.2.1.trans_le ends)) ends

theorem export_all_reads (lays : g.LaysOut text) :
    (exportAll g).Reads text (Cursor.Behind text moved first trees) fun what rest =>
      rest.Behind text true first (trees ++ what.map Tree.outline) ∧ Tree.Exported text what := by
  refine .skip peek_second_skips fun _ => .branch (.step namespace_export_reads fun what =>
    .given fun ⟨plain, lies⟩ => ?_) (.step star_reads fun what => .given fun ⟨_, plain, lies⟩ => ?_)
  all_goals exact from_module_reads lays what lies plain

theorem export_list_reads (lays : g.LaysOut text) :
    (exportList g).Reads text (Cursor.Behind text moved first trees) fun what rest =>
      rest.Behind text true first (trees ++ what.map Tree.outline) ∧ Tree.Exported text what := by
  refine .step export_clause_reads fun clause => .given fun ⟨plain, lies⟩ =>
    .skip (next_is_skips "from") fun _ => .branch (from_module_reads lays clause lies plain) ?_
  refine .step (statement_end_reads _) fun _ => .pure fun cursor behind => ⟨behind, ?_, .inl ?_⟩
  · simpa using lies
  · simp [Tree.isExportTarget, plain]

theorem export_default_reads (lays : g.LaysOut text) :
    (exportDefault g).Reads text (Cursor.Behind text moved first trees) fun what rest =>
      rest.Behind text true first (trees ++ what.map Tree.outline) ∧ Tree.Exported text what := by
  refine .lay (leaf_lays rfl) fun word => .attempting
    (fun found => Cursor.Behind text true first (trees ++ [word] ++ [found]))
    (declaration_lays lays _ _ _) (fun found => ?_)
    (.lay (any_assignment_lays lays) fun value => ?_)
  · exact .regroup (List.append_assoc _ _ _) (exported_common (by simp))
  · refine .step (statement_end_reads _) fun _ => ?_
    exact .regroup (List.append_assoc _ _ _) (exported_common (by simp))

theorem typed_export_reads (lays : g.LaysOut text) :
    (typedExport g).Reads text (Cursor.Behind text true first trees) fun what rest =>
      rest.Behind text true first (trees ++ what.map Tree.outline) ∧ Tree.Exported text what := by
  refine .skip is_typed_skips fun _ => .guarded fun _ => .skip peek_second_skips fun _ =>
    .skip peek_skips fun _ => ?_
  split
  · exact .guarded fun _ => .eat take_eats fun _ => export_list_reads lays
  · refine .eat take_eats fun _ => .lay (any_expression_lays lays) fun value => ?_
    exact .step (statement_end_reads _) fun _ => exported_common rfl
  · refine .guarded fun _ => .eat take_eats fun _ => .eat take_eats fun _ =>
      .lay identifier_lays fun name => ?_
    exact .step (statement_end_reads _) fun _ => exported_common rfl
  · exact .step (.either (import_require_lays _ _ _) (import_alias_lays _ _ _)) fun _ =>
      exported_common rfl
  · exact .refuse

theorem exported_reads (lays : g.LaysOut text) :
    (exported g).Reads text (Cursor.Behind text true first trees) fun what rest =>
      rest.Behind text true first (trees ++ what.map Tree.outline) ∧ Tree.Exported text what := by
  refine .skip peek_skips fun _ => ?_
  split
  · exact export_all_reads lays
  · exact export_list_reads lays
  · exact export_default_reads lays
  · exact .attempting _ (typed_export_reads lays) (fun found => .pure fun _ => id)
      (.lay (declaration_lays lays) fun found => exported_common (by simp))

theorem export_statement_reads (lays : g.LaysOut text) {marks : List Tree}
    (opens : Text.Opens text first) :
    (exportStatement g first marks).Reads text (Cursor.Behind text moved first marks) fun tree =>
      Cursor.Behind text true first [tree] := by
  refine .skip (next_is_skips "export") fun _ => .guarded fun _ => ?_
  have isWord : (leaf .exportWord).Yields text fun word => word.kind = .exportWord :=
    .leaf fun _ => rfl
  refine .layKnown (leaf_lays rfl) isWord fun word isWord => ?_
  refine .step (exported_reads lays) fun what => .given fun exported => ?_
  intro _ cursor _ _ _ behind read
  cases read
  have stands (tree : Tree) (member : tree ∈ marks ++ [word]) : tree.Stands text :=
    behind.stands tree (List.mem_append_left _ member)
  have holds := Tree.may_hold_export stands exported word (by simp) isWord
  have spans : (marks ++ [word] ++ what).map Tree.span =
      (marks ++ [word] ++ what.map Tree.outline).map Tree.span := by
    simp
  have ordered := spans ▸ behind.1.ordered
  have ends := Text.boundary_le text _ behind.1.sound.boundary
  have lies := Tree.branch_lies .exportStatement ⟨first, cursor.position⟩ opens.1
    behind.1.sound.boundary ordered holds fun tree member => by
      rcases List.mem_append.mp member with early | late
      · exact ⟨(stands tree early).laidOut, (stands tree early).placed⟩
      · exact ⟨(exported.each tree late).laidOut, (exported.each tree late).placed⟩
  have inked : (Tree.branch .exportStatement ⟨first, cursor.position⟩
      (marks ++ [word] ++ what)).isInked text = true := by
    rw [Tree.branch, Tree.isInked, Bool.and_eq_true, Bool.and_eq_true]
    exact ⟨⟨opens.2 (behind.2.1.trans_le ends), behind.2.2⟩, Tree.export_inked stands exported⟩
  rw [List.append_cons]
  exact behind.whole ⟨lies.1, lies.2, inked, rfl, rfl⟩ rfl

end Source.Grammar
end DeadExports

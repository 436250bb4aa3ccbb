import DeadExports.Proofs.Facts.Places
import DeadExports.Proofs.Source.ImportForms

set_option autoImplicit false

namespace DeadExports

theorem Text.run_end_stops (text : String) (accept : Char → Bool) (past : accept '\x00' = false)
    (offset : Nat) :
    accept (charAt text (runEnd text accept offset)) = false := by
  fun_induction runEnd text accept offset with
  | case1 offset inside char accepted ih => exact ih
  | case2 offset inside char refused => simpa using refused
  | case3 offset outside =>
      rw [charAt, if_neg outside]
      exact past

namespace Source

theorem Token.name_end_stops (text : String) (offset : Nat) :
    isNameChar (Text.charAt text (nameEnd text offset)) = false := by
  fun_induction nameEnd text offset with
  | case1 offset plain found => exact Text.run_end_stops text isNameChar rfl offset
  | case2 offset plain stop found forward ih => exact ih
  | case3 offset plain stop found backward => exact Text.run_end_stops text isNameChar rfl offset

theorem Token.word_ends (text : String) (offset : Nat) (token : Token)
    (found : next? text offset = some token) (isWord : token.isWord = true) :
    isNameChar (Text.charAt text token.span.stop) = false := by
  have isWord : token.shape = .word := beq_iff_eq.mp isWord
  rw [next?] at found
  revert found
  fun_cases startingAt? text (gapAt text offset).stop (gapAt text offset).hasLineEnd with
  | case1 =>
      rintro ⟨⟩
      cases isWord
  | case2 =>
      rintro ⟨⟩
      exact name_end_stops text _
  | case3 =>
      rintro ⟨⟩
      cases isWord
  | case4 =>
      intro found
      obtain ⟨_, -, rfl⟩ := Option.map_eq_some_iff.mp found
      cases isWord
  | case5 =>
      rintro ⟨⟩
      cases isWord
  | case6 =>
      rintro ⟨⟩
      cases isWord
  | case7 =>
      intro found
      obtain ⟨_, -, rfl⟩ := Option.map_eq_some_iff.mp found
      cases isWord

structure Cursor.IsAt (text : String) (offset : Nat) (cursor : Cursor) : Prop where
  here : cursor.position = offset
  true : ∀ token, cursor.ahead = some token → Token.next? text offset = some token

theorem Cursor.moved_is_at (text : String) (offset : Nat) :
    Cursor.IsAt text offset { position := offset } := ⟨rfl, nofun⟩

namespace Parse

variable {α β : Type} {text : String}

theorem peek_reads (offset : Nat) : peek.Reads text (Cursor.IsAt text offset) fun token rest =>
    rest.IsAt text offset ∧ Token.next? text offset = some token := by
  rintro setting ⟨position, ahead⟩ token rest rfl ⟨rfl, known⟩ read
  rw [peek] at read
  dsimp only at read
  cases ahead with
  | some found =>
      cases read
      exact ⟨⟨rfl, known⟩, known _ rfl⟩
  | none =>
      dsimp only at read
      split at read
      next found next =>
          cases read
          refine ⟨⟨rfl, ?_⟩, next⟩
          rintro _ ⟨⟩
          exact next
      next => cases read

theorem move_to_reads (offset : Nat) (before : Cursor → Prop) :
    (moveTo offset).Reads text before fun _ rest => rest.IsAt text offset := by
  intro _ _ _ _ _ _ read
  cases read
  exact Cursor.moved_is_at text offset

theorem take_reads (offset : Nat) : take.Reads text (Cursor.IsAt text offset) fun token rest =>
    rest.IsAt text token.span.stop ∧ Token.next? text offset = some token := by
  refine .step (peek_reads offset) fun token => .given fun next => .guarded fun _ => ?_
  exact .step (move_to_reads _ _) fun _ => .pure fun _ at' => ⟨at', next⟩

theorem expect_reads (word : String) (before : Cursor → Prop) :
    (expect word).Reads text before fun _ rest => ∃ offset, rest.IsAt text offset := by
  refine .step (.anything peek _) fun token => .branch ?_ fun _ _ _ _ _ _ read => nomatch read
  exact .step (.anything peek _) fun found => .guarded fun _ => .step (move_to_reads _ _)
    fun _ => .pure fun _ at' => ⟨_, at'⟩

theorem identifier_reads (offset : Nat) :
    Grammar.identifier.Reads text (Cursor.IsAt text offset) fun name rest =>
    rest.IsAt text name.span.stop ∧ isNameChar (Text.charAt text name.span.stop) = false := by
  refine .step (peek_reads offset) fun token => .given fun next => .guarded fun isVariable => ?_
  refine .step (take_reads offset) fun found => .given fun same => .pure fun _ at' => ⟨at', ?_⟩
  obtain rfl := Option.some.inj (next.symm.trans same)
  exact Token.word_ends text offset token next (Bool.and_eq_true _ _ ▸ isVariable).1

end Parse

namespace Grammar

open Parse

variable {text : String}

def Sees (text : String) (cursor : Cursor) : Prop := ∃ offset, cursor.IsAt text offset

theorem peek_sees : peek.Reads text (Sees text) fun _ rest => Sees text rest := by
  rintro _ _ _ _ here ⟨offset, at'⟩ read
  exact ⟨offset, (peek_reads offset _ _ _ _ here at' read).1⟩

theorem next_is_one_of_sees (words : List String) :
    (nextIsOneOf words).Reads text (Sees text) fun _ rest => Sees text rest :=
  .step peek_sees fun _ => .pure fun _ => id

theorem take_sees : take.Reads text (Sees text) fun _ rest => Sees text rest := by
  rintro _ _ _ _ here ⟨offset, at'⟩ read
  exact ⟨_, (take_reads offset _ _ _ _ here at' read).1⟩

def EndsWord (text : String) (cursor : Cursor) :
    Prop := isNameChar (Text.charAt text cursor.position) = false

theorem identifier_ends : identifier.Reads text (Sees text) fun _ rest => Sees text rest ∧
    EndsWord text rest := by
  rintro _ _ _ _ here ⟨offset, at'⟩ read
  obtain ⟨reached, ends⟩ := identifier_reads offset _ _ _ _ here at' read
  exact ⟨⟨_, reached⟩, by rw [EndsWord, reached.here]; exact ends⟩

theorem close_reads (kind : Kind) (first : Nat) (children : List Tree) (before : Cursor → Prop) :
    (closeNode kind first children).Reads text before fun tree rest =>
      before rest ∧ tree.span.stop = rest.position ∧ tree.children = children := by
  intro _ _ _ _ _ start read
  cases read
  exact ⟨start, rfl, rfl⟩

theorem namespace_import_ends : namespaceImport.Reads text (fun _ => True) fun _ rest =>
    EndsWord text rest := by
  refine .step (.anything _ _) fun first => .step ?_ fun children => (close_reads _ _ _ _).weaken
    fun _ _ closed => closed.1
  refine .step (expect_reads _ _) fun _ => .step (expect_reads _ _) fun _ => .step identifier_ends
    fun _ => .pure fun _ known => known.2

theorem accept_ends (word : String) :
    (accept word).Reads text (fun cursor => Sees text cursor ∧ EndsWord text cursor)
    fun taken rest => taken = false → EndsWord text rest := by
  rintro _ cursor _ _ here ⟨⟨offset, at'⟩, ends⟩ read
  obtain ⟨token, later, peeked, read⟩ := bind_result _ _ _ _ _ read
  have stays := (peek_reads offset _ _ _ _ here at' peeked).1
  split at read
  next =>
      obtain ⟨_, _, _, read⟩ := bind_result _ _ _ _ _ read
      cases read
      nofun
  next =>
      cases read
      intro _
      rw [EndsWord, stays.here, ← at'.here]
      exact ends

def ClosesList (text : String) (clause : Tree) : Prop :=
  isNameChar (Text.charAt text clause.span.stop) = true → ∃ group ∈ clause.children, group.kind =
    .namedImports

theorem group_ends : (show Parse Tree from do
    if ← nextIs "*" then namespaceImport else specifierList .namedImports importSpecifier).Reads
      text (fun _ => True)
      fun group rest => EndsWord text rest ∨ group.kind = .namedImports := by
  refine .step (.anything _ _) fun _ => .branch (namespace_import_ends.weaken fun _ _ => .inl) ?_
  intro _ _ _ _ here _ read
  have any : importSpecifier.Yields text fun _ => True := .anything _
  exact .inr (specifier_list_entries .namedImports _ any (fun _ => trivial) (fun _ => trivial) _ _ _
    _ here read).1

theorem node_closes (kind : Kind) (reader : Parse (List Tree))
    (below : reader.Reads text (Sees text) fun children rest =>
      EndsWord text rest ∨ ∃ group ∈ children, Tree.kind group = .namedImports) :
    (node kind reader).Reads text (Sees text) fun clause _ => ClosesList text clause := by
  have first : start.Reads text (Sees text) fun _ rest => Sees text rest := .step peek_sees fun _ =>
    .pure fun _ => id
  refine .step first fun _ => .step below fun _ => (close_reads _ _ _ _).weaken ?_
  rintro clause rest ⟨ends, stops, same⟩ follows
  rw [EndsWord, ← stops, follows, ← same] at ends
  exact ends.resolve_left Bool.noConfusion

theorem import_clause_ends : importClause.Reads text (Sees text) fun clause _ =>
    ClosesList text clause := by
  refine node_closes _ _ (.step (next_is_one_of_sees _) fun _ => .branch ?_ ?_)
  · refine .step (fun _ _ _ _ here _ read => group_ends _ _ _ _ here trivial read)
      fun group => .pure ?_
    exact fun _ ends => ends.imp id fun isList => ⟨group, List.mem_cons_self, isList⟩
  · refine .step identifier_ends fun name => .step (accept_ends _) fun taken => ?_
    cases taken with
    | true =>
        refine .step (fun _ _ _ _ here _ read => group_ends _ _ _ _ here trivial read)
          fun group => .pure ?_
        exact fun _ ends => ends.imp id fun isList => ⟨group, by simp, isList⟩
    | false => exact .pure fun _ ends => .inl (ends rfl)

theorem skip_import_type_sees : skipImportType.Reads text (Sees text) fun _ rest =>
    Sees text rest := by
  -- Looking further ahead does not move the cursor.
  have typed : isTyped.Reads text (Sees text) fun _ rest => Sees text rest := by
    intro _ _ _ _ _ start read
    cases read
    exact start
  have ahead {α : Type} (reader : Parse α) :
      (wouldAccept reader).Reads text (Sees text) fun _ rest => Sees text rest := by
    intro _ _ _ _ _ start read
    cases read
    exact start
  have second : peekSecond.Reads text (Sees text) fun _ rest => Sees text rest := by
    refine .step peek_sees fun _ => ?_
    intro _ _ _ _ _ start read
    cases read
    exact start
  refine .step typed fun _ => .step (next_is_one_of_sees _) fun _ => .branch ?_ (.pure fun _ => id)
  refine .step second fun _ => .step (ahead _) fun _ => .branch ?_ (.pure fun _ => id)
  exact .step take_sees fun _ => .pure fun _ => id

def ImportsApart (text : String) (statement : Tree) : Prop :=
  ∀ clause, statement.childOfKind? .importClause = some clause → statement.kind = .importStatement →
    ClosesList text clause

theorem plain_import_apart (g : Grammar) : (plainImport g).Yields text (ImportsApart text) := by
  have children (span : Span) (clauses : List Tree) (source : Tree)
    (isString : source.kind = .string)
      (each : ∀ clause ∈ clauses, ClosesList text clause) :
      ImportsApart text (.branch .importStatement span (clauses ++ [source])) := by
    intro clause found _
    obtain ⟨member, isClause⟩ := Tree.child_of_kind_cases _ _ _ found
    rcases List.mem_append.mp member with among | last
    · exact each clause among
    · rw [List.mem_singleton.mp last, isString] at isClause
      cases isClause
  refine .parent (Reads.yields ?_)
  refine .step (expect_reads _ _) fun _ => .step peek_sees fun _ => .branch ?_ ?_
  · refine .of_yields (.step module_source_role fun source known => .last fun _ => .last fun _ =>
      .pure fun span => ?_)
    exact children span [] source known.2 nofun
  · refine .step skip_import_type_sees fun _ =>
      .step (import_clause_ends.weaken fun _ _ => And.intro trivial) fun clause => ?_
    refine .given fun closes =>
      .of_yields (.step (.last fun _ => module_source_role) fun source known => ?_)
    refine .last fun _ => .last fun _ => .pure fun span => ?_
    exact children span [clause] source known.2 (by simpa using closes)

end Grammar
end Source

theorem SourceModule.imports_apart (path : Path) (text : String) (m : SourceModule)
    (parsed : parse path text = .ok m) (statement : Tree) (member : statement ∈ m.tree.children) :
    Source.Grammar.ImportsApart text statement := by
  refine imports_yield path text m parsed ?_ Source.Grammar.plain_import_apart statement member
  rintro tree (other | bare) clause found isImport
  · exact absurd isImport other
  · rw [Tree.childOfKind?, bare] at found
    cases found

end DeadExports

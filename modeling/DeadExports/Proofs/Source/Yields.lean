import DeadExports.Proofs.Source.Program

set_option autoImplicit false

namespace DeadExports

namespace Source.Parse

variable {α β : Type} {text : String}

def Yields (reader : Parse α) (text : String) (holds : α → Prop) : Prop :=
  ∀ setting cursor value rest, setting.text = text → reader setting cursor = some (value, rest) →
    holds value

namespace Yields

theorem anything (reader : Parse α) : reader.Yields text fun _ => True := fun _ _ _ _ _ _ => trivial

theorem pure {value : α} {holds : α → Prop} (here : holds value) :
    (Pure.pure value : Parse α).Yields text holds := by
  intro _ _ _ _ _ read
  cases read
  exact here

theorem refuse {holds : α → Prop} :
    (Parse.refuse : Parse α).Yields text holds := fun _ _ _ _ _ read => nomatch read

theorem step {first : Parse α} {next : α → Parse β} {before : α → Prop} {holds : β → Prop}
    (begins : first.Yields text before)
    (goesOn : ∀ value, before value → (next value).Yields text holds) :
    (first >>= next).Yields text holds := by
  intro setting cursor value rest here read
  obtain ⟨middle, later, early, late⟩ := bind_result first next setting cursor _ read
  exact goesOn middle (begins _ _ _ _ here early) _ _ _ _ here late

theorem last {first : Parse α} {next : α → Parse β} {holds : β → Prop}
    (goesOn : ∀ value, (next value).Yields text holds) :
    (first >>= next).Yields text holds :=
  step (anything first) fun value _ => goesOn value

theorem guarded {condition : Bool} {next : Unit → Parse α} {holds : α → Prop}
    (goesOn : condition = true → (next ()).Yields text holds) :
    (Parse.guard condition >>= next).Yields text holds := by
  cases condition with
  | true => exact last fun _ => goesOn rfl
  | false => exact fun _ _ _ _ _ read => nomatch read

theorem branch {condition : Prop} [Decidable condition] {yes no : Parse α} {holds : α → Prop}
    (left : yes.Yields text holds) (right : no.Yields text holds) :
    (if condition then yes else no).Yields text holds := by
  split
  · exact left
  · exact right

theorem either {first second : Parse α} {holds : α → Prop} (left : first.Yields text holds)
    (right : second.Yields text holds) :
    (first <|> second).Yields text holds := by
  intro setting cursor value rest here read
  change Parse.orElse first (fun _ => second) setting cursor = some (value, rest) at read
  rw [Parse.orElse] at read
  split at read
  next result found =>
      cases read
      exact left _ _ _ _ here found
  next => exact right _ _ _ _ here read

theorem attempt {reader : Parse α} {holds : α → Prop} (each : reader.Yields text holds) :
    (Parse.attempt reader).Yields text fun found => ∀ value ∈ found, holds value := by
  intro setting cursor found rest here read
  rw [Parse.attempt] at read
  split at read
  next value _ taken =>
      cases read
      rintro _ ⟨⟩
      exact each _ _ _ _ here taken
  next =>
      cases read
      exact nofun

theorem rounds {advance : α → Parse (Option α)} {holds : α → Prop}
    (kept : ∀ value, holds value → (advance value).Yields text fun next => ∀ later ∈ next,
      holds later) :
    ∀ count value, holds value → (repeatFor advance count value).Yields text holds
  | 0, _, here => pure here
  | count + 1, value, here => by
      refine step (kept value here) ?_
      intro next later
      cases next with
      | some value => exact rounds kept count value (later value rfl)
      | none => exact pure here

theorem many {reader : Parse (Option α)} {holds : α → Prop}
    (each : reader.Yields text fun found => ∀ value ∈ found, holds value) :
    (Parse.many reader).Yields text fun values => ∀ value ∈ values, holds value := by
  have reversed : ∀ values : List α, (∀ value ∈ values, holds value) → ∀ value ∈ values.reverse,
      holds value :=
    fun values here value member => here value (List.mem_reverse.mp member)
  refine step ?_ fun values here => pure (reversed values here)
  refine last fun _ => last fun _ => rounds ?_ _ [] nofun
  intro values here
  refine step each fun found more => pure ?_
  cases found with
  | none => exact nofun
  | some value =>
      rintro _ ⟨⟩ other member
      rcases List.mem_cons.mp member with rfl | old
      · exact more other rfl
      · exact here other old

theorem close {kind : Kind} {first : Nat} {children : List Tree} {holds : Tree → Prop}
    (here : ∀ span, holds (.branch kind span children)) :
    (closeNode kind first children).Yields text holds :=
  last fun stop => pure (here ⟨first, stop⟩)

theorem parent {kind : Kind} {reader : Parse (List Tree)} {holds : Tree → Prop}
    (below : reader.Yields text fun children => ∀ span, holds (.branch kind span children)) :
    (Parse.node kind reader).Yields text holds :=
  last fun _ => step below fun _ here => close here

theorem node {kind : Kind} {reader : Parse (List Tree)} {holds : Tree → Prop}
    (here : ∀ span children, holds (.branch kind span children)) :
    (Parse.node kind reader).Yields text holds :=
  parent fun _ _ _ _ _ _ span => here span _

theorem leaf {kind : Kind} {holds : Tree → Prop} (here : ∀ span, holds (.leaf kind span)) :
    (Parse.leaf kind).Yields text holds :=
  last fun token => pure (here token.span)

end Yields

def Reads (reader : Parse α) (text : String) (before : Cursor → Prop) (after : α → Cursor → Prop) :
    Prop :=
  ∀ setting cursor value rest, setting.text = text → before cursor → reader setting cursor =
    some (value, rest) → after value rest

namespace Reads

theorem pure {value : α} {before : Cursor → Prop} {after : α → Cursor → Prop}
    (here : ∀ cursor, before cursor → after value cursor) :
    (Pure.pure value : Parse α).Reads text before after := by
  intro _ _ _ _ _ start read
  cases read
  exact here _ start

theorem step {first : Parse α} {next : α → Parse β} {before : Cursor → Prop}
    {middle : α → Cursor → Prop} {after : β → Cursor → Prop}
    (begins : first.Reads text before middle)
    (goesOn : ∀ value, (next value).Reads text (middle value) after) :
    (first >>= next).Reads text before after := by
  intro setting cursor value rest here start read
  obtain ⟨between, later, early, late⟩ := bind_result first next setting cursor _ read
  exact goesOn between _ _ _ _ here (begins _ _ _ _ here start early) late

theorem given {fact : Prop} {reader : Parse α} {before : Cursor → Prop} {after : α → Cursor → Prop}
    (reads : fact → reader.Reads text before after) :
    reader.Reads text (fun cursor => before cursor ∧ fact) after :=
  fun _ _ _ _ here start read => reads start.2 _ _ _ _ here start.1 read

theorem branch {condition : Prop} [Decidable condition] {yes no : Parse α} {before : Cursor → Prop}
    {after : α → Cursor → Prop} (left : yes.Reads text before after)
    (right : no.Reads text before after) :
    (if condition then yes else no).Reads text before after := by
  split
  · exact left
  · exact right

theorem weaken {reader : Parse α} {before : Cursor → Prop} {after other : α → Cursor → Prop}
    (reads : reader.Reads text before after)
    (implies : ∀ value cursor, after value cursor → other value cursor) :
    reader.Reads text before other :=
  fun _ _ _ _ here start read => implies _ _ (reads _ _ _ _ here start read)

theorem guarded {condition : Bool} {next : Unit → Parse α} {before : Cursor → Prop}
    {after : α → Cursor → Prop} (goesOn : condition = true → (next ()).Reads text before after) :
    (guard condition >>= next).Reads text before after := by
  cases condition with
  | true => exact goesOn rfl
  | false => exact fun _ _ _ _ _ _ read => nomatch read

theorem anything (reader : Parse α) (before : Cursor → Prop) :
    reader.Reads text before fun _ _ => True :=
  fun _ _ _ _ _ _ _ => trivial

theorem of_yields {reader : Parse α} {before : Cursor → Prop} {holds : α → Prop}
    (yields : reader.Yields text holds) :
    reader.Reads text before fun value _ => holds value :=
  fun _ _ _ _ here _ read => yields _ _ _ _ here read

theorem yields {reader : Parse α} {holds : α → Prop}
    (reads : reader.Reads text (fun _ => True) fun value _ => holds value) :
    reader.Yields text holds :=
  fun _ _ _ _ here read => reads _ _ _ _ here trivial read

theorem last {first : Parse α} {next : α → Parse β} {before : Cursor → Prop}
    {after : β → Cursor → Prop}
    (goesOn : ∀ value, (next value).Reads text (fun _ => True) after) :
    (first >>= next).Reads text before after :=
  step (anything first before) goesOn

theorem refuse {before : Cursor → Prop} {after : α → Cursor → Prop} :
    (Parse.refuse : Parse α).Reads text before after :=
  fun _ _ _ _ _ _ read => nomatch read

theorem either {first second : Parse α} {before : Cursor → Prop} {after : α → Cursor → Prop}
    (left : first.Reads text before after) (right : second.Reads text before after) :
    (first <|> second).Reads text before after := by
  intro setting cursor value rest here start read
  change Parse.orElse first (fun _ => second) setting cursor = some (value, rest) at read
  rw [Parse.orElse] at read
  split at read
  next result found =>
      cases read
      exact left _ _ _ _ here start found
  next => exact right _ _ _ _ here start read

theorem known {reader : Parse α} {before : Cursor → Prop} {holds : α → Prop}
    {after : α → Cursor → Prop} (reads : reader.Reads text before after)
    (yields : reader.Yields text holds) :
    reader.Reads text before fun value rest => after value rest ∧ holds value :=
  fun _ _ _ _ here start read =>
    ⟨reads _ _ _ _ here start read, yields _ _ _ _ here read⟩

end Reads

end Source.Parse

namespace Tree

@[simp] theorem in_role_role (role : Role) (tree : Tree) :
    (tree.inRole role).role? = some role := by
  cases tree
  rfl

@[simp] theorem in_role_kind (role : Role) (tree : Tree) : (tree.inRole role).kind = tree.kind := by
  cases tree
  rfl

end Tree

def Kind.movesNames : Kind → Bool
  | importStatement | exportStatement => true
  | _ => false

namespace Source.Grammar

open Parse

variable {text : String}

theorem decorators_plain (g : Grammar) :
    (decorators g).Yields text fun marks => ∀ mark ∈ marks, mark.role? = none := by
  refine .many (.last fun _ => .branch ?_ (.pure nofun))
  refine .step (.node fun _ _ => rfl) fun mark (plain : mark.role? = none) => .pure ?_
  rintro _ ⟨⟩
  exact plain

theorem with_comments_all {holds : Tree → Prop} (comments : ∀ span, holds (.leaf .comment span))
    (source : String) (trees : List Tree) (offset : Nat) (each : ∀ tree ∈ trees, holds tree) :
    ∀ tree ∈ withComments source offset trees, holds tree := by
  have gap : ∀ offset, ∀ tree ∈ gapComments source offset, holds tree := by
    intro offset tree member
    obtain ⟨span, -, rfl⟩ := List.mem_map.mp member
    exact comments span
  induction trees generalizing offset with
  | nil => exact gap offset
  | cons first rest ih =>
      intro tree member
      rcases List.mem_append.mp member with comment | later
      · exact gap offset tree comment
      · rcases List.mem_cons.mp later with rfl | later
        · exact each tree List.mem_cons_self
        · exact ih _ (fun other here => each other (List.mem_cons_of_mem _ here)) tree later

section Statements

variable {before : Cursor → Prop} {holds : Tree → Cursor → Prop}
  (other : ∀ (tree : Tree) (cursor : Cursor), tree.kind.movesNames = false →
    tree.span.stop = cursor.position → holds tree cursor)

include other

theorem close_other {kind : Kind} {first : Nat} {children : List Tree}
    (plain : kind.movesNames = false) :
    (closeNode kind first children).Reads text before holds := by
  intro _ cursor _ _ _ _ read
  cases read
  exact other _ cursor plain rfl

theorem node_other {kind : Kind} {reader : Parse (List Tree)} (plain : kind.movesNames = false) :
    (node kind reader).Reads text before holds :=
  .last fun _ => .last fun _ => close_other other plain

theorem leaf_other {kind : Kind} (plain : kind.movesNames = false) :
    (leaf kind).Reads text before holds := by
  intro _ _ _ _ _ _ read
  obtain ⟨_, _, taken, read⟩ := bind_result _ _ _ _ _ read
  obtain ⟨_, _, -, taken⟩ := bind_result _ _ _ _ _ taken
  obtain ⟨_, _, -, taken⟩ := bind_result _ _ _ _ _ taken
  cases taken
  cases read
  exact other _ _ plain rfl

theorem class_rest_other (g : Grammar) (kind : Kind) (first : Nat) (marks : List Tree)
    (plain : kind.movesNames = false) :
    (classRest g kind first marks).Reads text before holds := by
  refine .last fun _ => .branch (.last fun _ => .last fun _ => ?_) (.last fun _ => ?_)
  all_goals exact .last fun _ => .last fun _ => .last fun _ => close_other other plain

theorem class_declaration_other (g : Grammar) (first : Nat) (marks : List Tree) :
    (classDeclaration g first marks).Reads text before holds := by
  refine .last fun _ => .branch (.last fun _ => ?_) (.last fun _ => ?_)
  all_goals
    refine .last fun _ => .last fun _ => .last fun _ =>
      .branch (class_rest_other other g _ first marks rfl) ?_
    exact .last fun _ => .last fun _ => close_other other rfl

theorem variable_list_other (g : Grammar) : (variableList g).Reads text before holds := by
  refine .last fun _ => .last fun _ => .last fun _ => close_other other ?_
  rw [variableKind]
  split
  · rfl
  · rfl

theorem function_declaration_other (g : Grammar) :
    (functionDeclaration g).Reads text before holds := by
  refine .last fun _ => .last fun _ => .last fun _ => .last fun _ => .branch ?_ ?_
  · refine .last fun _ => .last fun _ => close_other other ?_
    split
    · rfl
    · rfl
  · exact .last fun _ => .last fun _ => .last fun _ => close_other other rfl

theorem plain_declaration_other (g : Grammar) : (plainDeclaration g).Reads text before holds := by
  refine .last fun _ => .last fun _ => .branch (function_declaration_other other g) ?_
  refine .branch (.last fun marks => class_declaration_other other g _ marks) ?_
  refine .branch (class_declaration_other other g _ []) ?_
  refine .last fun _ => .last fun _ => ?_
  split
  case h_1 => exact .branch (node_other other rfl) (variable_list_other other g)
  case h_4 => exact class_declaration_other other g _ []
  case h_11 => exact .refuse
  case h_2 | h_3 => exact variable_list_other other g
  all_goals exact .last fun _ => node_other other rfl

theorem declaration_other (g : Grammar) : (declaration g).Reads text before holds :=
  .last fun _ => .branch (node_other other rfl) (plain_declaration_other other g)

variable (g : Grammar) (imports : (importStatement g).Reads text (fun _ => True) holds)
  (exports : ∀ first marks, (∀ mark ∈ marks, Tree.role? mark = none) →
    (exportStatement g first marks).Reads text (fun _ => True) holds)

include imports exports

theorem word_statement_reads (token : Token) :
    (wordStatement g token).Reads text (fun _ => True) holds := by
  rw [wordStatement]
  split
  case h_1 =>
    refine .either ?_ (exports _ [] nofun)
    exact .last fun _ => .last fun _ => .last fun _ => .last fun _ => close_other other rfl
  case h_2 => exact .last fun _ => .branch (node_other other rfl) imports
  case h_19 =>
    refine .last fun _ => .branch (node_other other rfl) (.branch ?_ (node_other other rfl))
    exact .either (declaration_other other g) (node_other other rfl)
  case h_3 | h_4 | h_5 | h_6 => exact plain_declaration_other other g
  all_goals exact node_other other rfl

theorem any_statement_reads : (anyStatement g).Reads text before holds := by
  refine .last fun token => ?_
  split
  · exact leaf_other other rfl
  · exact node_other other rfl
  · refine .last fun _ => .step ((Reads.anything _ _).known (decorators_plain g)) fun marks =>
      .given fun plain => .last fun _ => .branch (exports _ marks plain) ?_
    exact class_declaration_other other g _ marks
  · exact .branch (word_statement_reads other g imports exports token) (node_other other rfl)

end Statements

theorem program_yields {holds : Tree → Prop}
    (other : ∀ tree : Tree, tree.kind.movesNames = false → holds tree) (g : Grammar)
    (imports : (importStatement g).Yields text holds)
    (exports : ∀ first marks, (∀ mark ∈ marks, Tree.role? mark = none) →
      (exportStatement g first marks).Yields text holds) :
    (program g).Yields text fun tree => ∀ statement ∈ tree.children, holds statement := by
  have opening : interpreterLine.Yields text fun lines => ∀ line ∈ lines, holds line := by
    refine .last fun _ => .branch (.last fun _ => ?_) (.pure nofun)
    refine .step (.close fun _ => other _ rfl) fun line (here : holds line) => .pure ?_
    simpa using here
  have statement : (anyStatement g).Yields text holds :=
    Reads.yields (any_statement_reads (fun tree _ plain _ => other tree plain) g
      (.of_yields imports)
      fun first marks plain => .of_yields (exports first marks plain))
  have each : (many do
      if (← peek).shape == .finish then return none else return some (← anyStatement g)).Yields text
        fun statements => ∀ statement ∈ statements, holds statement := by
    refine .many (.last fun _ => .branch (.pure nofun) (.step statement fun statement here =>
      .pure ?_))
    rintro _ ⟨⟩
    exact here
  refine .last fun setting => .step opening fun lines early =>
    .step each fun statements late => .pure ?_
  refine with_comments_all (fun _ => other _ rfl) _ _ 0 fun statement member => ?_
  rcases List.mem_append.mp member with line | later
  · exact early statement line
  · exact late statement later

end Source.Grammar

theorem SourceModule.parse_yields {holds : Tree → Prop} (path : Path) (text : String)
    (m : SourceModule) (parsed : parse path text = .ok m)
    (other : ∀ tree : Tree, tree.kind.movesNames = false → holds tree)
    (imports : ∀ g, (Source.Grammar.importStatement g).Yields text holds)
    (exports : ∀ g first marks, (∀ mark ∈ marks, Tree.role? mark = none) →
      (Source.Grammar.exportStatement g first marks).Yields text holds)
    (statement : Tree) (member : statement ∈ m.tree.children) : holds statement := by
  rw [parse] at parsed
  split at parsed
  next => cases parsed
  next language =>
      split at parsed
      next tree sound found =>
          cases parsed
          obtain ⟨⟨whole, later⟩, read, kept⟩ := Option.bind_eq_some_iff.mp found
          dsimp only at kept
          split at kept
          next =>
              cases kept
              exact Source.Grammar.program_yields other _ (imports _) (exports _) _ _ _ _ rfl read
                statement member
          next => cases kept
      next =>
          cases parsed
          exact absurd member List.not_mem_nil

end DeadExports

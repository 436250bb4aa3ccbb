import DeadExports.Proofs.Source.ExportForms
import DeadExports.Proofs.Source.Standing

set_option autoImplicit false

namespace DeadExports

namespace Source

namespace Parse

variable {α β : Type} {text : String}

def Looks (reader : Parse α) (text : String) : Prop := ∀ setting cursor value rest,
  setting.text = text → cursor.Sound text → reader setting cursor = some (value, rest) →
    rest.Sound text ∧ rest.position = cursor.position

def Skips (reader : Parse α) (text : String) : Prop := ∀ moved first trees,
  reader.Reads text (Cursor.Behind text moved first trees) fun _ => Cursor.Behind text moved first
    trees

def Eats (reader : Parse α) (text : String) : Prop := ∀ moved first trees,
  reader.Reads text (Cursor.Behind text moved first trees) fun _ => Cursor.Behind text true first
    trees

def Lays (reader : Parse Tree) (text : String) : Prop := ∀ moved first trees,
  reader.Reads text (Cursor.Behind text moved first trees) fun tree =>
    Cursor.Behind text true first (trees ++ [tree])

def LaysAll (reader : Parse (List Tree)) (text : String) : Prop := ∀ moved first trees,
  reader.Reads text (Cursor.Behind text moved first trees) fun found =>
    Cursor.Behind text true first (trees ++ found)

def MayLay (reader : Parse (List Tree)) (text : String) : Prop := ∀ moved first trees,
  reader.Reads text (Cursor.Behind text moved first trees) fun found =>
    Cursor.Behind text moved first (trees ++ found)

section Rules

variable {moved : Bool} {first : Nat} {trees : List Tree} {before : Cursor → Prop}

theorem Reads.attempt {reader : Parse α} {after : α → Cursor → Prop}
    (reads : reader.Reads text before after) :
    (Parse.attempt reader).Reads text before fun found rest =>
      match found with
      | some value => after value rest
      | none => before rest := by
  intro setting cursor found rest here start read
  rw [Parse.attempt] at read
  split at read
  next taken =>
      cases read
      exact reads _ _ _ _ here start taken
  next =>
      cases read
      exact start

theorem Reads.within {change : Setting → Setting} {reader : Parse α} {after : α → Cursor → Prop}
    (same : ∀ setting, (change setting).text = setting.text)
    (reads : reader.Reads text before after) :
    (Parse.within change reader).Reads text before after :=
  fun setting _ _ _ here start read => reads (change setting) _ _ _ ((same setting).trans here)
    start read

theorem Reads.inBrackets {reader : Parse α} {after : α → Cursor → Prop}
    (reads : reader.Reads text before after) :
    (Parse.inBrackets reader).Reads text before after :=
  .within (fun _ => rfl) reads

theorem Reads.inBlock {reader : Parse α} {after : α → Cursor → Prop}
    (reads : reader.Reads text before after) : (Parse.inBlock reader).Reads text before after :=
  .within (fun _ => rfl) reads

theorem Reads.since {reader : Parse α} {other : Cursor → Prop} {after : α → Cursor → Prop}
    (implies : ∀ cursor, before cursor → other cursor) (reads : reader.Reads text other after) :
    reader.Reads text before after :=
  fun _ _ _ _ here start read => reads _ _ _ _ here (implies _ start) read

theorem Reads.held {reader : Parse α} {after : α → Cursor → Prop}
    (reads : reader.Reads text (Cursor.Holds text first trees) after) :
    reader.Reads text (Cursor.Behind text true first trees) after :=
  .since (fun _ => And.left) reads

theorem Reads.fromHeld {reader : Parse α} {after : α → Cursor → Prop}
    (reads : reader.Reads text (Cursor.Behind text false first trees) after) :
    reader.Reads text (Cursor.Holds text first trees) after :=
  .since (fun _ => .inl) reads

theorem Reads.rounds (holds : α → Cursor → Prop) {advance : α → Parse (Option α)}
    (each : ∀ value, (advance value).Reads text (holds value) fun found =>
      holds (found.getD value)) :
    ∀ count value, (repeatFor advance count value).Reads text (holds value) holds
  | 0, _ => .pure fun _ => id
  | count + 1, value => by
      refine .step (each value) fun found => ?_
      cases found with
      | some next => exact rounds holds each count next
      | none => exact .pure fun _ => id

theorem setting_reads : setting.Reads text before fun now rest => before rest ∧
    now.text = text := by
  intro _ _ _ _ here start read
  cases read
  exact ⟨start, here⟩

theorem position_reads : position.Reads text before fun offset rest =>
    before rest ∧ offset = rest.position := by
  intro _ _ _ _ _ start read
  cases read
  exact ⟨start, rfl⟩

theorem Reads.repeatFrom (holds : α → Cursor → Prop) {value : α}
    {advance : α → Parse (Option α)}
    (each : ∀ value, (advance value).Reads text (holds value) fun found =>
      holds (found.getD value)) :
    (Parse.repeatFrom value advance).Reads text (holds value) holds := by
  refine .step setting_reads fun _ => .given fun _ => ?_
  exact .step (position_reads.weaken fun _ _ => And.left) fun _ => .rounds holds each _ value

theorem Reads.manyFrom (holds : List α → Cursor → Prop) {reader : Parse (Option α)}
    (each : ∀ values, reader.Reads text (holds values) fun found =>
      holds (values ++ found.toList)) :
    (many reader).Reads text (holds []) holds := by
  have run (values : List α) : (do return (← reader).map (· :: values)).Reads text
      (holds values.reverse) fun found => holds (found.getD values).reverse := by
    refine .step (each values.reverse) fun found => .pure fun _ => ?_
    cases found with
    | some value => simp
    | none => simp
  exact .step (.repeatFrom (fun (values : List α) => holds values.reverse) run) fun values =>
    .pure fun _ => id

theorem many_emits {reader : Parse (Option α)} (emits : α → List Tree) (trees : List Tree)
    (each : ∀ trees, reader.Reads text (Cursor.Behind text moved first trees) fun found =>
      Cursor.Behind text moved first (trees ++ found.toList.flatMap emits)) :
    (many reader).Reads text (Cursor.Behind text moved first trees) fun found =>
      Cursor.Behind text moved first (trees ++ found.flatMap emits) := by
  have run := Reads.manyFrom
    (fun values => Cursor.Behind text moved first (trees ++ values.flatMap emits))
    fun values => (each (trees ++ values.flatMap emits)).weaken fun found _ => by
      rw [List.flatMap_append, List.append_assoc]
      exact id
  rwa [List.flatMap_nil, List.append_nil] at run

theorem many_lays {reader : Parse (Option Tree)}
    (each : ∀ trees, reader.Reads text (Cursor.Behind text moved first trees) fun found =>
      Cursor.Behind text moved first (trees ++ found.toList)) :
    (many reader).Reads text (Cursor.Behind text moved first trees) fun found =>
      Cursor.Behind text moved first (trees ++ found) := by
  have run := many_emits (fun tree => [tree]) trees fun trees =>
    (each trees).weaken fun found _ => by
      rw [List.flatMap_singleton']
      exact id
  simpa only [List.flatMap_singleton'] using run

theorem many_skips {reader : Parse (Option α)}
    (each : reader.Reads text (Cursor.Behind text moved first trees) fun _ =>
      Cursor.Behind text moved first trees) :
    (many reader).Reads text (Cursor.Behind text moved first trees) fun _ =>
      Cursor.Behind text moved first trees :=
  .manyFrom (fun _ => Cursor.Behind text moved first trees) fun _ => each

theorem peek_finds (setting : Setting) (cursor rest : Cursor) (token : Token)
    (here : setting.text = text) (sound : cursor.Sound text)
    (read : peek setting cursor = some (token, rest)) :
    rest.Sound text ∧ rest.position = cursor.position ∧
      Token.next? text cursor.position = some token := by
  obtain ⟨seen, next⟩ := peek_reads cursor.position setting cursor token rest here sound.seen read
  exact ⟨⟨seen.here ▸ seen, seen.here ▸ sound.boundary⟩, seen.here, next⟩

theorem Looks.skips {reader : Parse α} (looks : reader.Looks text) : reader.Skips text := by
  intro moved first trees setting cursor value rest here behind read
  obtain ⟨sound, same⟩ := looks setting cursor value rest here behind.sound read
  exact behind.look sound same

theorem Looks.holds {reader : Parse α} (looks : reader.Looks text) :
    reader.Reads text (Cursor.Holds text first trees) fun _ => Cursor.Holds text first trees := by
  intro setting cursor value rest here holds read
  obtain ⟨sound, same⟩ := looks setting cursor value rest here holds.sound read
  exact ⟨sound, holds.stands, same ▸ holds.ordered⟩

theorem Looks.begins {reader : Parse α} (looks : reader.Looks text) :
    reader.Reads text (Cursor.Begins text first) fun _ => Cursor.Begins text first := by
  intro setting cursor value rest here begins read
  obtain ⟨sound, same⟩ := looks setting cursor value rest here begins.sound read
  exact ⟨sound, same ▸ begins.next⟩

theorem peek_looks : peek.Looks text := fun _ _ _ _ here sound read =>
  have found := peek_finds _ _ _ _ here sound read
  ⟨found.1, found.2.1⟩

theorem Looks.answer {reader : Parse α} (looks : reader.Looks text) (answer : α → β) :
    (do return answer (← reader) : Parse β).Looks text := by
  intro setting cursor value rest here sound read
  obtain ⟨_, _, found, read⟩ := bind_result _ _ _ _ _ read
  cases read
  exact looks _ _ _ _ here sound found

theorem next_is_looks (word : String) : (nextIs word).Looks text :=
  peek_looks.answer fun token => token.text == word

theorem next_is_one_of_looks (words : List String) : (nextIsOneOf words).Looks text :=
  peek_looks.answer fun token => words.contains token.text

theorem peek_second_looks : peekSecond.Looks text := by
  intro setting cursor second rest here sound read
  obtain ⟨found, middle, peeked, read⟩ := bind_result _ _ _ _ _ read
  obtain ⟨_, _, settled, read⟩ := bind_result _ _ _ _ _ read
  cases settled
  cases read
  exact peek_looks setting cursor found rest here sound peeked

theorem peek_behind :
    peek.Reads text (Cursor.Behind text moved first trees) fun token rest =>
      rest.Behind text moved first trees ∧ Token.next? text rest.position = some token := by
  intro setting cursor token rest here behind read
  obtain ⟨sound, same, next⟩ := peek_finds setting cursor rest token here behind.sound read
  exact ⟨behind.look sound same, same ▸ next⟩

theorem peek_begins :
    peek.Reads text (Cursor.Begins text first) fun token rest =>
      rest.Begins text first ∧ token.span.start = first := by
  intro setting cursor token rest here begins read
  obtain ⟨sound, same, next⟩ := peek_finds setting cursor rest token here begins.sound read
  exact ⟨⟨sound, same ▸ begins.next⟩,
    (Token.next_lies text _ token begins.sound.boundary next).1.trans begins.next⟩

theorem peek_sign :
    peek.Reads text (Cursor.Begins text first) fun token rest => rest.Begins text first ∧
      (token.shape = .mark → Text.isSign (Text.charAt text first) = true) := by
  intro setting cursor token rest here begins read
  obtain ⟨sound, same, next⟩ := peek_finds setting cursor rest token here begins.sound read
  obtain ⟨starts, lies⟩ := Token.next_lies text _ token begins.sound.boundary next
  refine ⟨⟨sound, same ▸ begins.next⟩, fun isMark => ?_⟩
  rw [← begins.next, ← starts]
  exact (lies (by rw [isMark]; decide)).mark isMark

theorem peek_skips : peek.Skips text := peek_looks.skips

theorem moved_sound (offset : Nat) (boundary : Text.isBoundary text offset = true) :
    Cursor.Sound text { position := offset } :=
  ⟨Cursor.moved_is_at text offset, boundary⟩

theorem move_reads {stop : Nat} (opens : Text.Opens text first) (inks : Text.Inks text first stop)
    (filled : first < stop) :
    (moveTo stop).Reads text before fun _ => Cursor.Behind text true first [] := by
  intro _ _ _ _ _ _ read
  cases read
  exact ⟨⟨moved_sound stop (inks.closes opens.1), nofun, filled.le⟩, filled,
    Text.ink_before text stop (Nat.zero_lt_of_lt filled) (inks.ink opens.1 filled)⟩

theorem take_finds (setting : Setting) (cursor rest : Cursor) (token : Token)
    (here : setting.text = text) (sound : cursor.Sound text)
    (read : take setting cursor = some (token, rest)) :
    Token.next? text cursor.position = some token ∧ rest = { position := token.span.stop } ∧
      token.span.start = (gapAt text cursor.position).stop ∧ token.Lies text := by
  obtain ⟨found, middle, peeked, read⟩ := bind_result _ _ _ _ _ read
  obtain ⟨-, -, next⟩ := peek_finds setting cursor middle found here sound peeked
  obtain ⟨_, later, guarded, read⟩ := bind_result _ _ _ _ _ read
  have more : found.shape ≠ .finish := by
    intro finish
    rw [finish] at guarded
    cases guarded
  cases read
  obtain ⟨starts, lies⟩ := Token.next_lies text _ token sound.boundary next
  exact ⟨next, rfl, starts, lies more⟩

theorem expect_finds (word : String) (setting : Setting) (cursor rest : Cursor) (token : Token)
    (here : setting.text = text) (sound : cursor.Sound text)
    (read : expect word setting cursor = some (token, rest)) :
    rest = { position := token.span.stop } ∧
      token.span.start = (gapAt text cursor.position).stop ∧ token.Lies text := by
  obtain ⟨found, middle, peeked, read⟩ := bind_result _ _ _ _ _ read
  obtain ⟨sound, same, -⟩ := peek_finds setting cursor middle found here sound peeked
  split at read
  next => exact same ▸ (take_finds setting middle rest token here sound read).2
  next => cases read

theorem take_leaf (kind : Kind) (common : kind.isCommon = true) :
    take.Reads text (Cursor.Behind text moved first trees) fun token =>
      Cursor.Behind text true first (trees ++ [.leaf kind token.span]) := by
  intro setting cursor token rest here behind read
  obtain ⟨-, rfl, starts, lies⟩ := take_finds setting cursor rest token here behind.sound read
  have opens : Text.Opens text token.span.start :=
    starts ▸ Text.gap_opens text _ behind.sound.boundary
  have boundary := lies.inks.closes opens.1
  have ink := Text.ink_before text token.span.stop (Nat.zero_lt_of_lt lies.filled)
    (lies.inks.ink opens.1 lies.filled)
  refine behind.take [_] (moved_sound _ boundary) (starts ▸ lies.filled) ink ?_ ?_
  · intro tree member
    obtain rfl := List.mem_singleton.mp member
    refine Tree.Stands.close [] common opens lies.filled boundary ink nofun
      lies.filled.le rfl ?_
    cases kind <;> rfl
  · exact ⟨starts.ge, lies.filled, Nat.le_refl _⟩

theorem Reads.drop {reader : Parse α} {more : α → List Tree}
    (reads : reader.Reads text before fun value =>
      Cursor.Behind text true first (trees ++ more value)) :
    reader.Reads text before fun _ => Cursor.Behind text true first trees := by
  refine reads.weaken fun value rest behind => ⟨⟨behind.1.sound, ?_, ?_⟩, behind.2⟩
  · exact fun tree member => behind.1.stands tree (List.mem_append_left _ member)
  · have ordered := behind.1.ordered
    rw [List.map_append] at ordered
    exact Span.in_order_before _ _ _ _ ordered

theorem Lays.begins {reader : Parse Tree} (lays : reader.Lays text) :
    reader.Reads text (Cursor.Begins text first) fun tree =>
      Cursor.Behind text true first [tree] :=
  .since (fun _ => Cursor.Begins.behind) (lays false first [])

theorem Lays.eats {reader : Parse Tree} (lays : reader.Lays text) : reader.Eats text :=
  fun moved first trees => .drop (lays moved first trees)

theorem take_eats : take.Eats text := fun _ _ _ => .drop (take_leaf .group rfl)

theorem take_seen (kind : Kind) (common : kind.isCommon = true) (token : Token) :
    take.Reads text (fun cursor => cursor.Behind text moved first trees ∧
        Token.next? text cursor.position = some token) fun taken rest =>
      rest.Behind text true first (trees ++ [.leaf kind token.span]) ∧ taken = token := by
  intro setting cursor taken rest here start read
  have next := (take_finds setting cursor rest taken here start.1.sound read).1
  obtain rfl := Option.some.inj (next.symm.trans start.2)
  exact ⟨take_leaf kind common setting cursor taken rest here start.1 read, rfl⟩

theorem peek_second_seen (token : Token) :
    peekSecond.Reads text (fun cursor => cursor.Behind text moved first trees ∧
        Token.next? text cursor.position = some token) fun _ rest =>
      rest.Behind text moved first trees ∧ Token.next? text rest.position = some token := by
  intro setting cursor second rest here start read
  obtain ⟨sound, same⟩ := peek_second_looks setting cursor second rest here start.1.sound read
  exact ⟨start.1.look sound same, same ▸ start.2⟩

theorem take_begins :
    take.Reads text (Cursor.Begins text first) fun token rest =>
      rest.Behind text true first [] ∧ token.span.start = first := by
  intro setting cursor token rest here begins read
  refine ⟨take_eats _ _ _ setting cursor token rest here begins.behind read, ?_⟩
  exact (take_finds setting cursor rest token here begins.sound read).2.2.1.trans begins.next

theorem next_is_skips (word : String) : (nextIs word).Skips text := (next_is_looks word).skips

theorem next_is_one_of_skips (words : List String) : (nextIsOneOf words).Skips text :=
  (next_is_one_of_looks words).skips

theorem setting_skips : setting.Skips text :=
  fun _ _ _ => setting_reads.weaken fun _ _ => And.left

theorem position_skips : position.Skips text :=
  fun _ _ _ => position_reads.weaken fun _ _ => And.left

theorem is_typed_skips : isTyped.Skips text := by
  intro _ _ _ _ _ _ _ _ start read
  cases read
  exact start

theorem has_markup_skips : hasMarkup.Skips text := by
  intro _ _ _ _ _ _ _ _ start read
  cases read
  exact start

theorem would_accept_skips (reader : Parse α) : (wouldAccept reader).Skips text := by
  intro _ _ _ _ _ _ _ _ start read
  cases read
  exact start

theorem peek_second_skips : peekSecond.Skips text := peek_second_looks.skips

theorem continues_line_skips : continuesLine.Skips text :=
  fun _ _ _ => .step (peek_skips _ _ _) fun _ => .step (setting_skips _ _ _) fun _ =>
    .pure fun _ => id

theorem Reads.mayTake {takes : Bool} {yes : Token → α} {no : α} :
    (if takes then take >>= fun token => Pure.pure (yes token) else Pure.pure no).Reads text
      (Cursor.Behind text moved first trees) fun _ => Cursor.Behind text moved first trees :=
  .branch (.step (take_eats moved first trees) fun _ => .pure fun _ => Cursor.Behind.start)
    (.pure fun _ => id)

theorem accept_skips (word : String) : (accept word).Skips text :=
  fun _ _ _ => .step (peek_skips _ _ _) fun _ => .mayTake

theorem accept_typed_skips (word : String) : (acceptTyped word).Skips text :=
  fun _ _ _ => .step (is_typed_skips _ _ _) fun _ =>
    .branch (accept_skips word _ _ _) (.pure fun _ => id)

theorem expect_eats (word : String) : (expect word).Eats text :=
  fun _ _ _ => .step (peek_skips _ _ _) fun _ => .branch (take_eats _ _ _) .refuse

theorem expect_shape_eats (shape : Shape) : (expectShape shape).Eats text :=
  fun _ _ _ => .step (peek_skips _ _ _) fun _ => .branch (take_eats _ _ _) .refuse

theorem leaf_lays {kind : Kind} (common : kind.isCommon = true) : (leaf kind).Lays text :=
  fun _ _ _ => .step (take_leaf kind common) fun _ => .pure fun _ => id

theorem sign_taken {cursor : Cursor} (holds : cursor.Holds text first trees)
    (sign : Text.isSign (Text.charAt text cursor.position) = true) :
    Cursor.Behind text true first trees { position := cursor.position + 1 } := by
  obtain ⟨sound, stands, ordered⟩ := holds
  have inks := Text.sign_inks sign
  have moved := Nat.lt_succ_self cursor.position
  refine ⟨⟨moved_sound _ (inks.closes sound.boundary), stands, ?_⟩,
    (Span.in_order_le _ _ _ ordered).trans_lt moved,
    Text.ink_before text _ (Nat.succ_pos _) (inks.ink sound.boundary moved)⟩
  exact Span.in_order_widen _ _ _ _ _ (Nat.le_refl _) moved.le ordered

theorem close_angle_eats : closeAngle.Eats text := by
  intro moved first trees
  refine .step peek_behind fun token => ?_
  intro setting cursor value rest here start read
  obtain ⟨behind, next⟩ := start
  obtain ⟨_, _, guarded, read⟩ := bind_result _ _ _ _ _ read
  cases angle : token.shape == .mark && token.text.startsWith ">" with
  | false =>
      rw [angle] at guarded
      cases guarded
  | true =>
      cases read
      have isMark : token.shape = .mark := beq_iff_eq.mp (Bool.and_eq_true _ _ ▸ angle).1
      obtain ⟨starts, lies⟩ := Token.next_lies text _ token behind.sound.boundary next
      have sign := (lies (by rw [isMark]; decide)).mark isMark
      have opens := (Text.gap_opens text _ behind.sound.boundary).1
      exact sign_taken (starts ▸ behind.held) sign

theorem start_begins :
    start.Reads text (Cursor.Begins text first) fun offset rest =>
      rest.Begins text first ∧ offset = first :=
  .step peek_begins fun _ => .given fun same => .pure fun _ begins => ⟨begins, same⟩

theorem start_skips : start.Skips text :=
  fun _ _ _ => .step (peek_skips _ _ _) fun _ => .pure fun _ => id

theorem close_reads_from {kind : Kind} {children : List Tree} (common : kind.isCommon = true)
    (opens : Text.Opens text first) (same : children.map Tree.bare = trees.map Tree.bare)
    (holds : Tree.mayHold kind children = true) :
    (closeNode kind first children).Reads text (Cursor.Behind text true first trees) fun tree =>
      Cursor.Behind text true first [tree] := by
  intro _ cursor _ _ _ behind read
  cases read
  exact behind.whole (behind.close opens common same holds) rfl

theorem close_named {kind : Kind} {all children : List Tree} (before names after : List Tree)
    (whole : all = before ++ names ++ after)
    (renamed : children = before ++ names.map (Tree.inRole .name) ++ after)
    (common : kind.isCommon = true) (named : kind.hasPlainName = true)
    (opens : Text.Opens text first) (words : ∀ name ∈ names, name.kind.isWord = true) :
    (closeNode kind first children).Reads text (Cursor.Behind text true first all) fun tree =>
      Cursor.Behind text true first [tree] := by
  intro setting cursor tree rest here behind read
  have same : children.map Tree.bare = all.map Tree.bare := by
    simp [whole, renamed]
  refine close_reads_from common opens same (Tree.may_hold_named kind children named ?_) setting
    cursor tree rest here behind read
  intro child member isName
  have plain (tree : Tree) (known : tree ∈ all) : tree.role? ≠ some .name := by
    rw [(behind.stands tree known).role]
    exact nofun
  rw [renamed] at member
  rcases List.mem_append.mp member with front | last
  · rcases List.mem_append.mp front with early | renamed
    · exact absurd isName (plain child (by simp [whole, early]))
    · obtain ⟨name, known, rfl⟩ := List.mem_map.mp renamed
      rw [Tree.in_role_kind]
      exact words name known
  · exact absurd isName (plain child (by simp [whole, last]))

theorem close_again {found : Tree} (kind : Kind) (same : found.kind = kind)
    (starts : found.span.start = first) :
    (closeNode kind first found.children).Reads text (Cursor.Behind text true first [found])
      fun tree => Cursor.Behind text true first [tree] := by
  intro _ cursor _ _ _ behind read
  cases read
  obtain rfl := same
  obtain rfl := starts
  have stands := behind.stands found (List.mem_singleton_self _)
  have widened := stands.widen cursor.position behind.1.ordered.2.2 behind.1.sound.boundary
    behind.2.2
  exact behind.whole widened rfl

theorem Reads.alone {reader : Parse α} (emits : α → List Tree) (fact : α → Prop)
    (reads : ∀ first, Text.Opens text first →
      reader.Reads text (Cursor.Begins text first) fun value rest =>
        rest.Behind text true first (emits value) ∧ fact value) :
    reader.Reads text (Cursor.Behind text moved first trees) fun value rest =>
      rest.Behind text true first (trees ++ emits value) ∧ fact value := by
  intro setting cursor value rest here behind read
  have begins : cursor.Begins text (gapAt text cursor.position).stop := ⟨behind.sound, rfl⟩
  obtain ⟨later, fact⟩ := reads _ begins.opens setting cursor value rest here begins read
  exact ⟨behind.take _ later.1.sound later.2.1 later.2.2 later.1.stands later.1.ordered, fact⟩

theorem Lays.alone {reader : Parse Tree}
    (reads : ∀ first, Text.Opens text first →
      reader.Reads text (Cursor.Begins text first) fun tree =>
        Cursor.Behind text true first [tree]) : reader.Lays text :=
  fun _ _ _ => (Reads.alone (fun tree => [tree]) (fun _ => True) fun first opens =>
    (reads first opens).weaken fun _ _ behind => ⟨behind, trivial⟩).weaken fun _ _ => And.left

theorem node_holds {kind : Kind} {reader : Parse (List Tree)} (common : kind.isCommon = true)
    (reads : ∀ first, reader.Reads text (Cursor.Behind text false first [])
      fun children rest => rest.Behind text true first (children.map Tree.bare) ∧
        Tree.mayHold kind children = true) :
    (node kind reader).Lays text :=
  .alone fun first opens => .step start_begins fun _ => .given fun same => by
    obtain rfl := same
    refine .step (fun _ _ _ _ here begins read => reads _ _ _ _ _ here begins.behind read)
      fun children => .given fun holds => ?_
    refine close_reads_from common opens ?_ holds
    rw [List.map_map]
    exact List.map_congr_left fun tree _ => by cases tree; rfl

theorem node_lays {kind : Kind} {reader : Parse (List Tree)} (common : kind.isCommon = true)
    (isOpen : kind.isOpen = true)
    (reads : ∀ first, reader.Reads text (Cursor.Behind text false first [])
      fun children => Cursor.Behind text true first (children.map Tree.bare)) :
    (node kind reader).Lays text :=
  node_holds common fun first => (reads first).weaken fun children _ behind =>
    ⟨behind, Tree.may_hold_open kind children isOpen⟩

theorem Reads.children {found : List Tree}
    (same : found.map Tree.bare = trees.map Tree.bare) :
    (Pure.pure found : Parse (List Tree)).Reads text (Cursor.Behind text moved first trees)
      fun children => Cursor.Behind text moved first (children.map Tree.bare) :=
  .pure fun _ behind => by
    rw [same, Tree.Stands.bare behind.stands]
    exact behind

theorem LaysAll.children {reader : Parse (List Tree)} (lays : reader.LaysAll text) :
    reader.Reads text (Cursor.Behind text moved first []) fun children =>
      Cursor.Behind text true first (children.map Tree.bare) :=
  (lays moved first []).weaken fun children _ behind => by
    rw [List.nil_append] at behind
    rw [Tree.Stands.bare behind.stands]
    exact behind

theorem close_some {kind : Kind} {object : Tree} {all children : List Tree}
    (trees more kept : List Tree) (whole : all = trees ++ object :: more)
    (sub : kept.Sublist (object :: more)) (common : kind.isCommon = true)
    (isOpen : kind.isOpen = true) (same : children.map Tree.bare = kept.map Tree.bare) :
    (closeNode kind object.span.start children).Reads text (Cursor.Behind text true first all)
      fun tree => Cursor.Behind text true first (trees ++ [tree]) := by
  intro setting cursor tree rest here behind read
  obtain rfl := whole
  obtain ⟨⟨sound, stands, ordered⟩, moved, ink⟩ := behind
  rw [List.map_append, List.map_cons] at ordered
  obtain ⟨before, later⟩ := Span.in_order_split _ _ _ _ _ ordered
  have inside : cursor.Behind text true object.span.start kept := by
    refine ⟨⟨sound, fun tree member => ?_, ?_⟩,
      later.2.1.trans_le (Span.in_order_le _ _ _ later.2.2), ink⟩
    · exact stands tree (List.mem_append_right _ (sub.subset member))
    · exact Span.in_order_sublist _ _ _ _ (sub.map Tree.span) later
  have opens := (stands object (by simp)).opens
  have closed := close_reads_from common opens same (Tree.may_hold_open kind children isOpen)
    setting cursor tree rest here inside read
  have last := closed.1.ordered
  cases read
  refine ⟨⟨closed.1.sound, fun tree member => ?_, ?_⟩, moved, ink⟩
  · rcases List.mem_append.mp member with old | new
    · exact stands tree (List.mem_append_left _ old)
    · exact closed.1.stands tree new
  · rw [List.map_append]
    exact Span.in_order_append _ _ _ _ _ before last

theorem close_over {kind : Kind} {object : Tree} {all children : List Tree}
    (trees more : List Tree) (whole : all = trees ++ object :: more)
    (common : kind.isCommon = true) (isOpen : kind.isOpen = true)
    (same : children.map Tree.bare = (object :: more).map Tree.bare) :
    (closeNode kind object.span.start children).Reads text (Cursor.Behind text true first all)
      fun tree => Cursor.Behind text true first (trees ++ [tree]) :=
  close_some trees more _ whole (List.Sublist.refl _) common isOpen same

theorem Reads.regroup {reader : Parse α} {all parts : List Tree} {after : α → Cursor → Prop}
    (same : all = parts) (reads : reader.Reads text (Cursor.Behind text moved first parts) after) :
    reader.Reads text (Cursor.Behind text moved first all) after := same ▸ reads

theorem Reads.dropping {reader : Parse α} {fewer more : List Tree} {after : α → Cursor → Prop}
    (sub : fewer.Sublist more)
    (reads : reader.Reads text (Cursor.Behind text true first fewer) after) :
    reader.Reads text (Cursor.Behind text true first more) after := by
  refine fun _ _ _ _ here behind read => reads _ _ _ _ here
    ⟨⟨behind.1.sound, ?_, ?_⟩, behind.2⟩ read
  · exact fun tree member => behind.1.stands tree (sub.subset member)
  · exact Span.in_order_sublist _ _ _ _ (sub.map _) behind.1.ordered

theorem separated_emits (close : String) {item : Parse α} (emits : α → List Tree)
    (trees : List Tree)
    (each : ∀ trees, item.Reads text (Cursor.Behind text moved first trees) fun value =>
      Cursor.Behind text moved first (trees ++ emits value)) :
    (separated close item).Reads text (Cursor.Behind text moved first trees) fun found =>
      Cursor.Behind text true first (trees ++ found.flatMap emits) := by
  refine .step (many_emits emits trees fun trees => ?_) fun found =>
    .step (expect_eats close _ _ _) fun _ => .pure fun _ => id
  refine .step (next_is_skips close _ _ _) fun _ => .branch (.pure fun _ => ?_) ?_
  · simp
  · refine .step (each trees) fun value => .step (next_is_skips close _ _ _) fun _ => ?_
    refine .branch (.step (expect_eats "," _ _ _) fun _ => .pure fun _ behind => ?_)
      (.pure fun _ => ?_)
    · simpa using behind.start
    · simp

theorem separated_lays {close : String} {item : Parse Tree} (lays : item.Lays text) :
    (separated close item).LaysAll text := by
  intro moved first trees
  have run := separated_emits close (fun tree => [tree]) trees fun trees =>
    (lays moved first trees).weaken fun _ _ behind => behind.start
  simpa only [List.flatMap_singleton'] using run

theorem separated_flat {close : String} {item : Parse (List Tree)} (lays : item.MayLay text) :
    (separated close item).Reads text (Cursor.Behind text moved first trees) fun found =>
      Cursor.Behind text true first (trees ++ found.flatten) := by
  have run := separated_emits close id trees (lays moved first)
  simpa only [List.flatMap_id] using run

theorem Reads.found {all found : List Tree} (whole : all = trees ++ found) :
    (Pure.pure found : Parse (List Tree)).Reads text (Cursor.Behind text true first all)
      fun found => Cursor.Behind text moved first (trees ++ found) :=
  .pure fun _ behind => (whole ▸ behind).start

theorem Reads.nothing :
    (Pure.pure [] : Parse (List Tree)).Reads text (Cursor.Behind text moved first trees)
      fun found => Cursor.Behind text moved first (trees ++ found) :=
  .pure fun _ behind => (List.append_nil trees).symm ▸ behind

theorem Reads.ended :
    (Pure.pure none : Parse (Option Tree)).Reads text (Cursor.Behind text moved first trees)
      fun found => Cursor.Behind text moved first (trees ++ found.toList) :=
  .pure fun _ behind => (List.append_nil trees).symm ▸ behind

theorem Reads.item {tree : Tree} :
    (Pure.pure (some tree) : Parse (Option Tree)).Reads text
      (Cursor.Behind text true first (trees ++ [tree]))
      fun found => Cursor.Behind text moved first (trees ++ found.toList) :=
  .pure fun _ behind => behind.start

theorem automatic_end_reads (ending : Ending) :
    (automaticEnd ending).Reads text (Cursor.Behind text true first trees) fun _ =>
      Cursor.Behind text true first trees := by
  refine .step setting_reads fun now => .given fun here => .step position_reads fun offset => ?_
  intro _ cursor _ _ _ start read
  obtain ⟨behind, rfl⟩ := start
  cases found : automaticEnd? now.language ending now.text cursor.position with
  | some stop =>
      rw [found] at read
      cases read
      obtain ⟨order, boundary, ink⟩ := automatic_end_lies _ _ _ _ _
        (here.symm ▸ behind.1.sound.boundary) (here.symm ▸ behind.2.2) found
      rw [here] at boundary ink
      exact ⟨⟨moved_sound _ boundary, behind.1.stands,
        Span.in_order_widen _ _ _ _ _ (Nat.le_refl _) order behind.1.ordered⟩,
        behind.2.1.trans_le order, ink⟩
  | none =>
      rw [found] at read
      cases read

theorem statement_end_reads (ending : Ending) :
    (statementEnd ending).Reads text (Cursor.Behind text true first trees) fun _ =>
      Cursor.Behind text true first trees :=
  .step (accept_skips _ _ _ _) fun _ => .branch (.pure fun _ => id) (automatic_end_reads ending)

theorem optional_end_reads (ending : Ending) :
    (optionalEnd ending).Reads text (Cursor.Behind text true first trees) fun _ =>
      Cursor.Behind text true first trees :=
  .step (.attempt (automatic_end_reads ending)) fun found => .pure fun _ => by
    cases found <;> exact id

section Steps

variable {reader : Parse α} {next : α → Parse β} {after : β → Cursor → Prop}

theorem Reads.skip (skips : reader.Skips text)
    (goesOn : ∀ value, (next value).Reads text (Cursor.Behind text moved first trees) after) :
    (reader >>= next).Reads text (Cursor.Behind text moved first trees) after :=
  .step (skips moved first trees) goesOn

theorem Reads.eat (eats : reader.Eats text)
    (goesOn : ∀ value, (next value).Reads text (Cursor.Behind text true first trees) after) :
    (reader >>= next).Reads text (Cursor.Behind text moved first trees) after :=
  .step (eats moved first trees) goesOn

theorem Reads.lay {reader : Parse Tree} {next : Tree → Parse β} (lays : reader.Lays text)
    (goesOn : ∀ tree,
      (next tree).Reads text (Cursor.Behind text true first (trees ++ [tree])) after) :
    (reader >>= next).Reads text (Cursor.Behind text moved first trees) after :=
  .step (lays moved first trees) goesOn

theorem Reads.layKnown {reader : Parse Tree} {next : Tree → Parse β} {holds : Tree → Prop}
    (lays : reader.Lays text) (yields : reader.Yields text holds)
    (goesOn : ∀ tree, holds tree →
      (next tree).Reads text (Cursor.Behind text true first (trees ++ [tree])) after) :
    (reader >>= next).Reads text (Cursor.Behind text moved first trees) after :=
  .step ((lays moved first trees).known yields) fun tree => .given (goesOn tree)

theorem Reads.layAll {reader : Parse (List Tree)} {next : List Tree → Parse β}
    (lays : reader.LaysAll text)
    (goesOn : ∀ found,
      (next found).Reads text (Cursor.Behind text true first (trees ++ found)) after) :
    (reader >>= next).Reads text (Cursor.Behind text moved first trees) after :=
  .step (lays moved first trees) goesOn

theorem Reads.mayLay {reader : Parse (List Tree)} {next : List Tree → Parse β}
    (lays : reader.MayLay text)
    (goesOn : ∀ found,
      (next found).Reads text (Cursor.Behind text moved first (trees ++ found)) after) :
    (reader >>= next).Reads text (Cursor.Behind text moved first trees) after :=
  .step (lays moved first trees) goesOn

theorem Reads.set {before : Cursor → Prop} {value : α}
    (goesOn : (next value).Reads text before after) :
    (Pure.pure value >>= next).Reads text before after := goesOn

theorem Reads.attempting {before : Cursor → Prop} (between : α → Cursor → Prop)
    {next : Option α → Parse β} (reads : reader.Reads text before between)
    (some : ∀ value, (next (some value)).Reads text (between value) after)
    (none : (next none).Reads text before after) :
    (Parse.attempt reader >>= next).Reads text before after :=
  .step (.attempt reads) fun found => by
    cases found with
    | some value => exact some value
    | none => exact none

theorem Reads.option {condition : Prop} [Decidable condition] {reader : Parse Tree}
    {next : List Tree → Parse β} (lays : reader.Lays text)
    (goesOn : ∀ found,
      (next found).Reads text (Cursor.Behind text moved first (trees ++ found)) after) :
    (if condition then reader >>= fun tree => Pure.pure [tree] >>= next
      else Pure.pure [] >>= next).Reads text (Cursor.Behind text moved first trees) after :=
  .branch (.lay lays fun _ => .step (.found rfl) goesOn) (.step .nothing goesOn)

end Steps

end Rules

end Parse
end Source
end DeadExports

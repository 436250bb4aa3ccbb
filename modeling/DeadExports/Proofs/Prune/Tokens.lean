import DeadExports.Proofs.Candidate.Comments
import DeadExports.Proofs.Prune.Clause
import DeadExports.Proofs.Source.Words

set_option autoImplicit false

namespace DeadExports

namespace Text

def openBrace : UInt8 := 123
def closeBrace : UInt8 := 125
def comma : UInt8 := 44
def slash : UInt8 := 47
def star : UInt8 := 42

inductive IsComment (text : String) (span : Span) : Prop
  | block (long : span.start + 4 ≤ span.stop)
      (opens : (bytes text)[span.start]? = some slash ∧ (bytes text)[span.start + 1]? = some star)
      (closes : (bytes text)[span.stop - 2]? = some star ∧ (bytes text)[span.stop - 1]? =
        some slash)
  | line (long : span.start + 2 ≤ span.stop)
      (opens : (bytes text)[span.start]? = some slash ∧ (bytes text)[span.start + 1]? = some slash)
      (ends : isFeed text span.stop = true ∨ isReturn text span.stop = true)

end Text

namespace Clause

inductive Alternate : Nat → List Span → List Span → Nat → Prop
  | none {first last : Nat} (order : first ≤ last) : Alternate first [] [] last
  | last {first last : Nat} {specifier : Span} (starts : first ≤ specifier.start)
      (filled : specifier.start < specifier.stop) (stops : specifier.stop ≤ last) :
      Alternate first [specifier] [] last
  | next {first last : Nat} {specifier comma : Span} {rest commas : List Span}
      (starts : first ≤ specifier.start) (filled : specifier.start < specifier.stop)
      (before : specifier.stop ≤ comma.start) (one : comma.stop = comma.start + 1)
      (later : Alternate comma.stop rest commas last) :
      Alternate first (specifier :: rest) (comma :: commas) last

-- What goes with the removed specifiers: each of them with its own comma, and the comma of the last
-- one that stays when no comma stood at the end of the list.
def lost (removed : Span → Bool) : List Span → List Span → List Span
  | specifier :: rest, comma :: commas =>
    (if removed specifier then [⟨specifier.start, comma.stop⟩]
      else if commas.length < rest.length ∧ rest.all removed then [comma] else []) ++
      lost removed rest commas
  | specifier :: _, [] => if removed specifier then [specifier] else []
  | [], _ => []

theorem alternate_le {first last : Nat} {specifiers commas : List Span}
    (tokens : Alternate first specifiers commas last) :
    first ≤ last := by
  induction tokens with
  | none order => exact order
  | last starts filled stops => omega
  | next starts filled before one _ ih => omega

theorem alternate_widen {first start last : Nat} {specifiers commas : List Span}
    (tokens : Alternate start specifiers commas last) (below : first ≤ start) :
    Alternate first specifiers commas last := by
  cases tokens with
  | none order => exact .none (below.trans order)
  | last starts filled stops => exact .last (below.trans starts) filled stops
  | next starts filled before one later => exact .next (below.trans starts) filled before one later

theorem alternate_bounds {first last : Nat} {specifiers commas : List Span}
    (tokens : Alternate first specifiers commas last) (token : Span)
    (listed : token ∈ specifiers ∨ token ∈ commas) :
    first ≤ token.start ∧ token.start < token.stop ∧ token.stop ≤ last := by
  induction tokens with
  | none => rcases listed with among | among <;> cases among
  | last starts filled stops =>
      rcases listed with among | among
      · obtain rfl := List.mem_singleton.mp among
        exact ⟨starts, filled, stops⟩
      · cases among
  | next starts filled before one later ih =>
      have order := alternate_le later
      rcases listed with among | among
      · rcases List.mem_cons.mp among with rfl | further
        · omega
        · have := ih (.inl further)
          omega
      · rcases List.mem_cons.mp among with rfl | further
        · omega
        · have := ih (.inr further)
          omega

theorem alternate_no_commas {first last : Nat} {commas : List Span}
    (tokens : Alternate first [] commas last) : commas = [] := by
  cases tokens with
  | none => rfl

theorem alternate_lengths {first last : Nat} {specifiers commas : List Span}
    (tokens : Alternate first specifiers commas last) :
    commas.length = specifiers.length ∨ commas.length + 1 = specifiers.length := by
  induction tokens with
  | none => exact .inl rfl
  | last => exact .inr rfl
  | next _ _ _ _ _ ih =>
      rw [List.length_cons, List.length_cons]
      omega

theorem alternate_spaced {first last : Nat} {specifiers commas : List Span}
    (tokens : Alternate first specifiers commas last) :
    (specifiers.Pairwise fun a b => a.stop ≤ b.start) ∧ ∀ comma ∈ commas, ∀ specifier ∈ specifiers,
      comma.Apart specifier := by
  induction tokens with
  | none => exact ⟨List.Pairwise.nil, nofun⟩
  | last => exact ⟨List.pairwise_singleton _ _, nofun⟩
  | next starts filled before one later ih =>
      have behind := fun token among => (alternate_bounds later token among).1
      refine ⟨List.pairwise_cons.mpr ⟨fun other further => ?_, ih.1⟩,
        fun comma isComma specifier isSpecifier => ?_⟩
      · have := behind other (.inl further)
        omega
      · rcases List.mem_cons.mp isComma with rfl | furtherComma
        · rcases List.mem_cons.mp isSpecifier with rfl | further
          · exact .inr before
          · exact .inl (behind specifier (.inl further))
        · rcases List.mem_cons.mp isSpecifier with rfl | further
          · have := behind comma (.inr furtherComma)
            exact .inr (by omega)
          · exact ih.2 comma furtherComma specifier further

theorem lost_in_order {first last : Nat} {specifiers commas : List Span} (removed : Span → Bool)
    (tokens : Alternate first specifiers commas last) :
    Span.InOrder first (lost removed specifiers commas) last := by
  induction tokens with
  | none order => exact order
  | last starts filled stops =>
      rw [lost]
      split
      next => exact ⟨starts, filled, stops⟩
      next => exact starts.trans (filled.le.trans stops)
  | @next first last specifier comma rest commas starts filled before one later ih =>
      rw [lost]
      split
      next => exact ⟨starts, by dsimp only; omega, ih⟩
      next =>
          split
          next => exact ⟨by omega, by omega, ih⟩
          next =>
              exact Span.in_order_widen first comma.stop last last _ (by omega)
                (Nat.le_refl _) ih

theorem alternate_commas {first last : Nat} {specifiers commas : List Span}
    (tokens : Alternate first specifiers commas last) :
    ∀ comma ∈ commas, comma.stop = comma.start + 1 := by
  induction tokens with
  | none => exact nofun
  | last => exact nofun
  | next _ _ _ one _ ih =>
      intro comma member
      rcases List.mem_cons.mp member with rfl | further
      · exact one
      · exact ih comma further

theorem ink_of_byte (text : String) (place : Nat) (byte : UInt8)
    (found : (Text.bytes text)[place]? = some byte) (ink : Text.isInk byte = true) :
    Text.hasInk text place = true := by
  rw [Text.hasInk, Text.byte_at_eq, found]
  exact ink

section Removed

variable (removed : Span → Bool)

theorem lost_tokens {first last : Nat} {specifiers commas : List Span}
    (tokens : Alternate first specifiers commas last) (core : Span)
    (listed : core ∈ lost removed specifiers commas) :
    core ∈ specifiers ∨ core ∈ commas ∨
      ∃ specifier ∈ specifiers, ∃ comma ∈ commas, core = ⟨specifier.start, comma.stop⟩ ∧
        specifier.stop ≤ comma.start := by
  induction tokens with
  | none => cases listed
  | last =>
      rw [lost] at listed
      split at listed
      next => exact .inl listed
      next => cases listed
  | @next first last specifier comma rest commas starts filled before one later ih =>
      rw [lost] at listed
      rcases List.mem_append.mp listed with here | further
      · split at here
        next =>
            exact .inr (.inr ⟨specifier, List.mem_cons_self, comma, List.mem_cons_self,
              List.mem_singleton.mp here, before⟩)
        next =>
            split at here
            next => exact .inr (.inl (List.mem_singleton.mp here ▸ List.mem_cons_self))
            next => cases here
      · rcases ih further with isSpecifier | isComma | ⟨other, member, comma', member', same, order⟩
        · exact .inl (List.mem_cons_of_mem _ isSpecifier)
        · exact .inr (.inl (List.mem_cons_of_mem _ isComma))
        · exact .inr (.inr ⟨other, List.mem_cons_of_mem _ member, comma',
            List.mem_cons_of_mem _ member', same, order⟩)

theorem comma_lost {first last : Nat} {specifier comma : Span} {rest commas : List Span}
    (tokens : Alternate first (specifier :: rest) (comma :: commas) last) :
    (∃ core ∈ lost removed (specifier :: rest) (comma :: commas), core.start ≤ comma.start ∧
      comma.start < core.stop) ↔
      removed specifier = true ∨ (commas.length < rest.length ∧ rest.all removed = true) := by
  cases tokens with
  | next starts filled before one later =>
      have behind : ¬ ∃ core ∈ lost removed rest commas, core.start ≤ comma.start ∧
          comma.start < core.stop := by
        rintro ⟨core, listed, low, -⟩
        have := (Span.in_order_bounds _ _ _ (lost_in_order removed later) core listed).1
        omega
      simp only [lost, List.mem_append, or_and_right, exists_or, or_iff_left behind]
      cases goes : removed specifier with
      | true =>
          refine iff_of_true ⟨_, List.mem_singleton_self _, ?_, ?_⟩ (.inl rfl)
          · dsimp only
            omega
          · dsimp only
            omega
      | false =>
          by_cases last : commas.length < rest.length ∧ rest.all removed = true
          · rw [if_neg Bool.false_ne_true, if_pos last]
            exact iff_of_true ⟨comma, List.mem_singleton_self _, Nat.le_refl _, by omega⟩
              (.inr last)
          · rw [if_neg Bool.false_ne_true, if_neg last]
            refine iff_of_false ?_ ?_
            · rintro ⟨core, listed, -⟩
              cases listed
            · rintro (goes | both)
              · cases goes
              · exact last both

theorem later_lost {first last : Nat} {specifier comma : Span} {rest commas : List Span}
    (tokens : Alternate first (specifier :: rest) (comma :: commas) last) (place : Nat)
    (behind : comma.stop ≤ place) :
    (∃ core ∈ lost removed (specifier :: rest) (comma :: commas), core.start ≤ place ∧
      place < core.stop) ↔
      ∃ core ∈ lost removed rest commas, core.start ≤ place ∧ place < core.stop := by
  cases tokens with
  | next starts filled before one later =>
      rw [lost]
      constructor
      · rintro ⟨core, listed, low, high⟩
        rcases List.mem_append.mp listed with here | further
        · split at here
          next =>
              obtain rfl := List.mem_singleton.mp here
              dsimp only at high
              omega
          next =>
              split at here
              next =>
                  obtain rfl := List.mem_singleton.mp here
                  omega
              next => cases here
        · exact ⟨core, further, low, high⟩
      · rintro ⟨core, listed, covers⟩
        exact ⟨core, List.mem_append_right _ listed, covers⟩

theorem none_left {specifiers : List Span} (all : specifiers.all removed = true) :
    specifiers.filter (fun specifier => !removed specifier) = [] := by
  refine List.filter_eq_nil_iff.mpr fun specifier member => ?_
  rw [List.all_eq_true.mp all specifier member]
  exact Bool.false_ne_true

structure Loses (cuts specifiers commas : List Span) : Prop where
  kept : ∀ specifier ∈ specifiers, removed specifier = false →
    Text.isCut cuts specifier.start = false
  gone : ∀ comma ∈ commas, Text.isCut cuts comma.start = true ↔
    ∃ core ∈ lost removed specifiers commas, core.start ≤ comma.start ∧ comma.start < core.stop

section Losing

variable {removed : Span → Bool} {cuts : List Span} {first last : Nat}
  {specifier comma : Span} {specifiers commas rest : List Span}

theorem comma_cut (tokens : Alternate first (specifier :: rest) (comma :: commas) last)
    (loses : Loses removed cuts (specifier :: rest) (comma :: commas)) :
    Text.isCut cuts comma.start = true ↔
      removed specifier = true ∨ (commas.length < rest.length ∧ rest.all removed = true) :=
  (loses.gone comma List.mem_cons_self).trans (comma_lost removed tokens)

theorem later_loses (tokens : Alternate first (specifier :: rest) (comma :: commas) last)
    (loses : Loses removed cuts (specifier :: rest) (comma :: commas)) :
    Loses removed cuts rest commas where
  kept other member := loses.kept other (List.mem_cons_of_mem _ member)
  gone other member := by
    cases tokens with
    | next starts filled before one later =>
        have order := (alternate_bounds later other (.inr member)).1
        rw [loses.gone other (List.mem_cons_of_mem _ member), later_lost removed
          (.next starts filled before one later) other.start order]

theorem commas_go (tokens : Alternate first specifiers commas last)
    (loses : Loses removed cuts specifiers commas) (all : specifiers.all removed = true) :
    commas.filter (fun comma => !Text.isCut cuts comma.start) = [] := by
  induction tokens with
  | none => rfl
  | last => rfl
  | next starts filled before one later ih =>
      have tokens := Alternate.next starts filled before one later
      rw [List.all_cons, Bool.and_eq_true] at all
      rw [List.filter_cons_of_neg, ih (later_loses tokens loses) all.2]
      rw [(comma_cut tokens loses).mpr (.inl all.1)]
      exact Bool.false_ne_true

theorem alternate_moved (tokens : Alternate first specifiers commas last)
    (loses : Loses removed cuts specifiers commas) :
    Alternate (Text.moved cuts first)
      ((specifiers.filter fun specifier => !removed specifier).map (Span.moved cuts))
      ((commas.filter fun comma => !Text.isCut cuts comma.start).map (Span.moved cuts))
      (Text.moved cuts last) := by
  induction tokens with
  | none order => exact .none (Text.moved_mono cuts _ _ order)
  | @last first last specifier starts filled stops =>
      cases goes : removed specifier with
      | true =>
          have between := Text.moved_mono cuts _ _ (starts.trans (filled.le.trans stops))
          simpa [goes] using .none between
      | false =>
          have here := loses.kept specifier (List.mem_singleton_self _) goes
          simpa [goes] using .last (Text.moved_mono cuts _ _ starts)
            (Text.moved_lt cuts _ _ here filled) (Text.moved_mono cuts _ _ stops)
  | @next first last specifier comma rest commas starts filled before one later ih =>
      have tokens := Alternate.next starts filled before one later
      have row := ih (later_loses tokens loses)
      have order := alternate_le later
      cases goes : removed specifier with
      | true =>
          have cut := (comma_cut tokens loses).mpr (.inl goes)
          have ahead := Text.moved_mono cuts first comma.stop (by omega)
          simpa [goes, cut] using alternate_widen row ahead
      | false =>
          have left := Text.moved_lt cuts _ _
            (loses.kept specifier List.mem_cons_self goes) filled
          have starts := Text.moved_mono cuts _ _ starts
          cases cut : Text.isCut cuts comma.start with
          | true =>
              -- everything behind goes, and nothing of it is left
              have behind := ((comma_cut tokens loses).mp cut).resolve_left (by simp [goes])
              have empty := commas_go later (later_loses tokens loses) behind.2
              have stops := Text.moved_mono cuts specifier.stop last (by omega)
              simpa [goes, cut, none_left removed behind.2, empty] using .last starts left stops
          | false =>
              have step : Text.moved cuts comma.stop = Text.moved cuts comma.start + 1 := by
                rw [one, Text.moved_succ, if_pos cut]
              simpa [goes, cut] using
                .next starts left (Text.moved_mono cuts _ _ before) step row

theorem alternate_trails (tokens : Alternate first specifiers commas last)
    (loses : Loses removed cuts specifiers commas)
    (some : ∃ specifier ∈ specifiers, removed specifier = false) :
    (commas.filter fun comma => !Text.isCut cuts comma.start).length =
        (specifiers.filter fun specifier => !removed specifier).length ↔
      commas.length = specifiers.length := by
  induction tokens with
  | none => rfl
  | last =>
      obtain ⟨specifier, member, stays⟩ := some
      obtain rfl := List.mem_singleton.mp member
      simp [stays]
  | @next first last specifier comma rest commas starts filled before one later ih =>
      have tokens := Alternate.next starts filled before one later
      have trails := ih (later_loses tokens loses)
      cases goes : removed specifier with
      | true =>
          have cut := (comma_cut tokens loses).mpr (.inl goes)
          obtain ⟨other, member, stays⟩ := some
          rcases List.mem_cons.mp member with rfl | further
          · rw [goes] at stays
            cases stays
          · simpa [goes, cut] using trails ⟨other, further, stays⟩
      | false =>
          by_cases further : ∃ other ∈ rest, removed other = false
          · have cut : Text.isCut cuts comma.start = false := by
              rw [← Bool.not_eq_true, comma_cut tokens loses, goes]
              rintro (false | ⟨-, all⟩)
              · cases false
              · obtain ⟨other, member, stays⟩ := further
                rw [List.all_eq_true.mp all other member] at stays
                cases stays
            simpa [goes, cut] using trails further
          · -- the commas behind go with all that is listed there, and this one when none trails
            have all : rest.all removed = true := by
              refine List.all_eq_true.mpr fun other member => ?_
              by_contra stays
              exact further ⟨other, member, Bool.eq_false_iff.mpr stays⟩
            have empty := commas_go later (later_loses tokens loses) all
            have here := comma_cut tokens loses
            have lengths := alternate_lengths later
            rw [List.length_cons, List.length_cons, List.filter_cons, List.filter_cons, goes,
              empty, none_left removed all]
            cases cut : Text.isCut cuts comma.start with
            | true =>
                have few := (here.mp cut).resolve_left (by simp [goes])
                exact iff_of_false (by simp) (by omega)
            | false =>
                have enough : ¬ commas.length < rest.length := fun few => by
                  rw [here.mpr (.inr ⟨few, all⟩)] at cut
                  cases cut
                exact iff_of_true (by simp) (by omega)

end Losing

end Removed

section Comments

variable {text edited : String} {cuts : List Span}

theorem comment_ends (comment : Span) (isComment : Text.IsComment text comment) :
    comment.start + 2 ≤ comment.stop ∧ Text.hasInk text comment.start = true ∧
      (Text.hasInk text (comment.stop - 1) = true ∨ Text.isFeed text comment.stop = true ∨
        Text.isReturn text comment.stop = true) := by
  cases isComment with
  | block long opens closes =>
      exact ⟨by omega, ink_of_byte text _ _ opens.1 rfl, .inl (ink_of_byte text _ _ closes.2 rfl)⟩
  | line long opens ends => exact ⟨long, ink_of_byte text _ _ opens.1 rfl, .inr ends⟩

theorem comment_moved (left : Text.Leaves text cuts edited) (comment : Span)
    (isComment : Text.IsComment text comment) (within : comment.stop < Text.size text)
    (whole : ∀ place, comment.start ≤ place → place < comment.stop → Text.isCut cuts place = false)
    (ends : Text.isFeed text comment.stop = true ∨ Text.isReturn text comment.stop = true →
      Text.isCut cuts comment.stop = false) :
    Text.IsComment edited (comment.moved cuts) := by
  have run (place : Nat) (low : comment.start ≤ place) (high : place ≤ comment.stop) :
      Text.moved cuts place = Text.moved cuts comment.start + (place - comment.start) :=
    Text.moved_run cuts comment.start place low fun other above below =>
      whole other above (by omega)
  have byte (place : Nat) (low : comment.start ≤ place) (high : place < comment.stop) :
      (Text.bytes edited)[Text.moved cuts comment.start + (place - comment.start)]? =
      (Text.bytes text)[place]? := by
    rw [← run place low high.le]
    exact Text.byte_moved left place (by omega) (whole place low high)
  cases isComment with
  | block long opens closes =>
      have stop := run comment.stop (by omega) (Nat.le_refl _)
      have second := byte (comment.start + 1) (by omega) (by omega)
      have star := byte (comment.stop - 2) (by omega) (by omega)
      have slash := byte (comment.stop - 1) (by omega) (by omega)
      refine .block (by dsimp only [Span.moved]; omega) ⟨?_, ?_⟩ ⟨?_, ?_⟩
      · exact (Text.byte_moved left _ (by omega) (whole _ (Nat.le_refl _) (by omega))).trans opens.1
      · rw [Nat.add_sub_cancel_left] at second
        exact second.trans opens.2
      · dsimp only [Span.moved]
        rw [← closes.1, ← star]
        congr 1
        omega
      · dsimp only [Span.moved]
        rw [← closes.2, ← slash]
        congr 1
        omega
  | line long opens breaks =>
      have stop := run comment.stop (by omega) (Nat.le_refl _)
      have second := byte (comment.start + 1) (by omega) (by omega)
      refine .line (by dsimp only [Span.moved]; omega) ⟨?_, ?_⟩ ?_
      · exact (Text.byte_moved left _ (by omega) (whole _ (Nat.le_refl _) (by omega))).trans opens.1
      · rw [Nat.add_sub_cancel_left] at second
        exact second.trans opens.2
      · have same := Text.byte_moved left comment.stop within (ends breaks)
        rw [Text.isFeed, Text.isReturn] at breaks ⊢
        rw [← same] at breaks
        exact breaks

end Comments

end Clause

namespace Batch

open Clause

def items : List Span → List Span → List (Span × Option Span)
  | [], _ => []
  | specifier :: rest, commas => (specifier, commas.head?) :: items rest commas.tail

theorem comma_skips (clause : Clause) (earlier commas : List Span)
    (whole : clause.commas = earlier ++ commas) (start stop : Nat)
    (before : ∀ comma ∈ earlier, comma.start < start) :
    commaBetween? clause start stop =
      commas.find? fun comma => decide (start ≤ comma.start) && decide (comma.stop ≤ stop) := by
  have none : earlier.find? (fun comma => decide (start ≤ comma.start) &&
      decide (comma.stop ≤ stop)) = none := by
    refine List.find?_eq_none.mpr fun comma member => ?_
    have := before comma member
    simp only [Bool.and_eq_true, decide_eq_true_eq]
    omega
  rw [commaBetween?, whole, List.find?_append, none, Option.none_or]

theorem comma_found (clause : Clause) (earlier commas : List Span) (comma : Span)
    (whole : clause.commas = earlier ++ comma :: commas) (start stop : Nat)
    (before : ∀ comma ∈ earlier, comma.start < start) (starts : start ≤ comma.start)
    (stops : comma.stop ≤ stop) : commaBetween? clause start stop = some comma := by
  rw [comma_skips clause earlier _ whole start stop before, List.find?_cons_of_pos]
  simp only [Bool.and_eq_true, decide_eq_true_eq]
  exact ⟨starts, stops⟩

theorem earlier_commas {earlier : List Span} {comma : Span} {first : Nat}
    (before : ∀ other ∈ earlier, other.start < first) (starts : first ≤ comma.start)
    (one : comma.stop = comma.start + 1) :
    ∀ other ∈ earlier ++ [comma], other.start < comma.stop := by
  intro other member
  rcases List.mem_append.mp member with early | here
  · have := before other early
    omega
  · rw [List.mem_singleton.mp here]
    omega

theorem own_commas (clause : Clause) (stop : Nat) {first last : Nat} {specifiers commas : List Span}
    (tokens : Alternate first specifiers commas last) (within : last ≤ stop) (earlier : List Span)
    (whole : clause.commas = earlier ++ commas) (before : ∀ comma ∈ earlier, comma.start < first) :
    (withBounds stop specifiers).map
      (fun entry => (entry.1, commaBetween? clause entry.1.stop entry.2)) =
      items specifiers commas := by
  induction tokens generalizing earlier with
  | none => rfl
  | last starts filled =>
      have none := comma_skips clause earlier [] whole _ stop fun comma member =>
        (before comma member).trans_le (starts.trans filled.le)
      rw [withBounds, List.map_singleton, none]
      rfl
  | @next first last specifier comma rest commas starts filled ends one later ih =>
      have rest := ih within (earlier ++ [comma]) (by rw [whole, List.append_assoc]; rfl)
        (earlier_commas before (starts.trans (filled.le.trans ends)) one)
      have found (bound : Nat) (behind : comma.stop ≤ bound) :=
        comma_found clause earlier commas comma whole specifier.stop bound
        (fun other member => (before other member).trans_le (starts.trans filled.le)) ends behind
      cases later with
      | none order => rw [withBounds, List.map_singleton, found stop (order.trans within)]; rfl
      | last starts' =>
          rw [withBounds, List.map_cons, rest, found _ starts']
          rfl
      | next starts' =>
          rw [withBounds, List.map_cons, rest, found _ starts']
          rfl

def itemCores (removed : Span → Bool) (final : Span → List Span) (item : Span × Option Span) :
    List Span :=
  if removed item.1 then
    match item.2 with
    | some comma => [⟨item.1.start, comma.stop⟩]
    | none => item.1 :: final item.1
  else []

theorem final_comma (clause : Clause) (removed : Span → Bool) (kept : Span) {first last : Nat}
    {specifier comma : Span} {rest commas : List Span}
    (tokens : Alternate first (specifier :: rest) (comma :: commas) last) (earlier : List Span)
    (whole : clause.commas = earlier ++ comma :: commas)
    (before : ∀ other ∈ earlier, other.start < first)
    (isLast : ∀ one ∈ ((specifier :: rest).filter fun span => !removed span).getLast?, one = kept)
    (stays : removed specifier = false)
    (behind : commas.length < rest.length ∧ rest.all removed = true) :
    ∃ final, rest.getLast? = some final ∧
      commaBetween? clause kept.stop final.start = some comma := by
  cases tokens with
  | next starts filled ends one later =>
      have here : specifier = kept := by
        refine isLast specifier ?_
        rw [List.filter_cons, stays, none_left removed behind.2]
        rfl
      obtain ⟨final, ended⟩ : ∃ span, rest.getLast? = some span := by
        cases rest with
        | nil => cases behind.1
        | cons next rest => exact ⟨_, List.getLast?_eq_some_getLast (List.cons_ne_nil _ _)⟩
      have order := (alternate_bounds later final (.inl (List.mem_of_getLast? ended))).1
      rw [← here]
      exact ⟨final, ended, comma_found clause earlier commas comma whole specifier.stop final.start
        (fun other member => (before other member).trans_le (starts.trans filled.le)) ends order⟩

theorem item_cores (clause : Clause) (removed : Span → Bool) (kept : Span) {first last : Nat}
    {specifiers commas : List Span} (tokens : Alternate first specifiers commas last)
    (earlier : List Span) (whole : clause.commas = earlier ++ commas)
    (before : ∀ comma ∈ earlier, comma.start < first)
    (isLast : ∀ one ∈ (specifiers.filter fun span => !removed span).getLast?, one = kept)
    (core : Span) :
    core ∈ (items specifiers commas).flatMap
        (itemCores removed fun specifier =>
          (commaBetween? clause kept.stop specifier.start).toList) ↔
      core ∈ lost removed specifiers commas ∨
        (specifiers.all removed = true ∧ commas.length < specifiers.length ∧
          ∃ final ∈ specifiers.getLast?, commaBetween? clause kept.stop final.start =
            some core) := by
  induction tokens generalizing earlier with
  | none => simp [items, lost]
  | @last first last specifier starts filled stops =>
      cases goes : removed specifier with
      | false => simp [items, lost, itemCores, goes]
      | true => simp [items, lost, itemCores, goes]
  | @next first last specifier comma rest commas starts filled ends one later ih =>
      have tokens := Alternate.next starts filled ends one later
      have further := ih (earlier ++ [comma]) (by rw [whole, List.append_assoc]; rfl)
        (earlier_commas before (starts.trans (filled.le.trans ends)) one) fun other among => by
          refine isLast other ?_
          rw [List.filter_cons]
          split
          next => rw [List.getLast?_cons, Option.mem_def.mp among]; rfl
          next => exact among
      rw [items, List.flatMap_cons, List.mem_append, List.head?_cons, List.tail_cons, further, lost,
        List.mem_append, List.length_cons, List.length_cons, Nat.add_lt_add_iff_right,
        List.all_cons]
      cases goes : removed specifier with
      | true =>
          rw [Bool.true_and, if_pos rfl, itemCores, if_pos goes, or_assoc]
          refine or_congr_right (or_congr_right
            (and_congr_right fun _ => and_congr_right fun some => ?_))
          cases rest with
          | nil => cases some
          | cons next rest => rw [List.getLast?_cons_cons]
      | false =>
          rw [Bool.false_and, itemCores, goes]
          by_cases behind : commas.length < rest.length ∧ rest.all removed = true
          · obtain ⟨final, ended, found⟩ := final_comma clause removed kept tokens earlier whole
              before isLast goes behind
            rw [if_pos behind, ended]
            simp only [Bool.false_eq_true, if_false, List.not_mem_nil, false_or, List.mem_singleton,
              Option.mem_some_iff, exists_eq_left', found, Option.some.injEq, behind, true_and,
              false_and, or_false]
            rw [or_comm, eq_comm]
          · rw [if_neg behind]
            simp only [Bool.false_eq_true, if_false, List.not_mem_nil, false_or, false_and,
              or_false, or_iff_left_iff_imp]
            rintro ⟨all, some, -⟩
            exact absurd ⟨some, all⟩ behind

theorem cores_lost (clause : Clause) (removed : Span → Bool)
    (tokens : Alternate (clause.span.start + 1) clause.specifiers clause.commas
      (clause.span.stop - 1))
    (some : ∃ kept ∈ clause.specifiers, removed kept = false) (core : Span) :
    core ∈ clauseCores clause removed ↔ core ∈ lost removed clause.specifiers clause.commas := by
  obtain ⟨kept, last⟩ := last_kept_some clause removed some
  have own := own_commas clause clause.span.stop tokens (Nat.sub_le _ _) [] rfl nofun
  have cores := item_cores clause removed kept tokens [] rfl nofun
    (fun one among => Option.some.inj ((Option.mem_def.mp among).symm.trans last)) core
  have notAll : ¬ clause.specifiers.all removed = true := by
    intro all
    obtain ⟨one, member, stays⟩ := some
    rw [List.all_eq_true.mp all one member] at stays
    cases stays
  rw [clause_core_iff clause removed kept last,
    ← cores.trans (or_iff_left fun both => notAll both.1), ← own, List.mem_flatMap]
  constructor
  · rintro ⟨entry, ⟨listed, goes⟩, among⟩
    refine ⟨_, List.mem_map_of_mem listed, ?_⟩
    rw [itemCores, if_pos goes]
    exact among
  · rintro ⟨item, listed, among⟩
    obtain ⟨entry, here, rfl⟩ := List.mem_map.mp listed
    rw [itemCores] at among
    split at among
    next goes => exact ⟨entry, ⟨here, goes⟩, among⟩
    next => cases among

end Batch

end DeadExports

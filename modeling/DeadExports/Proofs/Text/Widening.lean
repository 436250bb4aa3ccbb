import DeadExports.Proofs.Text.Cuts

set_option autoImplicit false

namespace DeadExports

namespace Text

theorem byte_at_eq (text : String) (offset : Nat) :
    byteAt? text offset = (bytes text)[offset]? := by
  rw [byteAt?]
  by_cases inside : (⟨offset⟩ : String.Pos.Raw) < text.rawEndPos
  · have here : offset < (bytes text).length := by
      rw [bytes_length]
      exact inside
    obtain ⟨_, same⟩ := byte_at text offset _ (List.getElem?_eq_getElem here)
    rw [dif_pos inside, same, List.getElem?_eq_getElem here]
  · rw [dif_neg inside, List.getElem?_eq_none]
    rw [bytes_length]
    exact Nat.le_of_not_lt inside

def isBlankAt (text : String) (offset : Nat) : Bool := (bytes text)[offset]?.any isBlankByte

def isReturn (text : String) (offset : Nat) : Bool := (bytes text)[offset]? == some carriageReturn

theorem ink_cases (text : String) (offset : Nat) (inside : offset < size text) :
    hasInk text offset = !(isBlankAt text offset || isFeed text offset ||
      isReturn text offset) := by
  rw [← bytes_length] at inside
  simp [hasInk, byte_at_eq, isBlankAt, isFeed, isReturn, isInk, List.getElem?_eq_getElem inside]

theorem ink_inside (text : String) (offset : Nat) (ink : hasInk text offset = true) :
    offset < size text := by
  rw [hasInk, byte_at_eq] at ink
  obtain ⟨byte, found, -⟩ := (Option.any_eq_true _ _).mp ink
  rw [← bytes_length]
  exact (List.getElem?_eq_some_iff.mp found).1

theorem ink_not_blank (text : String) (offset : Nat) (ink : hasInk text offset = true) :
    isBlankAt text offset = false := by
  rw [ink_cases text offset (ink_inside text offset ink)] at ink
  cases blank : isBlankAt text offset with
  | false => rfl
  | true => simp [blank] at ink

theorem feed_not_blank (text : String) (offset : Nat) (feed : isFeed text offset = true) :
    isBlankAt text offset = false := by
  rw [isBlankAt, beq_iff_eq.mp feed]
  rfl

theorem return_not_blank (text : String) (offset : Nat) (back : isReturn text offset = true) :
    isBlankAt text offset = false := by
  rw [isBlankAt, beq_iff_eq.mp back]
  rfl

theorem skipped_blank (text : String) (offset place : Nat) (low : offset ≤ place)
    (high : place < skipBlanks text offset) :
    isBlankAt text place = true := by
  rw [skipBlanks] at high
  obtain ⟨byte, found, blank⟩ := run_byte isBlankByte ((bytes text).drop offset) (place - offset)
    (by omega)
  rw [List.getElem?_drop, Nat.add_sub_cancel' low] at found
  simp [isBlankAt, found, blank]

theorem skipped_back_blank (text : String) (offset place : Nat) (inside : offset ≤ size text)
    (low : skipBlanksBack text offset ≤ place) (high : place < offset) :
    isBlankAt text place = true := by
  rw [skipBlanksBack] at low
  have length : ((bytes text).take offset).length = offset := by
    rw [List.length_take, bytes_length]
    omega
  obtain ⟨byte, found, blank⟩ :=
    run_byte isBlankByte ((bytes text).take offset).reverse (offset - 1 - place) (by omega)
  rw [List.getElem?_reverse (by omega), length, List.getElem?_take_of_lt (by omega)] at found
  have back : offset - 1 - (offset - 1 - place) = place := by omega
  rw [back] at found
  simp [isBlankAt, found, blank]

theorem line_break_bytes (list : List UInt8) (length : Nat)
    (found : lineBreak? list = some length) :
    (length = 0 ∧ list = []) ∨ (length = 1 ∧ list[0]? = some lineFeed) ∨
    (length = 1 ∧ list = [carriageReturn]) ∨
      (length = 2 ∧ list[0]? = some carriageReturn ∧ list[1]? = some lineFeed) := by
  revert found
  fun_cases lineBreak? list with
  | case1 =>
      rintro ⟨⟩
      exact .inl ⟨rfl, rfl⟩
  | case2 byte rest feed =>
      rintro ⟨⟩
      exact .inr (.inl ⟨rfl, congrArg some (beq_iff_eq.mp feed)⟩)
  | case3 byte _ back =>
      rintro ⟨⟩
      exact .inr (.inr (.inl ⟨rfl, congrArg (fun byte => [byte]) (beq_iff_eq.mp back)⟩))
  | case4 byte _ back next rest feed =>
      rintro ⟨⟩
      exact .inr
        (.inr (.inr ⟨rfl, congrArg some (beq_iff_eq.mp back), congrArg some (beq_iff_eq.mp feed)⟩))
  | case5 =>
      intro found
      cases found
  | case6 =>
      intro found
      cases found

theorem line_rest_end (text : String) (offset count : Nat)
    (found : lineRest? ((bytes text).drop offset) = some count) :
    (offset + count = skipBlanks text offset ∧ size text ≤ offset + count) ∨
      (offset + count = skipBlanks text offset + 1 ∧ isFeed text (skipBlanks text offset) = true) ∨
      (offset + count = skipBlanks text offset + 1 ∧ isReturn text (skipBlanks text offset) = true ∧
        offset + count = size text) ∨
      (offset + count = skipBlanks text offset + 2 ∧ isReturn text (skipBlanks text offset) = true ∧
        isFeed text (skipBlanks text offset + 1) = true) := by
  obtain ⟨length, breaks, rfl⟩ := Option.map_eq_some_iff.mp found
  rw [List.drop_drop, ← skipBlanks] at breaks
  rw [← Nat.add_assoc, ← skipBlanks]
  rcases line_break_bytes _ length breaks with ⟨rfl, none⟩ | ⟨rfl, feed⟩ | ⟨rfl, last⟩ | ⟨rfl,
    back, feed⟩
  · rw [List.drop_eq_nil_iff, bytes_length] at none
    exact .inl ⟨rfl, none⟩
  · rw [List.getElem?_drop] at feed
    exact .inr (.inl ⟨rfl, beq_iff_eq.mpr feed⟩)
  · have here : ((bytes text).drop (skipBlanks text offset))[0]? = some carriageReturn := by
      rw [last]; rfl
    have length := congrArg List.length last
    rw [List.length_drop, bytes_length, List.length_singleton] at length
    rw [List.getElem?_drop] at here
    exact .inr (.inr (.inl ⟨rfl, beq_iff_eq.mpr here, by omega⟩))
  · rw [List.getElem?_drop] at back feed
    exact .inr (.inr (.inr ⟨rfl, beq_iff_eq.mpr back, beq_iff_eq.mpr feed⟩))

def opensLine (text : String) (offset : Nat) : Bool := offset == 0 || isFeed text (offset - 1)

theorem indentation_opens (text : String) (offset blanks : Nat) (inside : offset ≤ size text)
    (found : indentation? ((bytes text).take offset).reverse = some blanks) :
    offset - blanks = skipBlanksBack text offset ∧ opensLine text (skipBlanksBack text offset) =
      true := by
  have length : ((bytes text).take offset).length = offset := by
    rw [List.length_take, bytes_length]
    omega
  rw [indentation?] at found
  rw [skipBlanksBack, opensLine, Bool.or_eq_true, beq_iff_eq]
  split at found
  next none =>
      obtain rfl := Option.some.inj found
      rw [List.drop_eq_nil_iff, List.length_reverse, length] at none
      exact ⟨rfl, .inl (by omega)⟩
  next byte rest behind =>
      split at found
      next feed =>
          obtain rfl := Option.some.inj found
          refine ⟨rfl, .inr ?_⟩
          have here : (((bytes text).take offset).reverse.drop
              (((bytes text).take offset).reverse.takeWhile isBlankByte).length)[0]? =
              some byte := by
            rw [behind]
            rfl
          obtain ⟨low, -⟩ := List.getElem?_eq_some_iff.mp here
          rw [List.length_drop, List.length_reverse, length] at low
          rw [List.getElem?_drop, List.getElem?_reverse (by omega), length, List.getElem?_take_of_lt
            (by omega)] at here
          rw [beq_iff_eq.mp feed] at here
          rw [isFeed, beq_iff_eq, ← here]
          congr 1
          omega
      next => cases found

end Text

structure Span.Widens (text : String) (core cut : Span) : Prop where
  starts : cut.start ≤ core.start
  stops : core.stop ≤ cut.stop
  front : ∀ place, cut.start ≤ place → place < core.start → Text.isBlankAt text place = true
  behind : ∀ place, core.stop ≤ place → place < cut.stop →
    Text.isBlankAt text place = true ∨ (Text.isFeed text place = true ∧ place + 1 = cut.stop) ∨
      (Text.isReturn text place = true ∧
        (place + 1 = Text.size text ∨ (Text.isFeed text (place + 1) = true ∧ place + 2 = cut.stop)))

namespace Span

theorem contains_iff (span : Span) (place : Nat) :
    span.contains place = true ↔ span.start ≤ place ∧ place < span.stop := by
  simp only [contains, Bool.and_eq_true, decide_eq_true_eq]

theorem widens_self (text : String) (core : Span) : Widens text core core where
  starts := Nat.le_refl _
  stops := Nat.le_refl _
  front _ _ _ := by omega
  behind _ _ _ := by omega

theorem widens_ahead (text : String) (core : Span) :
    Widens text core ⟨core.start, Text.skipBlanks text core.stop⟩ where
  starts := Nat.le_refl _
  stops := Text.skip_blanks_le text core.stop
  front _ low high := absurd low (Nat.not_le_of_lt high)
  behind place low high := .inl (Text.skipped_blank text core.stop place low high)

theorem widens_back (text : String) (core : Span) (inside : core.start ≤ Text.size text) :
    Widens text core ⟨Text.skipBlanksBack text core.start, core.stop⟩ where
  starts := Text.skip_blanks_back_le text core.start
  stops := Nat.le_refl _
  front place low high := Text.skipped_back_blank text core.start place inside low high
  behind _ low high := absurd low (Nat.not_le_of_lt high)

theorem widens_ink (text : String) (core cut : Span) (widens : Widens text core cut) (place : Nat)
    (ink : Text.hasInk text place = true) (covered : cut.contains place = true) :
    core.contains place = true := by
  rw [contains_iff] at covered ⊢
  have inside := Text.ink_inside text place ink
  have plain := Text.ink_not_blank text place ink
  rw [Text.ink_cases text place inside] at ink
  refine ⟨?_, ?_⟩
  · by_contra before
    have blank := widens.front place covered.1 (by omega)
    rw [plain] at blank
    cases blank
  · by_contra after
    rcases widens.behind place (by omega) covered.2 with blank | ⟨feed, -⟩ | ⟨back, -⟩
    · rw [plain] at blank
      cases blank
    · simp [feed] at ink
    · simp [back] at ink

theorem widens_apart (text : String) (core cut other : Span) (widens : Widens text core cut)
    (filled : core.start < core.stop) (first : Text.hasInk text other.start = true)
    (last : Text.isBlankAt text (other.stop - 1) = false)
    (apart : core.stop ≤ other.start ∨ other.stop ≤ core.start) :
    cut.stop ≤ other.start ∨ other.stop ≤ cut.start := by
  have starts := widens.starts
  rcases apart with before | after
  · left
    by_contra meets
    have covered := widens_ink text core cut widens other.start first (by
      rw [contains_iff]
      omega)
    rw [contains_iff] at covered
    omega
  · right
    by_contra meets
    have blank := widens.front (other.stop - 1) (by omega) (by omega)
    rw [last] at blank
    cases blank

end Span

namespace Text

theorem line_extent_widens (text : String) (span : Span) (inside : span.start ≤ size text) :
    span.Widens text (lineExtent text span) := by
  have front : (lineExtent text span).start ≤ span.start := Nat.sub_le _ _
  have behind : span.stop ≤ (lineExtent text span).stop := Nat.le_add_right _ _
  refine ⟨front, behind, fun place low high => ?_, fun place low high => ?_⟩
  · rcases line_extent_start text span with same | back
    · omega
    · exact skipped_back_blank text span.start place inside (back ▸ low) high
  · cases found : lineRest? ((bytes text).drop span.stop) with
    | none =>
        simp only [lineExtent, found, Option.getD_none, Nat.add_zero] at high
        omega
    | some count =>
        simp only [lineExtent, found, Option.getD_some] at high ⊢
        by_cases early : place < skipBlanks text span.stop
        · exact .inl (skipped_blank text span.stop place low early)
        · have ends := line_rest_end text span.stop count found
          rcases ends with ⟨_, _⟩ | ⟨length, feed⟩ | ⟨length, back, last⟩ | ⟨length, back, feed⟩
          · omega
          · obtain rfl : place = skipBlanks text span.stop := by omega
            exact .inr (.inl ⟨feed, length.symm⟩)
          · obtain rfl : place = skipBlanks text span.stop := by omega
            exact .inr (.inr ⟨back, .inl (by omega)⟩)
          · by_cases first : place = skipBlanks text span.stop
            · subst first
              exact .inr (.inr ⟨back, .inr ⟨feed, length.symm⟩⟩)
            · obtain rfl : place = skipBlanks text span.stop + 1 := by omega
              exact .inr (.inl ⟨feed, length.symm⟩)

theorem line_extent_opens_line (text : String) (span : Span) (inside : span.start ≤ size text)
    (further : (lineExtent text span).start < span.start) :
    opensLine text (lineExtent text span).start = true := by
  cases found : indentation? ((bytes text).take span.start).reverse with
  | none =>
      simp only [lineExtent, found, Option.getD_none, Nat.sub_zero] at further
      omega
  | some blanks =>
      obtain ⟨same, opens⟩ := indentation_opens text span.start blanks inside found
      simpa only [lineExtent, found, Option.getD_some, same] using opens

theorem line_extent_ends_line (text : String) (span : Span)
    (further : span.stop < (lineExtent text span).stop) :
    size text ≤ (lineExtent text span).stop ∨ isFeed text ((lineExtent text span).stop - 1) =
      true := by
  cases found : lineRest? ((bytes text).drop span.stop) with
  | none =>
      simp only [lineExtent, found, Option.getD_none, Nat.add_zero] at further
      omega
  | some count =>
      simp only [lineExtent, found, Option.getD_some]
      rcases line_rest_end text span.stop count found
        with ⟨-, last⟩ | ⟨length, feed⟩ | ⟨-, -, last⟩ | ⟨length, -, feed⟩
      · exact .inl last
      · rw [length]
        exact .inr feed
      · exact .inl (Nat.le_of_eq last.symm)
      · rw [length]
        exact .inr feed

theorem no_ink_before (text : String) (offset start : Nat) (opens : opensLine text start = true)
    (order : start ≤ offset)
    (blank : ∀ place, start ≤ place → place < offset → isBlankAt text place = true) :
    hasInkBefore text offset = false := by
  induction offset with
  | zero => rfl
  | succ offset ih =>
      rw [hasInkBefore, byte_at_eq]
      by_cases here : start ≤ offset
      · have blankHere := blank offset here (Nat.lt_succ_self _)
        obtain ⟨byte, found, isBlank⟩ := (Option.any_eq_true _ _).mp blankHere
        rw [found]
        dsimp only
        rw [if_pos isBlank]
        exact ih here fun place low high => blank place low (by omega)
      · obtain rfl : start = offset + 1 := by omega
        have feed : isFeed text offset = true := by simpa [opensLine] using opens
        rw [beq_iff_eq.mp feed]
        rfl

theorem line_extents_apart (text : String) (first second : Span) (order : first.stop ≤ second.start)
    (filled : first.start < first.stop) (ends : hasInkBefore text first.stop = true)
    (starts : hasInk text second.start = true) :
    (lineExtent text first).stop ≤ (lineExtent text second).start := by
  have within := ink_inside text second.start starts
  have plain := ink_not_blank text second.start starts
  have widens := line_extent_widens text first (by omega)
  have widens' := line_extent_widens text second (by omega)
  have before : (lineExtent text first).stop ≤ second.start := by
    by_contra meets
    have covered := Span.widens_ink text first _ widens second.start starts (by
      have := widens.starts
      rw [Span.contains_iff]
      omega)
    rw [Span.contains_iff] at covered
    omega
  by_contra meets
  have opens := line_extent_opens_line text second (by omega) (by omega)
  have blank := widens'.front
  by_cases further : first.stop < (lineExtent text first).stop
  · rcases line_extent_ends_line text first further with last | feed
    · omega
    · have isBlank := blank _ (by omega : (lineExtent text second).start ≤
        (lineExtent text first).stop - 1) (by omega)
      rw [feed_not_blank text _ feed] at isBlank
      cases isBlank
  · have stops := widens.stops
    have none := no_ink_before text first.stop (lineExtent text second).start opens (by omega)
      fun place low high => blank place low (by omega)
    rw [none] at ends
    cases ends

end Text

end DeadExports

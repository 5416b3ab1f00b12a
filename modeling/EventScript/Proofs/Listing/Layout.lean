import EventScript.Proofs.Listing.Concatenation
import EventScript.Proofs.Text.LetterCase

/-!
# Layout and letter case

A line counts by its words, and its words count up to the case of their letters. What is
changed in a source apart from that, the spacing, the comments, the line ends and the case
of letters, changes neither its tokens nor their lines, and a source that is no listing
stays one that is none, with its fault on the same line.
-/

set_option autoImplicit false

namespace EventScript.Listing

open EventScript.Text (lowered segments)

/-! ## Words in either case -/

section Case

variable {word word' : List Char} {words words' : List (List Char)} {meaning : Option Token}

/-- Letter case makes no difference to what a word spells. -/
theorem Spells.of_lowered_eq {name : String} (h : Spells word name)
    (same : lowered word = lowered word') : Spells word' name := by
  have hupper : ∀ cs : List Char, cs.map Char.toUpper = (lowered cs).map Char.toUpper := by
    intro cs
    rw [lowered, List.map_map]
    exact List.map_congr_left fun c _ => (Char.toUpper_toLower_eq_toUpper c).symm
  rw [Spells, hupper, ← same, ← hupper]
  exact h

/-- Letter case makes no difference to which opcode a word names. -/
theorem NamesOpcode.of_lowered_eq {opcode : Opcode} (h : NamesOpcode word opcode)
    (same : lowered word = lowered word') : NamesOpcode word' opcode := by
  cases h with
  | nop h => exact .nop (h.of_lowered_eq same)
  | battle h => exact .battle (h.of_lowered_eq same)
  | number h => exact .number (h.of_lowered_eq same)

/-- Letter case makes no difference to a parameter. -/
theorem IsParameter.of_lowered_eq {parameter : Int32} (h : IsParameter words parameter)
    (same : words.map lowered = words'.map lowered) : IsParameter words' parameter := by
  cases h with
  | absent =>
    obtain rfl := List.map_eq_nil_iff.mp same.symm
    exact .absent
  | given h =>
    obtain ⟨word', rfl, hword⟩ := List.map_eq_singleton_iff.mp same.symm
    exact .given (h.of_lowered_eq hword.symm)

/-- Words that are two up to letter case are two. -/
theorem exists_pair_of_lowered_eq (same : [word, word'].map lowered = words.map lowered) :
    ∃ first second, words = [first, second] ∧
      lowered word = lowered first ∧ lowered word' = lowered second := by
  obtain ⟨first, rest, rfl, hfirst, hrest⟩ := List.map_eq_cons_iff.mp same.symm
  obtain ⟨second, rfl, hsecond⟩ := List.map_eq_singleton_iff.mp hrest
  exact ⟨first, second, rfl, hfirst.symm, hsecond.symm⟩

/-- Words have the same meaning in either case. -/
theorem WordsMean.of_lowered_eq (h : WordsMean words meaning)
    (same : words.map lowered = words'.map lowered) : WordsMean words' meaning := by
  cases h with
  | blank =>
    obtain rfl := List.map_eq_nil_iff.mp same.symm
    exact .blank
  | memory hmnemonic hword =>
    obtain ⟨mnemonic', word', rfl, hfirst, hsecond⟩ := exists_pair_of_lowered_eq same
    exact .memory (hmnemonic.of_lowered_eq hfirst) (hword.of_lowered_eq hsecond)
  | constant hmnemonic hword =>
    obtain ⟨mnemonic', word', rfl, hfirst, hsecond⟩ := exists_pair_of_lowered_eq same
    exact .constant (hmnemonic.of_lowered_eq hfirst) (hword.of_lowered_eq hsecond)
  | calculation hmnemonic hword =>
    obtain ⟨mnemonic', word', rfl, hfirst, hsecond⟩ := exists_pair_of_lowered_eq same
    exact .calculation (hmnemonic.of_lowered_eq hfirst)
      (hword.imp (·.of_lowered_eq hsecond) (·.of_lowered_eq hsecond))
  | operation hword harguments =>
    obtain ⟨word', rest, rfl, hfirst, hrest⟩ := List.map_eq_cons_iff.mp same.symm
    exact .operation (hword.of_lowered_eq hfirst.symm) (harguments.of_lowered_eq hrest.symm)

end Case

/-! ## Lines with the same words -/

/-- The lines have the same words, up to the case of their letters. -/
def SameWords (line line' : String) : Prop :=
  (lineWords line).map String.toLower = (lineWords line').map String.toLower

/-- Lines have the same words exactly if their words have the same characters in lower case. -/
theorem sameWords_iff (line line' : String) :
    SameWords line line' ↔ ((lineWords line).map String.toList).map lowered =
      ((lineWords line').map String.toList).map lowered := by
  have hlower : ∀ words : List String,
      (words.map String.toList).map lowered = (words.map String.toLower).map String.toList := by
    intro words
    rw [List.map_map, List.map_map]
    exact List.map_congr_left fun word _ => (String.toList_map).symm
  rw [hlower, hlower, List.map_inj_right fun _ _ => String.toList_inj.mp]
  rfl

instance (line line' : String) : Decidable (SameWords line line') :=
  decidable_of_iff _ (sameWords_iff line line').symm

variable {line line' : String} {lines lines' : List String}

/-- Lines with the same words are read alike, if they are read at all. -/
theorem SameWords.readLine_eq_ok_iff (same : SameWords line line') (meaning : Option Token) :
    readLine line = .ok meaning ↔ readLine line' = .ok meaning := by
  rw [Listing.readLine_eq_ok_iff, Listing.readLine_eq_ok_iff, lineMeans_iff, lineMeans_iff]
  rw [sameWords_iff] at same
  exact ⟨fun h => h.of_lowered_eq same, fun h => h.of_lowered_eq same.symm⟩

/-- Two readings give the same, or both end at a fault on the same line. -/
def Agree {α : Type} : Except ListingError α → Except ListingError α → Prop
  | .ok found, .ok found' => found = found'
  | .error error, .error error' => error.line = error'.line
  | _, _ => False

/-- A reading agrees with itself. -/
theorem Agree.refl {α : Type} (reading : Except ListingError α) : Agree reading reading := by
  cases reading <;> exact rfl

/-- Agreement goes both ways. -/
theorem Agree.symm {α : Type} {first second : Except ListingError α} (h : Agree first second) :
    Agree second first := by
  cases first <;> cases second
  · exact Eq.symm h
  · exact h
  · exact h
  · exact Eq.symm h

/-- Agreement is passed on. -/
theorem Agree.trans {α : Type} {first second third : Except ListingError α}
    (h : Agree first second) (h' : Agree second third) : Agree first third := by
  cases first <;> cases second <;> cases third
  all_goals first
    | exact Eq.trans h h'
    | exact h.elim
    | exact h'.elim

/-- Readings that agree still do so when something is made of what they give. -/
theorem Agree.map {α β : Type} {first second : Except ListingError α} (h : Agree first second)
    (f : α → β) : Agree (first.map f) (second.map f) := by
  cases first <;> cases second
  · exact h
  · exact h
  · exact h
  · exact congrArg f h

/-- Lines with the same words one by one are read alike. -/
theorem readFrom_agree (h : List.Forall₂ SameWords lines lines') (number : Nat) :
    Agree (readFrom number lines) (readFrom number lines') := by
  induction h generalizing number with
  | nil => exact Agree.refl _
  | @cons line line' rest rest' same hrest ih =>
    rcases hline : readLine line with fault | meaning
    · rcases hline' : readLine line' with fault' | meaning
      · rw [readFrom_cons_of_error hline, readFrom_cons_of_error hline']
        exact rfl
      · rw [← same.readLine_eq_ok_iff, hline] at hline'
        cases hline'
    · have hline' := (same.readLine_eq_ok_iff meaning).mp hline
      cases meaning with
      | none =>
        rw [readFrom_cons_of_none hline, readFrom_cons_of_none hline']
        exact ih (number + 1)
      | some token =>
        rw [readFrom_cons_of_some hline, readFrom_cons_of_some hline']
        exact (ih (number + 1)).map _

/-- A line is read by its words alone. -/
theorem readLine_of_lineWords_eq (h : lineWords line = lineWords line') :
    readLine line = readLine line' := by
  rw [readLine, readLine, h]

/-- Lines with the very same words are read with the very same result. -/
theorem readFrom_of_lineWords_eq
    (h : List.Forall₂ (fun line line' => lineWords line = lineWords line') lines lines')
    (number : Nat) : readFrom number lines = readFrom number lines' := by
  induction h generalizing number with
  | nil => rfl
  | cons hline hrest ih => rw [readFrom, readFrom, readLine_of_lineWords_eq hline, ih]

/-! ## The words of a segment -/

section Segment

variable {cs rest comment blanks : List Char}

/-- The words of the characters of a line, without its comment. -/
def words (cs : List Char) : List (List Char) := Text.wordChars (uncommented cs)

/-- The words of a line are those of its characters. -/
theorem lineWords_ofList (cs : List Char) :
    lineWords (String.ofList cs) = (words cs).map String.ofList := by
  rw [lineWords, String.toList_ofList, words]

/-- Lines of characters have the same words exactly if the words of the characters are equal in
lower case. -/
theorem sameWords_ofList_iff (cs ds : List Char) :
    SameWords (String.ofList cs) (String.ofList ds) ↔
      (words cs).map lowered = (words ds).map lowered := by
  rw [sameWords_iff, lineWords_ofList, lineWords_ofList]
  simp

/-- The words of a line in lower case are its words in lower case. -/
theorem words_lowered (cs : List Char) : words (lowered cs) = (words cs).map lowered := by
  have hmark : ((fun c : Char => c != '#') ∘ Char.toLower) = fun c => c != '#' := by
    funext c
    have h := Text.toLower_eq_iff (by decide : '#'.isAlpha = false) c
    simp only [Function.comp_apply, bne, h, beq_eq_decide]
  have huncommented : uncommented (lowered cs) = lowered (uncommented cs) := by
    rw [uncommented, lowered, List.takeWhile_map, hmark, uncommented, lowered]
  rw [words, huncommented, Text.wordChars_lowered, words]

/-- Without a comment mark a line is all outside of a comment. -/
theorem uncommented_eq_self (h : '#' ∉ cs) : uncommented cs = cs := by
  rw [uncommented, List.takeWhile_eq_self_iff]
  intro c hc
  rw [bne_iff_ne]
  rintro rfl
  exact h hc

/-- What is added to a line counts only if no comment has begun. -/
theorem uncommented_append (cs rest : List Char) :
    uncommented (cs ++ rest) = if '#' ∈ cs then uncommented cs else cs ++ uncommented rest := by
  split
  · next h =>
    obtain ⟨before, after, rfl⟩ := List.append_of_mem h
    rw [List.append_assoc, List.cons_append, uncommented_append_comment,
      uncommented_append_comment]
  · next h =>
    have hcs := uncommented_eq_self h
    rw [uncommented] at hcs ⊢
    rw [List.takeWhile_append, hcs, if_pos rfl, uncommented]

/-- A comment adds no word. -/
theorem words_append_comment (cs comment : List Char) :
    words (cs ++ '#' :: comment) = words cs := by
  rw [words, uncommented_append_comment, words]

/-- What has no words behind a line adds none. -/
theorem words_append_of_blank (cs : List Char)
    (h : ∀ c ∈ uncommented rest, Text.isBlank c = true) : words (cs ++ rest) = words cs := by
  rw [words, uncommented_append]
  split
  · rw [words]
  · next hmark => rw [Text.wordChars_append_blanks cs h, words, uncommented_eq_self hmark]

/-- Whatever blanks stand between the parts of a line, they only separate words. -/
theorem words_append_blanks (hne : blanks ≠ []) (h : ∀ c ∈ blanks, Text.isBlank c = true)
    (cs rest : List Char) :
    words (cs ++ blanks ++ rest) = words cs ++ if '#' ∈ cs then [] else words rest := by
  have hblanks : '#' ∉ blanks := fun hmem => absurd (h _ hmem) (by decide)
  rw [words, List.append_assoc, uncommented_append]
  split
  · rw [words, List.append_nil]
  · next hmark =>
    obtain ⟨blank, blanks, rfl⟩ := List.exists_cons_of_ne_nil hne
    obtain ⟨hblank, hrest⟩ := List.forall_mem_cons.mp h
    rw [uncommented_append, if_neg hblanks, List.cons_append, Text.wordChars_append_cons hblank,
      Text.wordChars_blanks_append hrest, words, uncommented_eq_self hmark, words]

end Segment

/-! ## Reading segments -/

/-- A carriage return at its end adds no word to a line. -/
theorem words_append_carriageReturn (cs : List Char) : words (cs ++ ['\r']) = words cs := by
  apply words_append_of_blank
  intro c hc
  rw [List.mem_singleton.mp ((List.takeWhile_sublist _).subset hc)]
  decide

/-- Reading the segments of a text is reading its lines: a segment has the words of its line,
and what the last one has too much is an empty line. -/
theorem readFrom_segments {cs : List Char} {found : List (List Char)} (h : Text.HasLines cs found)
    (number : Nat) :
    readFrom number ((segments cs).map String.ofList) =
      readFrom number (found.map String.ofList) := by
  induction h generalizing number with
  | nil => exact readFrom_cons_of_none readLine_empty
  | last hne hline => rw [Text.segments_eq_singleton hline]
  | lineFeed hline hend more ih =>
    rw [Text.segments_append_lineFeed, Text.segments_eq_singleton hline, List.singleton_append,
      List.map_cons, List.map_cons, readFrom, readFrom, ih]
  | @carriageReturn line rest found hline more ih =>
    have hsegment : '\n' ∉ line ++ ['\r'] := by simpa using hline
    have hwords : lineWords (String.ofList (line ++ ['\r'])) = lineWords (String.ofList line) := by
      rw [lineWords_ofList, words_append_carriageReturn, lineWords_ofList]
    rw [List.append_cons, Text.segments_append_lineFeed, Text.segments_eq_singleton hsegment,
      List.singleton_append, List.map_cons, List.map_cons, readFrom, readFrom, ih,
      readLine_of_lineWords_eq hwords]

/-- A text is read by the segments between its line feeds: a carriage return at the end of one and
an empty last one have no words. -/
theorem parse_eq_readFrom_segments (cs : List Char) :
    parse (String.ofList cs) =
      (readFrom 1 ((segments cs).map String.ofList)).map Listing.mk := by
  rw [readFrom_segments ((Text.lineChars_eq_iff cs _).mp rfl), parse, Text.lines,
    String.toList_ofList]

/-! ## Changes of layout and letter case -/

/-- Blanks within a line. -/
def IsSpacing (cs : List Char) : Prop :=
  cs ≠ [] ∧ ∀ c ∈ cs, Text.isBlank c = true ∧ c ≠ '\n'

/-- On its first line a text has nothing but blanks, and perhaps a comment. -/
def LineEnds (cs : List Char) : Prop :=
  ∀ c ∈ uncommented (cs.takeWhile (· != '\n')), Text.isBlank c = true

/-- One change of the layout of a text, or any of its letter case. -/
inductive Retouch : List Char → List Char → Prop
  /-- Letters change their case. -/
  | letters {cs ds : List Char} (same : lowered cs = lowered ds) : Retouch cs ds
  /-- A comment changes. -/
  | comment {old new : List Char} (hold : '\n' ∉ old) (hnew : '\n' ∉ new)
      (before after : List Char) :
      Retouch (before ++ '#' :: old ++ after) (before ++ '#' :: new ++ after)
  /-- A comment is put at the end of a line. -/
  | commentAdded {comment after : List Char} (hcomment : '\n' ∉ comment) (hend : LineEnds after)
      (before : List Char) : Retouch (before ++ after) (before ++ '#' :: comment ++ after)
  /-- The spacing changes between two parts of a line. -/
  | spacing {old new : List Char} (hold : IsSpacing old) (hnew : IsSpacing new)
      (before after : List Char) : Retouch (before ++ old ++ after) (before ++ new ++ after)
  /-- Spacing is put at the beginning of a line. -/
  | indented {before spacing : List Char} (hspacing : IsSpacing spacing)
      (hbegin : Text.WholeLines before) (after : List Char) :
      Retouch (before ++ after) (before ++ spacing ++ after)
  /-- Spacing is put at the end of a line. -/
  | trailed {spacing after : List Char} (hspacing : IsSpacing spacing) (hend : LineEnds after)
      (before : List Char) : Retouch (before ++ after) (before ++ spacing ++ after)

/-- Spacing stays on its line. -/
theorem IsSpacing.lineFeed_not_mem {cs : List Char} (h : IsSpacing cs) : '\n' ∉ cs :=
  fun hmem => (h.2 _ hmem).2 rfl

/-- Behind spacing the words are those before it and, unless a comment has begun, those behind it.
-/
theorem IsSpacing.words_append {spacing : List Char} (h : IsSpacing spacing)
    (cs rest : List Char) :
    words (cs ++ spacing ++ rest) = words cs ++ if '#' ∈ cs then [] else words rest :=
  words_append_blanks h.1 (fun c hc => (h.2 c hc).1) cs rest

/-- What is put at a position of a text instead of something else, neither with a line feed in
it, changes no words if it does not change those of the segment around it. -/
theorem forall₂_words_replaced {old new : List Char} (hold : '\n' ∉ old) (hnew : '\n' ∉ new)
    (before after : List Char)
    (same : ∀ opening, (Text.WholeLines before → opening = []) →
      words (opening ++ old ++ after.takeWhile (· != '\n')) =
        words (opening ++ new ++ after.takeWhile (· != '\n'))) :
    List.Forall₂ (fun segment segment' => words segment = words segment')
      (segments (before ++ old ++ after)) (segments (before ++ new ++ after)) := by
  obtain ⟨front, opening, back, hopening, h⟩ := Text.exists_segments_around before after
  have hself : ∀ found : List (List Char),
      List.Forall₂ (fun segment segment' => words segment = words segment') found found :=
    fun found => List.forall₂_same.mpr fun _ _ => rfl
  rw [h old hold, h new hnew]
  exact List.rel_append (hself front) (.cons (same opening hopening) (hself back))

/-- What is put into a text between line feeds and changes the words of no line around it changes
the words of no line at all. -/
theorem forall₂_words_inserted {new : List Char} (hnew : '\n' ∉ new) (before after : List Char)
    (same : ∀ opening, (Text.WholeLines before → opening = []) →
      words (opening ++ after.takeWhile (· != '\n')) =
        words (opening ++ new ++ after.takeWhile (· != '\n'))) :
    List.Forall₂ (fun segment segment' => words segment = words segment')
      (segments (before ++ after)) (segments (before ++ new ++ after)) := by
  have h := forall₂_words_replaced List.not_mem_nil hnew before after fun opening hopening => by
    rw [List.append_nil]
    exact same opening hopening
  rwa [List.append_nil] at h

/-- A change of the layout leaves every segment its words, and one of the letter case leaves
it the words up to their case. -/
theorem Retouch.forall₂_words_or_letters {cs ds : List Char} (h : Retouch cs ds) :
    List.Forall₂ (fun segment segment' => words segment = words segment')
        (segments cs) (segments ds) ∨
      lowered cs = lowered ds := by
  cases h with
  | letters same => exact .inr same
  | comment hold hnew before after =>
    refine .inl (forall₂_words_replaced ?_ ?_ before after fun opening _ => ?_)
    · simpa using hold
    · simpa using hnew
    · simp only [List.append_assoc, List.cons_append, words_append_comment]
  | commentAdded hcomment hend before =>
    refine .inl (forall₂_words_inserted ?_ before _ fun opening _ => ?_)
    · simpa using hcomment
    · rw [words_append_of_blank opening hend, List.append_assoc, List.cons_append,
        words_append_comment]
  | spacing hold hnew before after =>
    refine .inl (forall₂_words_replaced hold.lineFeed_not_mem hnew.lineFeed_not_mem before after
      fun opening _ => ?_)
    rw [hold.words_append, hnew.words_append]
  | indented hspacing hbegin after =>
    refine .inl (forall₂_words_inserted hspacing.lineFeed_not_mem _ after
      fun opening hopening => ?_)
    rw [hopening hbegin, hspacing.words_append]
    rfl
  | @trailed spacing after hspacing hend before =>
    refine .inl (forall₂_words_inserted hspacing.lineFeed_not_mem before after fun opening _ => ?_)
    have hclosing : words (after.takeWhile (· != '\n')) = [] :=
      words_append_of_blank [] hend
    rw [words_append_of_blank opening hend, hspacing.words_append, hclosing, ite_self,
      List.append_nil]

/-- Texts that are equal in lower case have the same words in each line, up to letter case. -/
theorem forall₂_words_of_lowered_eq {cs ds : List Char} (same : lowered cs = lowered ds) :
    List.Forall₂ (fun segment segment' =>
      (words segment).map lowered = (words segment').map lowered) (segments cs) (segments ds) := by
  have hsegments := congrArg segments same
  rw [Text.segments_lowered, Text.segments_lowered, ← List.forall₂_eq_eq_eq,
    List.forall₂_map_left_iff, List.forall₂_map_right_iff] at hsegments
  refine hsegments.imp fun segment segment' hsegment => ?_
  rw [← words_lowered, hsegment, words_lowered]

/-- One change of layout or letter case keeps what a text is read as. -/
theorem Retouch.agree {cs ds : List Char} (h : Retouch cs ds) :
    Agree (parse (String.ofList cs)) (parse (String.ofList ds)) := by
  have hwords : List.Forall₂ (fun segment segment' =>
      (words segment).map lowered = (words segment').map lowered) (segments cs) (segments ds) := by
    rcases h.forall₂_words_or_letters with hsegments | same
    · exact hsegments.imp fun _ _ hsegment => congrArg (List.map lowered) hsegment
    · exact forall₂_words_of_lowered_eq same
  rw [parse_eq_readFrom_segments, parse_eq_readFrom_segments]
  refine (readFrom_agree ?_ 1).map Listing.mk
  rw [List.forall₂_map_left_iff, List.forall₂_map_right_iff]
  exact hwords.imp fun segment segment' hsegment =>
    (sameWords_ofList_iff segment segment').mpr hsegment

/-- So does any chain of such changes, in either direction. -/
theorem agree_of_eqvGen {cs ds : List Char} (h : Relation.EqvGen Retouch cs ds) :
    Agree (parse (String.ofList cs)) (parse (String.ofList ds)) := by
  induction h with
  | rel cs ds h => exact h.agree
  | refl cs => exact Agree.refl _
  | symm cs ds h ih => exact ih.symm
  | trans cs ds es h h' ih ih' => exact ih.trans ih'

/-- A text is read alike with carriage returns in front of its line feeds. -/
theorem parse_withCarriageReturns (cs : List Char) :
    parse (String.ofList (Text.withCarriageReturns cs)) = parse (String.ofList cs) := by
  rw [parse_eq_readFrom_segments, parse_eq_readFrom_segments]
  congr 1
  refine (readFrom_of_lineWords_eq ?_ 1).symm
  rw [List.forall₂_map_left_iff, List.forall₂_map_right_iff]
  refine (Text.forall₂_segments_withCarriageReturns cs).imp fun segment segment' h => ?_
  rcases h with rfl | rfl
  · rfl
  · rw [lineWords_ofList, lineWords_ofList, words_append_carriageReturn]

/-- Sources whose lines have the same words one by one, up to the case of their letters, are
read alike: as the same tokens on the same lines, or with a fault on the same line. So are
sources that differ by any number of changes of the layout and the letter case; and with a
carriage return in front of each line feed a source is read as it is, its fault included. -/
theorem parse_ignores_layout_and_case (first second : String) :
    (List.Forall₂ SameWords (Text.lines first) (Text.lines second) →
        Agree (parse first) (parse second)) ∧
      (Relation.EqvGen Retouch first.toList second.toList →
        Agree (parse first) (parse second)) ∧
      parse (String.ofList (Text.withCarriageReturns first.toList)) = parse first := by
  refine ⟨fun h => ?_, fun h => ?_, ?_⟩
  · exact (readFrom_agree h 1).map Listing.mk
  · have hagree := agree_of_eqvGen h
    rwa [String.ofList_toList, String.ofList_toList] at hagree
  · rw [parse_withCarriageReturns, String.ofList_toList]

/-- A source with two tokens and a line that is none. -/
def plainSource : String := "pshn_l 0x1f # boss\nbattle\nfoo"

/-- The same words in other letters, with other spacing, comments and line ends. -/
def restyledSource : String := "\tPSHN_L   0X1F\r\nBattle# go\r\n\u00a0FOO "

/-- Restyled, a source with a fault has it on the same line, for the word as it is written there;
and a line with a token keeps its token. -/
theorem parse_ignores_layout_and_case_plainSource :
    List.Forall₂ SameWords (Text.lines plainSource) (Text.lines restyledSource) ∧
      Agree (parse plainSource) (parse restyledSource) ∧
      parse plainSource = .error ⟨3, .unknownMnemonic "foo"⟩ ∧
      parse restyledSource = .error ⟨3, .unknownMnemonic "FOO"⟩ ∧
      Relation.EqvGen Retouch "nop 1".toList "\tNOP 1#go".toList ∧
      Agree (parse "nop 1") (parse "\tNOP 1#go") := by
  have hwords : List.Forall₂ SameWords (Text.lines plainSource) (Text.lines restyledSource) := by
    have hplain : Text.lines plainSource = ["pshn_l 0x1f # boss", "battle", "foo"] := by
      decide +kernel
    have hrestyled : Text.lines restyledSource =
        ["\tPSHN_L   0X1F", "Battle# go", "\u00a0FOO "] := by decide +kernel
    have hfirst : SameWords "pshn_l 0x1f # boss" "\tPSHN_L   0X1F" := by decide +kernel
    have hsecond : SameWords "battle" "Battle# go" := by decide +kernel
    have hthird : SameWords "foo" "\u00a0FOO " := by decide +kernel
    rw [hplain, hrestyled]
    exact .cons hfirst (.cons hsecond (.cons hthird .nil))
  have hchanges : Relation.EqvGen Retouch "nop 1".toList "\tNOP 1#go".toList := by
    have hletters : Retouch ['n', 'o', 'p', ' ', '1'] ['N', 'O', 'P', ' ', '1'] :=
      .letters (by decide)
    have hend : LineEnds [] := by simp [LineEnds, uncommented]
    have hcomment : Retouch ['N', 'O', 'P', ' ', '1'] ['N', 'O', 'P', ' ', '1', '#', 'g', 'o'] :=
      @Retouch.commentAdded ['g', 'o'] [] (by decide) hend ['N', 'O', 'P', ' ', '1']
    have hspacing : IsSpacing ['\t'] :=
      ⟨List.cons_ne_nil _ _, List.forall_mem_singleton.mpr (by decide)⟩
    have hindent : Retouch ['N', 'O', 'P', ' ', '1', '#', 'g', 'o']
        ['\t', 'N', 'O', 'P', ' ', '1', '#', 'g', 'o'] :=
      @Retouch.indented [] ['\t'] hspacing (.inl rfl) ['N', 'O', 'P', ' ', '1', '#', 'g', 'o']
    have hchain := (Relation.EqvGen.rel _ _ hletters).trans _ _ _ (.rel _ _ hcomment)
    have hplain : "nop 1".toList = ['n', 'o', 'p', ' ', '1'] := by decide
    have hrestyled : "\tNOP 1#go".toList = ['\t', 'N', 'O', 'P', ' ', '1', '#', 'g', 'o'] := by
      decide
    rw [hplain, hrestyled]
    exact hchain.trans _ _ _ (.rel _ _ hindent)
  have hplain : parse plainSource = .error ⟨3, .unknownMnemonic "foo"⟩ := by decide +kernel
  have hrestyled : parse restyledSource = .error ⟨3, .unknownMnemonic "FOO"⟩ := by decide +kernel
  exact ⟨hwords, (parse_ignores_layout_and_case plainSource restyledSource).1 hwords,
    hplain, hrestyled, hchanges,
    (parse_ignores_layout_and_case "nop 1" "\tNOP 1#go").2.1 hchanges⟩

end EventScript.Listing

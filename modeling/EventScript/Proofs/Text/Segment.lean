import EventScript.Proofs.Text.Line
import Mathlib.Data.List.Forall2
import Mathlib.Data.List.Induction

/-!
# Segments

The segments of a text are what stands between its line feeds. A segment is a line with
whatever a line end has in front of its line feed, and the last segment may be empty, so a
text is easier to edit by its segments than by its lines: characters that are put somewhere
in a text without a line feed among them go into one segment, and the others stay.
-/

set_option autoImplicit false

namespace EventScript.Text

/-- The parts of a text between its line feeds: always one more than there are line feeds. -/
def segments (cs : List Char) : List (List Char) := cs.splitOn '\n'

/-- There is always a segment, if only an empty one. -/
theorem segments_ne_nil (cs : List Char) : segments cs ≠ [] := by
  rw [segments, List.splitOn_eq_splitOnP]
  exact List.splitOnP_ne_nil _ _

/-- A line feed in front adds an empty segment. -/
theorem segments_lineFeed_cons (rest : List Char) :
    segments ('\n' :: rest) = [] :: segments rest := by
  simp only [segments, List.splitOn_eq_splitOnP]
  rw [List.splitOnP_cons_eq_if_modifyHead, if_pos (by decide)]

/-- Any other character in front goes to the first segment. -/
theorem segments_cons_of_ne {c : Char} (hc : c ≠ '\n') (rest : List Char) :
    segments (c :: rest) = (segments rest).modifyHead (c :: ·) := by
  simp only [segments, List.splitOn_eq_splitOnP]
  rw [List.splitOnP_cons_eq_if_modifyHead, if_neg (by simpa using hc)]

/-- A line feed separates the segments before it from those behind it. -/
theorem segments_append_lineFeed (before after : List Char) :
    segments (before ++ '\n' :: after) = segments before ++ segments after := by
  simp only [segments, List.splitOn_eq_splitOnP]
  exact List.splitOnP_append_cons _ _ (by decide)

/-- Without a line feed there is one segment. -/
theorem segments_eq_singleton {cs : List Char} (h : '\n' ∉ cs) : segments cs = [cs] := by
  rw [segments, List.splitOn_eq_splitOnP]
  refine List.splitOnP_eq_singleton fun c hc => ?_
  rw [beq_eq_false_iff_ne]
  rintro rfl
  exact h hc

/-- Characters without a line feed among them stay in one segment. -/
theorem segments_append {cs : List Char} (h : '\n' ∉ cs) (rest : List Char) :
    segments (cs ++ rest) = (segments rest).modifyHead (cs ++ ·) := by
  induction cs with
  | nil =>
    cases hrest : segments rest with
    | nil => exact absurd hrest (segments_ne_nil rest)
    | cons first others => rw [List.nil_append, hrest]; rfl
  | cons c cs ih =>
    rw [List.cons_append, segments_cons_of_ne (List.ne_of_not_mem_cons h).symm,
      ih (List.not_mem_of_not_mem_cons h), List.modifyHead_modifyHead]
    rfl

/-! ## The segment at a position -/

/-- The first segment goes as far as the first line feed. -/
theorem exists_segments_eq_takeWhile_cons (cs : List Char) :
    ∃ others, segments cs = cs.takeWhile (· != '\n') :: others := by
  induction cs with
  | nil => exact ⟨[], rfl⟩
  | cons c rest ih =>
    by_cases hc : c = '\n'
    · subst hc
      exact ⟨segments rest, segments_lineFeed_cons rest⟩
    · obtain ⟨others, h⟩ := ih
      refine ⟨others, ?_⟩
      rw [segments_cons_of_ne hc, h, List.takeWhile_cons_of_pos (by simpa using hc)]
      rfl

/-- In front of a position stand segments and the beginning of another one, of which there is
nothing yet behind whole lines. -/
theorem exists_opening (head : List Char) :
    ∃ before opening, '\n' ∉ opening ∧ (WholeLines head → opening = []) ∧
      ∀ rest, segments (head ++ rest) = before ++ segments (opening ++ rest) := by
  induction head using List.reverseRecOn with
  | nil => exact ⟨[], [], by simp, fun _ => rfl, fun _ => rfl⟩
  | append_singleton head c ih =>
    obtain ⟨before, opening, hopening, -, h⟩ := ih
    by_cases hc : c = '\n'
    · subst hc
      refine ⟨before ++ [opening], [], by simp, fun _ => rfl, fun rest => ?_⟩
      rw [List.append_assoc, List.singleton_append, h, segments_append_lineFeed,
        segments_eq_singleton hopening, List.append_assoc, List.nil_append]
    · refine ⟨before, opening ++ [c], ?_, fun whole => ?_, fun rest => ?_⟩
      · simpa [hopening] using Ne.symm hc
      · have hlast := whole.resolve_left (by simp)
        rw [List.getLast?_concat, Option.some.injEq] at hlast
        exact absurd hlast hc
      · rw [List.append_assoc, h, List.append_assoc]

/-- What is put at a position of a text without a line feed goes between the beginning of a
segment and its end. -/
theorem exists_segments_around (head tail : List Char) :
    ∃ before opening after, (WholeLines head → opening = []) ∧
      ∀ middle, '\n' ∉ middle → segments (head ++ middle ++ tail) =
        before ++ (opening ++ middle ++ tail.takeWhile (· != '\n')) :: after := by
  obtain ⟨before, opening, hopening, hwhole, hhead⟩ := exists_opening head
  obtain ⟨after, htail⟩ := exists_segments_eq_takeWhile_cons tail
  refine ⟨before, opening, after, hwhole, fun middle hmiddle => ?_⟩
  have hline : '\n' ∉ opening ++ middle := by
    simp [hopening, hmiddle]
  rw [List.append_assoc, hhead, ← List.append_assoc, segments_append hline, htail]
  rfl

/-! ## Segments of texts that correspond -/

/-- A text each line feed of which has a carriage return put in front. -/
def withCarriageReturns (cs : List Char) : List Char :=
  cs.flatMap fun c => if c = '\n' then ['\r', '\n'] else [c]

/-- A carriage return in front of a line feed is the end of a segment. -/
theorem forall₂_segments_withCarriageReturns (cs : List Char) :
    List.Forall₂ (fun segment segment' => segment' = segment ∨ segment' = segment ++ ['\r'])
      (segments cs) (segments (withCarriageReturns cs)) := by
  induction cs with
  | nil => exact .cons (.inl rfl) .nil
  | cons c rest ih =>
    by_cases hc : c = '\n'
    · subst hc
      have hsegments : segments (withCarriageReturns ('\n' :: rest)) =
          ['\r'] :: segments (withCarriageReturns rest) := by
        change segments (['\r'] ++ '\n' :: withCarriageReturns rest) = _
        rw [segments_append_lineFeed, segments_eq_singleton (by decide), List.singleton_append]
      rw [segments_lineFeed_cons, hsegments]
      exact .cons (.inr rfl) ih
    · have htext : withCarriageReturns (c :: rest) = c :: withCarriageReturns rest := by
        simp [withCarriageReturns, hc]
      rw [htext, segments_cons_of_ne hc, segments_cons_of_ne hc]
      generalize segments rest = found at ih
      generalize segments (withCarriageReturns rest) = found' at ih
      cases ih with
      | nil => exact .nil
      | cons hfirst hothers =>
        refine .cons ?_ hothers
        rcases hfirst with rfl | rfl
        · exact .inl rfl
        · exact .inr rfl

end EventScript.Text

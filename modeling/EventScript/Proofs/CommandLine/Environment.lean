import EventScript.CommandLine.Program
import EventScript.Proofs.Preliminaries

/-!
# Where the policy comes from

A policy can be given among the words of a command line, in several spellings, or else by
the environment. What the words say is read without the environment, which counts only at
their end. Behind a policy the words are read as they would be without it, except that no
other policy may follow, so it makes no difference where among the options it stands, and
none whether the environment gives it instead.
-/

set_option autoImplicit false

namespace EventScript

/-- The words that give a policy. -/
def ErrorPolicy.spellings (policy : ErrorPolicy) : List (List String) :=
  [["--policy", policy.name], ["--policy=" ++ policy.name], ["-p", policy.name],
    ["-p" ++ policy.name], ["-p=" ++ policy.name]]

/-- A policy is found by its name. -/
theorem ErrorPolicy.ofName?_name (policy : ErrorPolicy) : ofName? policy.name = some policy := by
  cases policy <;> decide

namespace CommandLine

/-- A draft with a policy. -/
def Draft.given (policy : ErrorPolicy) (draft : Draft) : Draft :=
  { draft with policy? := some policy }

variable {draft next last : Draft} {policy : ErrorPolicy} {words before after : List String}

namespace Draft

/-- A draft that has been given a policy has it. -/
theorem policy?_given (policy : ErrorPolicy) (draft : Draft) :
    (draft.given policy).policy? = some policy := rfl

/-- A draft with a policy is one without that has been given it. -/
theorem exists_given_of_policy?_eq (h : draft.policy? = some policy) :
    ∃ bare : Draft, bare.policy? = none ∧ draft = bare.given policy := by
  refine ⟨{ draft with policy? := none }, rfl, ?_⟩
  rw [given, ← h]

/-- A word is taken as the value of the policy option exactly if it names a policy and none was
given before. -/
theorem withPolicy_eq_ok_iff (word : String) :
    draft.withPolicy word = .ok next ↔
      draft.policy? = none ∧ ∃ policy, ErrorPolicy.ofName? word = some policy ∧
        next = draft.given policy := by
  unfold withPolicy readPolicy
  cases draft.policy? <;> cases ErrorPolicy.ofName? word <;> simp [Except.map, given, eq_comm]

end Draft

/-! ## One word -/

/-- What a word leads to, with a policy. -/
def Step.given (policy : ErrorPolicy) : Step → Step
  | .continue draft => .continue (draft.given policy)
  | .awaitPolicy draft => .awaitPolicy (draft.given policy)
  | .answer question => .answer question

/-- A word has not given a policy. -/
def Step.Bare : Step → Prop
  | .continue draft => draft.policy? = none
  | .awaitPolicy draft => draft.policy? = none
  | .answer _ => True

/-- `Behind policy bare given`: a word that leads to `bare` without a policy leads to `given`
behind one. It makes no difference, except that the word may not give a policy itself. -/
def Behind (policy : ErrorPolicy) (bare given : Except UsageError Step) : Prop :=
  ∀ step, given = .ok step ↔ ∃ other, bare = .ok other ∧ other.Bare ∧ step = other.given policy

/-- What a word leads to without giving a policy it leads to behind one as well. -/
theorem behind_ok (step : Step) (hbare : step.Bare) :
    Behind policy (.ok step) (.ok (step.given policy)) := by
  intro other
  constructor
  · rintro ⟨rfl⟩
    exact ⟨step, rfl, hbare, rfl⟩
  · rintro ⟨_, ⟨rfl⟩, -, rfl⟩
    rfl

/-- A word that leads nowhere leads nowhere behind a policy, for whatever reason. -/
theorem behind_error (error error' : UsageError) : Behind policy (.error error) (.error error') := by
  intro step
  simp

/-- A policy may not be given behind another. -/
theorem behind_withPolicy (word : String) :
    Behind policy ((draft.withPolicy word).map .continue)
      (((draft.given policy).withPolicy word).map .continue) := by
  have hrepeated : (draft.given policy).withPolicy word = .error (.repeatedOption policyName) := rfl
  rw [hrepeated]
  intro step
  constructor
  · intro h
    cases h
  · rintro ⟨_, hother, hbare, -⟩
    obtain ⟨next, hnext, rfl⟩ := map_eq_ok_iff.mp hother
    obtain ⟨-, other, -, rfl⟩ := (Draft.withPolicy_eq_ok_iff word).mp hnext
    cases hbare

/-- What is read neither depends on the policy of a draft nor gives it one. -/
structure IgnoresPolicy (read : Draft → Except UsageError Draft) : Prop where
  read_given : ∀ policy draft, read (draft.given policy) = (read draft).map (Draft.given policy)
  keeps : ∀ draft next, read draft = .ok next → next.policy? = draft.policy?

/-- A path is taken with or without a policy. -/
theorem ignoresPolicy_withPath (word : String) : IgnoresPolicy (·.withPath word) where
  read_given policy draft := by
    dsimp only [Draft.withPath]
    rw [apply_ite (Except.map (Draft.given policy)), apply_ite (Except.map (Draft.given policy))]
    rfl
  keeps draft next h := by
    dsimp only [Draft.withPath] at h
    split at h
    · cases h
    · split at h
      · cases h
      · cases h
        rfl

/-- A switch is taken with or without a policy. -/
theorem ignoresPolicy_withSwitch (switch : Switch) : IgnoresPolicy (·.withSwitch switch) where
  read_given policy draft := by
    dsimp only [Draft.withSwitch]
    rw [apply_ite (Except.map (Draft.given policy))]
    rfl
  keeps draft next h := by
    dsimp only [Draft.withSwitch] at h
    split at h
    · cases h
    · cases h
      rfl

/-- What does not depend on the policy leads to the same behind one. -/
theorem IgnoresPolicy.behind {read : Draft → Except UsageError Draft} (ignores : IgnoresPolicy read)
    (hbare : draft.policy? = none) :
    Behind policy ((read draft).map .continue) ((read (draft.given policy)).map .continue) := by
  rw [ignores.read_given]
  cases hread : read draft with
  | error error => exact behind_error error error
  | ok next => exact behind_ok (.continue next) ((ignores.keeps draft next hread).trans hbare)

/-- An option of two dashes leads to the same behind a policy, unless it gives one. -/
theorem behind_readLong (hbare : draft.policy? = none) (name : String) (value? : Option String) :
    Behind policy (readLong draft name value?) (readLong (draft.given policy) name value?) := by
  unfold readLong
  by_cases hname : name = policyName
  · rw [if_pos hname, if_pos hname]
    cases value? with
    | none => exact behind_ok (.awaitPolicy draft) hbare
    | some word => exact behind_withPolicy word
  · rw [if_neg hname, if_neg hname]
    cases Switch.all.find? (·.name == name) with
    | some switch =>
      dsimp only
      split
      · exact behind_error _ _
      · exact (ignoresPolicy_withSwitch switch).behind hbare
    | none =>
      cases Question.all.find? (·.name == name) with
      | some question =>
        dsimp only
        split
        · exact behind_error _ _
        · exact behind_ok (.answer question) trivial
      | none => exact behind_error _ _

/-- Letters behind that of the policy option are its value. -/
theorem exists_readLetters_policyLetter {letters : List Char} (h : letters ≠ []) :
    ∃ word, ∀ draft : Draft, readLetters draft (policyLetter :: letters) =
      (draft.withPolicy word).map .continue := by
  cases letters with
  | nil => exact absurd rfl h
  | cons letter rest =>
    by_cases hequals : letter = '='
    · subst hequals
      exact ⟨String.ofList rest, fun _ => rfl⟩
    · refine ⟨String.ofList (letter :: rest), fun draft => ?_⟩
      simp [readLetters, hequals]

/-- A letter that is not that of the policy option is a switch or a question of its own, and what
follows a switch is read as more letters. -/
theorem readLetters_of_ne {letter : Char} (hletter : letter ≠ policyLetter) (rest : List Char) :
    readLetters draft (letter :: rest) =
      match Switch.all.find? (·.letter? == some letter),
          Question.all.find? (·.letter == letter) with
      | some switch, _ =>
        match draft.withSwitch switch with
        | .ok draft => readLetters draft rest
        | .error error => .error error
      | none, some question => .ok (.answer question)
      | none, none => .error (.unknownOption (String.ofList ['-', letter])) := by
  rw [readLetters.eq_def]
  exact if_neg hletter

/-- Letters behind a dash lead to the same behind a policy, unless they give one; the induction is
on the letters, since a switch may stand in front of the policy. -/
theorem behind_readLetters (hbare : draft.policy? = none) (letters : List Char) :
    Behind policy (readLetters draft letters) (readLetters (draft.given policy) letters) := by
  induction letters generalizing draft with
  | nil => exact behind_ok (.continue draft) hbare
  | cons letter rest ih =>
    by_cases hletter : letter = policyLetter
    · subst hletter
      by_cases hrest : rest = []
      · subst hrest
        exact behind_ok (.awaitPolicy draft) hbare
      · obtain ⟨word, hword⟩ := exists_readLetters_policyLetter hrest
        rw [hword, hword]
        exact behind_withPolicy word
    · rw [readLetters_of_ne hletter, readLetters_of_ne hletter]
      cases Switch.all.find? (·.letter? == some letter) with
      | some switch =>
        have ignores := ignoresPolicy_withSwitch switch
        dsimp only
        rw [ignores.read_given]
        cases hswitch : draft.withSwitch switch with
        | error error => exact behind_error error error
        | ok next => exact ih ((ignores.keeps draft next hswitch).trans hbare)
      | none =>
        cases Question.all.find? (·.letter == letter) with
        | some question => exact behind_ok (.answer question) trivial
        | none => exact behind_error _ _

/-- Every word leads to the same behind a policy, unless it gives one. -/
theorem behind_readWord (hbare : draft.policy? = none) (word : String) :
    Behind policy (readWord draft word) (readWord (draft.given policy) word) := by
  unfold readWord
  split
  · exact behind_readLong hbare _ _
  · exact behind_readLetters hbare _
  · exact (ignoresPolicy_withPath word).behind hbare

/-! ## The words in order -/

/-- Paths are read with or without a policy. -/
theorem ignoresPolicy_readPaths (words : List String) : IgnoresPolicy (readPaths · words) where
  read_given policy draft := by
    induction words generalizing draft with
    | nil => rfl
    | cons word rest ih =>
      rw [readPaths, readPaths, (ignoresPolicy_withPath word).read_given]
      cases draft.withPath word with
      | error error => rfl
      | ok next => exact ih next
  keeps draft last h := by
    induction words generalizing draft with
    | nil =>
      cases h
      rfl
    | cons word rest ih =>
      rw [readPaths] at h
      cases hword : draft.withPath word with
      | error error =>
        rw [hword] at h
        cases h
      | ok next =>
        rw [hword] at h
        exact (ih next h).trans ((ignoresPolicy_withPath word).keeps draft next hword)

/-- `Reads draft words last`: the words lead from `draft` to `last` and ask no question. -/
inductive Reads : Draft → List String → Draft → Prop where
  | nil (draft : Draft) : Reads draft [] draft
  | paths {draft last : Draft} {words : List String} (h : readPaths draft words = .ok last) :
      Reads draft ("--" :: words) last
  | word {draft next last : Draft} {word : String} {words : List String} (hword : word ≠ "--")
      (hstep : readWord draft word = .ok (.continue next)) (hrest : Reads next words last) :
      Reads draft (word :: words) last
  | value {draft next last : Draft} {word value : String} {words : List String}
      {policy : ErrorPolicy} (hword : word ≠ "--")
      (hstep : readWord draft word = .ok (.awaitPolicy next)) (hbare : next.policy? = none)
      (hvalue : ErrorPolicy.ofName? value = some policy)
      (hrest : Reads (next.given policy) words last) :
      Reads draft (word :: value :: words) last

/-- A request to decode has the options it was made of. -/
theorem map_decode_eq_ok_iff {result : Except UsageError Options} {options : Options} :
    result.map Request.decode = .ok (.decode options) ↔ result = .ok options := by
  rw [map_eq_ok_iff]
  simp

/-- A request to decode has the options it was made of, also in the form in which paths lead to it.
-/
theorem bind_decode_eq_ok_iff {result : Except UsageError Options} {options : Options} :
    (do return Request.decode (← result)) = .ok (.decode options) ↔ result = .ok options := by
  rw [bind_eq_ok_iff]
  simp [pure, Except.pure]

/-- The environment counts only when the words have been read to their end. -/
theorem readWords_eq_decode_iff {environment : Option String} {options : Options} :
    readWords environment draft words = .ok (.decode options) ↔
      ∃ last, Reads draft words last ∧ last.finish environment = .ok options := by
  constructor
  · intro h
    fun_induction readWords environment draft words with
    | case1 draft => exact ⟨draft, .nil draft, map_decode_eq_ok_iff.mp h⟩
    | case2 draft words =>
      obtain ⟨last, hpaths, h⟩ := bind_eq_ok_iff.mp h
      exact ⟨last, .paths hpaths, bind_decode_eq_ok_iff.mp h⟩
    | case3 | case5 | case6 | case8 => cases h
    | case4 draft word words hword next hstep ih =>
      obtain ⟨last, hreads, hfinish⟩ := ih h
      exact ⟨last, .word hword hstep hreads, hfinish⟩
    | case7 draft word hword next hstep value words after hvalue ih =>
      obtain ⟨last, hreads, hfinish⟩ := ih h
      obtain ⟨hbare, policy, hpolicy, rfl⟩ := (Draft.withPolicy_eq_ok_iff value).mp hvalue
      exact ⟨last, .value hword hstep hbare hpolicy hreads, hfinish⟩
  · rintro ⟨last, hreads, hfinish⟩
    induction hreads with
    | nil draft =>
      rw [readWords, hfinish]
      rfl
    | paths hpaths =>
      rw [readWords, if_pos rfl]
      exact bind_eq_ok_iff.mpr ⟨_, hpaths, bind_decode_eq_ok_iff.mpr hfinish⟩
    | word hword hstep hrest ih =>
      rw [readWords.eq_def]
      simp only [if_neg hword, hstep]
      exact ih hfinish
    | value hword hstep hbare hvalue hrest ih =>
      have hpolicy := (Draft.withPolicy_eq_ok_iff _).mpr ⟨hbare, _, hvalue, rfl⟩
      rw [readWords.eq_def]
      simp only [if_neg hword, hstep, hpolicy]
      exact ih hfinish

namespace Reads

/-- Without the policy that stands before them, the words lead to the same. -/
theorem of_given (h : Reads (draft.given policy) words last) (hbare : draft.policy? = none) :
    ∃ bare, Reads draft words bare ∧ bare.policy? = none ∧ last = bare.given policy := by
  generalize hstart : draft.given policy = start at h
  induction h generalizing draft with
  | nil => exact ⟨draft, .nil draft, hbare, hstart.symm⟩
  | @paths _ _ words hpaths =>
    subst hstart
    have ignores := ignoresPolicy_readPaths words
    rw [ignores.read_given] at hpaths
    obtain ⟨bare, hread, rfl⟩ := map_eq_ok_iff.mp hpaths
    exact ⟨bare, .paths hread, (ignores.keeps draft bare hread).trans hbare, rfl⟩
  | word hword hstep hrest ih =>
    subst hstart
    obtain ⟨_ | _ | _, hother, hnext, hgiven⟩ := (behind_readWord hbare _ _).mp hstep <;> cases hgiven
    obtain ⟨bare, hreads, hlast⟩ := ih hnext rfl
    exact ⟨bare, .word hword hother hreads, hlast⟩
  | value hword hstep hnext hvalue hrest ih =>
    subst hstart
    obtain ⟨_ | _ | _, -, -, hgiven⟩ := (behind_readWord hbare _ _).mp hstep <;> cases hgiven
    cases hnext

/-- A policy among the words stays. -/
theorem policy?_of_policy?_eq (h : Reads draft words last) (hpolicy : draft.policy? = some policy) :
    last.policy? = some policy := by
  obtain ⟨bare, hbare, rfl⟩ := Draft.exists_given_of_policy?_eq hpolicy
  obtain ⟨end', -, -, rfl⟩ := h.of_given hbare
  rfl

/-- Words that lead to no policy did not start with one. -/
theorem policy?_eq_none (h : Reads draft words last) (hbare : last.policy? = none) :
    draft.policy? = none := by
  cases hpolicy : draft.policy? with
  | none => rfl
  | some policy =>
    rw [h.policy?_of_policy?_eq hpolicy] at hbare
    cases hbare

/-- Behind a policy the words lead to the same, if they give none themselves. -/
theorem given (h : Reads draft words last) (hbare : last.policy? = none) (policy : ErrorPolicy) :
    Reads (draft.given policy) words (last.given policy) := by
  induction h with
  | nil draft => exact .nil _
  | paths hpaths =>
    apply Reads.paths
    rw [(ignoresPolicy_readPaths _).read_given, hpaths]
    rfl
  | word hword hstep hrest ih =>
    have hnext := hrest.policy?_eq_none hbare
    have hdraft := (Reads.word hword hstep hrest).policy?_eq_none hbare
    exact .word hword ((behind_readWord hdraft _ _).mpr ⟨_, hstep, hnext, rfl⟩) (ih hbare)
  | value hword hstep hnext hvalue hrest ih =>
    rw [hrest.policy?_of_policy?_eq (Draft.policy?_given _ _)] at hbare
    cases hbare

end Reads

/-! ## A policy among the words -/

variable {spelling : List String}

/-- A policy is spelled in two words, of which the first waits for the second, or in one; the first
word is no name of a policy and does not end the options. -/
theorem spelling_cases (h : spelling ∈ policy.spellings) :
    ∃ word, word ≠ "--" ∧ ErrorPolicy.ofName? word = none ∧
      ((spelling = [word, policy.name] ∧
          ∀ draft, readWord draft word = .ok (.awaitPolicy draft)) ∨
        spelling = [word] ∧
          ∀ draft, readWord draft word = (draft.withPolicy policy.name).map .continue) := by
  cases policy <;> simp only [ErrorPolicy.spellings, List.mem_cons, List.not_mem_nil, or_false] at h
  all_goals
    rcases h with rfl | rfl | rfl | rfl | rfl
    · exact ⟨_, by decide, by decide, .inl ⟨rfl, fun _ => rfl⟩⟩
    · exact ⟨_, by decide, by decide, .inr ⟨rfl, fun _ => rfl⟩⟩
    · exact ⟨_, by decide, by decide, .inl ⟨rfl, fun _ => rfl⟩⟩
    · exact ⟨_, by decide, by decide, .inr ⟨rfl, fun _ => rfl⟩⟩
    · exact ⟨_, by decide, by decide, .inr ⟨rfl, fun _ => rfl⟩⟩

/-- The name of a policy gives it to a draft that has none. -/
theorem map_withPolicy_name_eq_ok_iff (step : Step) :
    (draft.withPolicy policy.name).map Step.continue = .ok step ↔
      draft.policy? = none ∧ step = .continue (draft.given policy) := by
  rw [map_eq_ok_iff]
  simp only [Draft.withPolicy_eq_ok_iff, policy.ofName?_name, Option.some.injEq, exists_eq_left']
  constructor
  · rintro ⟨_, ⟨hbare, rfl⟩, rfl⟩
    exact ⟨hbare, rfl⟩
  · rintro ⟨hbare, rfl⟩
    exact ⟨_, ⟨hbare, rfl⟩, rfl⟩

namespace Reads

/-- A word leads on by itself, or together with the name of a policy behind it. -/
theorem cons_iff {word : String} (hword : word ≠ "--") :
    Reads draft (word :: words) last ↔
      (∃ next, readWord draft word = .ok (.continue next) ∧ Reads next words last) ∨
      ∃ next value rest policy, readWord draft word = .ok (.awaitPolicy next) ∧
        words = value :: rest ∧ next.policy? = none ∧
        ErrorPolicy.ofName? value = some policy ∧ Reads (next.given policy) rest last := by
  constructor
  · intro h
    cases h with
    | paths => exact absurd rfl hword
    | word _ hstep hrest => exact .inl ⟨_, hstep, hrest⟩
    | value _ hstep hbare hvalue hrest => exact .inr ⟨_, _, _, _, hstep, rfl, hbare, hvalue, hrest⟩
  · rintro (⟨next, hstep, hrest⟩ | ⟨next, value, rest, policy, hstep, rfl, hbare, hvalue, hrest⟩)
    · exact .word hword hstep hrest
    · exact .value hword hstep hbare hvalue hrest

/-- The words of a policy give it to a draft that has none, and lead nowhere from another. -/
theorem spelling_append_iff (h : spelling ∈ policy.spellings) :
    Reads draft (spelling ++ after) last ↔
      draft.policy? = none ∧ Reads (draft.given policy) after last := by
  obtain ⟨word, hword, -, ⟨rfl, hstep⟩ | ⟨rfl, hstep⟩⟩ := spelling_cases h
  · have hname := policy.ofName?_name
    simp only [List.cons_append, List.nil_append, cons_iff hword, hstep, Except.ok.injEq,
      reduceCtorEq, false_and, exists_false, false_or, Step.awaitPolicy.injEq, List.cons.injEq]
    constructor
    · rintro ⟨next, value, rest, other, rfl, ⟨rfl, rfl⟩, hbare, hother, hrest⟩
      rw [hname] at hother
      cases hother
      exact ⟨hbare, hrest⟩
    · rintro ⟨hbare, hrest⟩
      exact ⟨draft, policy.name, after, policy, rfl, ⟨rfl, rfl⟩, hbare, hname, hrest⟩
  · simp only [List.cons_append, List.nil_append, cons_iff hword, hstep,
      map_withPolicy_name_eq_ok_iff]
    constructor
    · rintro (⟨next, ⟨hbare, ⟨rfl⟩⟩, hrest⟩ | ⟨next, _, _, _, ⟨-, ⟨⟩⟩, -⟩)
      exact ⟨hbare, hrest⟩
    · rintro ⟨hbare, hrest⟩
      exact .inl ⟨_, ⟨hbare, rfl⟩, hrest⟩

/-- Words with a policy among them lead to a draft that has one. -/
theorem policy?_ne_none (h : spelling ∈ policy.spellings) (hbefore : "--" ∉ before)
    (hreads : Reads draft (before ++ (spelling ++ after)) last) : last.policy? ≠ none := by
  induction before generalizing draft with
  | nil =>
    obtain ⟨-, hrest⟩ := (spelling_append_iff h).mp hreads
    rw [hrest.policy?_of_policy?_eq (Draft.policy?_given _ _)]
    simp
  | cons word before ih =>
    obtain ⟨hword, hbefore⟩ := List.ne_and_not_mem_of_not_mem_cons hbefore
    obtain ⟨next, -, hrest⟩ | ⟨next, _, _, _, -, -, -, -, hrest⟩ :=
      (cons_iff (Ne.symm hword)).mp hreads
    · exact ih hbefore hrest
    · rw [hrest.policy?_of_policy?_eq (Draft.policy?_given _ _)]
      simp

/-- A second policy leads nowhere. -/
theorem not_given_spelling (h : spelling ∈ policy.spellings) (hbefore : "--" ∉ before)
    (hpolicy : draft.policy? ≠ none) : ¬ Reads draft (before ++ (spelling ++ after)) last := by
  intro hreads
  obtain ⟨other, hother⟩ := Option.ne_none_iff_exists'.mp hpolicy
  obtain ⟨bare, hbare, rfl⟩ := Draft.exists_given_of_policy?_eq hother
  obtain ⟨_, hrest, hnone, -⟩ := hreads.of_given hbare
  exact hrest.policy?_ne_none h hbefore hnone

/-- A policy anywhere among the options is added to what the other words lead to. -/
theorem insert_iff (h : spelling ∈ policy.spellings) (hbefore : "--" ∉ before)
    (hbare : draft.policy? = none) :
    Reads draft (before ++ (spelling ++ after)) last ↔
      ∃ bare, Reads draft (before ++ after) bare ∧ bare.policy? = none ∧
        last = bare.given policy := by
  induction before generalizing draft with
  | nil =>
    rw [List.nil_append, List.nil_append, spelling_append_iff h, and_iff_right hbare]
    constructor
    · intro hreads
      exact hreads.of_given hbare
    · rintro ⟨bare, hreads, hnone, rfl⟩
      exact hreads.given hnone policy
  | cons word before ih =>
    obtain ⟨hword, hbefore⟩ := List.ne_and_not_mem_of_not_mem_cons hbefore
    rw [List.cons_append, List.cons_append]
    constructor
    · intro hreads
      obtain ⟨next, hstep, hrest⟩ | ⟨next, value, rest, other, -, hwords, -, hvalue, hrest⟩ :=
        (cons_iff (Ne.symm hword)).mp hreads
      · by_cases hnext : next.policy? = none
        · obtain ⟨bare, hreads, hlast⟩ := (ih hbefore hnext).mp hrest
          exact ⟨bare, .word (Ne.symm hword) hstep hreads, hlast⟩
        · exact absurd hrest (not_given_spelling h hbefore hnext)
      · cases before with
        | nil =>
          -- The first word of a spelling is no name of a policy.
          obtain ⟨first, -, hnone, ⟨rfl, -⟩ | ⟨rfl, -⟩⟩ := spelling_cases h <;>
            cases hwords <;> rw [hnone] at hvalue <;> cases hvalue
        | cons _ before =>
          cases hwords
          have hpolicy : (next.given other).policy? ≠ none := Option.some_ne_none other
          have hbefore := (List.ne_and_not_mem_of_not_mem_cons hbefore).2
          exact absurd hrest (not_given_spelling h hbefore hpolicy)
    · rintro ⟨bare, hreads, hnone, rfl⟩
      obtain ⟨next, hstep, hrest⟩ | ⟨next, _, _, _, -, -, -, -, hrest⟩ :=
        (cons_iff (Ne.symm hword)).mp hreads
      · have hnext := hrest.policy?_eq_none hnone
        exact .word (Ne.symm hword) hstep ((ih hbefore hnext).mpr ⟨bare, hrest, hnone, rfl⟩)
      · rw [hrest.policy?_of_policy?_eq (Draft.policy?_given _ _)] at hnone
        cases hnone

end Reads

/-! ## The policy of the environment -/

/-- The options of words that have been read, under a policy. -/
def Draft.options (policy : ErrorPolicy) (draft : Draft) : Except UsageError Options :=
  match draft.path? with
  | none => .error .missingPath
  | some path =>
    .ok { path, policy, json := draft.switches.contains .json,
          run := draft.switches.contains .run, quiet := draft.switches.contains .quiet }

namespace Draft

/-- The environment has no say if there is a policy among the words. -/
theorem finish_of_policy?_eq (h : draft.policy? = some policy) (environment : Option String) :
    draft.finish environment = draft.options policy := by
  simp only [finish, h]
  rfl

/-- Without a policy among the words the environment has the say. -/
theorem finish_of_policy?_eq_none (h : draft.policy? = none) (policy : ErrorPolicy) :
    draft.finish (some policy.name) = draft.options policy := by
  have hname : readPolicy policy.name = .ok policy := by
    rw [readPolicy, policy.ofName?_name]
  simp only [finish, h, hname]
  rfl

/-- The policy that counts is the one that is asked for in the end. -/
theorem options_given (given policy : ErrorPolicy) (draft : Draft) :
    (draft.given given).options policy = draft.options policy := rfl

/-- Options are read under every policy or none, and show it. -/
theorem options_eq_ok_iff (policy : ErrorPolicy) (options : Options) :
    draft.options policy = .ok options ↔
      options.policy = policy ∧
        ∀ other, draft.options other = .ok { options with policy := other } := by
  unfold Draft.options
  cases draft.path? with
  | none => simp
  | some path =>
    obtain ⟨_, _, _, _, _⟩ := options
    simp only [Except.ok.injEq, Options.mk.injEq, true_and, forall_const]
    constructor
    · rintro ⟨hpath, rfl, hswitches⟩
      exact ⟨rfl, hpath, hswitches⟩
    · rintro ⟨rfl, hpath, hswitches⟩
      exact ⟨hpath, rfl, hswitches⟩

end Draft

/-- A policy among the words, however it is spelled, has the effect that it has in the
environment of the other words alone. With it the environment makes no difference, and
without it the environment decides the policy and nothing else. -/
theorem readArguments_insert_iff (h : spelling ∈ policy.spellings) (hbefore : "--" ∉ before)
    (after : List String) (environment : Option String) (options : Options) :
    readArguments (before ++ (spelling ++ after)) environment = .ok (.decode options) ↔
      options.policy = policy ∧ ∀ other : ErrorPolicy,
        readArguments (before ++ after) (some other.name) =
          .ok (.decode { options with policy := other }) := by
  have hempty : ({} : Draft).policy? = none := rfl
  rw [readArguments, readWords_eq_decode_iff]
  simp only [Reads.insert_iff h hbefore hempty]
  constructor
  · rintro ⟨_, ⟨bare, hreads, hbare, rfl⟩, hfinish⟩
    rw [Draft.finish_of_policy?_eq (Draft.policy?_given _ _), Draft.options_given,
      Draft.options_eq_ok_iff] at hfinish
    refine ⟨hfinish.1, fun other => readWords_eq_decode_iff.mpr ⟨bare, hreads, ?_⟩⟩
    rw [Draft.finish_of_policy?_eq_none hbare]
    exact hfinish.2 other
  · rintro ⟨rfl, hother⟩
    obtain ⟨bare, hreads, hfinish⟩ := readWords_eq_decode_iff.mp (hother .abort)
    cases hbare : bare.policy? with
    | none =>
      rw [Draft.finish_of_policy?_eq_none hbare, Draft.options_eq_ok_iff] at hfinish
      refine ⟨_, ⟨bare, hreads, hbare, rfl⟩, ?_⟩
      rw [Draft.finish_of_policy?_eq (Draft.policy?_given _ _), Draft.options_given]
      exact hfinish.2 options.policy
    | some policy =>
      -- The words would give the policy whatever the environment says.
      rw [Draft.finish_of_policy?_eq hbare] at hfinish
      have hskip := hother .skip
      rw [readArguments, readWords_eq_decode_iff.mpr
        ⟨bare, hreads, (Draft.finish_of_policy?_eq hbare _).trans hfinish⟩] at hskip
      cases hskip

end CommandLine

end EventScript

import EventScript.Proofs.CommandLine.Environment
import Mathlib.Data.List.TakeWhile

/-!
# The words of switches

A command line sets a switch by its words and by nothing else. A switch has a name behind two
dashes, and two of the three have a letter behind one dash, which may stand among others. That the
switches read so far are those that the words so far ask for is an invariant of reading one word
after another; the value of the policy option is the one word in between that asks for nothing,
and two dashes alone end the options. Every setting can be asked for.
-/

set_option autoImplicit false

namespace EventScript.CommandLine

/-! ## What a word asks for -/

/-- The word has the letter behind one dash, in front of any `p`, behind which it goes on with a
policy. -/
def HasLetter (letter : Char) (word : String) : Prop :=
  ∃ letters, word.toList = '-' :: letters ∧ letters.head? ≠ some '-' ∧
    letter ∈ letters.takeWhile (· ≠ 'p')

/-- `switch.GivenBy word`: the word asks for the switch, by its name or by its letter if it has
one. -/
def Switch.GivenBy : Switch → String → Prop
  | json, word => word = "--json"
  | run, word => word = "--run" ∨ HasLetter 'r' word
  | quiet, word => word = "--quiet" ∨ HasLetter 'q' word

/-- A switch is given by two dashes and its name, or by its letter behind one dash. -/
theorem Switch.givenBy_iff (switch : Switch) (word : String) :
    switch.GivenBy word ↔ word.toList = '-' :: '-' :: switch.name.toList ∨
      ∃ letter, switch.letter? = some letter ∧ HasLetter letter word := by
  have hlong (name : String) : word = "--" ++ name ↔ word.toList = '-' :: '-' :: name.toList := by
    rw [← String.toList_inj, String.toList_append]
    rfl
  cases switch with
  | json => simpa [GivenBy, letter?, name] using hlong "json"
  | run => simpa [GivenBy, letter?, name] using or_congr_left (hlong "run")
  | quiet => simpa [GivenBy, letter?, name] using or_congr_left (hlong "quiet")

/-- A switch is found by its name. -/
theorem Switch.find?_name_eq_some_iff {switch : Switch} {name : String} :
    all.find? (·.name == name) = some switch ↔ switch.name = name := by
  constructor
  · intro h
    simpa using List.find?_some h
  · rintro rfl
    cases switch <;> decide

/-- A switch is found by its letter. -/
theorem Switch.find?_letter_eq_some_iff {switch : Switch} {letter : Char} :
    all.find? (·.letter? == some letter) = some switch ↔ switch.letter? = some letter := by
  constructor
  · intro h
    simpa using List.find?_some h
  · intro h
    cases switch <;> cases h <;> decide

/-- Behind two dashes a switch is given by its name. -/
theorem Switch.givenBy_iff_of_long {word : String} {option : List Char}
    (hword : word.toList = '-' :: '-' :: option) (switch : Switch) :
    switch.GivenBy word ↔ option = switch.name.toList := by
  have hletter (letter : Char) : ¬ HasLetter letter word := by
    rintro ⟨letters, hletters, hhead, -⟩
    rw [hword, List.cons.injEq] at hletters
    exact hhead (by rw [← hletters.2, List.head?_cons])
  simp [givenBy_iff, hword, hletter]

/-- Behind one dash a switch is given by its letter. -/
theorem Switch.givenBy_iff_of_short {word : String} {letters : List Char}
    (hword : word.toList = '-' :: letters) (hhead : letters.head? ≠ some '-') (switch : Switch) :
    switch.GivenBy word ↔
      ∃ letter ∈ letters.takeWhile (· ≠ 'p'), switch.letter? = some letter := by
  have hlong : word.toList ≠ '-' :: '-' :: switch.name.toList := by
    intro hname
    rw [hword, List.cons.injEq] at hname
    exact hhead (by rw [hname.2, List.head?_cons])
  rw [givenBy_iff, or_iff_right hlong]
  constructor
  · rintro ⟨letter, hletter, letters', hword', -, hmem⟩
    rw [hword, List.cons.injEq] at hword'
    exact ⟨letter, hword'.2 ▸ hmem, hletter⟩
  · rintro ⟨letter, hmem, hletter⟩
    exact ⟨letter, hletter, letters, hword, hhead, hmem⟩

/-- A word with nothing behind a dash gives no switch. -/
theorem Switch.not_givenBy_of_ne {word : String}
    (h : ∀ letter letters, word.toList ≠ '-' :: letter :: letters) (switch : Switch) :
    ¬ switch.GivenBy word := by
  rw [givenBy_iff]
  rintro (hname | ⟨letter, -, _ | ⟨first, rest⟩, hletters, -, hmem⟩)
  · exact h _ _ hname
  · cases hmem
  · exact h _ _ hletters

/-! ## One word -/

/-- The switches of a draft are those of another and those that are given. -/
def Draft.Extends (draft next : Draft) (given : Switch → Prop) : Prop :=
  ∀ switch, switch ∈ next.switches ↔ switch ∈ draft.switches ∨ given switch

/-- What a word leads to has the switches of the draft before it and those that are given. A
question has none. -/
def Step.Extends (draft : Draft) (step : Step) (given : Switch → Prop) : Prop :=
  match step with
  | .continue next | .awaitPolicy next => draft.Extends next given
  | .answer _ => True

variable {draft next last : Draft} {step : Step} {given other : Switch → Prop}

namespace Draft

/-- It does not matter how the switches that are given are told. -/
theorem Extends.congr (h : draft.Extends next given)
    (hgiven : ∀ switch, given switch ↔ other switch) : draft.Extends next other := by
  intro switch
  rw [h switch, hgiven switch]

/-- Switches that are given one after another are given together. -/
theorem Extends.trans (first : draft.Extends next given) (second : next.Extends last other) :
    draft.Extends last fun switch => given switch ∨ other switch := by
  intro switch
  rw [second switch, first switch, or_assoc]

/-- A draft that has the same switches has been given none. -/
theorem extends_of_switches_eq (h : next.switches = draft.switches)
    (hnone : ∀ switch, ¬ given switch) : draft.Extends next given := by
  intro switch
  rw [h, or_iff_left (hnone switch)]

/-- A path gives no switch. -/
theorem switches_of_withPath {word : String} (h : draft.withPath word = .ok next) :
    next.switches = draft.switches := by
  unfold withPath at h
  split at h
  · cases h
  · split at h
    · cases h
    · cases h
      rfl

/-- A policy gives no switch. -/
theorem switches_of_withPolicy {word : String} (h : draft.withPolicy word = .ok next) :
    next.switches = draft.switches := by
  obtain ⟨-, policy, -, rfl⟩ := (withPolicy_eq_ok_iff word).mp h
  rfl

/-- A switch that is taken is added to those that have been given. -/
theorem extends_of_withSwitch {switch : Switch} (h : draft.withSwitch switch = .ok next) :
    draft.Extends next (· = switch) := by
  unfold withSwitch at h
  split at h
  · cases h
  · cases h
    intro other
    rw [List.mem_cons, or_comm]

end Draft

namespace Step.Extends

/-- For a step as for a draft, it does not matter how the switches that are given are told. -/
theorem congr (h : step.Extends draft given) (hgiven : ∀ switch, given switch ↔ other switch) :
    step.Extends draft other := by
  cases step with
  | «continue» next => exact Draft.Extends.congr h hgiven
  | awaitPolicy next => exact Draft.Extends.congr h hgiven
  | answer question => trivial

/-- What comes of a draft with more switches has these as well. -/
theorem trans (first : draft.Extends next given) (second : step.Extends next other) :
    step.Extends draft fun switch => given switch ∨ other switch := by
  cases step with
  | «continue» last => exact Draft.Extends.trans first second
  | awaitPolicy last => exact Draft.Extends.trans first second
  | answer question => trivial

end Step.Extends

/-- What a draft is read into can go on with the next word. -/
theorem extends_of_map_continue {read : Except UsageError Draft}
    (h : read.map Step.continue = .ok step)
    (hread : ∀ next, read = .ok next → draft.Extends next given) : step.Extends draft given := by
  obtain ⟨next, hnext, rfl⟩ := map_eq_ok_iff.mp h
  exact hread next hnext

/-- Of the options of two dashes, those with the name of a switch and without a value give it. -/
theorem extends_of_readLong {name : String} {value? : Option String}
    (h : readLong draft name value? = .ok step) :
    step.Extends draft fun switch => switch.name = name ∧ value? = none := by
  have hpolicy (switch : Switch) : switch.name ≠ policyName := by
    cases switch <;> decide
  unfold readLong at h
  split at h
  · next hname =>
    have hnone (switch : Switch) : ¬ (switch.name = name ∧ value? = none) := by
      rintro ⟨rfl, -⟩
      exact hpolicy switch hname
    cases value? with
    | none =>
      cases h
      exact Draft.extends_of_switches_eq rfl hnone
    | some word =>
      apply extends_of_map_continue h
      intro next hnext
      exact Draft.extends_of_switches_eq (Draft.switches_of_withPolicy hnext) hnone
  · cases hfind : Switch.all.find? (·.name == name) with
    | some switch =>
      simp only [hfind] at h
      split at h
      · cases h
      · next hvalue =>
        have hvalue : value? = none := by simpa using hvalue
        have hgiven (other : Switch) : other = switch ↔ other.name = name ∧ value? = none := by
          rw [← Switch.find?_name_eq_some_iff, hfind, Option.some.injEq, eq_comm,
            and_iff_left hvalue]
        apply extends_of_map_continue h
        intro next hnext
        exact (Draft.extends_of_withSwitch hnext).congr hgiven
    | none =>
      cases hquestion : Question.all.find? (·.name == name) with
      | some question =>
        simp only [hfind, hquestion] at h
        split at h
        · cases h
        · cases h
          trivial
      | none =>
        simp only [hfind, hquestion] at h
        cases h

/-- Letters behind one dash give the switches that have them, up to the letter of the policy
option, behind which its value stands. The induction is on the letters, each of which is taken
before the next. -/
theorem extends_of_readLetters {letters : List Char} (h : readLetters draft letters = .ok step) :
    step.Extends draft fun switch =>
      ∃ letter ∈ letters.takeWhile (· ≠ 'p'), switch.letter? = some letter := by
  induction letters generalizing draft with
  | nil =>
    cases h
    exact Draft.extends_of_switches_eq rfl (by simp)
  | cons letter rest ih =>
    by_cases hletter : letter = policyLetter
    · subst hletter
      have hnone (switch : Switch) : ¬ ∃ letter ∈ (policyLetter :: rest).takeWhile (· ≠ 'p'),
          switch.letter? = some letter := by
        simp [policyLetter]
      by_cases hrest : rest = []
      · subst hrest
        cases h
        exact Draft.extends_of_switches_eq rfl hnone
      · obtain ⟨word, hword⟩ := exists_readLetters_policyLetter hrest
        rw [hword] at h
        apply extends_of_map_continue h
        intro next hnext
        exact Draft.extends_of_switches_eq (Draft.switches_of_withPolicy hnext) hnone
    · rw [readLetters_of_ne hletter] at h
      cases hfind : Switch.all.find? (·.letter? == some letter) with
      | some switch =>
        simp only [hfind] at h
        cases hswitch : draft.withSwitch switch with
        | error error =>
          rw [hswitch] at h
          cases h
        | ok next =>
          rw [hswitch] at h
          have hgiven (other : Switch) : other = switch ↔ other.letter? = some letter := by
            rw [← Switch.find?_letter_eq_some_iff, hfind, Option.some.injEq, eq_comm]
          have hnext := (Draft.extends_of_withSwitch hswitch).congr hgiven
          apply (Step.Extends.trans hnext (ih h)).congr
          intro other
          have hkeep : decide (letter ≠ 'p') = true := decide_eq_true hletter
          simp only [List.takeWhile_cons, hkeep, if_true, List.mem_cons, or_and_right, exists_or,
            exists_eq_left]
      | none =>
        cases hquestion : Question.all.find? (·.letter == letter) with
        | some question =>
          simp only [hfind, hquestion] at h
          cases h
          trivial
        | none =>
          simp only [hfind, hquestion] at h
          cases h

/-- The name in front of an equals sign is all of an option if there is no value behind. -/
theorem eq_takeWhile_iff {name option : List Char} (hname : '=' ∉ name) :
    name = option.takeWhile (· != '=') ∧ option.dropWhile (· != '=') = [] ↔ option = name := by
  constructor
  · rintro ⟨rfl, hdrop⟩
    have hparts := option.takeWhile_append_dropWhile (p := (· != '='))
    rw [hdrop, List.append_nil] at hparts
    exact hparts.symm
  · rintro rfl
    have hall : ∀ c ∈ option, (c != '=') = true := by
      intro c hc
      simpa using ne_of_mem_of_not_mem hc hname
    exact ⟨(List.takeWhile_eq_self_iff.mpr hall).symm, List.dropWhile_eq_nil_iff.mpr hall⟩

/-- A word gives the switches that it asks for. -/
theorem extends_of_readWord {word : String} (h : readWord draft word = .ok step) :
    step.Extends draft (·.GivenBy word) := by
  unfold readWord at h
  split at h
  · next option hword =>
    apply (extends_of_readLong h).congr
    intro switch
    have hname : '=' ∉ switch.name.toList := by cases switch <;> decide
    rw [switch.givenBy_iff_of_long hword, ← eq_takeWhile_iff hname, ← String.toList_inj,
      String.toList_ofList]
    cases option.dropWhile (· != '=') <;> simp
  · next letter letters hletter hword =>
    have hhead : (letter :: letters).head? ≠ some '-' := by
      simpa using hletter
    apply (extends_of_readLetters h).congr
    intro switch
    rw [switch.givenBy_iff_of_short hword hhead]
  · next hshort =>
    apply extends_of_map_continue h
    intro next hnext
    exact Draft.extends_of_switches_eq (Draft.switches_of_withPath hnext)
      (Switch.not_givenBy_of_ne hshort)

/-! ## The words in order -/

/-- Words that are paths give no switch. -/
theorem switches_of_readPaths {words : List String} (h : readPaths draft words = .ok last) :
    last.switches = draft.switches := by
  induction words generalizing draft with
  | nil =>
    cases h
    rfl
  | cons word rest ih =>
    rw [readPaths] at h
    cases hword : draft.withPath word with
    | error error =>
      rw [hword] at h
      cases h
    | ok next =>
      rw [hword] at h
      rw [ih h, Draft.switches_of_withPath hword]

/-- The name of a policy gives no switch and does not end the options. -/
theorem not_givenBy_and_ne_of_ofName?_eq_some {word : String} {policy : ErrorPolicy}
    (h : ErrorPolicy.ofName? word = some policy) :
    (∀ switch : Switch, ¬ switch.GivenBy word) ∧ word ≠ "--" := by
  obtain rfl : policy.name = word := by simpa using List.find?_some h
  cases policy with
  | abort => exact ⟨Switch.not_givenBy_of_ne (by simp [ErrorPolicy.name]), by decide⟩
  | skip => exact ⟨Switch.not_givenBy_of_ne (by simp [ErrorPolicy.name]), by decide⟩

/-- The words up to two dashes alone give the switches that they ask for, whatever stands between
them. The induction is on the reading of the words. -/
theorem Reads.extends {words : List String} (h : Reads draft words last) :
    draft.Extends last fun switch => ∃ word ∈ words.takeWhile (· ≠ "--"), switch.GivenBy word := by
  induction h with
  | nil draft => exact Draft.extends_of_switches_eq rfl (by simp)
  | paths hpaths => exact Draft.extends_of_switches_eq (switches_of_readPaths hpaths) (by simp)
  | @word draft next last word words hword hstep hrest ih =>
    apply (Draft.Extends.trans (extends_of_readWord hstep) ih).congr
    intro switch
    simp [hword]
  | @value draft next last word value words policy hword hstep hbare hvalue hrest ih =>
    obtain ⟨hnone, hdashes⟩ := not_givenBy_and_ne_of_ofName?_eq_some hvalue
    apply (Draft.Extends.trans (extends_of_readWord hstep) ih).congr
    intro switch
    simp [hword, hdashes, hnone switch]

variable {arguments : List String} {environment : Option String} {options : Options}

/-- The options of a command line are those of what has been read of it, under some policy. -/
theorem Draft.exists_options_of_finish (h : draft.finish environment = .ok options) :
    ∃ policy, draft.options policy = .ok options := by
  cases hpolicy : draft.policy? with
  | some policy =>
    rw [finish_of_policy?_eq hpolicy] at h
    exact ⟨policy, h⟩
  | none =>
    cases environment with
    | none =>
      simp only [finish, hpolicy] at h
      exact ⟨.abort, h⟩
    | some word =>
      simp only [finish, hpolicy] at h
      obtain ⟨policy, -, h⟩ := bind_eq_ok_iff.mp h
      exact ⟨policy, h⟩

/-- Whatever the policy, the options have the switches of what has been read. -/
theorem Draft.switches_of_options {policy : ErrorPolicy} (h : draft.options policy = .ok options) :
    options.json = draft.switches.contains .json ∧ options.run = draft.switches.contains .run ∧
      options.quiet = draft.switches.contains .quiet := by
  unfold Draft.options at h
  split at h
  · cases h
  · cases h
    exact ⟨rfl, rfl, rfl⟩

/-- The options of a command line have the switches that its words ask for, in front of two
dashes alone if it has these. -/
theorem readArguments_switches (h : readArguments arguments environment = .ok (.decode options)) :
    (options.json = true ↔
      ∃ word ∈ arguments.takeWhile (· ≠ "--"), Switch.json.GivenBy word) ∧
    (options.run = true ↔
      ∃ word ∈ arguments.takeWhile (· ≠ "--"), Switch.run.GivenBy word) ∧
    (options.quiet = true ↔
      ∃ word ∈ arguments.takeWhile (· ≠ "--"), Switch.quiet.GivenBy word) := by
  obtain ⟨last, hreads, hfinish⟩ := readWords_eq_decode_iff.mp h
  have hgiven (switch : Switch) : last.switches.contains switch = true ↔
      ∃ word ∈ arguments.takeWhile (· ≠ "--"), switch.GivenBy word := by
    rw [List.contains_iff_mem, hreads.extends switch, or_iff_right List.not_mem_nil]
  obtain ⟨policy, hoptions⟩ := Draft.exists_options_of_finish hfinish
  obtain ⟨hjson, hrun, hquiet⟩ := Draft.switches_of_options hoptions
  rw [hjson, hrun, hquiet]
  exact ⟨hgiven .json, hgiven .run, hgiven .quiet⟩

/-- Words that ask for a setting of the switches. -/
def settingWords (json run quiet : Bool) : List String :=
  (if json then ["--json"] else []) ++ ((if run then ["--run"] else []) ++
    if quiet then ["--quiet"] else [])

/-- A word that is only there if its switch is wanted leads on as the switch does. -/
theorem Reads.optional {switch : Switch} {word : String} {words : List String} (wanted : Bool)
    (hword : word ≠ "--")
    (hstep : readWord draft word = (draft.withSwitch switch).map Step.continue)
    (hnew : switch ∉ draft.switches)
    (hrest : Reads { draft with switches := (if wanted then [switch] else []) ++ draft.switches }
      words last) :
    Reads draft ((if wanted then [word] else []) ++ words) last := by
  cases wanted with
  | false => exact hrest
  | true =>
    have hswitch : draft.withSwitch switch =
        .ok { draft with switches := switch :: draft.switches } := by
      simp [Draft.withSwitch, hnew]
    rw [hswitch] at hstep
    exact .word hword hstep hrest

/-- Every setting of the switches can be asked for, with every path that is not empty and every
policy. -/
theorem readArguments_settingWords {path : String} (hpath : path ≠ "") (policy : ErrorPolicy)
    (json run quiet : Bool) :
    readArguments (settingWords json run quiet ++ ["--", path]) (some policy.name) =
      .ok (.decode { path, policy, json, run, quiet }) := by
  have hempty : path.isEmpty = false := by simpa using hpath
  rw [readArguments, readWords_eq_decode_iff]
  refine ⟨{ path? := some path, switches := ?switches }, ?reads, ?finish⟩
  case reads =>
    rw [settingWords, List.append_assoc, List.append_assoc]
    apply Reads.optional json (by decide) rfl (by simp)
    apply Reads.optional run (by decide) rfl (by simp)
    apply Reads.optional quiet (by decide) rfl (by simp)
    apply Reads.paths
    simp only [readPaths, Draft.withPath, hempty]
    rfl
  case finish =>
    rw [Draft.finish_of_policy?_eq_none rfl]
    simp [Draft.options]

end EventScript.CommandLine

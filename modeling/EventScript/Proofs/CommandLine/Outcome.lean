import EventScript.CommandLine.Program
import EventScript.Proofs.Execution.Acceptance

/-!
# What the program leaves behind

The program goes through stages: the contents of a file have to be text, the text a
listing, and the listing a script. A stage that fails decides the outcome by what it was
given, and no later stage prints anything. Past these only the run could fail, behind what has
been printed, and it does not: the host that prints accepts every directive.
-/

set_option autoImplicit false

namespace EventScript

/-- The script of a text that is a listing and decodes. -/
def Script.ofSource? (policy : ErrorPolicy) (source : String) : Option Script :=
  match Listing.parse source with
  | .error _ => none
  | .ok listing => (decode policy listing.tokens).toOption

/-- A text has a script exactly if it is a listing that decodes to it. -/
theorem Script.ofSource?_eq_some_iff {policy : ErrorPolicy} {source : String} {script : Script} :
    ofSource? policy source = some script ↔
      ∃ listing, Listing.parse source = .ok listing ∧
        decode policy listing.tokens = .ok script := by
  unfold ofSource?
  cases Listing.parse source with
  | error error => simp
  | ok listing => cases h : decode policy listing.tokens <;> simp [Except.toOption, h]

/-- Lines are printed one after another. -/
theorem Text.unlines_append (first second : List String) :
    unlines (first ++ second) = unlines first ++ unlines second := by
  simp only [unlines, List.map_append, String.join_append]

namespace CommandLine

variable {options : Options} {source : String} {policy : ErrorPolicy} {script : Script}

/-! ## Scripts -/

/-- What the run of a script prints: a line for each battle. -/
def battleLines (script : Script) : List String :=
  script.battles.map fun b => Report.directiveLine b.directive

/-- What is printed of a script: the body, and behind it the lines of the run if there is one. -/
def output (options : Options) (script : Script) : List String :=
  body options script ++ if options.run then battleLines script else []

/-- The host that prints puts the line of a directive behind what has been printed. -/
theorem printing_appends : Report.printing.Appends Report.directiveLine := by
  intro printed directive
  rfl

/-- The host that prints refuses no directive of a script, whatever has been printed. -/
theorem run_printing (printed : List String) (script : Script) :
    Execution.run Report.printing printed script.instructions =
      (.ok { executed := script.instructions.length, directives := script.battles.length },
        printed ++ battleLines script) :=
  Script.run_of_appends printing_appends printed script

/-- To present a script never fails. -/
theorem present_eq (options : Options) (script : Script) (warnings : List String) :
    present options script warnings = .succeeded (output options script) warnings := by
  unfold present output
  cases options.run with
  | true => simp only [run_printing, if_true]
  | false => simp

/-! ## Texts -/

/-- A listing that decodes is presented. -/
theorem decodeSource_of_ok {listing : Listing} (hparse : Listing.parse source = .ok listing)
    (hdecode : Script.decode options.policy listing.tokens = .ok script) :
    decodeSource options source =
      .succeeded (output options script) (script.diagnostics.map (Report.skipped listing)) := by
  simp only [decodeSource, hparse, hdecode, present_eq]

/-- A listing that does not decode is reported with the failure and printed nothing of. -/
theorem decodeSource_of_error {listing : Listing} {error : ScriptError}
    (hparse : Listing.parse source = .ok listing)
    (hdecode : Script.decode options.policy listing.tokens = .error error) :
    decodeSource options source = .failed (Report.scriptError source listing error) := by
  simp only [decodeSource, hparse, hdecode]

/-- A text that is no listing is reported with its fault and printed nothing of. -/
theorem decodeSource_of_listingError {error : ListingError}
    (hparse : Listing.parse source = .error error) :
    decodeSource options source = .failed (Report.listingError source error) := by
  simp only [decodeSource, hparse]

/-- What is reported beside a script does not depend on how it is printed. -/
theorem decodeSource_of_ofSource?_eq_some (hscript : Script.ofSource? policy source = some script) :
    ∃ warnings, ∀ options : Options, options.policy = policy →
      decodeSource options source = .succeeded (output options script) warnings := by
  obtain ⟨listing, hparse, hdecode⟩ := Script.ofSource?_eq_some_iff.mp hscript
  refine ⟨script.diagnostics.map (Report.skipped listing), ?_⟩
  rintro options rfl
  exact decodeSource_of_ok hparse hdecode

/-- What is reported of a text without a script does not depend on how it would have been printed.
-/
theorem decodeSource_of_ofSource?_eq_none (hnone : Script.ofSource? policy source = none) :
    ∃ report, ∀ options : Options, options.policy = policy →
      decodeSource options source = .failed report := by
  cases hparse : Listing.parse source with
  | error error => exact ⟨_, fun options _ => decodeSource_of_listingError hparse⟩
  | ok listing =>
    cases hdecode : Script.decode policy listing.tokens with
    | error error =>
      refine ⟨Report.scriptError source listing error, ?_⟩
      rintro options rfl
      exact decodeSource_of_error hparse hdecode
    | ok script =>
      rw [Script.ofSource?_eq_some_iff.mpr ⟨listing, hparse, hdecode⟩] at hnone
      cases hnone

/-! ## Contents of files -/

/-- The bytes of a file are a text if they are the UTF-8 form of one. -/
theorem decodeText_eq_ok_iff (bytes : ByteArray) (source : String) :
    decodeText bytes = .ok source ↔ bytes = source.toUTF8 := by
  have hsource : String.fromUTF8? bytes = some source ↔ bytes = source.toUTF8 := by
    simp only [String.fromUTF8?, String.toUTF8_eq_toByteArray, Option.dite_none_right_eq_some,
      Option.some.injEq]
    constructor
    · rintro ⟨hvalid, rfl⟩
      rfl
    · rintro rfl
      exact ⟨source.isValidUTF8, rfl⟩
  rw [← hsource, decodeText]
  cases String.fromUTF8? bytes <;> simp

/-- The UTF-8 form of a text is decoded as the text. -/
@[simp]
theorem decodeContents_toUTF8 (options : Options) (source : String) :
    decodeContents options (.ok source.toUTF8) = decodeSource options source := by
  have htext := (decodeText_eq_ok_iff _ source).mpr rfl
  simp only [decodeContents, Except.bind, htext]

/-- What was read is the UTF-8 form of a text, this is a listing, and the listing decodes. -/
def Decodes (policy : ErrorPolicy) (contents : Except ReadFailure ByteArray) (script : Script) :
    Prop :=
  ∃ (source : String) (listing : Listing), contents = .ok source.toUTF8 ∧
    Listing.parse source = .ok listing ∧ Script.decode policy listing.tokens = .ok script

/-- The UTF-8 form of a text decodes exactly to the script of the text. -/
theorem decodes_toUTF8_iff :
    Decodes policy (.ok source.toUTF8) script ↔ Script.ofSource? policy source = some script := by
  rw [Script.ofSource?_eq_some_iff]
  constructor
  · rintro ⟨other, listing, hcontents, hlisting⟩
    have hsource : source = other := String.toByteArray_inj.mp (Except.ok.inj hcontents)
    exact ⟨listing, hsource ▸ hlisting⟩
  · rintro ⟨listing, hlisting⟩
    exact ⟨source, listing, rfl, hlisting⟩

/-- What cannot be read as a text is reported by its path alone. -/
theorem decodeContents_of_forall_ne {contents : Except ReadFailure ByteArray} (path : String)
    (h : ∀ source : String, contents ≠ .ok source.toUTF8) :
    ∃ report, ∀ options : Options, options.path = path →
      decodeContents options contents = .failed report := by
  cases htext : contents.bind decodeText with
  | error cause =>
    refine ⟨[Report.failure "error" ("Failed to read " ++ path ++ ": " ++ cause.reason)], ?_⟩
    rintro options rfl
    simp only [decodeContents, htext]
  | ok source =>
    cases contents with
    | error failure => cases htext
    | ok bytes => exact absurd (congrArg _ ((decodeText_eq_ok_iff bytes source).mp htext)) (h source)

/-- The path, the policy and the contents decide whether anything is printed, and what is
reported beside it. -/
theorem exists_stderr (path : String) (policy : ErrorPolicy)
    (contents : Except ReadFailure ByteArray) :
    ∃ stderr, ∀ options : Options, options.path = path → options.policy = policy →
      (∀ script, Decodes policy contents script →
        decodeContents options contents =
          { stdout := Text.unlines (output options script), stderr }) ∧
      ((∀ script, ¬ Decodes policy contents script) →
        decodeContents options contents = { exitCode := 1, stderr }) := by
  by_cases htext : ∃ source : String, contents = .ok source.toUTF8
  · obtain ⟨source, rfl⟩ := htext
    simp only [decodes_toUTF8_iff, decodeContents_toUTF8]
    cases hsource : Script.ofSource? policy source with
    | none =>
      obtain ⟨report, hreport⟩ := decodeSource_of_ofSource?_eq_none hsource
      refine ⟨Text.unlines report, fun options _ hpolicy => ⟨?_, ?_⟩⟩
      · intro script hscript
        cases hscript
      · intro _
        exact hreport options hpolicy
    | some script =>
      obtain ⟨warnings, hwarnings⟩ := decodeSource_of_ofSource?_eq_some hsource
      refine ⟨Text.unlines warnings, fun options _ hpolicy => ⟨?_, ?_⟩⟩
      · rintro _ ⟨rfl⟩
        exact hwarnings options hpolicy
      · intro hnone
        exact absurd rfl (hnone script)
  · rw [not_exists] at htext
    obtain ⟨report, hreport⟩ := decodeContents_of_forall_ne path htext
    refine ⟨Text.unlines report, fun options hpath _ => ⟨?_, ?_⟩⟩
    · rintro script ⟨source, _, hcontents, -⟩
      exact absurd hcontents (htext source)
    · intro _
      exact hreport options hpath

end CommandLine

end EventScript

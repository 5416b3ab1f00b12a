import EventScript.Proofs.CommandLine.Disassembly
import EventScript.Proofs.CommandLine.Outcome
import EventScript.Proofs.CommandLine.Settings
import Mathlib.Data.String.Basic

/-!
# Switches

The switches say what is printed of a script and nothing else. Whether there is a script,
and what is reported beside it, is settled before the first of them is looked at, and
printing cannot fail: a run signals to a host that only prints, and this accepts every
directive.
-/

set_option autoImplicit false

namespace EventScript.CommandLine

variable {arguments : List String} {environment : Option String} {options : Options}

/-! ## What is printed of a script -/

/-- What is printed before a run: the data, which takes the place of the disassembly even if that
was not wanted; or else, if it was, each instruction behind its position in grey, and in grey how
many operands nothing took if there are any. -/
def bodyLines (json quiet : Bool) (script : Script) : List String :=
  if json then [script.toJson.pretty]
  else if quiet then []
  else
    (script.instructions.mapIdx fun index i =>
      "\x1b[90m" ++ Numeral.zeroPadded 4 index ++ "\x1b[39m  " ++ i.text) ++
    if script.leftover = 0 then []
    else ["\x1b[90m; " ++ Numeral.ofNat script.leftover ++
      " operand(s) left on the stack\x1b[39m"]

/-- What is printed by a run: for each battle an arrow in cyan, its encounter and its flags. -/
def runLines (run : Bool) (script : Script) : List String :=
  if run then
    script.battles.map fun b =>
      "\x1b[36m->\x1b[39m battle " ++ Numeral.ofNat b.encounter.toNat ++ " [" ++ b.flags.text ++ "]"
  else []

/-- The body is printed with these escape sequences for its colours. -/
theorem body_eq (options : Options) (script : Script) :
    body options script = bodyLines options.json options.quiet script := by
  have hinstruction : Report.disassembled = fun index i =>
      "\x1b[90m" ++ Numeral.zeroPadded 4 index ++ "\x1b[39m  " ++ i.text := by
    funext index i
    apply String.toList_inj.mp
    simp [toList_disassembled]
  have hleftover (count : Nat) : Text.coloured .brightBlack (Report.leftoverText count) =
      "\x1b[90m; " ++ Numeral.ofNat count ++ " operand(s) left on the stack\x1b[39m" := by
    apply String.toList_inj.mp
    simp [toList_coloured, Report.leftoverText]
  rw [body, Report.data, Report.disassembly, Report.leftoverNotice, hinstruction, hleftover,
    bodyLines]

/-- A run prints its lines with these escape sequences for their colours. -/
theorem battleLines_eq (script : Script) : battleLines script = runLines true script := by
  have harrow : Text.coloured .cyan "->" = "\x1b[36m->\x1b[39m" := by decide
  have hline (b : Battle) : Report.directiveLine b.directive =
      "\x1b[36m->\x1b[39m battle " ++ Numeral.ofNat b.encounter.toNat ++ " [" ++ b.flags.text ++
        "]" := by
    rw [Report.directiveLine, harrow, Battle.directive, Directive.text]
    apply String.toList_inj.mp
    simp
  simp only [battleLines, runLines, hline, if_true]

/-- What is printed of a script is its body and behind it the lines of the run. -/
theorem unlines_output (options : Options) (script : Script) :
    Text.unlines (output options script) =
      Text.unlines (bodyLines options.json options.quiet script) ++
        Text.unlines (runLines options.run script) := by
  rw [output, Text.unlines_append, body_eq, battleLines_eq]
  rfl

/-! ## The whole program -/

/-- The options are all that the program takes from its words and the environment. -/
theorem run_of_readArguments (h : readArguments arguments environment = .ok (.decode options))
    (directory : Directory) :
    run directory arguments environment =
      .ok (decodeContents options (directory.read options.path)) := by
  rw [run, h]
  rfl

/-- Whatever a file contains, the exit code and what is reported are the same under all settings
of the switches. The code is zero if the contents are a text that is a listing and decodes;
otherwise it is one, and nothing is printed. What is printed in the first case is a body, which
is the same with and without a run, and behind it the lines of the run, one for each battle. The
host on which the program runs a script refuses none of its directives, whatever has been printed
before. A switch is set if and only if a word in front of two dashes asks for it, the options are
all that the program takes from its words and the environment, and every setting can be asked for.
A policy among the words can as well come from the environment. -/
theorem switches_affect_only_stdout (path : String) (policy : ErrorPolicy) :
    (∀ contents, ∃ stderr, ∀ json run quiet,
      (∀ script, Decodes policy contents script →
        decodeContents { path, policy, json, run, quiet } contents =
          { exitCode := 0
            stdout := Text.unlines (bodyLines json quiet script) ++
              Text.unlines (runLines run script)
            stderr }) ∧
      ((∀ script, ¬ Decodes policy contents script) →
        decodeContents { path, policy, json, run, quiet } contents =
          { exitCode := 1, stdout := "", stderr })) ∧
    (∀ printed (script : Script), Execution.run Report.printing printed script.instructions =
      (.ok { executed := script.instructions.length, directives := script.battles.length },
        printed ++ runLines true script)) ∧
    (∀ arguments environment options,
      readArguments arguments environment = .ok (.decode options) →
        (options.json = true ↔
          ∃ word ∈ arguments.takeWhile (· ≠ "--"), Switch.json.GivenBy word) ∧
        (options.run = true ↔
          ∃ word ∈ arguments.takeWhile (· ≠ "--"), Switch.run.GivenBy word) ∧
        (options.quiet = true ↔
          ∃ word ∈ arguments.takeWhile (· ≠ "--"), Switch.quiet.GivenBy word) ∧
        ∀ directory, run directory arguments environment =
          .ok (decodeContents options (directory.read options.path))) ∧
    (path ≠ "" → ∀ json run quiet,
      readArguments (settingWords json run quiet ++ ["--", path]) (some policy.name) =
        .ok (.decode { path, policy, json, run, quiet })) ∧
    ∀ spelling ∈ policy.spellings, ∀ before after environment options, "--" ∉ before →
      (readArguments (before ++ (spelling ++ after)) environment = .ok (.decode options) ↔
        options.policy = policy ∧ ∀ other : ErrorPolicy,
          readArguments (before ++ after) (some other.name) =
            .ok (.decode { options with policy := other })) ∧
      (readArguments (before ++ (spelling ++ after)) environment = .ok (.decode options) →
        ∀ directory, run directory (before ++ (spelling ++ after)) environment =
          run directory (before ++ after) (some policy.name)) := by
  refine ⟨?_, ?_, ?_, fun hpath => readArguments_settingWords hpath policy, ?_⟩
  · intro contents
    obtain ⟨stderr, houtcome⟩ := exists_stderr path policy contents
    refine ⟨stderr, fun json run quiet => ?_⟩
    obtain ⟨hdecodes, hfails⟩ := houtcome { path, policy, json, run, quiet } rfl rfl
    refine ⟨fun script hscript => ?_, hfails⟩
    rw [hdecodes script hscript, unlines_output]
  · intro printed script
    rw [run_printing, battleLines_eq]
  · intro arguments environment options h
    obtain ⟨hjson, hrun, hquiet⟩ := readArguments_switches h
    exact ⟨hjson, hrun, hquiet, run_of_readArguments h⟩
  · intro spelling hspelling before after environment options hbefore
    have hinsert := readArguments_insert_iff hspelling hbefore after environment options
    refine ⟨hinsert, fun h directory => ?_⟩
    obtain ⟨rfl, hother⟩ := hinsert.mp h
    rw [run_of_readArguments h, run_of_readArguments (hother options.policy)]

/-- A battle behind one that lacks its operands, and an operand that nothing takes. -/
def shortSource : String := "battle\nPSHN_L 7\nPSHN_L 2\nBATTLE\nPSHN_L 5"

/-- What is left of it if failures are passed over. -/
def shortScript : Script where
  instructions := [.battle ⟨7, ⟨2⟩⟩]
  diagnostics := [⟨0, .stackUnderflow .battle 2 0⟩]
  leftover := 1

/-- A directory with this listing alone. -/
def shortDirectory : Directory where
  files := [("boss.lst", shortSource.toUTF8)]

/-- The path of the listing is looked up as it is. -/
theorem read_listing (directory : Directory) :
    directory.read "boss.lst" = directory.readInside ["boss.lst"] := by
  have hpath : "boss.lst".startsWith "/" = false := by simp
  rw [Directory.read, hpath, String.splitToList_of_valid]
  rfl

/-- Under the policy that passes over failures the listing decodes. -/
theorem decodes_shortDirectory : Decodes .skip (shortDirectory.read "boss.lst") shortScript := by
  have hlisting : shortDirectory.read "boss.lst" = .ok shortSource.toUTF8 := read_listing _
  have hparse : Listing.parse shortSource = .ok
      ⟨[⟨1, .operation .battle 0⟩, ⟨2, .constant 7⟩, ⟨3, .constant 2⟩,
        ⟨4, .operation .battle 0⟩, ⟨5, .constant 5⟩]⟩ := by
    decide +kernel
  exact ⟨shortSource, _, hlisting, hparse, by decide⟩

/-- Without the file there is nothing to decode. -/
theorem not_decodes_empty (script : Script) :
    ¬ Decodes .skip (Directory.read ⟨[]⟩ "boss.lst") script := by
  have hmissing : Directory.read ⟨[]⟩ "boss.lst" = .error .noSuchFile := read_listing _
  rintro ⟨source, listing, hcontents, -⟩
  rw [hmissing] at hcontents
  cases hcontents

/-- All switches at once, with letters behind one dash and the policy among the words or in the
environment; some of them; none of them; and no file at all. -/
theorem switches_affect_only_stdout_sharedDash :
    let disassembly :=
      "\x1b[90m0000\x1b[39m  BATTLE(encounter: 7, flags: Disable_victory_fanfare)\n" ++
        "\x1b[90m; 1 operand(s) left on the stack\x1b[39m\n"
    let data :=
      "\x7b\n  \"instructions\": [\n    \x7b\n      \"op\": \"battle\",\n" ++
        "      \"encounter\": 7,\n      \"flags\": \x7b\n        \"bits\": 2,\n" ++
        "        \"names\": [\n          \"Disable_victory_fanfare\"\n        ]\n" ++
        "      \x7d\n    \x7d\n  ],\n  \"diagnostics\": [\n    \x7b\n      \"index\": 0,\n" ++
        "      \"error\": \"stack underflow decoding BATTLE (0x069): " ++
        "needs 2 operand(s), 0 available\"\n    \x7d\n  ],\n  \"leftover\": 1\n\x7d\n"
    let directives := "\x1b[36m->\x1b[39m battle 7 [Disable_victory_fanfare]\n"
    let skipped := "\x1b[1m\x1b[33mskipped\x1b[39m\x1b[0m: line 1: " ++
      "stack underflow decoding BATTLE (0x069): needs 2 operand(s), 0 available\n"
    let missing := "\x1b[1m\x1b[31merror\x1b[39m\x1b[0m: \x1b[31mFailed to read boss.lst: " ++
      "No such file or directory (os error 2)\x1b[39m\n"
    run shortDirectory ["-rq", "--policy=skip", "--json", "boss.lst"] (some "never") =
      .ok { exitCode := 0, stdout := data ++ directives, stderr := skipped } ∧
    run shortDirectory ["-rq", "--json", "boss.lst"] (some "skip") =
      .ok { exitCode := 0, stdout := data ++ directives, stderr := skipped } ∧
    run shortDirectory ["--run", "boss.lst"] (some "skip") =
      .ok { exitCode := 0, stdout := disassembly ++ directives, stderr := skipped } ∧
    run shortDirectory ["-qpskip", "boss.lst"] none =
      .ok { exitCode := 0, stdout := "", stderr := skipped } ∧
    run shortDirectory ["--", "boss.lst"] (some "skip") =
      .ok { exitCode := 0, stdout := disassembly, stderr := skipped } ∧
    run ⟨[]⟩ ["-rq", "--policy=skip", "--json", "boss.lst"] (some "never") =
      .ok { exitCode := 1, stdout := "", stderr := missing } ∧
    run ⟨[]⟩ ["--", "boss.lst"] (some "skip") =
      .ok { exitCode := 1, stdout := "", stderr := missing } := by
  intro disassembly data directives skipped missing
  obtain ⟨hprinted, -, hrun, hsetting, hpolicy⟩ := switches_affect_only_stdout "boss.lst" .skip
  obtain ⟨stderr, hread⟩ := hprinted (shortDirectory.read "boss.lst")
  obtain ⟨failure, hfailure⟩ := hprinted (Directory.read ⟨[]⟩ "boss.lst")
  -- one setting shows what is reported under all of them
  have hstderr : stderr = skipped := by
    have hplain := (hread false false false).1 shortScript decodes_shortDirectory
    rw [read_listing] at hplain
    exact (congrArg Outcome.stderr hplain).symm.trans (by decide +kernel)
  have hreport : failure = missing := by
    have hplain := (hfailure false false false).2 not_decodes_empty
    rw [read_listing] at hplain
    exact (congrArg Outcome.stderr hplain).symm.trans (by decide +kernel)
  have prints (json switch quiet : Bool) (stdout : String) {words environment}
      (hwords : readArguments words environment =
        .ok (.decode { path := "boss.lst", policy := .skip, json, run := switch, quiet }))
      (hstdout : Text.unlines (bodyLines json quiet shortScript) ++
        Text.unlines (runLines switch shortScript) = stdout) :
      run shortDirectory words environment =
        .ok { exitCode := 0, stdout, stderr := skipped } := by
    rw [(hrun words environment _ hwords).2.2.2,
      (hread json switch quiet).1 _ decodes_shortDirectory, hstdout, hstderr]
  have fails (json switch quiet : Bool) {words environment}
      (hwords : readArguments words environment =
        .ok (.decode { path := "boss.lst", policy := .skip, json, run := switch, quiet })) :
      run ⟨[]⟩ words environment = .ok { exitCode := 1, stdout := "", stderr := missing } := by
    rw [(hrun words environment _ hwords).2.2.2, (hfailure json switch quiet).2 not_decodes_empty,
      hreport]
  have hshared : readArguments ["-rq", "--policy=skip", "--json", "boss.lst"] (some "never") =
      .ok (.decode { path := "boss.lst", policy := .skip, json := true, run := true,
                     quiet := true }) := by
    decide +kernel
  have hall := prints true true true (data ++ directives) hshared (by decide +kernel)
  have henvironment := (hpolicy ["--policy=skip"] (by decide) ["-rq"] ["--json", "boss.lst"] _ _
    (by decide)).2 hshared shortDirectory
  have hnone := hsetting (by decide) false false false
  refine ⟨hall, henvironment.symm.trans hall, ?_, ?_, ?_, fails true true true hshared,
    fails false false false hnone⟩
  · exact prints false true false _ (by decide +kernel) (by decide +kernel)
  · exact prints false false true _ (by decide +kernel) (by decide +kernel)
  · exact prints false false false _ hnone (by decide +kernel)

end EventScript.CommandLine

import EventScript.Proofs.CommandLine.Outcome
import EventScript.Proofs.Listing.Location
import EventScript.Proofs.Script.Ledger

/-!
# The lines that are reported

A failure is reported by the number of a line of the source. Between the two stand three
counts: the position of the token in the script, the line that the listing keeps for it,
and the line that is looked up in the source again to be quoted. They agree for every
source, so that the line with the reported number, read alone, is the token that failed.
-/

set_option autoImplicit false

namespace EventScript.CommandLine

open EventScript.Listing (HoldsToken)
open EventScript.Text (bold coloured)

variable {source : String} {listing : Listing}

/-- The notice of a failure that was passed over on a line with this number. -/
def skippedOn (diagnostic : Diagnostic) (number : Nat) : String :=
  bold (coloured .yellow "skipped") ++ ": line " ++ Numeral.ofNat number ++ ": "
    ++ diagnostic.error.message

/-! ## One failure -/

/-- A line that the source has is quoted below its number. -/
theorem location_eq {number : Nat} {raw : String}
    (hline : (Text.lines source)[number - 1]? = some raw) :
    Report.location source number =
      ["  --> line " ++ Numeral.ofNat number,
        "     |",
        coloured .brightBlack (Numeral.rightAligned 3 number ++ " | ") ++ raw,
        "     |"] := by
  rw [Report.location, hline]
  rfl

/-- The failure of a token whose line is known is reported with the number of the line and the
line itself. -/
theorem scriptError_eq {error : ScriptError} {number : Nat} {raw : String}
    (hnumber : listing.lineOf? error.index = some number)
    (hline : (Text.lines source)[number - 1]? = some raw) :
    Report.scriptError source listing error =
      [Report.failure "Decode error" error.cause.message,
        "  --> line " ++ Numeral.ofNat number,
        "     |",
        coloured .brightBlack (Numeral.rightAligned 3 number ++ " | ") ++ raw,
        "     |",
        coloured .yellow (Report.advice error.cause)] := by
  rw [Report.scriptError, hnumber, Report.located, Option.map_some, Option.getD_some,
    location_eq hline]
  rfl

/-- The notice of a token whose line is known has the number of the line. -/
theorem skipped_eq {diagnostic : Diagnostic} {number : Nat}
    (hnumber : listing.lineOf? diagnostic.index = some number) :
    Report.skipped listing diagnostic = skippedOn diagnostic number := by
  rw [Report.skipped, hnumber, Option.getD_some, skippedOn]

/-! ## Failures in order -/

/-- Tokens are on lines in their order. -/
theorem lt_of_lineOf?_eq {first second number number' : Nat}
    (hparse : Listing.parse source = .ok listing) (hlt : first < second)
    (hfirst : listing.lineOf? first = some number)
    (hsecond : listing.lineOf? second = some number') :
    number < number' := by
  obtain ⟨hlen, rfl⟩ := List.getElem?_eq_some_iff.mp hfirst
  obtain ⟨hlen', rfl⟩ := List.getElem?_eq_some_iff.mp hsecond
  exact List.pairwise_iff_getElem.mp (Listing.pairwise_lines hparse) _ _ hlen hlen' hlt

/-- Failures at positions of the listing that increase are on lines that increase. -/
theorem exists_numbers {diagnostics : List Diagnostic}
    (hparse : Listing.parse source = .ok listing)
    (hincreasing : diagnostics.Pairwise fun first second => first.index < second.index)
    (hindex : ∀ diagnostic ∈ diagnostics, diagnostic.index < listing.tokens.length) :
    ∃ numbers : List Nat, numbers.Pairwise (· < ·) ∧
      List.Forall₂ (fun diagnostic number => listing.lineOf? diagnostic.index = some number ∧
        ∃ raw token, listing.tokens[diagnostic.index]? = some token ∧
          HoldsToken source number raw token) diagnostics numbers := by
  induction diagnostics with
  | nil => exact ⟨[], .nil, .nil⟩
  | cons diagnostic rest ih =>
    obtain ⟨hbefore, hrest⟩ := List.pairwise_cons.mp hincreasing
    obtain ⟨hhead, htail⟩ := List.forall_mem_cons.mp hindex
    obtain ⟨numbers, hnumbers, hlines⟩ := ih hrest htail
    have htoken := List.getElem?_eq_getElem hhead
    obtain ⟨number, raw, hnumber, holds⟩ := Listing.exists_lineOf?_eq hparse htoken
    refine ⟨number :: numbers, List.pairwise_cons.mpr ⟨?_, hnumbers⟩,
      .cons ⟨hnumber, raw, _, htoken, holds⟩ hlines⟩
    intro other hother
    obtain ⟨position, hposition, rfl⟩ := List.getElem_of_mem hother
    have hlater : position < rest.length := by
      rwa [hlines.length_eq]
    have hline := (hlines.get hlater hposition).1
    exact lt_of_lineOf?_eq hparse (hbefore _ (List.getElem_mem hlater)) hnumber hline

/-- With the numbers of their lines known, the notices of failures are made of the two in step. -/
theorem map_skipped_eq {diagnostics : List Diagnostic} {numbers : List Nat}
    (h : List.Forall₂ (fun diagnostic number => listing.lineOf? diagnostic.index = some number)
      diagnostics numbers) :
    diagnostics.map (Report.skipped listing) = List.zipWith skippedOn diagnostics numbers := by
  induction h with
  | nil => rfl
  | cons hnumber hrest ih => rw [List.map_cons, List.zipWith_cons_cons, skipped_eq hnumber, ih]

/-! ## What is printed -/

/-- The tokens of a listing keep the numbers of their lines, in increasing order, and each of
these lines read alone is the token. What is printed of a script that fails is the number that
the listing keeps for the token that failed, and below it the line of the source with this
number, which read alone is the token; of one that is decoded it is a notice for each failure
that was passed over, in order, with the number that the listing keeps for the token, and the
line of the source with this number is the token. -/
theorem reported_lines (options : Options) (hparse : Listing.parse source = .ok listing) :
    (listing.lines.length = listing.tokens.length ∧ listing.lines.Pairwise (· < ·) ∧
      (∀ number ∈ listing.lines, 1 ≤ number ∧ number ≤ (Text.lines source).length) ∧
      ∀ index token, listing.tokens[index]? = some token →
        ∃ number raw, listing.lineOf? index = some number ∧
          HoldsToken source number raw token) ∧
    (∀ error, Script.decode options.policy listing.tokens = .error error →
      ∃ number raw, listing.lineOf? error.index = some number ∧
        HoldsToken source number raw error.token ∧
        decodeSource options source =
          { exitCode := 1
            stdout := ""
            stderr := Text.unlines
              [Report.failure "Decode error" error.cause.message,
                "  --> line " ++ Numeral.ofNat number,
                "     |",
                coloured .brightBlack (Numeral.rightAligned 3 number ++ " | ") ++ raw,
                "     |",
                coloured .yellow (Report.advice error.cause)] }) ∧
    ∀ script, Script.decode options.policy listing.tokens = .ok script →
      ∃ numbers : List Nat, numbers.Pairwise (· < ·) ∧
        List.Forall₂ (fun diagnostic number => listing.lineOf? diagnostic.index = some number ∧
          ∃ raw token, listing.tokens[diagnostic.index]? = some token ∧
            HoldsToken source number raw token)
          script.diagnostics numbers ∧
        (decodeSource options source).exitCode = 0 ∧
        (decodeSource options source).stderr =
          Text.unlines (List.zipWith skippedOn script.diagnostics numbers) := by
  refine ⟨⟨?_, Listing.pairwise_lines hparse, ?_, ?_⟩, ?_, ?_⟩
  · rw [Listing.lines, Listing.tokens, List.length_map, List.length_map]
  · intro number hnumber
    have hrange := (Listing.lines_sublist hparse).subset hnumber
    rw [List.mem_range'_1] at hrange
    omega
  · intro index token htoken
    exact Listing.exists_lineOf?_eq hparse htoken
  · intro error herror
    have htoken := Script.getElem?_index_of_decode_eq_error herror
    obtain ⟨number, raw, hnumber, holds⟩ := Listing.exists_lineOf?_eq hparse htoken
    refine ⟨number, raw, hnumber, holds, ?_⟩
    rw [decodeSource_of_error hparse herror, scriptError_eq hnumber holds.line]
    rfl
  · intro script hscript
    obtain ⟨after, run⟩ := Script.decode_eq_ok_iff.mp hscript
    have hindex : ∀ diagnostic ∈ script.diagnostics,
        diagnostic.index < listing.tokens.length := by
      intro diagnostic hmem
      have := (run.index_of_mem_diagnostics hmem).2
      omega
    obtain ⟨numbers, hincreasing, hlines⟩ := exists_numbers hparse run.pairwise_index hindex
    refine ⟨numbers, hincreasing, hlines, ?_⟩
    rw [decodeSource_of_ok hparse hscript, map_skipped_eq (hlines.imp fun _ _ h => h.1)]
    exact ⟨rfl, rfl⟩

/-- A battle and a calculation that lack operands, among comments and blank lines. -/
def troubledSource : String :=
  "# two failures\r\n\r\npshn_l 1 # kept\nBATTLE\r\n  cal add\nNOP"

/-- What the battle and the calculation are passed over for. -/
def troubledScript : Script where
  instructions := [.nop]
  diagnostics := [⟨1, .stackUnderflow .battle 2 1⟩, ⟨2, .stackUnderflow .calculate 2 1⟩]
  leftover := 1

/-- The battle without operands is reported on line four of its source under the policy that stops
at it, and passed over on that line, as the sum is on the next, under the other. -/
theorem reported_lines_troubledSource :
    ∃ listing, Listing.parse troubledSource = .ok listing ∧ listing.lines = [3, 4, 5, 6] ∧
      (listing.lineOf? 1 = some 4 ∧
        HoldsToken troubledSource 4 "BATTLE" (.operation .battle 0) ∧
        decodeSource { path := "boss.lst" } troubledSource =
          { exitCode := 1
            stdout := ""
            stderr :=
              "\x1b[1m\x1b[31mDecode error\x1b[39m\x1b[0m: \x1b[31mstack underflow decoding " ++
                "BATTLE (0x069): needs 2 operand(s), 1 available\x1b[39m\n" ++
              "  --> line 4\n" ++
              "     |\n" ++
              "\x1b[90m  4 | \x1b[39mBATTLE\n" ++
              "     |\n" ++
              "\x1b[33mHelp: this opcode pops 2 operand(s); " ++
                "check the pushes before it.\x1b[39m\n" }) ∧
      listing.lineOf? 2 = some 5 ∧
      HoldsToken troubledSource 5 "  cal add" (.calculation .add) ∧
      (decodeSource { path := "boss.lst", policy := .skip } troubledSource).exitCode = 0 ∧
      (decodeSource { path := "boss.lst", policy := .skip } troubledSource).stderr =
        "\x1b[1m\x1b[33mskipped\x1b[39m\x1b[0m: line 4: stack underflow decoding " ++
          "BATTLE (0x069): needs 2 operand(s), 1 available\n" ++
        "\x1b[1m\x1b[33mskipped\x1b[39m\x1b[0m: line 5: stack underflow decoding " ++
          "CAL (0x001): needs 2 operand(s), 1 available\n" := by
  have hparse : Listing.parse troubledSource = .ok
      ⟨[⟨3, .constant 1⟩, ⟨4, .operation .battle 0⟩, ⟨5, .calculation .add⟩,
        ⟨6, .operation .nop 0⟩]⟩ := by
    decide +kernel
  obtain ⟨-, strict, -⟩ := reported_lines { path := "boss.lst" } hparse
  obtain ⟨-, -, lenient⟩ := reported_lines { path := "boss.lst", policy := .skip } hparse
  have hbattle : (Text.lines troubledSource)[3]? = some "BATTLE" := by decide +kernel
  have hsum : (Text.lines troubledSource)[4]? = some "  cal add" := by decide +kernel
  obtain ⟨number, raw, hnumber, holds, hreport⟩ :=
    strict ⟨1, .operation .battle 0, .stackUnderflow .battle 2 1⟩ (by decide)
  obtain rfl : 4 = number := Option.some.inj hnumber
  obtain rfl : "BATTLE" = raw := Option.some.inj (hbattle.symm.trans holds.line)
  obtain ⟨numbers, -, hlines, hcode, hskipped⟩ := lenient troubledScript (by decide)
  obtain ⟨first, rest, ⟨hfirst, -⟩, hrest, rfl⟩ := List.forall₂_cons_left_iff.mp hlines
  obtain ⟨second, others, ⟨hsecond, line, token, htoken, holds'⟩, hothers, rfl⟩ :=
    List.forall₂_cons_left_iff.mp hrest
  obtain rfl := List.forall₂_nil_left_iff.mp hothers
  obtain rfl : 4 = first := Option.some.inj hfirst
  obtain rfl : 5 = second := Option.some.inj hsecond
  obtain rfl : "  cal add" = line := Option.some.inj (hsum.symm.trans holds'.line)
  obtain rfl : .calculation .add = token := Option.some.inj htoken
  exact ⟨_, hparse, rfl, ⟨hnumber, holds, hreport.trans (by decide +kernel)⟩, hsecond, holds',
    hcode, hskipped.trans (by decide +kernel)⟩

end EventScript.CommandLine

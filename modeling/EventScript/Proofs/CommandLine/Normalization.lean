import EventScript.Proofs.CommandLine.Outcome
import EventScript.Proofs.Listing.RoundTrip
import EventScript.Proofs.Script.Encoding

/-!
# Normal listings

The instructions of a script can be encoded again and written as a listing. Of the source
this keeps what it runs and nothing else: comments, numerals too large for an operand,
operands that nothing took and tokens that failed are gone. What is left reads back as the
same instructions under either policy, since no token of it can fail, and is its own normal
form.
-/

set_option autoImplicit false

namespace EventScript

/-- The listing that is written for instructions. -/
def Listing.ofInstructions (instructions : List Instruction) : String :=
  write (assemble (instructions.map .instruction))

/-- The normal form of a text that is a listing and decodes. -/
def normalize? (policy : ErrorPolicy) (source : String) : Option String :=
  (Script.ofSource? policy source).map fun script => Listing.ofInstructions script.instructions

/-! ## Reading a normal form -/

/-- No token of an encoded instruction has the opcode of an operand, so it is read back as itself.
-/
theorem Instruction.not_namesOperand_of_mem_encode {i : Instruction} {token : Token}
    (hmem : token ∈ i.encode) : ¬ token.NamesOperand := by
  rintro ⟨opcode, hopcode, parameter, rfl⟩
  cases i with
  | nop =>
    obtain ⟨rfl, -⟩ := Token.operation.inj (List.mem_singleton.mp hmem)
    exact absurd hopcode (by decide)
  | battle b =>
    simp only [encode, List.mem_cons, reduceCtorEq, List.not_mem_nil, or_false, false_or] at hmem
    obtain ⟨rfl, -⟩ := Token.operation.inj hmem
    exact absurd hopcode (by decide)

/-- No token of encoded instructions has the opcode of an operand. -/
theorem not_namesOperand_of_mem_assemble {instructions : List Instruction} {token : Token}
    (hmem : token ∈ assemble (instructions.map .instruction)) : ¬ token.NamesOperand := by
  rw [assemble, List.flatMap_map, List.mem_flatMap] at hmem
  obtain ⟨i, -, htoken⟩ := hmem
  exact Instruction.not_namesOperand_of_mem_encode htoken

/-- The listing of instructions decodes to them under either policy, and to nothing else. -/
theorem Script.ofSource?_ofInstructions (policy : ErrorPolicy) (instructions : List Instruction) :
    ofSource? policy (Listing.ofInstructions instructions) = some { instructions } := by
  obtain ⟨listing, hparse, htokens, -⟩ :=
    (Listing.parse_write_self_iff (assemble (instructions.map .instruction))).mpr
      fun _ => not_namesOperand_of_mem_assemble
  have hdecode : decode policy listing.tokens = .ok { instructions } := by
    rw [htokens]
    exact decode_eq_ok_iff.mpr ⟨.empty, run_assemble_instruction instructions⟩
  exact ofSource?_eq_some_iff.mpr ⟨listing, hparse, hdecode⟩

/-- A normal form is its own normal form, under either policy. -/
theorem normalize?_ofInstructions (policy : ErrorPolicy) (instructions : List Instruction) :
    normalize? policy (Listing.ofInstructions instructions) =
      some (Listing.ofInstructions instructions) := by
  rw [normalize?, Script.ofSource?_ofInstructions, Option.map_some]

/-! ## Printing a normal form -/

namespace CommandLine

/-- A script is disassembled as its instructions alone are, with the notice behind them. -/
theorem disassembly_eq (script : Script) :
    Report.disassembly script =
      Report.disassembly { instructions := script.instructions } ++
        Report.leftoverNotice script := by
  have hnone : Report.leftoverNotice { instructions := script.instructions } = [] := if_pos rfl
  rw [Report.disassembly, Report.disassembly, hnone, List.append_nil]

variable {policy : ErrorPolicy} {source : String} {script : Script}

/-- The program on the normal form notes no failures. -/
theorem decodeSource_ofInstructions (options : Options) (instructions : List Instruction) :
    decodeSource options (Listing.ofInstructions instructions) =
      .succeeded (output options { instructions }) [] := by
  obtain ⟨listing, hparse, hdecode⟩ := Script.ofSource?_eq_some_iff.mp
    (Script.ofSource?_ofInstructions options.policy instructions)
  exact decodeSource_of_ok hparse hdecode

/-- A source that decodes has a normal form. Under either policy the normal form decodes to
the same instructions, with no failures and no operands left, and is its own normal form. A
host that records directives is signalled the same by both. The program prints the same
directives for the file of the normal form as for that of the source, and the same
disassembly without the notice of operands that nothing took. -/
theorem normalization_preserves_runs (hscript : Script.ofSource? policy source = some script)
    (again : ErrorPolicy) (path : String) :
    ∃ normal, normalize? policy source = some normal ∧
      normal = Listing.write (assemble (script.instructions.map .instruction)) ∧
      (∃ script', Script.ofSource? again normal = some script' ∧
        script'.instructions = script.instructions ∧ script'.diagnostics = [] ∧
        script'.leftover = 0 ∧
        Execution.run Host.recording [] script'.instructions =
          Execution.run Host.recording [] script.instructions ∧
        Execution.run Host.recording [] script.instructions =
          (.ok { executed := script.instructions.length, directives := script.battles.length },
            script.battles.map Battle.directive)) ∧
      normalize? again normal = some normal ∧
      decodeContents { path, policy := again, run := true, quiet := true } (.ok normal.toUTF8) =
        { decodeContents { path, policy, run := true, quiet := true } (.ok source.toUTF8) with
          stderr := "" } ∧
      (decodeContents { path, policy } (.ok source.toUTF8)).stdout =
        (decodeContents { path, policy := again } (.ok normal.toUTF8)).stdout ++
          Text.unlines (Report.leftoverNotice script) := by
  refine ⟨Listing.ofInstructions script.instructions, ?_, rfl,
    ⟨_, Script.ofSource?_ofInstructions again script.instructions, rfl, rfl, rfl, rfl, ?_⟩,
    normalize?_ofInstructions again script.instructions, ?_, ?_⟩
  · rw [normalize?, hscript, Option.map_some]
  · exact Script.run_of_appends Host.recording_appends [] script
  · obtain ⟨warnings, hwarnings⟩ := decodeSource_of_ofSource?_eq_some hscript
    rw [decodeContents_toUTF8, decodeContents_toUTF8, decodeSource_ofInstructions,
      hwarnings { path, policy, run := true, quiet := true } rfl]
    rfl
  · obtain ⟨warnings, hwarnings⟩ := decodeSource_of_ofSource?_eq_some hscript
    rw [decodeContents_toUTF8, decodeContents_toUTF8, decodeSource_ofInstructions,
      hwarnings { path, policy } rfl]
    show Text.unlines (Report.disassembly script ++ []) =
      Text.unlines (Report.disassembly { instructions := script.instructions } ++ []) ++ _
    rw [List.append_nil, List.append_nil, disassembly_eq, Text.unlines_append]

/-- A battle of truncated constants between one without operands and a calculation that no
battle takes. -/
def clutteredSource : String :=
  "# one battle\nbattle 7\n\nPSHN_L 65537 # the first\npshn_l 0x102\n105\nPSHN_L 2\n" ++
    "PSHN_L 3\n CAL mul\nNOP"

def clutteredScript : Script where
  instructions := [.battle ⟨1, ⟨2⟩⟩, .nop]
  diagnostics := [⟨0, .stackUnderflow .battle 2 0⟩]
  leftover := 1

/-- Comments, numerals that are too large and tokens that fail are gone from the normal form of such
a source, and both run alike. -/
theorem normalization_preserves_runs_clutteredSource :
    Script.ofSource? .skip clutteredSource = some clutteredScript ∧
    ∃ normal, normal = "PSHN_L 1\nPSHN_L 2\nBATTLE 0\nNOP 0" ∧
      normalize? .skip clutteredSource = some normal ∧ normalize? .abort normal = some normal ∧
      decodeContents { path := "boss.lst", run := true, quiet := true } (.ok normal.toUTF8) =
        { decodeContents { path := "boss.lst", policy := .skip, run := true, quiet := true }
            (.ok clutteredSource.toUTF8) with stderr := "" } ∧
      (decodeContents { path := "boss.lst", policy := .skip } (.ok clutteredSource.toUTF8)).stdout =
        (decodeContents { path := "boss.lst" } (.ok normal.toUTF8)).stdout ++
          Text.unlines (Report.leftoverNotice clutteredScript) := by
  have hparse : Listing.parse clutteredSource = .ok
      ⟨[⟨2, .operation .battle 7⟩, ⟨4, .constant 65537⟩, ⟨5, .constant 258⟩,
        ⟨6, .operation .battle 0⟩, ⟨7, .constant 2⟩, ⟨8, .constant 3⟩, ⟨9, .calculation .mul⟩,
        ⟨10, .operation .nop 0⟩]⟩ := by
    decide +kernel
  have hscript := Script.ofSource?_eq_some_iff.mpr
    ⟨_, hparse, (by decide : Script.decode .skip _ = .ok clutteredScript)⟩
  obtain ⟨normal, hnormal, rfl, -, hagain, hrun, hdisassembly⟩ :=
    normalization_preserves_runs hscript .abort "boss.lst"
  exact ⟨hscript, _, by decide +kernel, hnormal, hagain, hrun, hdisassembly⟩

end CommandLine

end EventScript

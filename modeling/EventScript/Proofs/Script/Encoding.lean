import EventScript.Proofs.Preliminaries
import EventScript.Proofs.Script.Run

/-!
# Encoded instructions inside a script

An instruction is encoded by the constants that it takes and its opcode. Decoding
the code takes from the stack exactly what the code itself pushed, so whatever
waited there before waits there afterwards. Code can therefore stand anywhere in a
script: it adds its instructions, and the tokens around it decode as if it were not
there, only that those behind it have moved.
-/

set_option autoImplicit false

namespace EventScript

/-! ## One instruction -/

/-- The constants that encode a battle are small enough to keep their values. -/
theorem Battle.ofConstants_encode (b : Battle) :
    ofConstants (Int32.ofNat b.encounter.toNat) (Int32.ofNat b.flags.bits.toNat) = b := by
  have hencounter := b.encounter.toNat_lt
  have hflags := b.flags.bits.toNat_lt
  rw [ofConstants, Int32.toInt_ofNat_of_lt (by omega), Int32.toInt_ofNat_of_lt (by omega),
    uint16_wraps.ofInt_toNat, uint8_wraps.ofInt_toNat]

/-- The opcode of a battle takes two constants from the top of the stack, whatever its
parameter. -/
theorem Token.runOn_decode_battle (parameter flags encounter : Int32)
    (rest : List Expression) :
    (operation .battle parameter).decode.runOn ⟨.constant flags :: .constant encounter :: rest⟩ =
      (.ok (some (.battle (.ofConstants encounter flags))), ⟨rest⟩) := rfl

namespace Script

variable {policy : ErrorPolicy} {index : Nat} {stack after : OperandStack}
  {rest : List Token} {script : Script}

/-- The code of an instruction leaves the stack as it was. -/
theorem Run.encode_append (i : Instruction)
    (run : Run policy (index + i.encode.length) stack rest script after) :
    Run policy index stack (i.encode ++ rest) (script.consInstruction i) after := by
  cases i with
  | nop => exact .instruction rfl run
  | battle b =>
    refine .operand rfl (.operand rfl (.instruction ?_ run))
    change (Token.operation .battle 0).decode.runOn
      ⟨.constant (Int32.ofNat b.flags.bits.toNat) ::
        .constant (Int32.ofNat b.encounter.toNat) :: stack.topFirst⟩ = _
    rw [Token.runOn_decode_battle, Battle.ofConstants_encode]

/-- The code of instructions decodes to these from any stack, and leaves that stack. -/
theorem run_assemble_instruction (instructions : List Instruction) :
    Run policy index stack (assemble (instructions.map .instruction))
      { instructions, leftover := stack.size } stack := by
  induction instructions generalizing index with
  | nil => exact .nil index stack
  | cons i instructions ih => exact Run.encode_append i ih

end Script

/-! ## Insertion -/

/-- Moves a failure by `count` tokens if it is at `position` or behind. -/
def Diagnostic.makeRoom (position count : Nat) (diagnostic : Diagnostic) : Diagnostic :=
  if position ≤ diagnostic.index then diagnostic.shift count else diagnostic

namespace Script

variable {policy : ErrorPolicy} {stack next : OperandStack} {before after : List Token}
  {head tail : Script} {error : ScriptError}

/-- Making room behind a run moves no failure of it. -/
theorem Run.map_makeRoom_eq_self (run : Run policy 0 stack before head next) (count : Nat) :
    head.diagnostics.map (Diagnostic.makeRoom before.length count) = head.diagnostics := by
  have hself : ∀ diagnostic ∈ head.diagnostics,
      Diagnostic.makeRoom before.length count diagnostic = diagnostic := by
    intro diagnostic hmem
    have hindex := run.index_of_mem_diagnostics hmem
    exact if_neg (by omega)
  rw [List.map_congr_left hself, List.map_id']

/-- Making room before a run moves every failure of it. -/
theorem Run.map_makeRoom_eq_shift {position : Nat}
    (run : Run policy position stack after tail next) (count : Nat) :
    tail.diagnostics.map (Diagnostic.makeRoom position count) =
      tail.diagnostics.map (Diagnostic.shift count) := by
  apply List.map_congr_left
  intro diagnostic hmem
  exact if_pos (run.index_of_mem_diagnostics hmem).1

/-- Tokens behind inserted code decode as they do behind what stands before it, only
further on. -/
theorem decode_insert (run : Run policy 0 .empty before head next)
    (inserted : List Instruction) (after : List Token) :
    decode policy (before ++ assemble (inserted.map .instruction) ++ after) =
      match (decodeFrom policy before.length next after).1 with
      | .error error => .error (error.shift (assemble (inserted.map .instruction)).length)
      | .ok tail =>
        .ok ((head.append { instructions := inserted, leftover := next.size }).append
          (tail.shift (assemble (inserted.map .instruction)).length)) := by
  have hbefore : decodeFrom policy 0 .empty
      (before ++ assemble (inserted.map .instruction)) =
        (.ok (head.append { instructions := inserted, leftover := next.size }), next) := by
    have hcode : decodeFrom policy (0 + before.length) next
        (assemble (inserted.map .instruction)) = _ :=
      decodeFrom_eq_ok_iff.mpr (run_assemble_instruction inserted)
    rw [decodeFrom_append_of_ok (decodeFrom_eq_ok_iff.mpr run), hcode]
    rfl
  unfold decode
  rw [decodeFrom_append_of_ok hbefore, List.length_append, Nat.zero_add, decodeFrom_add]
  rcases decodeFrom policy before.length next after with ⟨_ | tail, last⟩ <;> rfl

/-- Instructions that are encoded anywhere in a script are decoded there, and change
nothing else. A script that fails before them fails as it did; one that fails behind
them fails at the same token, which has moved; and from any other they are decoded in
their place, while its failures keep their errors and those behind the code move with
their tokens. -/
theorem decode_insert_encoded (policy : ErrorPolicy) (before after : List Token)
    (inserted : List Instruction) :
    let code := assemble (inserted.map .instruction)
    (∀ error, decode policy before = .error error →
      decode policy (before ++ code ++ after) = .error error) ∧
    (∀ head error, decode policy before = .ok head →
      decode policy (before ++ after) = .error error →
      decode policy (before ++ code ++ after) = .error (error.shift code.length)) ∧
    (∀ head whole, decode policy before = .ok head →
      decode policy (before ++ after) = .ok whole →
      ∃ rest, whole.instructions = head.instructions ++ rest ∧
        decode policy (before ++ code ++ after) = .ok
          { instructions := head.instructions ++ inserted ++ rest
            diagnostics := whole.diagnostics.map
              (Diagnostic.makeRoom before.length code.length)
            leftover := whole.leftover }) ∧
    decode policy code = .ok { instructions := inserted } := by
  intro code
  refine ⟨?_, ?_, ?_, ?_⟩
  · intro error herror
    obtain ⟨first, rest, script, next, last, rfl, h⟩ := decode_eq_error_iff.mp herror
    rw [List.append_assoc, List.append_assoc, List.cons_append]
    exact decode_eq_error_iff.mpr ⟨first, _, script, next, last, rfl, h⟩
  · intro head error hhead herror
    obtain ⟨next, run⟩ := decode_eq_ok_iff.mp hhead
    have hwhole : decode policy (before ++ after) = _ :=
      congrArg Prod.fst (decodeFrom_append_of_ok (decodeFrom_eq_ok_iff.mpr run) after)
    rw [hwhole, Nat.zero_add] at herror
    rw [decode_insert run]
    cases htail : (decodeFrom policy before.length next after).1 with
    | error failure =>
      rw [htail] at herror
      cases herror
      rfl
    | ok tail =>
      rw [htail] at herror
      cases herror
  · intro head whole hhead hwhole
    obtain ⟨next, run⟩ := decode_eq_ok_iff.mp hhead
    have happend : decode policy (before ++ after) = _ :=
      congrArg Prod.fst (decodeFrom_append_of_ok (decodeFrom_eq_ok_iff.mpr run) after)
    rw [happend, Nat.zero_add] at hwhole
    rw [decode_insert run]
    rcases htail : decodeFrom policy before.length next after with ⟨failure | tail, last⟩
    · rw [htail] at hwhole
      cases hwhole
    · rw [htail] at hwhole
      cases hwhole
      refine ⟨tail.instructions, rfl, ?_⟩
      have htailRun := decodeFrom_eq_ok_iff.mp htail
      simp only [append, shift, List.map_append, run.map_makeRoom_eq_self,
        htailRun.map_makeRoom_eq_shift, List.append_nil]
      rfl
  · exact decode_eq_ok_iff.mpr ⟨.empty, run_assemble_instruction inserted⟩

end Script

end EventScript

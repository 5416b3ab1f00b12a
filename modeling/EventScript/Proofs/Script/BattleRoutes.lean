import EventScript.Proofs.Preliminaries
import EventScript.Proofs.Script.Feeding

/-!
# Routes to a battle

A battle is decoded by itself, through the table, or by a decoder that is fed its opcode. Each
route asks again for enough operands, and it makes no difference: all of them give the same battle
or fail with the same error, and leave the same stack. The battle is told by the remainders of two
constants.
-/

set_option autoImplicit false

namespace EventScript

variable {stack next : OperandStack} {battle : Battle}

/-- The table's decoder of a battle seen from a token, which gives an instruction or none. -/
theorem Token.runOn_decode_operation_battle (parameter : Int32) (stack : OperandStack) :
    (operation .battle parameter).decode.runOn stack =
      ((Battle.decode.runOn stack).1.map fun battle => some (.battle battle),
        (Battle.decode.runOn stack).2) := by
  rw [runOn_decode_operation, OpcodeTable.runOn_decode_battle]
  cases (Battle.decode.runOn stack).1 <;> rfl

namespace Battle

variable {flags encounter : Int32}

/-- A battle is made from the constants of which its numbers are the remainders, and from no
others. -/
theorem ofConstants_eq_iff : ofConstants encounter flags = battle ↔
    (battle.encounter.toNat : Int) = encounter.toInt % 0x10000 ∧
      (battle.flags.bits.toNat : Int) = flags.toInt % 0x100 := by
  obtain ⟨number, ⟨bits⟩⟩ := battle
  rw [ofConstants, mk.injEq, BattleFlags.mk.injEq, uint16_wraps.ofInt_eq_iff,
    uint8_wraps.ofInt_eq_iff]

/-- A battle is decoded exactly from two constants on top, which are taken. -/
theorem runOn_decode_eq_ok_iff : decode.runOn stack = (.ok battle, next) ↔
    ∃ flags encounter, stack.topFirst = .constant flags :: .constant encounter :: next.topFirst ∧
      ofConstants encounter flags = battle := by
  constructor
  · intro h
    -- the steps of the opcode are known, and any parameter will do
    have step : (Token.operation .battle 0).Step stack (.ok (some (.battle battle))) next := by
      rw [Token.step_iff, Token.runOn_decode_operation_battle, h]
      rfl
    cases step with
    | battle parameter encounter flags rest => exact ⟨flags, encounter, rfl, rfl⟩
  · rintro ⟨flags, encounter, hstack, rfl⟩
    obtain ⟨operands⟩ := stack
    obtain rfl : operands = .constant flags :: .constant encounter :: next.topFirst := hstack
    exact runOn_decode_constants flags encounter next.topFirst

/-- All routes to a battle agree on what they give and on the stack that they leave. They succeed
exactly if two constants are on top, which they take; the numbers of the battle are the remainders
of these, so the constants that decode to a battle are those that are congruent to its numbers. -/
theorem routes_agree (stack : OperandStack) :
    (∀ parameter, (OpcodeTable.decode .battle parameter).runOn stack =
      ((decode.runOn stack).1.map .battle, (decode.runOn stack).2)) ∧
    (∀ policy parameter, (⟨policy, stack⟩ : Decoder).feed (.operation .battle parameter) =
      ((decode.runOn stack).1.map fun battle => some (.battle battle),
        ⟨policy, (decode.runOn stack).2⟩)) ∧
    ((∃ battle, (decode.runOn stack).1 = .ok battle) ↔
      ∃ flags encounter below,
        stack.topFirst = .constant flags :: .constant encounter :: below) ∧
    (∀ battle next, decode.runOn stack = (.ok battle, next) ↔
      ∃ flags encounter,
        stack.topFirst = .constant flags :: .constant encounter :: next.topFirst ∧
        (battle.encounter.toNat : Int) = encounter.toInt % 0x10000 ∧
        (battle.flags.bits.toNat : Int) = flags.toInt % 0x100) ∧
    ∀ (number : UInt16) (bits : UInt8) (flags encounter : Int32) (below : List Expression),
      (decode.runOn ⟨.constant flags :: .constant encounter :: below⟩).1 =
          .ok ⟨number, ⟨bits⟩⟩ ↔
        encounter.toInt ≡ number.toNat [ZMOD 0x10000] ∧
          flags.toInt ≡ bits.toNat [ZMOD 0x100] := by
  refine ⟨fun parameter => OpcodeTable.runOn_decode_battle parameter stack, ?_, ?_, ?_, ?_⟩
  · intro policy parameter
    rw [Decoder.feed, Token.runOn_decode_operation_battle]
  · constructor
    · rintro ⟨battle, hbattle⟩
      obtain ⟨flags, encounter, hstack, -⟩ := runOn_decode_eq_ok_iff.mp (Prod.ext hbattle rfl)
      exact ⟨flags, encounter, _, hstack⟩
    · rintro ⟨flags, encounter, below, hstack⟩
      have h : decode.runOn stack = (.ok (ofConstants encounter flags), ⟨below⟩) :=
        runOn_decode_eq_ok_iff.mpr ⟨flags, encounter, hstack, rfl⟩
      exact ⟨_, congrArg Prod.fst h⟩
  · intro battle next
    simp only [runOn_decode_eq_ok_iff, ofConstants_eq_iff]
  · intro number bits flags encounter below
    rw [runOn_decode_constants, Except.ok.injEq, ofConstants_eq_iff]
    exact and_congr uint16_wraps.toNat_eq_emod_iff uint8_wraps.toNat_eq_emod_iff

end Battle

end EventScript

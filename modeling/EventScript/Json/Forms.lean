import EventScript.Json.Basic
import EventScript.Script.Basic

/-!
# The JSON forms of values

Each value that leaves the library as data has one form: what it is, and fields in
the order of their declaration. Battle flags are given both as a byte and by name,
and a failure that was passed over by its wording.
-/

set_option autoImplicit false

namespace EventScript

/-- Battle flags as data. -/
def BattleFlags.toJson (flags : BattleFlags) : Json :=
  .object [("bits", .ofNat flags.bits.toNat), ("names", .ofStrings flags.names)]

/-- The fields of a battle as data. -/
def Battle.jsonFields (battle : Battle) : List (String × Json) :=
  [("encounter", .ofNat battle.encounter.toNat), ("flags", battle.flags.toJson)]

/-- A battle as data. -/
def Battle.toJson (battle : Battle) : Json := .object battle.jsonFields

/-- An instruction as data, tagged with its operation. -/
def Instruction.toJson : Instruction → Json
  | nop => .object [("op", .string "nop")]
  | battle b => .object (("op", .string "battle") :: b.jsonFields)

/-- A variable as data. -/
def Variable.toJson (v : Variable) : Json :=
  .object [("kind", .string v.kind.name), ("address", .ofNat v.address.toNat)]

/-- An expression as data, tagged with its sort; a unary calculation has no
right-hand operand. -/
def Expression.toJson : Expression → Json
  | constant value =>
    .object [("kind", .string "const"), ("value", .number value.toInt)]
  | memory v => .object [("kind", .string "variable"), ("value", v.toJson)]
  | unary op operand =>
    .object [("kind", .string "computed"), ("value", .object
      [("op", .string op.name), ("lhs", operand.toJson), ("rhs", .null)])]
  | binary op left right =>
    .object [("kind", .string "computed"), ("value", .object
      [("op", .string op.name), ("lhs", left.toJson), ("rhs", right.toJson)])]

/-- A failure that was passed over, as data. -/
def Diagnostic.toJson (diagnostic : Diagnostic) : Json :=
  .object [("index", .ofNat diagnostic.index), ("error", .string diagnostic.error.message)]

/-- A decoded script as data. -/
def Script.toJson (script : Script) : Json :=
  .object [("instructions", .array (script.instructions.map Instruction.toJson)),
    ("diagnostics", .array (script.diagnostics.map Diagnostic.toJson)),
    ("leftover", .ofNat script.leftover)]

end EventScript

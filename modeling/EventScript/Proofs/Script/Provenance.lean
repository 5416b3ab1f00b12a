import EventScript.Proofs.Preliminaries
import EventScript.Proofs.Script.Step
import Mathlib.Data.List.Forall2
import Mathlib.Data.List.Nodup

/-!
# Where the operands of a battle come from

A decoded battle holds two numbers and nothing of the tokens that pushed them. That
every number was pushed by a constant of its own is therefore shown with a second stack
beside the operand stack, which holds for each operand the position of the token that
placed it. A position is always greater than those below it. The positions of a battle
are the two on top, so what stays on the stack lies before them, and what is placed
later lies behind the battle: no constant is used twice, and the uses nest.
-/

set_option autoImplicit false

namespace EventScript

namespace Script

/-- The token at position `index` decodes to `i`: up to there the script has this
instruction more than before. -/
def DecodesAt (policy : ErrorPolicy) (tokens : List Token) (index : Nat)
    (i : Instruction) : Prop :=
  ∃ before upTo, decode policy (tokens.take index) = .ok before ∧
    decode policy (tokens.take (index + 1)) = .ok upTo ∧
    upTo.instructions = before.instructions ++ [i]

/-- What a token decodes to does not depend on the tokens behind it. -/
theorem DecodesAt.append {policy : ErrorPolicy} {tokens : List Token} {index : Nat}
    {i : Instruction} (h : DecodesAt policy tokens index i) (hindex : index < tokens.length)
    (more : List Token) : DecodesAt policy (tokens ++ more) index i := by
  obtain ⟨before, upTo, hbefore, hupTo, hlast⟩ := h
  refine ⟨before, upTo, ?_, ?_, hlast⟩
  · rwa [List.take_append_of_le_length (by omega)]
  · rwa [List.take_append_of_le_length (by omega)]

/-- The last token of a run that gives an instruction decodes to it at its position. -/
theorem Run.decodesAt {policy : ErrorPolicy} {tokens : List Token} {head : Script}
    {stack next : OperandStack} {token : Token} {i : Instruction}
    (run : Run policy 0 .empty tokens head stack) (step : token.Step stack (.ok (some i)) next) :
    DecodesAt policy (tokens ++ [token]) tokens.length i := by
  have hrun := run.concat step nofun
  refine ⟨head, head.append (single (0 + tokens.length) next (.ok (some i))), ?_, ?_, rfl⟩
  · rw [List.take_left]
    exact decode_eq_ok_iff.mpr ⟨stack, run⟩
  · rw [List.take_of_length_le (by simp)]
    exact decode_eq_ok_iff.mpr ⟨next, hrun⟩

end Script

/-! ## Origins of battles -/

/-- The positions of the three tokens that a battle comes from: the constant of the
encounter, the constant of the flags and the opcode. -/
structure BattleOrigin where
  encounter : Nat
  flags : Nat
  opcode : Nat
  encounter_lt_flags : encounter < flags
  flags_lt_opcode : flags < opcode

namespace BattleOrigin

/-- The positions of the two constants. -/
def operands (origin : BattleOrigin) : List Nat := [origin.encounter, origin.flags]

/-- The token at the last position decodes to `b`, and those at the first two push the
constants of which the encounter and the flags of `b` are the remainders. -/
structure Yields (policy : ErrorPolicy) (tokens : List Token) (origin : BattleOrigin)
    (b : Battle) : Prop where
  encounter : ∃ value : Int32, tokens[origin.encounter]? = some (.constant value) ∧
    (b.encounter.toNat : Int) = value.toInt % 0x10000
  flags : ∃ value : Int32, tokens[origin.flags]? = some (.constant value) ∧
    (b.flags.bits.toNat : Int) = value.toInt % 0x100
  opcode : ∃ parameter, tokens[origin.opcode]? = some (.operation .battle parameter)
  decodes : Script.DecodesAt policy tokens origin.opcode (.battle b)

/-- A position is before all three tokens of a battle, or behind them. -/
def Spares (origin : BattleOrigin) (position : Nat) : Prop :=
  position < origin.encounter ∨ origin.opcode < position

/-- One battle is decoded before another, and the constants of the other are not between
its own tokens. -/
structure Before (first second : BattleOrigin) : Prop where
  opcode_lt : first.opcode < second.opcode
  encounter : first.Spares second.encounter
  flags : first.Spares second.flags

variable {policy : ErrorPolicy} {tokens : List Token} {origin : BattleOrigin} {b : Battle}

/-- The opcode of an origin is one of the tokens. -/
theorem Yields.opcode_lt_length (h : origin.Yields policy tokens b) :
    origin.opcode < tokens.length := by
  obtain ⟨parameter, hopcode⟩ := h.opcode
  exact (List.getElem?_eq_some_iff.mp hopcode).1

/-- An origin stays one when more tokens follow. -/
theorem Yields.append (h : origin.Yields policy tokens b) (more : List Token) :
    origin.Yields policy (tokens ++ more) b := by
  have hopcode := h.opcode_lt_length
  have hflags := origin.flags_lt_opcode
  have hencounter := origin.encounter_lt_flags
  refine ⟨?_, ?_, ?_, h.decodes.append hopcode more⟩
  · rw [List.getElem?_append_left (by omega)]
    exact h.encounter
  · rw [List.getElem?_append_left (by omega)]
    exact h.flags
  · rw [List.getElem?_append_left hopcode]
    exact h.opcode

/-- Battles of which each comes before the next use no constant twice. -/
theorem nodup_operands {origins : List BattleOrigin} (hbefore : origins.Pairwise Before) :
    (origins.flatMap operands).Nodup := by
  apply List.nodup_flatMap.mpr
  refine ⟨?_, hbefore.imp ?_⟩
  · intro origin _
    have := origin.encounter_lt_flags
    simp only [operands, List.nodup_cons, List.mem_singleton, List.not_mem_nil, not_false_eq_true,
      List.nodup_nil, and_true]
    omega
  · intro first second h position hfirst hsecond
    have hflags := first.encounter_lt_flags
    have hopcode := first.flags_lt_opcode
    -- the positions of `first` are between its own tokens, those of `second` are not
    have hspares : first.Spares position := by
      rcases List.mem_pair.mp hsecond with rfl | rfl
      · exact h.encounter
      · exact h.flags
    rcases List.mem_pair.mp hfirst with rfl | rfl <;> rcases hspares with hlt | hlt <;> omega

end BattleOrigin

/-! ## Positions of waiting operands -/

/-- `positions` are those of the tokens that placed the operands on the stack, the
topmost first. -/
structure OperandStack.Placed (tokens : List Token) (stack : OperandStack)
    (positions : List Nat) : Prop where
  descending : (tokens.length :: positions).Pairwise (· > ·)
  constants : List.Forall₂ (fun operand position => ∀ value, operand = .constant value →
    tokens[position]? = some (.constant value)) stack.topFirst positions

namespace OperandStack.Placed

variable {tokens : List Token} {stack : OperandStack} {positions : List Nat}
  {operand : Expression} {rest : List Expression}

/-- Nothing has placed the operands of the empty stack. -/
theorem empty : Placed [] .empty [] := ⟨by simp, .nil⟩

/-- Operands are placed by tokens that there are. -/
theorem lt_length (placed : Placed tokens stack positions) {position : Nat}
    (h : position ∈ positions) : position < tokens.length :=
  (List.pairwise_cons.mp placed.descending).1 position h

/-- What placed the operands stays when a token follows that does not touch them. -/
theorem concat (placed : Placed tokens stack positions) (token : Token) :
    Placed (tokens ++ [token]) stack positions := by
  obtain ⟨hlt, hpositions⟩ := List.pairwise_cons.mp placed.descending
  refine ⟨List.pairwise_cons.mpr ⟨?_, hpositions⟩, ?_⟩
  · intro position hmem
    have := hlt position hmem
    simp only [List.length_append, List.length_singleton]
    omega
  · refine placed.constants.imp ?_
    intro operand position h value hvalue
    have hsome := h value hvalue
    have hlen := (List.getElem?_eq_some_iff.mp hsome).1
    rwa [List.getElem?_append_left hlen]

/-- A token that pushes an operand is the last that placed one. -/
theorem push (placed : Placed tokens stack positions) {token : Token}
    (htoken : ∀ value, operand = .constant value → token = .constant value) :
    Placed (tokens ++ [token]) (stack.push operand) (tokens.length :: positions) := by
  refine ⟨List.pairwise_cons.mpr ⟨?_, placed.descending⟩, .cons ?_ (placed.concat token).constants⟩
  · intro position hmem
    simp only [List.length_append, List.length_singleton]
    rcases List.mem_cons.mp hmem with rfl | hmem
    · omega
    · have := placed.lt_length hmem
      omega
  · intro value hvalue
    rw [List.getElem?_concat_length, htoken value hvalue]

/-- The operand on top was placed last, and a constant by the token of its value. -/
theorem pop (placed : Placed tokens ⟨operand :: rest⟩ positions) :
    ∃ position below, positions = position :: below ∧ Placed tokens ⟨rest⟩ below ∧
      position < tokens.length ∧ (∀ lower ∈ below, lower < position) ∧
      ∀ value, operand = .constant value → tokens[position]? = some (.constant value) := by
  obtain ⟨position, below, htop, hbelow, rfl⟩ := List.forall₂_cons_left_iff.mp placed.constants
  obtain ⟨hlt, hpositions⟩ := List.pairwise_cons.mp placed.descending
  obtain ⟨hposition, hdescending⟩ := List.pairwise_cons.mp hpositions
  refine ⟨position, below, rfl, ⟨List.pairwise_cons.mpr ⟨?_, hdescending⟩, hbelow⟩,
    hlt position List.mem_cons_self, hposition, htop⟩
  intro lower hmem
  exact hlt lower (List.mem_cons_of_mem position hmem)

/-- What is below operands that are taken was placed by some of the same tokens. -/
theorem drop {taken : List Expression} (placed : Placed tokens ⟨taken ++ rest⟩ positions) :
    ∃ below, below ⊆ positions ∧ Placed tokens ⟨rest⟩ below := by
  induction taken generalizing positions with
  | nil => exact ⟨positions, List.Subset.refl positions, placed⟩
  | cons operand taken ih =>
    obtain ⟨position, lower, rfl, placedLower, -⟩ := placed.pop
    obtain ⟨below, hsubset, placedRest⟩ := ih placedLower
    exact ⟨below, List.subset_cons_of_subset position hsubset, placedRest⟩

/-- A step leaves operands at positions where they were, and places others at its own. -/
theorem step (placed : Placed tokens stack positions) {token : Token}
    {outcome : Except DecodeError (Option Instruction)} {next : OperandStack}
    (step : token.Step stack outcome next) :
    ∃ positions', Placed (tokens ++ [token]) next positions' ∧
      ∀ position ∈ positions', position ∈ positions ∨ position = tokens.length := by
  obtain ⟨taken, rest, rfl, -, hnext⟩ := step.frame
  obtain ⟨below, hsubset, placedRest⟩ := placed.drop
  rcases hnext with rfl | ⟨operand, rfl, hconstant⟩
  · refine ⟨below, placedRest.concat token, ?_⟩
    intro position hmem
    exact .inl (hsubset hmem)
  · refine ⟨tokens.length :: below, placedRest.push hconstant, ?_⟩
    intro position hmem
    rcases List.mem_cons.mp hmem with rfl | hmem
    · exact .inr rfl
    · exact .inl (hsubset hmem)

end OperandStack.Placed

/-! ## Runs -/

namespace Script

/-- Every battle so far has an origin, and every position on the stack is spared by all
of them. -/
structure Accounted (policy : ErrorPolicy) (tokens : List Token) (script : Script)
    (stack : OperandStack) (positions : List Nat) (origins : List BattleOrigin) : Prop where
  placed : stack.Placed tokens positions
  yields : List.Forall₂ (BattleOrigin.Yields policy tokens) origins script.battles
  before : origins.Pairwise BattleOrigin.Before
  spared : ∀ origin ∈ origins, ∀ position ∈ positions, origin.Spares position

namespace Accounted

variable {policy : ErrorPolicy} {tokens : List Token} {script : Script} {stack : OperandStack}
  {positions : List Nat} {origins : List BattleOrigin}

/-- Before the first token there is nothing to account for. -/
theorem empty : Accounted policy [] {} .empty [] [] :=
  ⟨.empty, .nil, .nil, by simp⟩

/-- The opcode of every origin is one of the tokens. -/
theorem opcode_lt_length (accounted : Accounted policy tokens script stack positions origins)
    {origin : BattleOrigin} (h : origin ∈ origins) : origin.opcode < tokens.length := by
  obtain ⟨number, hnumber, rfl⟩ := List.getElem_of_mem h
  have hbattle : number < script.battles.length := by
    rwa [← accounted.yields.length_eq]
  exact (accounted.yields.get hnumber hbattle).opcode_lt_length

/-- A step that begins no battle keeps the account. -/
theorem step (accounted : Accounted policy tokens script stack positions origins)
    {token : Token} {outcome : Except DecodeError (Option Instruction)} {next : OperandStack}
    (step : token.Step stack outcome next)
    (hnone : (single tokens.length next outcome).battles = []) :
    ∃ positions' origins', Accounted policy (tokens ++ [token])
      (script.append (single tokens.length next outcome)) next positions' origins' := by
  obtain ⟨positions', placed, hpositions⟩ := accounted.placed.step step
  refine ⟨positions', origins, placed, ?_, accounted.before, ?_⟩
  · rw [battles_append, hnone, List.append_nil]
    exact accounted.yields.imp fun origin b h => h.append [token]
  · intro origin horigin position hposition
    rcases hpositions position hposition with hmem | rfl
    · exact accounted.spared origin horigin position hmem
    · exact .inr (accounted.opcode_lt_length horigin)

/-- A battle takes the two topmost positions, and all that remain are before these. -/
theorem battle {parameter encounter flags : Int32} {rest : List Expression}
    (accounted : Accounted policy tokens script
      ⟨.constant flags :: .constant encounter :: rest⟩ positions origins)
    (decodes : DecodesAt policy (tokens ++ [.operation .battle parameter]) tokens.length
      (.battle (.ofConstants encounter flags))) :
    ∃ positions' origins', Accounted policy (tokens ++ [.operation .battle parameter])
      (script.append (single tokens.length ⟨rest⟩
        (.ok (some (.battle (.ofConstants encounter flags)))))) ⟨rest⟩ positions' origins' := by
  obtain ⟨k, _, rfl, placedEncounter, hk, hbelow, hflags⟩ := accounted.placed.pop
  obtain ⟨j, below, rfl, placedRest, hj, hlower, hencounter⟩ := placedEncounter.pop
  -- what was on top was placed last
  have hjk : j < k := hbelow j List.mem_cons_self
  let origin : BattleOrigin := ⟨j, k, tokens.length, hjk, hk⟩
  have hyields : origin.Yields policy (tokens ++ [.operation .battle parameter])
      (.ofConstants encounter flags) := by
    refine ⟨⟨encounter, ?_, uint16_wraps.toNat_ofInt _⟩,
      ⟨flags, ?_, uint8_wraps.toNat_ofInt _⟩, ⟨parameter, List.getElem?_concat_length⟩, decodes⟩
    · rw [List.getElem?_append_left hj]
      exact hencounter encounter rfl
    · rw [List.getElem?_append_left hk]
      exact hflags flags rfl
  refine ⟨below, origins ++ [origin], placedRest.concat _, ?_, ?_, ?_⟩
  · rw [battles_append]
    exact List.rel_append (accounted.yields.imp fun origin b h => h.append _)
      (.cons hyields .nil)
  · refine List.pairwise_append.mpr ⟨accounted.before, List.pairwise_singleton _ _, ?_⟩
    intro first hfirst second hsecond
    obtain rfl := List.mem_singleton.mp hsecond
    exact ⟨accounted.opcode_lt_length hfirst, accounted.spared first hfirst j (by simp),
      accounted.spared first hfirst k (by simp)⟩
  · intro other hother position hposition
    rcases List.mem_append.mp hother with hmem | hmem
    · exact accounted.spared other hmem position (by simp [hposition])
    · obtain rfl := List.mem_singleton.mp hmem
      exact .inl (hlower position hposition)

end Accounted

/-- Every run accounts for its battles and its stack; the induction is on the tokens from the first
to the last, and its invariant is that no position on the stack belongs to an origin. -/
theorem Run.exists_accounted {policy : ErrorPolicy} {tokens : List Token} {script : Script}
    {after : OperandStack} (run : Run policy 0 .empty tokens script after) :
    ∃ positions origins, Accounted policy tokens script after positions origins := by
  refine run.induction_on_last ⟨[], [], .empty⟩ ?_
  intro before head stack token outcome next run ⟨positions, origins, accounted⟩ step passes
  rcases outcome with cause | (_ | (_ | b))
  · exact accounted.step step rfl
  · exact accounted.step step rfl
  · exact accounted.step step rfl
  · have decodes := run.decodesAt step
    cases step with
    | battle parameter encounter flags rest => exact accounted.battle decodes

/-- Every battle of a decoded script was decoded by an opcode of its own from constants
pushed before it, its encounter being the remainder of the first by 2¹⁶ and its flags that
of the second by 2⁸. No constant is used twice, and the constants of a later battle lie
before those of an earlier one or behind its opcode. -/
theorem exists_battleOrigins {policy : ErrorPolicy} {tokens : List Token} {script : Script}
    (h : decode policy tokens = .ok script) :
    ∃ origins : List BattleOrigin,
      List.Forall₂ (BattleOrigin.Yields policy tokens) origins script.battles ∧
      origins.Pairwise BattleOrigin.Before ∧
      (origins.flatMap BattleOrigin.operands).Nodup := by
  obtain ⟨after, run⟩ := decode_eq_ok_iff.mp h
  obtain ⟨positions, origins, accounted⟩ := run.exists_accounted
  exact ⟨origins, accounted.yields, accounted.before,
    BattleOrigin.nodup_operands accounted.before⟩

/-- A battle that fails costs an operand, and the next two are one around the other. -/
def nestedBattles : List Token :=
  [.constant 7, .constant 65537, .memory ⟨.word, 2⟩, .operation .battle 0, .constant (-1),
    .operation .battle 0, .operation .nop 0, .constant 300, .operation .battle 0]

/-- The battle inside the other takes the constants between those of the outer one. -/
theorem exists_battleOrigins_nestedBattles :
    decode .skip nestedBattles = .ok
      { instructions := [.battle ⟨1, ⟨255⟩⟩, .nop, .battle ⟨7, ⟨44⟩⟩]
        diagnostics := [⟨3, .invalidOperand .battle (.memory ⟨.word, 2⟩)⟩] } ∧
    ∃ origins : List BattleOrigin,
      List.Forall₂ (BattleOrigin.Yields .skip nestedBattles) origins
        [⟨1, ⟨255⟩⟩, ⟨7, ⟨44⟩⟩] ∧
      origins.Pairwise BattleOrigin.Before ∧
      (origins.flatMap BattleOrigin.operands).Nodup := by
  have h : decode .skip nestedBattles = .ok
      { instructions := [.battle ⟨1, ⟨255⟩⟩, .nop, .battle ⟨7, ⟨44⟩⟩]
        diagnostics := [⟨3, .invalidOperand .battle (.memory ⟨.word, 2⟩)⟩] } := by decide
  exact ⟨h, exists_battleOrigins h⟩

end Script

end EventScript

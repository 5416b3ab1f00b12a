/-!
# Battle flags

The rules of a battle are a set of eight flags, kept in one byte with a bit for
each. The empty set stands for a regular battle.
-/

set_option autoImplicit false

namespace EventScript

/-- A departure from the rules of a regular battle. -/
inductive BattleFlag where
  | noEscape
  | disableVictoryFanfare
  | inheritCountdownTimer
  | noItemsOrExperience
  | keepCurrentMusic
  | forcePreemptive
  | forceBackAttack
  | unknown
  deriving DecidableEq

namespace BattleFlag

/-- Every flag, that of the lowest bit first. -/
def all : List BattleFlag :=
  [noEscape, disableVictoryFanfare, inheritCountdownTimer, noItemsOrExperience,
    keepCurrentMusic, forcePreemptive, forceBackAttack, unknown]

/-- The byte in which only the bit of this flag is set. -/
def bit : BattleFlag → UInt8
  | noEscape => 0x01
  | disableVictoryFanfare => 0x02
  | inheritCountdownTimer => 0x04
  | noItemsOrExperience => 0x08
  | keepCurrentMusic => 0x10
  | forcePreemptive => 0x20
  | forceBackAttack => 0x40
  | unknown => 0x80

/-- The name under which a flag is printed. -/
def name : BattleFlag → String
  | noEscape => "No_escape"
  | disableVictoryFanfare => "Disable_victory_fanfare"
  | inheritCountdownTimer => "Inherit_countdown_timer_from_field"
  | noItemsOrExperience => "No_Item_XP_Gain"
  | keepCurrentMusic => "Use_current_music_as_battle_music"
  | forcePreemptive => "Force_preemptive_attacked"
  | forceBackAttack => "Force_back_attack"
  | unknown => "Unknown"

end BattleFlag

/-- A set of battle flags. -/
structure BattleFlags where
  bits : UInt8 := 0
  deriving DecidableEq

namespace BattleFlags

/-- No flag at all. -/
def regular : BattleFlags := ⟨0⟩

instance : Inhabited BattleFlags := ⟨regular⟩

/-- The set of one flag. -/
def single (flag : BattleFlag) : BattleFlags := ⟨flag.bit⟩

/-- The flags that are in either set. -/
def union (flags others : BattleFlags) : BattleFlags := ⟨flags.bits ||| others.bits⟩

/-- The flags that are in both sets. -/
def inter (flags others : BattleFlags) : BattleFlags := ⟨flags.bits &&& others.bits⟩

/-- The flags that are in the first set and not in the second. -/
def diff (flags others : BattleFlags) : BattleFlags := ⟨flags.bits &&& ~~~others.bits⟩

instance : Union BattleFlags := ⟨union⟩

instance : Inter BattleFlags := ⟨inter⟩

instance : SDiff BattleFlags := ⟨diff⟩

/-- Whether no flag is set. -/
def isEmpty (flags : BattleFlags) : Bool := flags.bits == 0

/-- Whether all of `others` are set. -/
def contains (flags others : BattleFlags) : Bool :=
  flags.bits &&& others.bits == others.bits

/-- The flags that are set, that of the lowest bit first. -/
def toList (flags : BattleFlags) : List BattleFlag :=
  BattleFlag.all.filter fun flag => flags.contains (single flag)

/-- The names of the flags that are set, that of the lowest bit first. -/
def names (flags : BattleFlags) : List String :=
  flags.toList.map BattleFlag.name

/-- The names of the flags that are set, or the name of the regular battle. -/
def text (flags : BattleFlags) : String :=
  if flags.isEmpty then "Regular_battle" else " | ".intercalate flags.names

/-- Only the empty set has no member. -/
theorem toList_eq_nil_iff (flags : BattleFlags) :
    flags.toList = [] ↔ flags.isEmpty = true := by
  have every : ∀ n : Fin 256,
      (⟨UInt8.ofFin n⟩ : BattleFlags).toList = [] ↔
        (⟨UInt8.ofFin n⟩ : BattleFlags).isEmpty = true := by decide +kernel
  simpa using every flags.bits.toFin

end BattleFlags

end EventScript

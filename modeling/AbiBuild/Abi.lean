import Std.Data.ExtTreeMap
import Std.Data.ExtTreeSet

/-!
# The surface of a source file

What a compiled top-level type, with its nested types folded in, lets others see: the types it
mentions publicly and the types it mentions only in private.
-/

namespace AbiBuild

abbrev Names := Std.ExtTreeSet String compare

namespace Names

def ofList (names : List String) : Names :=
  Std.ExtTreeSet.ofList names compare

theorem size_erase_lt {names : Names} {name : String} (member : name ∈ names) :
    (names.erase name).size < names.size := by
  have nonempty : names.size ≠ 0 := fun empty => by
    rw [Std.ExtTreeSet.eq_empty_iff_size_eq_zero.mpr empty] at member
    exact Std.ExtTreeSet.not_mem_empty member
  rw [Std.ExtTreeSet.size_erase, if_pos (Std.ExtTreeSet.mem_iff_contains.mp member)]
  omega

end Names

structure SourceAbi where
  className : String
  sourceFileName : Option String := none
  innerClassNames : Names := ∅
  publicTypes : Names
  privateTypes : Names
  deriving DecidableEq

namespace SourceAbi

/-- A type mentioned both ways counts as public. -/
def ofTypes (className : String) (publicTypes privateTypes : List String) : SourceAbi where
  className := className
  publicTypes := Names.ofList publicTypes
  privateTypes := (Names.ofList privateTypes).filter fun name => !(Names.ofList publicTypes).contains name

/-- Every mentioned type, public ones first, each with whether the mention is private. -/
def referencedTypes (abi : SourceAbi) : List (String × Bool) :=
  abi.publicTypes.toList.map (·, false) ++ abi.privateTypes.toList.map (·, true)

end SourceAbi

/-- How a source file stands to the last good build. -/
inductive SourceState
  | added
  | removed
  | changed
  | notChanged
  deriving DecidableEq, Repr

end AbiBuild

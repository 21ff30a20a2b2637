import FramePool.Basic
import FramePool.Config

/-! What can stop an operation: arithmetic out of range, and broken promises between the parts. -/

namespace FramePool

inductive Fault where
  | addOverflow
  | subtractOverflow
  | divideByZero
  | remainderByZero
  | outOfRange (size index : Nat)
  | capacityOverflow
  | trackerSize (words : Nat)
  | noGenerations
  | noWindow
  | listFull (slots : Nat)
  | slotTaken
  | stalePosition (position : Position) (generation : Nat)
  | alreadyResident (id : FrameId)
  | untracked (id : FrameId)
  | misplaced (id : FrameId) (generation : Nat) (found : Option FrameId)
  | sizesDiffer (held listed : Nat)
  | framesLost (counted capacity : Nat)
  | unequal (left right : Nat)
  | percentTooLarge
  | hotSetSize
  | unusableConfig (cause : ConfigError)
  | unusableBenchmark (cause : ConfigError)
  | endless
deriving DecidableEq

namespace Fault

def unequalText (note : String) (left right : String) : String :=
  s!"assertion `left == right` failed{note}\n  left: {left}\n right: {right}"

def message : Fault → String
  | addOverflow => "attempt to add with overflow"
  | subtractOverflow => "attempt to subtract with overflow"
  | divideByZero => "attempt to divide by zero"
  | remainderByZero => "attempt to calculate the remainder with a divisor of zero"
  | outOfRange size index => s!"index out of bounds: the len is {size} but the index is {index}"
  | capacityOverflow => "capacity overflow"
  | trackerSize words => s!"tracker size has to be a power of two (got {words})"
  | noGenerations => "at least one generation is required"
  | noWindow => "assertion failed: capacity > 0"
  | listFull slots => s!"frame list is full ({slots} slots)"
  | slotTaken => "recycled slot is still occupied"
  | stalePosition position generation =>
      s!"stale position {position.describe} in generation {generation}"
  | alreadyResident id => s!"frame {id} is already resident"
  | untracked id => s!"frame {id} in generation but not in page table"
  | misplaced id generation found =>
      unequalText s!": frame {id} not found in generation {generation}"
        (match found with
        | some other => s!"Some({other})"
        | none => "None")
        s!"Some({id})"
  | sizesDiffer held listed =>
      unequalText s!": generations hold {held} frame(s) but page table has {listed}"
        (toString held) (toString listed)
  | framesLost counted capacity =>
      unequalText ": free and resident frames do not add up to the capacity"
        (toString counted) (toString capacity)
  | unequal left right => unequalText "" (toString left) (toString right)
  | percentTooLarge => "assertion failed: accessed_percent <= 100"
  | hotSetSize => "assertion failed: hot_frames > 0 && hot_frames < capacity"
  | unusableConfig cause =>
      s!"could not create frame allocator: invalid configuration: {cause.message}"
  | unusableBenchmark cause =>
      s!"invalid benchmark configuration: invalid configuration: {cause.message}"
  | endless => "the loop does not end"

end Fault

end FramePool

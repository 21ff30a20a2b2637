/-! Settings of a frame pool, their defaults, and what makes them unusable. -/

namespace FramePool

structure Gains where
  kp : Float := 0.1
  ki : Float := 0.01
  kd : Float := 0.05

structure Config where
  capacity : UInt64 := 0
  generations : UInt64 := 4
  trackerWords : UInt64 := 64
  highPercent : UInt8 := 90
  lowPercent : UInt8 := 70
  directBudget : UInt64 := 10
  refaultWindow : Option UInt64 := none
  background : Bool := true
  gains : Gains := {}

inductive ConfigError where
  | zeroCapacity
  | zeroGenerations
  | trackerWords (words : UInt64)
  | watermarks (low high : UInt8)
  | zeroDirectBudget
  | zeroRefaultWindow
deriving DecidableEq

def isPowerOfTwo (n : Nat) : Bool := 1 <<< n.log2 == n

namespace Config

def validate (c : Config) : Except ConfigError Unit :=
  if c.capacity = 0 then .error .zeroCapacity
  else if c.generations = 0 then .error .zeroGenerations
  else if !isPowerOfTwo c.trackerWords.toNat then .error (.trackerWords c.trackerWords)
  else if 100 < c.highPercent ∨ c.highPercent ≤ c.lowPercent then
    .error (.watermarks c.lowPercent c.highPercent)
  else if c.directBudget = 0 then .error .zeroDirectBudget
  else if c.refaultWindow = some 0 then .error .zeroRefaultWindow
  else .ok ()

end Config

namespace ConfigError

def message : ConfigError → String
  | zeroCapacity => "capacity has to be at least one frame"
  | zeroGenerations => "at least one generation is required"
  | trackerWords words => s!"tracker size has to be a power of two (got {words} words)"
  | watermarks low high => s!"invalid watermarks: low={low}% has to be below high={high}% <= 100%"
  | zeroDirectBudget => "direct reclaim budget has to be at least one frame"
  | zeroRefaultWindow => "refault window has to hold at least one frame"

def kind : ConfigError → String
  | zeroCapacity => "ZeroCapacity"
  | zeroGenerations => "ZeroGenerations"
  | trackerWords _ => "TrackerWords"
  | watermarks _ _ => "Watermarks"
  | zeroDirectBudget => "ZeroDirectReclaimBudget"
  | zeroRefaultWindow => "ZeroRefaultWindow"

def detail (e : ConfigError) : String :=
  match e with
  | trackerWords words => s!"{e.kind}({words})"
  | watermarks low high => s!"{e.kind} \x7b low: {low}, high: {high} \x7d"
  | _ => e.kind

end ConfigError

end FramePool

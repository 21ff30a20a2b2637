import FramePool.Config
import FramePool.Pacer.Basic

/-! A discrete PID loop over the refault ratio, refaults to reclaimed frames. -/

namespace FramePool

structure PidLoop where
  gains : Gains
  error : Float := 0
  integral : Float := 0
  derivative : Float := 0

namespace PidLoop

def basePace : Nat := 32
def leastPace : Nat := 1
def greatestPace : Nat := 1024
def outputScale : Float := 10
def integralLimit : Float := 100

def clamp (low high x : Float) : Float := if x < low then low else if high < x then high else x

/-- The whole part of a positive value; anything else counts as 0, and what is too large as the
largest 64-bit number. -/
def wholePart (x : Float) : Nat := if 0 < x then x.toUInt64.toNat else 0

def ratio (r : Report) : Float :=
  if 0 < r.reclaimed then Float.ofNat r.refaults / Float.ofNat r.reclaimed else 0

def observe (p : PidLoop) (error : Float) : PidLoop where
  gains := p.gains
  error := error
  integral := clamp (-integralLimit) integralLimit (p.integral + error)
  derivative := error - p.error

def output (p : PidLoop) : Float :=
  p.gains.kp * p.error + p.gains.ki * p.integral + p.gains.kd * p.derivative

def pace (p : PidLoop) : Nat :=
  max leastPace (min greatestPace (basePace + wholePart (p.output * outputScale)))

instance : Pacer PidLoop where
  report p r := p.observe (ratio r)
  pace := pace

end PidLoop

end FramePool

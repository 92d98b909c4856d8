import Seahorse.Pose

/-!
# Targets

Things that are collected by coming near: coins, keys.
-/

namespace Seahorse

/-- Something to collect. -/
structure Target where
  /-- The name it is reported by. -/
  name : String
  /-- Where it lies. -/
  position : Point
  /-- It is collected from anywhere nearer than this. -/
  radius : Scalar
  /-- Whether the level asks for it. -/
  required : Bool
  /-- Whether it has been collected in the current run. -/
  collected : Bool
  deriving DecidableEq, Repr

namespace Target

/-- The radius of most targets. -/
def defaultRadius : Scalar := 2.5

/-- Whether a point is near enough. -/
def inRange (t : Target) (p : Point) : Bool :=
  p.distance t.position < t.radius

/-- The target after a visit at a point. -/
def visited (p : Point) (t : Target) : Target :=
  { t with collected := t.collected || t.inRange p }

/-- The target at the start of a run. -/
def fresh (t : Target) : Target :=
  { t with collected := false }

/-- Whether the radius is finite and positive. -/
def hasProperRadius (t : Target) : Bool :=
  t.radius.isFinite && 0 < t.radius

/-- The names of the targets that a visit at a point newly collects. -/
def captured (p : Point) (ts : List Target) : List String :=
  (ts.filter fun t => !t.collected && t.inRange p).map (·.name)

/-- The names of the collected targets. -/
def collectedNames (ts : List Target) : List String :=
  (ts.filter (·.collected)).map (·.name)

/-- Whether every target that the level asks for is collected. -/
def allRequiredCollected (ts : List Target) : Bool :=
  ts.all fun t => !t.required || t.collected

end Target

end Seahorse

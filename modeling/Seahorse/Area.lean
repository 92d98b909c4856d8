import Seahorse.Pose

/-!
# Where the seahorse may be

A level is played either on an open platform, a closed box, or on a walkway one tile wide that runs
along a row, turns once, and runs on along a column. Which leg of a walkway counts depends on how
much of the objective has been reached. To its hosts the area of a level is a `Constraint`, a walkway a
`TiledPath`, and what they are told about leaving it an `AbortReason`.
-/

namespace Seahorse

/-- A closed range on one axis. -/
structure Span where
  /-- The lower end. -/
  low : Scalar
  /-- The upper end. -/
  high : Scalar
  deriving DecidableEq, Repr

namespace Span

/-- Whether a value lies in the range or at most `tolerance` outside. -/
def contains (s : Span) (v tolerance : Scalar) : Bool :=
  s.low - tolerance ≤ v && v ≤ s.high + tolerance

/-- Whether the ends are finite and in order. -/
def isProper (s : Span) : Bool :=
  s.low.isFinite && s.high.isFinite && s.low ≤ s.high

end Span

/-- A walkway along a row and then along a column (`TiledPath`). -/
structure Walkway where
  /-- Where the row lies on the second axis. -/
  rowZ : Scalar
  /-- How far the row extends along the first axis. -/
  columns : Span
  /-- Where the column lies on the first axis. -/
  columnX : Scalar
  /-- How far the column extends along the second axis. -/
  rows : Span
  /-- The last stage of the objective at which the row counts. -/
  turnStage : Nat
  /-- How far off the middle one may be. -/
  tolerance : Scalar
  deriving DecidableEq, Repr

namespace Walkway

/-- The tolerance of a walkway that gives none. -/
def defaultTolerance : Scalar := 0.1

/-- Whether a point lies on the row. -/
def onRow (w : Walkway) (p : Point) : Bool :=
  (p.z - w.rowZ).abs ≤ w.tolerance && w.columns.contains p.x w.tolerance

/-- Whether a point lies on the column. -/
def onColumn (w : Walkway) (p : Point) : Bool :=
  (p.x - w.columnX).abs ≤ w.tolerance && w.rows.contains p.z w.tolerance

end Walkway

/-- Why a run was stopped (`AbortReason`). -/
inductive Violation where
  /-- The step led off the platform. -/
  | outOfBounds
  /-- The step led off the walkway. -/
  | offPath
  deriving DecidableEq, Repr

namespace Violation

/-- What the player is told. -/
def message : Violation → String
  | .outOfBounds => "The seahorse can't swim off the platform!"
  | .offPath => "The seahorse has to stay on the path!"

/-- The name in the journal. -/
def title : Violation → String
  | .outOfBounds => "OutOfBounds"
  | .offPath => "OffPath"

/-- The name in JSON. -/
def name : Violation → String
  | .outOfBounds => "out_of_bounds"
  | .offPath => "off_path"

end Violation

/-- The legal area of a level (`Constraint`). -/
inductive Area where
  /-- All positions in a closed box. -/
  | platform (x z : Span)
  /-- The leg of a walkway that counts. -/
  | walkway (w : Walkway)
  deriving DecidableEq, Repr

namespace Area

/-- Whether a position is legal when the objective has reached a stage (`is_legal`). -/
def allows (area : Area) (p : Point) (stage : Nat) : Bool :=
  match area with
  | .platform x z => x.contains p.x 0 && z.contains p.z 0
  | .walkway w => if stage ≤ w.turnStage then w.onRow p else w.onColumn p

/-- How leaving the area is called. -/
def violation : Area → Violation
  | .platform .. => .outOfBounds
  | .walkway _ => .offPath

/-- What can be wrong with an area. -/
inductive Fault where
  /-- A side of the platform is not a proper range. -/
  | improperPlatform
  /-- The extent of a leg is not a proper range. -/
  | improperWalkway
  /-- The tolerance is negative or a NaN. -/
  | badTolerance
  deriving DecidableEq, Repr

/-- The text of a fault. -/
def Fault.message : Fault → String
  | .improperPlatform => "box bounds must be finite with min <= max"
  | .improperWalkway => "path spans must be finite with min <= max"
  | .badTolerance => "path epsilon must be non-negative"

/-- What is wrong with an area. -/
def fault? : Area → Option Fault
  | .platform x z => if x.isProper && z.isProper then none else some .improperPlatform
  | .walkway w =>
    if !(w.columns.isProper && w.rows.isProper) then some .improperWalkway
    else if w.tolerance.isNaN || w.tolerance < 0 then some .badTolerance
    else none

end Area

end Seahorse

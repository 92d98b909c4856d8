import Seahorse.Command
import Seahorse.Scalar.Trig

/-!
# Poses

Where the seahorse is on the ground plane and where it looks, and what a command does to that.
-/

namespace Seahorse

/-- A point of the ground plane. -/
structure Point where
  /-- The first coordinate. -/
  x : Scalar
  /-- The second coordinate. -/
  z : Scalar
  deriving DecidableEq, Repr

namespace Point

/-- The distance of two points. -/
def distance (p q : Point) : Scalar :=
  let dx := p.x - q.x
  let dz := p.z - q.z
  (dx * dx + dz * dz).sqrt

end Point

namespace Heading

/-- How near to `-π` an angle is taken for π. -/
def foldMargin : Scalar := 1e-6

/-- The angle in `(-π, π]` that points the same way (`normalize_angle`). -/
def wrap (angle : Scalar) : Scalar :=
  let wrapped := Scalar.angleOf (Scalar.sin angle) (Scalar.cos angle)
  if wrapped ≤ -Scalar.pi + foldMargin then Scalar.pi else wrapped

/-- The unit vector along a heading (`heading_to_dir`). -/
def direction (heading : Scalar) : Point :=
  ⟨Scalar.cos heading, Scalar.sin heading⟩

end Heading

/-- A position with a heading. -/
structure Pose where
  /-- The first coordinate of the position. -/
  x : Scalar
  /-- The second coordinate of the position. -/
  z : Scalar
  /-- The heading in radians. -/
  heading : Scalar
  deriving DecidableEq, Repr

namespace Pose

/-- The same pose with its heading in `(-π, π]`. -/
def wrapped (pose : Pose) : Pose :=
  { pose with heading := Heading.wrap pose.heading }

/-- The pose at the origin that looks along the first axis. -/
def origin : Pose :=
  wrapped ⟨0, 0, 0⟩

/-- The position. -/
def position (pose : Pose) : Point :=
  ⟨pose.x, pose.z⟩

/-- The pose at a distance along a unit vector. -/
def moved (pose : Pose) (along : Point) (distance : Scalar) : Pose :=
  { pose with x := pose.x + along.x * distance, z := pose.z + along.z * distance }

/-- The pose turned by an angle. -/
def turned (pose : Pose) (angle : Scalar) : Pose :=
  wrapped { pose with heading := pose.heading + angle }

/-- The pose after one command, on a level with the given step distance. -/
def step (pose : Pose) (command : Command) (distance : Scalar) : Pose :=
  let ahead := Heading.direction pose.heading
  match command with
  | .forward => pose.moved ahead distance
  | .backward => pose.moved ⟨-ahead.x, -ahead.z⟩ distance
  | .turnLeft => pose.turned Scalar.halfPi
  | .turnRight => pose.turned (-Scalar.halfPi)
  | .turnAround => pose.turned Scalar.pi
  | .wait => pose

end Pose

end Seahorse

import Seahorse.Level

/-!
# The built-in levels
-/

namespace Seahorse.Level

/-- The size of a tile, which is the step distance of every built-in level. -/
def tileSize : Scalar := 4.5

/-- A required target. -/
def coin (name : String) (x z radius : Scalar) : Target :=
  ⟨name, ⟨x, z⟩, radius, true, false⟩

/-- Swim three tiles forward across the open platform. -/
def firstStrokes : Level where
  id := "level1"
  title := "First Strokes"
  stepDistance := tileSize
  start := Pose.wrapped ⟨1, -1.6, 0⟩
  area := .platform ⟨-5, 15⟩ ⟨-8, 8⟩
  targets := []
  objective := ⟨[⟨.forward, 3⟩]⟩
  completion := .objective

/-- Follow the walkway: three tiles along the row, then turn right onto the column. -/
def theBend : Level where
  id := "level2"
  title := "The Bend"
  stepDistance := tileSize
  start := Pose.wrapped ⟨-3.5, -6, 0⟩
  area := .walkway
    { rowZ := -6
      columns := ⟨-3.5, 10⟩
      columnX := 10
      rows := ⟨-15, -6⟩
      turnStage := 1
      tolerance := Walkway.defaultTolerance }
  targets := []
  objective := ⟨[⟨.forward, 3⟩, ⟨.turnRight, 1⟩]⟩
  completion := .objective

/-- Two tiles forward, turn right, and one more onto the key. -/
def theLostKey : Level where
  id := "level3"
  title := "The Lost Key"
  stepDistance := tileSize
  start := Pose.wrapped ⟨-2, -4, 0⟩
  area := .platform ⟨-8, 8⟩ ⟨-10, 8⟩
  targets := [coin "key" 7 (-8.5) Target.defaultRadius]
  objective := ⟨[⟨.forward, 2⟩, ⟨.turnRight, 1⟩, ⟨.forward, 1⟩]⟩
  completion := .objectiveAndTargets

/-- Collect all three coins, on any route that stays on the reef. -/
def coinReef : Level where
  id := "level4"
  title := "Coin Reef"
  stepDistance := tileSize
  start := Pose.wrapped ⟨1, -1.6, 0⟩
  area := .platform ⟨-5, 30⟩ ⟨-8, 12⟩
  targets := [coin "coin_1" 15 (-1.6) 2, coin "coin_2" 28 (-1.6) 2, coin "coin_3" 15 8 2]
  objective := ⟨[⟨.forward, 3⟩]⟩
  completion := .targetsOnly

/-- The built-in levels in the order they are played. -/
def builtins : List Level :=
  [firstStrokes, theBend, theLostKey, coinReef]

/-- The ids of the built-in levels in the order they are played. -/
def builtinIds : List String :=
  builtins.map (·.id)

/-- The built-in level with an id. -/
def builtin (id : String) : Except Failure Level :=
  match builtins.find? (·.id = id) with
  | none => .error (.unknownLevel id)
  | some level => level.validate.map fun _ => level

/-- The id that follows another in the order of play. -/
def next? (id : String) : Option String :=
  (builtinIds.zip builtinIds.tail).lookup id

end Seahorse.Level

import Seahorse.Page

/-!
# Visits

A visitor may have several levels open at a time. Each is a `LevelRunner` of its own, with a run, a
clock and settings that no other one shares; the storage is one for all. A call says which of them a
request is for, by the place of the level in the order of opening. To open a level leaves the others
open, so a call may be for a level that was opened before the last one.

What one level does with a request is said by `Page`: it answers on the page that it sees, the one with
the level itself as the open one.
-/

namespace Seahorse

/-- A request to one of the open levels. -/
structure Call where
  /-- The place of the level in the order of opening. -/
  place : Nat
  /-- The request. -/
  request : Request
  deriving DecidableEq

/-- Whether a request opens a level. -/
def Request.opens : Request → Bool
  | .openBuiltin _ | .openText _ => true
  | _ => false

/-- The state of a page on which several levels may be open. -/
structure Visit where
  /-- What is kept between visits, if anything can be. -/
  storage : Option Storage
  /-- The open levels, in the order of opening. -/
  runners : List Runner
  /-- Whether the page has been started before. -/
  booted : Bool
  /-- The warnings on the console, oldest first. -/
  warnings : List String
  deriving DecidableEq, Repr

namespace Visit

/-- A visit that has just begun. -/
def fresh (storage : Option Storage) : Visit :=
  ⟨storage, [], false, []⟩

/-- The page that the level at a place sees. -/
def pageAt (v : Visit) (place : Nat) : Page :=
  ⟨v.storage, v.runners[place]?, v.booted, v.warnings⟩

/-- The open levels with one in the place of the one before, or behind all others. -/
def put (place : Nat) (runners : List Runner) : Option Runner → List Runner
  | none => runners
  | some runner => if place < runners.length then runners.set place runner else runners ++ [runner]

/-- The visit after the level at a place has left the page it sees like this. -/
def leave (v : Visit) (place : Nat) (page : Page) : Visit :=
  ⟨page.storage, put place v.runners page.runner, page.booted, page.warnings⟩

/-- The place that a call is about. A level that is opened gets the next place. -/
def placeOf (v : Visit) (call : Call) : Nat :=
  if call.request.opens then v.runners.length else call.place

/-- Answers a call. -/
def answer (v : Visit) (call : Call) : Logged (Reply × Visit) := do
  let (reply, page) ← (v.pageAt (v.placeOf call)).answer call.request
  pure (reply, v.leave (v.placeOf call) page)

/-- Answers several calls in turn. -/
def answerAll (v : Visit) : List Call → Logged (List Reply × Visit)
  | [] => pure ([], v)
  | call :: calls => do
    let (reply, v) ← v.answer call
    let (replies, v) ← v.answerAll calls
    pure (reply :: replies, v)

/-- Answers a request to the level that was opened last. -/
def answerLast (v : Visit) (request : Request) : Logged (Reply × Visit) :=
  v.answer ⟨v.runners.length - 1, request⟩

/-- Answers several requests in turn, each to the level that was opened last. -/
def answerAllLast (v : Visit) : List Request → Logged (List Reply × Visit)
  | [] => pure ([], v)
  | request :: requests => do
    let (reply, v) ← v.answerLast request
    let (replies, v) ← v.answerAllLast requests
    pure (reply :: replies, v)

end Visit

end Seahorse

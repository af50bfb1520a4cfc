import SwapCodec.Value.Text

/-!
# Paths

A `Path` is a list of steps from the root of the file system; a step `..` leads back.
`Path.resolved` strikes out the steps that are taken back, whether or not there is anything at the
places between.
-/

set_option autoImplicit false

namespace SwapCodec

/-- An absolute path. -/
structure Path where
  /-- The steps from the root. -/
  steps : List String
  deriving DecidableEq, Repr

/-- The step that leads back. -/
def backStep : String := ".."

namespace Path

/-- The steps that a text spells, without empty steps and steps on the spot. -/
def stepsOf (s : String) : List String :=
  ((s.toList.splitOn '/').map String.ofList).filter fun step => step != "" && step != "."

/-- The path that a text spells, seen from a directory. -/
def join (p : Path) (s : String) : Path :=
  if s.startsWith "/" then ⟨stepsOf s⟩ else ⟨p.steps ++ stepsOf s⟩

/-- The directory in which the path lies. -/
def parent (p : Path) : Path := ⟨p.steps.dropLast⟩

/-- Takes steps from a place, striking out the last one at each step back. -/
def walk (place : List String) : List String → List String
  | [] => place
  | step :: more => walk (if step == backStep then place.dropLast else place ++ [step]) more

/-- The path without steps back. -/
def resolved (p : Path) : Path := ⟨walk [] p.steps⟩

/-- No step holds the zero character, which cannot be a part of any name. -/
def isNameable (p : Path) : Bool := p.steps.all fun step => !step.toList.contains '\x00'

/-- The text of a path. -/
def text (p : Path) : String := "/" ++ joined "/" p.steps

end Path

end SwapCodec

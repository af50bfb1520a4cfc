import SwapCodec.Settings.Library
import SwapCodec.Settings.Path

/-!
# Files

A `FileTree` holds the texts of finitely many files, and what bounds the work with them.
`FileTree.contents` follows a path step by step. It leads nowhere if it passes through something
that is no directory, and it is refused if it takes a name that is too long for the file system.
-/

set_option autoImplicit false

namespace SwapCodec

/-- Files with their texts. -/
structure FileTree where
  /-- The libraries with which the files are read. -/
  library : Library
  /-- The directory in which relative paths start. -/
  home : Path := ⟨[]⟩
  /-- The files. -/
  files : List (Path × String)
  /-- How many bytes a name has at most. -/
  nameLimit : Nat := 255
  /-- How many bytes a path has at most. -/
  pathLimit : Nat := 4095
  /-- How deep dictionaries are merged within each other at most. -/
  mergeLimit : Nat := 1000

namespace FileTree

/-- A place with a file somewhere below it. -/
def isDirectory (t : FileTree) (place : List String) : Bool :=
  place.isEmpty || t.files.any fun f =>
    place.length < f.1.steps.length && place.isPrefixOf f.1.steps

/-- Takes steps from a place, each of them in a directory and by a name that it can hold. -/
def follow (t : FileTree) (place : List String) :
    List String → Except Error (Option (List String))
  | [] => .ok (some place)
  | step :: more =>
    if t.isDirectory place then
      if t.nameLimit < step.utf8ByteSize then fail (.fault .system)
      else t.follow (if step == backStep then place.dropLast else place ++ [step]) more
    else .ok none

/-- The text of the file to which a path leads, if it leads to one. A path that cannot be named
leads nowhere. -/
def contents (t : FileTree) (p : Path) : Except Error (Option String) :=
  if !p.isNameable then .ok none
  else if t.pathLimit < p.text.utf8ByteSize then fail (.fault .system)
  else (t.follow [] p.steps).map fun place =>
    place.bind fun place => (t.files.find? fun f => f.1.steps == place).map (·.2)

/-- A path leads to a file. -/
def isFile (t : FileTree) (p : Path) : Except Error Bool :=
  (t.contents p).map Option.isSome

end FileTree

end SwapCodec

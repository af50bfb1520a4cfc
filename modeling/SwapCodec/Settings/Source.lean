import SwapCodec.Settings.FileTree
import SwapCodec.Settings.Merge
import SwapCodec.Settings.Standard

/-!
# Sources of settings

Settings are read from YAML files. A file may name a parent under the key `extends`, and its own
entries are merged over those of the parent. The parent is looked for next to the file and then, if
it is not there, under a second root.

`FileTree.extended` follows the chain of parents. Every file of a chain is another one, so a chain
is no longer than the number of files; a chain that comes back to one of its files is refused.
-/

set_option autoImplicit false

namespace SwapCodec

/-- The directory of the files that come with the library. -/
def shippedDirectory : Path := ⟨["<conf>"]⟩

/-- The files that come with the library, with their texts. -/
def shippedFiles : List (Path × String) :=
  [(shippedDirectory.join "swap_vm.yml",
    "OPCODE_SET: swap-vm\nMAX_PROGRAM_LENGTH: 65535\nSTRICT_AUCTION_MONOTONICITY: true\n"),
   (shippedDirectory.join "aqua.yml", "extends: swap_vm.yml\n\nOPCODE_SET: aqua\n"),
   (shippedDirectory.join "unittests.yml",
    "extends: swap_vm.yml\n\n# small enough for tests to hit the limit quickly\nMAX_PROGRAM_LENGTH: 4096\n")]

/-- The source of the settings unless another one is given. -/
def defaultSource : String := (shippedDirectory.join "swap_vm.yml").text

namespace FileTree

/-- The given files and the ones that come with the library. -/
def withShipped (home : Path) (files : List (Path × String)) : FileTree where
  library := .standard
  home := home
  files := files ++ shippedFiles

/-- The key that names the parent of a file. -/
def extendsKey (t : FileTree) : t.library.Key := t.library.keyOf "extends"

/-- The entries of a file, which must hold a dictionary or nothing. -/
def document (t : FileTree) (p : Path) : Except Error t.library.Entries := do
  match ← t.contents p with
  | none => fail (.notAFile p.text)
  | some s =>
    let v ← t.library.read s
    match t.library.document? v with
    | some entries => return entries
    | none => fail (.notADictionary p.text)

/-- The parent that the entries of a file name, if they name one. -/
def parentName? (t : FileTree) (entries : t.library.Entries) : Except Error (Option String) :=
  match t.library.valueAt? t.extendsKey entries with
  | none => .ok none
  | some v => if t.library.isTruthy v then (t.library.text v).map some else .ok none

/-- The path of the parent of a file: next to the file, or under the second root. -/
def parentPath (t : FileTree) (secondRoot : Option Path) (p : Path) (name : String) :
    Except Error Path :=
  let beside := p.parent.join name
  (t.isFile beside).map fun found =>
    if found then beside
    else match secondRoot with
      | some root => root.join name
      | none => beside

/-- The entries of a file merged over those of its parents, at most `limit` merges within each
other; `seen` are the files that led here. A path that cannot be named is refused before it is
compared with them. -/
def chain (t : FileTree) (limit : Nat) (secondRoot : Option Path) :
    Nat → List Path → Path → Except Error t.library.Entries
  | 0, _, p => fail (.extendsItself p.resolved.text)
  | fuel + 1, seen, p => do
    let q := p.resolved
    if !p.isNameable then fail (.fault .value)
    else if seen.contains q then fail (.extendsItself q.text)
    else
      let entries ← t.document q
      let own := t.library.dropEntry t.extendsKey entries
      match ← t.parentName? entries with
      | none => return own
      | some name =>
        let next ← t.parentPath secondRoot q name
        let base ← t.chain limit secondRoot fuel (q :: seen) next
        t.library.merge limit base own

/-- The entries of a file merged over those of its parents. -/
def extended (t : FileTree) (limit : Nat) (secondRoot : Option Path) (p : Path) :
    Except Error t.library.Entries :=
  t.chain limit secondRoot (t.files.length + 1) [] p

/-- The settings that a file describes. -/
def settings (t : FileTree) (secondRoot : Option Path) (p : Path) : Except Error Settings := do
  let entries ← t.extended t.mergeLimit secondRoot p
  t.library.validate entries

end FileTree

end SwapCodec

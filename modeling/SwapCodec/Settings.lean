import SwapCodec.Instruction
import SwapCodec.Text.Blank

/-!
# Settings

Three settings govern the reading of programs: the table of opcodes, the greatest length of a
program, which is positive, and whether auctions have to follow their direction.

`Settings.ofEntries` makes settings from named values. Numbers and truth values may also be given
as text, and a setting that is left out has its initial value. All problems are reported together:
first those of the settings, in a fixed order, and then those of the other names as they come.
-/

set_option autoImplicit false

namespace SwapCodec

/-- The settings. -/
structure Settings where
  /-- The table of opcodes. -/
  opcodeSet : OpcodeSet := .swapVm
  /-- How many bytes a program has at most. -/
  maxProgramLength : Int := 65535
  /-- Auctions have to follow their direction. -/
  strictAuctions : Bool := true
  /-- A program may have some bytes. -/
  maxProgramLength_pos : 0 < maxProgramLength := by decide
  deriving DecidableEq

namespace Settings

/-- The name of the setting for the table of opcodes. -/
def opcodeSetName : String := "OPCODE_SET"

/-- The name of the setting for the greatest length of a program. -/
def maxProgramLengthName : String := "MAX_PROGRAM_LENGTH"

/-- The name of the setting for auctions. -/
def strictAuctionsName : String := "STRICT_AUCTION_MONOTONICITY"

/-- The names of the settings. -/
def names : List String := [opcodeSetName, maxProgramLengthName, strictAuctionsName]

/-- The text that a text or a byte string of ASCII characters spells. -/
def spelling? : Value → Option String
  | .str s => some s
  | .bytes data =>
    if data.all (· < 128) then some (String.ofList (data.map fun b => Char.ofNat b.toNat))
    else none
  | _ => none

/-- The text without blanks around it. -/
def trimmed (s : String) : List Char :=
  let isBlank := fun c => Text.isAsciiBlank c || Text.isWideBlank c
  ((s.toList.dropWhile isBlank).reverse.dropWhile isBlank).reverse

/-- An ASCII digit. -/
def isDigit (c : Char) : Bool := '0' ≤ c && c ≤ '9'

/-- The digits of a numeral behind its minus sign, if it has one. -/
def unsigned : List Char → List Char
  | '-' :: digits => digits
  | digits => digits

/-- The integer that a numeral in its shortest form denotes: a minus sign at most, and then digits
that do not start with a zero, or zero alone. -/
def shortestForm? (cs : List Char) : Option Int :=
  let digits := unsigned cs
  let shortest := match digits with
    | [] => false
    | c :: more => c != '0' || more.isEmpty
  if shortest && digits.all isDigit then Text.readSigned Text.readMagnitude cs else none

/-- The digits in front run on for too long. -/
def isOverlong (cs : List Char) : Bool :=
  let sign := cs.length - (unsigned cs).length
  Text.digitLimit < sign + ((unsigned cs).takeWhile isDigit).length

/-- A plus sign may stand in front of a numeral without a sign. -/
def withoutPlus? : List Char → Option (List Char)
  | '+' :: '-' :: _ => none
  | '+' :: cs => some cs
  | cs => some cs

/-- A numeral without the zeros in front of it, among which underscores may stand; the last zero
stays in front of a point and if nothing else is left. A numeral with a minus sign stays as it
is. -/
def withoutZeros? : List Char → Option (List Char)
  | '0' :: cs =>
    let skipped := '0' :: cs.takeWhile fun c => c == '0' || c == '_'
    match cs.dropWhile fun c => c == '0' || c == '_' with
    | [] => some (skipped.drop (skipped.length - 1))
    | '.' :: rest => some (skipped.drop (skipped.length - 1) ++ '.' :: rest)
    | c :: rest => if isDigit c then some (c :: rest) else none
  | c :: cs => if isDigit c || c == '-' then some (c :: cs) else none
  | [] => none

/-- A numeral without a fraction of nothing but zeros. -/
def withoutFraction (cs : List Char) : List Char :=
  match cs.dropWhile (· != '.') with
  | '.' :: zeros => if zeros.all (· == '0') then cs.takeWhile (· != '.') else cs
  | _ => cs

/-- Two underscores stand next to each other. -/
def hasDoubleUnderscore : List Char → Bool
  | '_' :: '_' :: _ => true
  | _ :: cs => hasDoubleUnderscore cs
  | [] => false

/-- A numeral without the underscores between its digits, if they stand singly. -/
def withoutUnderscores (cs : List Char) : List Char :=
  if cs.head? == some '_' || cs.getLast? == some '_' || hasDoubleUnderscore cs then cs
  else cs.filter (· != '_')

/-- A numeral in its shortest form. -/
def shortened? (cs : List Char) : Option (List Char) := do
  let cs ← withoutPlus? cs
  let cs ← withoutZeros? cs
  return withoutUnderscores (withoutFraction cs)

/-- The integer that a text spells. -/
def integerOfText (s : String) : Except IssueKind Int :=
  if isOverlong s.toList then .error .intParsingSize
  else
    match shortestForm? s.toList <|> (shortened? (trimmed s)).bind shortestForm? with
    | some n => .ok n
    | none => .error .intParsing

/-- An integer whose size is below this bound can come from a double, or stand for a truth value. -/
def smallBound : Nat := 0x8000000000000000

/-- The integer that a value stands for. -/
def toInteger (v : Value) : Except IssueKind Int :=
  match v with
  | .int n => .ok n
  | .bool b => .ok (if b then 1 else 0)
  | .float x =>
    match x.truncated? with
    | some (n, true) => if n.natAbs < smallBound then .ok n else .error .intParsingSize
    | some (_, false) => .error .intFromFloat
    | none => .error .finiteNumber
  | v =>
    match spelling? v with
    | some s => integerOfText s
    | none => .error .intType

/-- The words for true. -/
def trueWords : List String := ["1", "on", "t", "true", "y", "yes"]

/-- The words for false. -/
def falseWords : List String := ["0", "off", "f", "false", "n", "no"]

/-- The truth value that a text spells, in any letter case. -/
def truthOfText (s : String) : Except IssueKind Bool :=
  let word := String.ofList (s.toList.map Char.toLower)
  if trueWords.contains word then .ok true
  else if falseWords.contains word then .ok false
  else .error .boolParsing

/-- The truth value that an integer stands for. -/
def truthOfInteger (n : Int) : Except IssueKind Bool :=
  if n = 1 then .ok true
  else if n = 0 then .ok false
  else if n.natAbs < smallBound then .error .boolParsing
  else .error .boolType

/-- The truth value that a value stands for. -/
def toTruth (v : Value) : Except IssueKind Bool :=
  match v with
  | .bool b => .ok b
  | .int n => truthOfInteger n
  | .float x =>
    match x.truncated? with
    | some (n, true) => truthOfInteger n
    | _ => .error .boolType
  | v =>
    match spelling? v with
    | some s => truthOfText s
    | none => .error .boolType

/-- The table that a value names. -/
def toOpcodeSet (v : Value) : Except IssueKind OpcodeSet :=
  match v with
  | .str s =>
    match OpcodeSet.ofName? s with
    | some set => .ok set
    | none => .error .enumeration
  | _ => .error .enumeration

/-- The positive integer that a value stands for. -/
def toLength (v : Value) : Except IssueKind { n : Int // 0 < n } :=
  match toInteger v with
  | .error kind => .error kind
  | .ok n => if h : 0 < n then .ok ⟨n, h⟩ else .error .notPositive

/-- The value of a setting, the initial one if it is left out. -/
def given {α : Type} (name : String) (initial : α) (convert : Value → Except IssueKind α)
    (entries : List (Key × Value)) : Except IssueKind α :=
  match valueAt? (.str name) entries with
  | some v => convert v
  | none => .ok initial

/-- The problem with a setting, if there is one. -/
def issueOf {α : Type} (name : String) : Except IssueKind α → List Issue
  | .ok _ => []
  | .error kind => [⟨name, kind⟩]

/-- The name of a key in a report. -/
def keyName : Key → String
  | .str s => s
  | .int n => Text.decimal n
  | .bool b => if b then "1" else "0"
  | .null => "None"
  | .float x => x.text

/-- The problem with the name of an entry, if there is one. -/
def strayIssue (e : Key × Value) : List Issue :=
  match e.1 with
  | .str s => if names.contains s then [] else [⟨s, .extraForbidden⟩]
  | k => [⟨keyName k, .invalidKey⟩]

/-- The settings that named values describe, by the rules of `Library.standard`. -/
def ofEntries (entries : List (Key × Value)) : Except Error Settings :=
  let set := given opcodeSetName .swapVm toOpcodeSet entries
  let length := given maxProgramLengthName ⟨65535, by decide⟩ toLength entries
  let strict := given strictAuctionsName true toTruth entries
  let stray := entries.flatMap strayIssue
  match set, length, strict, stray with
  | .ok set, .ok ⟨length, positive⟩, .ok strict, [] => .ok ⟨set, length, strict, positive⟩
  | set, length, strict, stray =>
    .error (.invalidSettings (issueOf opcodeSetName set ++ issueOf maxProgramLengthName length
      ++ issueOf strictAuctionsName strict ++ stray))

/-- Settings never change: what an attempt to change one fails with. -/
def assign (name : String) : Error := .invalidSettings [⟨name, .frozenInstance⟩]

end Settings

end SwapCodec

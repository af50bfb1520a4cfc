import SwapCodec.Text.Numeral

/-!
# Grammars of command lines

A command takes options, which are told apart by their names, and operands, which are told apart by
their order. A `Grammar` lists both.

`Grammar.token?` says what a single argument is. An option is spelled by two dashes and its name,
and its value may be attached behind an equals sign. A beginning of a name stands for the name if
only one option has it; a beginning that several names share means nothing. An argument that looks
like an option and is none is still an operand if it is a negative number or holds a space, and
behind the separator `--` every argument is an operand (`Grammar.tokens?`).
-/

set_option autoImplicit false

namespace SwapCodec.CommandLine

/-- What a value may be. -/
inductive ValueForm where
  /-- Any text. -/
  | text
  /-- An integer in base ten. -/
  | integer
  /-- One of the given names. -/
  | oneOf (names : List String)
  deriving DecidableEq, Repr

/-- What a command line gives for an option or an operand. -/
inductive Given where
  /-- The option is there. -/
  | present
  /-- The option is there, but its value is left out. -/
  | nothing
  /-- A text. -/
  | text (s : String)
  /-- An integer. -/
  | integer (n : Int)
  deriving DecidableEq, Repr

/-- The value that a text spells. -/
def ValueForm.read? : ValueForm → String → Option Given
  | text, s => some (.text s)
  | integer, s => (Text.readDecimal s).map .integer
  | oneOf names, s => if names.contains s then some (.text s) else none

/-- The spelling of the separator. -/
def separatorMark : String := "--"

/-- The value that a text attached to an option spells. The separator stands for no value, which
only an integer may not be. -/
def ValueForm.readAttached? (f : ValueForm) (s : String) : Option Given :=
  if s == separatorMark && f != .integer then some .nothing else f.read? s

/-- What an option is for. -/
inductive OptionRole where
  /-- It is there or not. -/
  | flag
  /-- It has a value. -/
  | value (form : ValueForm)
  /-- It asks for help. -/
  | help
  deriving DecidableEq, Repr

/-- An option of a command. -/
structure CommandOption where
  /-- The name, without dashes. -/
  name : String
  /-- What the option is for. -/
  role : OptionRole := .flag
  deriving DecidableEq, Repr

/-- An operand of a command. -/
structure Operand where
  /-- The name. -/
  name : String
  /-- What the operand may be. -/
  form : ValueForm := .text
  deriving DecidableEq, Repr

/-- The options and operands that a command line may have. -/
structure Grammar where
  /-- The options. -/
  options : List CommandOption
  /-- The operands, each of which has to be there. -/
  operands : List Operand := []
  /-- At most one of the options may be there. -/
  exclusive : Bool := false

/-- What an argument is. -/
inductive Token where
  /-- A value. -/
  | operand (s : String)
  /-- An option with the value attached to it, if there is one. -/
  | option (o : CommandOption) (attached : Option String)
  /-- An option that the grammar does not have. -/
  | unknown (s : String)
  /-- The mark behind which there are only values. -/
  | separator
  deriving DecidableEq, Repr

/-- The spelling of an option. -/
def CommandOption.spelling (o : CommandOption) : String := "--" ++ o.name

/-- The characters before the first equals sign, and those behind it. -/
def splitAttached (cs : List Char) : List Char × Option (List Char) :=
  (cs.takeWhile (· != '='),
    match cs.dropWhile (· != '=') with
    | _ :: value => some value
    | [] => none)

/-- A decimal digit of any script. -/
def isDigit (c : Char) : Bool := (Text.digitValue? c).isSome

/-- A minus sign with an integer or a decimal fraction behind it; a line end may follow. -/
def isNegativeNumber (cs : List Char) : Bool :=
  match (if cs.getLast? == some '\n' then cs.dropLast else cs) with
  | '-' :: rest =>
    match rest.dropWhile isDigit with
    | [] => !rest.isEmpty
    | '.' :: fraction => !fraction.isEmpty && fraction.all isDigit
    | _ => false
  | _ => false

/-- What an argument with a leading dash is if the grammar has no such option. -/
def strayToken (s : String) : Token :=
  if isNegativeNumber s.toList || s.toList.contains ' ' then .operand s else .unknown s

/-- What the short option for help carries: more of its letters and then anything else ask for help
too, unless a value or a dash is attached. -/
def attachedToHelp (cs : List Char) : Option String :=
  match cs.dropWhile (· == 'h') with
  | '=' :: value => some (String.ofList value)
  | '-' :: value => some (String.ofList ('-' :: value))
  | _ => none

namespace Grammar

/-- The option that asks for help. -/
def help? (g : Grammar) : Option CommandOption :=
  g.options.find? fun o => o.role == .help

/-- The options that a name may stand for: the one of this name, or those that begin with it. -/
def meanings (g : Grammar) (name : List Char) : List CommandOption :=
  match g.options.find? fun o => o.name.toList == name with
  | some o => [o]
  | none => g.options.filter fun o => name.isPrefixOf o.name.toList

/-- What an argument is, unless it may stand for several options. -/
def token? (g : Grammar) (s : String) : Option Token :=
  match s.toList with
  | '-' :: '-' :: cs =>
    let (name, attached) := splitAttached cs
    match g.meanings name with
    | [] => some (strayToken s)
    | [o] => some (.option o (attached.map String.ofList))
    | _ => none
  | '-' :: 'h' :: cs =>
    match g.help? with
    | some o => some (.option o (attachedToHelp cs))
    | none => some (strayToken s)
  | '-' :: _ :: _ => some (strayToken s)
  | _ => some (.operand s)

/-- What each argument of a command line is. -/
def tokens? (g : Grammar) : List String → Option (List Token)
  | [] => some []
  | s :: rest =>
    if s == separatorMark then some (.separator :: rest.map .operand)
    else do
      let t ← g.token? s
      let ts ← g.tokens? rest
      return t :: ts

end Grammar

end SwapCodec.CommandLine

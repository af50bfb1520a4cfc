import SwapCodec.CommandLine.Grammar
import SwapCodec.CommandLine.Stop

/-!
# Arguments

`Grammar.readKnown` reads a command line and keeps what the grammar does not know, and
`Grammar.readAll` takes only a command line that the grammar knows as a whole. Operands are filled
in order, and an option given twice has the value that comes last.

An option that is not spelled out on the command line can come from a variable of the environment,
which is named after it (`CommandOption.variable`). Such options are put in front of the command
line, so the command line wins over them (`Grammar.withVariables`). A library does this; `Variables`
holds what is relied on, and `Variables.ofList` is a reading of this kind.
-/

set_option autoImplicit false

namespace SwapCodec.CommandLine

/-- What a command line gives. -/
structure Arguments where
  /-- The options and operands, the last one first. -/
  given : List (String × Given) := []
  /-- The arguments that the grammar does not know, in order. -/
  unknown : List String := []

namespace Arguments

/-- The option or operand is there. -/
def has (a : Arguments) (name : String) : Bool := (a.given.lookup name).isSome

/-- The text given for an option or operand. -/
def text? (a : Arguments) (name : String) : Option String :=
  match a.given.lookup name with
  | some (.text s) => some s
  | _ => none

/-- The text of an operand. -/
def operand (a : Arguments) (name : String) : String := (a.text? name).getD ""

/-- The integer given for an option. -/
def integer? (a : Arguments) (name : String) : Option Int :=
  match a.given.lookup name with
  | some (.integer n) => some n
  | _ => none

/-- One more option or operand. -/
def give (a : Arguments) (name : String) (v : Given) : Arguments :=
  { a with given := (name, v) :: a.given }

/-- One more argument that the grammar does not know. -/
def leave (a : Arguments) (s : String) : Arguments :=
  { a with unknown := a.unknown ++ [s] }

end Arguments

/-- The beginning of the name of every variable. -/
def variableStem : String := "SWAPVM_"

/-- The variable of the environment that stands for an option. -/
def CommandOption.variable (o : CommandOption) : String :=
  variableStem ++ o.name.map fun c => if c == '-' then '_' else c.toUpper

/-- The spellings of a truth value in a variable. -/
def readSwitch? (s : String) : Option Bool :=
  let s := s.map Char.toLower
  if ["true", "yes", "on", "1"].contains s then some true
  else if ["false", "no", "off", "0"].contains s then some false
  else none

/-- The spelling of an option on a command line, without an attached value. -/
def spelled (s : String) : String :=
  match s.toList with
  | '-' :: cs => String.ofList ('-' :: (splitAttached cs).1)
  | _ => s

/-- The arguments by which the text of a variable stands for an option; `switch?` reads a truth
value. -/
def CommandOption.fromVariable (switch? : String → Option Bool) (o : CommandOption)
    (text : String) : Except Stop (List String) :=
  match o.role with
  | .help => .ok []
  | .value _ => .ok [o.spelling ++ "=" ++ text]
  | .flag =>
    match switch? text with
    | some true => .ok [o.spelling]
    | some false => .ok []
    | none => .error .usage

/-- The text among the given ones that stands for an option which a line does not spell out. -/
def CommandOption.inherited? (o : CommandOption) (texts : List (String × String))
    (line : List String) : Option String :=
  if (line.map spelled).contains o.spelling then none else texts.lookup o.variable

/-- The variables of the environment, and how a library reads options from them. The options that a
line does not spell out are put in front of the line, each with the text of its variable, and
which texts spell a truth value is left to the library. -/
structure Variables where
  /-- The texts of the variables. -/
  texts : List (String × String)
  /-- The truth value that a text spells. -/
  switch? : String → Option Bool
  /-- The arguments that are put in front of a line for the given options. -/
  words : List String → List CommandOption → Except Stop (List String)
  /-- No options, no arguments. -/
  words_nil (line : List String) : words line [] = .ok []
  /-- An option without a text, or one that the line spells out, adds nothing. -/
  words_of_none (line : List String) (o : CommandOption) (os : List CommandOption) :
    o.inherited? texts line = none → words line (o :: os) = words line os
  /-- Any other option adds the arguments that stand for it with its text. -/
  words_of_some (line : List String) (o : CommandOption) (os : List CommandOption) (text : String) :
    o.inherited? texts line = some text →
      words line (o :: os) = do
        let here ← o.fromVariable switch? text
        let more ← words line os
        return here ++ more

namespace Variables

/-- The text of a variable. -/
def lookup (env : Variables) (name : String) : Option String := env.texts.lookup name

/-- The arguments that texts of variables add for the given options. -/
def wordsOf (texts : List (String × String)) (line : List String) :
    List CommandOption → Except Stop (List String)
  | [] => .ok []
  | o :: rest =>
    match o.inherited? texts line with
    | none => wordsOf texts line rest
    | some text => do
      let here ← o.fromVariable readSwitch? text
      let more ← wordsOf texts line rest
      return here ++ more

/-- Variables with the given texts, in the standard reading. -/
def ofList (texts : List (String × String)) : Variables where
  texts := texts
  switch? := readSwitch?
  words := wordsOf texts
  words_nil _ := rfl
  words_of_none line o os none := by rw [wordsOf, none]
  words_of_some line o os text some := by rw [wordsOf, some]

end Variables

namespace Grammar

/-- The command line with the options from the environment in front of it. -/
def withVariables (g : Grammar) (env : Variables) (line : List String) :
    Except Stop (List String) := do
  let added ← env.words line g.options
  return added ++ line

/-- Another option of the grammar is there already, and they exclude each other. -/
def clashes (g : Grammar) (o : CommandOption) (a : Arguments) : Bool :=
  g.exclusive && g.options.any fun p => p.name != o.name && a.has p.name

/-- Reads what follows: `operands` are still to be filled, and `filled` says that the argument just
before went to an operand. -/
def readFrom (g : Grammar) : List Operand → Bool → Arguments → List Token → Except Stop Arguments
  | [], _, a, [] => .ok a
  | _ :: _, _, _, [] => .error .usage
  | p :: more, _, a, .operand s :: ts =>
    match p.form.read? s with
    | some v => g.readFrom more true (a.give p.name v) ts
    | none => .error .usage
  | [], _, a, .operand s :: ts => g.readFrom [] false (a.leave s) ts
  | [], false, a, .separator :: ts => g.readFrom [] false (a.leave separatorMark) ts
  | operands, _, a, .separator :: ts => g.readFrom operands false a ts
  | operands, _, a, .unknown s :: ts => g.readFrom operands false (a.leave s) ts
  | operands, _, a, .option o attached :: ts =>
    match o.role, attached with
    | .help, none => .error .help
    | .flag, none =>
      if g.clashes o a then .error .usage
      else g.readFrom operands false (a.give o.name .present) ts
    | .value form, some s =>
      match form.readAttached? s with
      | some v => g.readFrom operands false (a.give o.name v) ts
      | none => .error .usage
    | .value form, none =>
      match ts with
      | .operand s :: ts =>
        match form.read? s with
        | some v => g.readFrom operands false (a.give o.name v) ts
        | none => .error .usage
      | _ => .error .usage
    | _, some _ => .error .usage

/-- What a command line gives, with the arguments that the grammar does not know. -/
def readKnown (g : Grammar) (env : Variables) (line : List String) : Except Stop Arguments := do
  let line ← g.withVariables env line
  match g.tokens? line with
  | some ts => g.readFrom g.operands false {} ts
  | none => .error .usage

/-- What a command line gives if the grammar knows all of it. -/
def readAll (g : Grammar) (env : Variables) (line : List String) : Except Stop Arguments := do
  let a ← g.readKnown env line
  if a.unknown.isEmpty then return a else .error .usage

end Grammar

end SwapCodec.CommandLine

import SwapCodec.Binary64.Text
import SwapCodec.Text.Numeral
import SwapCodec.Text.Quoted
import SwapCodec.Value

/-!
# Text of values

`Value.quoted?` shows a value as an error message quotes it: texts in quotes, containers with
their elements, traits and argument records with the names of their fields. `Value.plain?` is the
same but for a text, which stands as it is, and for an opcode, which shows its dotted name.
Neither exists for a value that holds an integer with too many digits.
-/

set_option autoImplicit false

namespace SwapCodec

/-- The texts with a separator between them. -/
def joined (separator : String) : List String → String
  | [] => ""
  | s :: rest => rest.foldl (fun text t => text ++ separator ++ t) s

/-- The spelling of a truth value. -/
def boolText (b : Bool) : String := if b then "True" else "False"

namespace Key

/-- The quoted key. -/
def quoted? : Key → Option String
  | null => some "None"
  | bool b => some (boolText b)
  | int n => Text.decimal? n
  | float x => some x.text
  | str s => some (Text.quoted s)

end Key

namespace Opcode

/-- The quoted identity of an instruction. -/
def quoted (o : Opcode) : String :=
  "<OpcodeId." ++ o.capitals ++ ": " ++ Text.quoted o.dotted ++ ">"

end Opcode

namespace Value

mutual

/-- The value as an error message quotes it. -/
def quoted? : Value → Option String
  | null => some "None"
  | bool b => some (boolText b)
  | int n => Text.decimal? n
  | float x => some x.text
  | str s => some (Text.quoted s)
  | bytes data => some (Text.quotedBytes data)
  | list items => do
    let parts ← quotedAll? items
    return "[" ++ joined ", " parts ++ "]"
  | tuple items => do
    let parts ← quotedAll? items
    return "(" ++ joined ", " parts ++ (if parts.length == 1 then ",)" else ")")
  | dict entries => do
    let parts ← quotedEntries? entries
    return "\x7b" ++ joined ", " parts ++ "\x7d"
  | traits t => do
    let parts ← t.fields.mapM fun f =>
      match f.2 with
      | .int n => (Text.decimal? n).map fun s => f.1 ++ "=" ++ s
      | .bool b => some (f.1 ++ "=" ++ boolText b)
    return t.kind.name ++ "(" ++ joined ", " parts ++ ")"
  | args record fields => do
    let parts ← quotedFields? fields
    return record ++ "(" ++ joined ", " parts ++ ")"
  | opcode o => some o.quoted

/-- Each value of a list, quoted. -/
def quotedAll? : List Value → Option (List String)
  | [] => some []
  | v :: rest => do
    let s ← quoted? v
    let more ← quotedAll? rest
    return s :: more

/-- Each entry of a dictionary, quoted. -/
def quotedEntries? : List (Key × Value) → Option (List String)
  | [] => some []
  | (k, v) :: rest => do
    let name ← k.quoted?
    let s ← quoted? v
    let more ← quotedEntries? rest
    return (name ++ ": " ++ s) :: more

/-- Each field of a record, quoted. -/
def quotedFields? : List (String × Value) → Option (List String)
  | [] => some []
  | (name, v) :: rest => do
    let s ← quoted? v
    let more ← quotedFields? rest
    return (name ++ "=" ++ s) :: more

end

/-- The value as running text. -/
def plain? : Value → Option String
  | str s => some s
  | opcode o => some o.dotted
  | v => v.quoted?

end Value

end SwapCodec

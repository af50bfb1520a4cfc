import SwapCodec.Error

/-!
# Writing documents

A document is written in ASCII: quotes, backslashes, controls and everything outside ASCII are
escaped, a character beyond the first plane as two escapes. `Json.compact` writes one line, and
`Json.indented` puts each element of a list or a dictionary on a line of its own, two spaces
further in.

Texts, numbers, truth values, lists, tuples and dictionaries with texts as keys can be written.
-/

set_option autoImplicit false

namespace SwapCodec.Json

/-- An escape by the number of a 16-bit unit. -/
def unitEscape (n : Nat) : List Char := '\\' :: 'u' :: Text.paddedHex 4 n

/-- The written form of a character of a text. -/
def escapeChar (c : Char) : List Char :=
  if c == '"' || c == '\\' then ['\\', c]
  else if c == '\n' then ['\\', 'n']
  else if c == '\r' then ['\\', 'r']
  else if c == '\t' then ['\\', 't']
  else if c == '\x08' then ['\\', 'b']
  else if c == '\x0c' then ['\\', 'f']
  else if ' ' ≤ c && c ≤ '~' then [c]
  else if c.toNat < 0x10000 then unitEscape c.toNat
  else
    let n := c.toNat - 0x10000
    unitEscape (0xd800 + n / 0x400) ++ unitEscape (0xdc00 + n % 0x400)

/-- A text between quotes. -/
def quoted (s : String) : String :=
  String.ofList ('"' :: s.toList.flatMap escapeChar ++ ['"'])

/-- How the elements of a list or a dictionary are set out. -/
inductive Style where
  /-- On one line. -/
  | compact
  /-- Each on a line of its own. -/
  | indented
  deriving DecidableEq, Repr

/-- The start of a line at a depth of nesting. -/
def lineStart (depth : Nat) : String :=
  String.ofList ('\n' :: List.replicate (2 * depth) ' ')

/-- The written elements between brackets. -/
def bracketed (style : Style) (depth : Nat) (first last : String) (parts : List String) : String :=
  if parts.isEmpty then first ++ last
  else match style with
    | .compact => first ++ joined ", " parts ++ last
    | .indented =>
      let start := lineStart (depth + 1)
      first ++ start ++ joined ("," ++ start) parts ++ lineStart depth ++ last

/-- A double, with names for the values that are no numbers. -/
def floatText : Binary64 → String
  | .nan => "NaN"
  | .infinite false => "Infinity"
  | .infinite true => "-Infinity"
  | x => x.text

mutual

/-- The written form of a value at a depth of nesting. -/
def write (style : Style) (depth : Nat) : Value → Except Error String
  | .null => .ok "null"
  | .bool b => .ok (if b then "true" else "false")
  | .int n =>
    match Text.decimal? n with
    | some s => .ok s
    | none => fail (.fault .value)
  | .float x => .ok (floatText x)
  | .str s => .ok (quoted s)
  | .list items => do
    let parts ← writeAll style (depth + 1) items
    return bracketed style depth "[" "]" parts
  | .tuple items => do
    let parts ← writeAll style (depth + 1) items
    return bracketed style depth "[" "]" parts
  | .dict entries => do
    let parts ← writeEntries style (depth + 1) entries
    return bracketed style depth "\x7b" "\x7d" parts
  | _ => fail (.fault .type)

/-- The written form of each value of a list. -/
def writeAll (style : Style) (depth : Nat) : List Value → Except Error (List String)
  | [] => .ok []
  | v :: rest => do
    let s ← write style depth v
    let more ← writeAll style depth rest
    return s :: more

/-- The written form of each entry of a dictionary. -/
def writeEntries (style : Style) (depth : Nat) :
    List (Key × Value) → Except Error (List String)
  | [] => .ok []
  | (.str key, v) :: rest => do
    let s ← write style depth v
    let more ← writeEntries style depth rest
    return (quoted key ++ ": " ++ s) :: more
  | _ => fail (.fault .type)

end

/-- The value on one line. -/
def compact (v : Value) : Except Error String := write .compact 0 v

/-- The value with each element on a line of its own. -/
def indented (v : Value) : Except Error String := write .indented 0 v

end SwapCodec.Json

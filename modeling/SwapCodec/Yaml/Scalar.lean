import SwapCodec.Binary64.Text
import SwapCodec.Error
import SwapCodec.Text.Numeral

/-!
# Plain scalars

What a scalar without quotes stands for. A word of the language is a truth value or null, a numeral
is an integer or a double, and everything else is a text.

Integers are decimal, octal behind a leading zero, hexadecimal behind `0x`, binary behind `0b`, or
sexagesimal with colons between the digits. A double has a point. Underscores may stand anywhere
among the digits. A numeral without a digit and one with too many are at fault.
-/

set_option autoImplicit false

namespace SwapCodec.Yaml

/-- The words for the truth values. -/
def truthWords : List (String × Bool) :=
  [("yes", true), ("Yes", true), ("YES", true), ("no", false), ("No", false), ("NO", false),
   ("true", true), ("True", true), ("TRUE", true), ("false", false), ("False", false),
   ("FALSE", false), ("on", true), ("On", true), ("ON", true), ("off", false), ("Off", false),
   ("OFF", false)]

/-- The words for null; the empty scalar is one of them. -/
def nullWords : List String := ["~", "null", "Null", "NULL", ""]

/-- The sign of a numeral, whether it is negative, and the rest. -/
def splitSign : List Char → Bool × List Char
  | '-' :: cs => (true, cs)
  | '+' :: cs => (false, cs)
  | cs => (false, cs)

/-- An ASCII digit. -/
def isDigit (c : Char) : Bool := '0' ≤ c && c ≤ '9'

/-- A digit or an underscore. -/
def isGroupedDigit (c : Char) : Bool := isDigit c || c == '_'

/-- The characters without the underscores. -/
def ungroup (cs : List Char) : List Char := cs.filter (· != '_')

/-- The parts of a text between colons. -/
def splitColons : List Char → List (List Char)
  | [] => [[]]
  | ':' :: cs => [] :: splitColons cs
  | c :: cs =>
    match splitColons cs with
    | part :: parts => (c :: part) :: parts
    | [] => [[c]]

/-- A sexagesimal place: one digit, or two of which the first is at most five. -/
def isSexagesimalPlace : List Char → Bool
  | [c] => isDigit c
  | [c, d] => '0' ≤ c && c ≤ '5' && isDigit d
  | _ => false

/-- Digits that start with a digit other than zero. -/
def isPositiveNumeral : List Char → Bool
  | c :: cs => '1' ≤ c && c ≤ '9' && cs.all isGroupedDigit
  | [] => false

/-- The value of digits in a base, if there are any. -/
def valueIn? (base : Nat) (cs : List Char) : Option Nat :=
  let ds := (ungroup cs).filterMap (Text.digitIn? base)
  if ds.isEmpty then none else some (Text.ofDigits base ds)

/-- The value of a base-ten numeral, if it has not too many digits. -/
def decimalValue? (cs : List Char) : Option Nat :=
  if (ungroup cs).length ≤ Text.digitLimit then valueIn? 10 cs else none

/-- The value of sexagesimal places, the most significant first. -/
def sexagesimalValue? (places : List (List Char)) : Option Nat :=
  (places.mapM decimalValue?).map (Text.ofDigits 60)

/-- A numeral without its sign as a natural number. The outer option tells whether it is an
integer at all, the inner one whether it has a value. -/
def readMagnitude (cs : List Char) : Option (Option Nat) :=
  match cs with
  | ['0'] => some (some 0)
  | '0' :: 'b' :: rest =>
    if !rest.isEmpty && rest.all (fun c => c == '0' || c == '1' || c == '_') then
      some (valueIn? 2 rest)
    else none
  | '0' :: 'x' :: rest =>
    if !rest.isEmpty && rest.all (fun c => (Text.hexDigitValue? c).isSome || c == '_') then
      some (valueIn? 16 rest)
    else none
  | '0' :: rest =>
    if rest.all (fun c => ('0' ≤ c && c ≤ '7') || c == '_') then some (valueIn? 8 ('0' :: rest))
    else none
  | _ =>
    match splitColons cs with
    | [whole] => if isPositiveNumeral whole then some (decimalValue? whole) else none
    | whole :: places =>
      if isPositiveNumeral whole && places.all isSexagesimalPlace then
        some (sexagesimalValue? (whole :: places))
      else none
    | [] => none

/-- The exponent of a double: a sign and digits. -/
def isExponent : List Char → Bool
  | [] => true
  | c :: sign :: ds =>
    (c == 'e' || c == 'E') && (sign == '+' || sign == '-') && !ds.isEmpty && ds.all isDigit
  | _ => false

/-- The first character is a digit. -/
def startsWithDigit (cs : List Char) : Bool := (cs.head?.map isDigit).getD false

/-- A double without its sign, with a point among its digits. A point may come first only if a
digit follows it and there is no sign. -/
def isPointed (signed : Bool) (cs : List Char) : Bool :=
  let whole := cs.takeWhile isGroupedDigit
  match cs.dropWhile isGroupedDigit with
  | '.' :: rest =>
    isExponent (rest.dropWhile isGroupedDigit) &&
      (startsWithDigit whole || (whole.isEmpty && !signed && startsWithDigit rest))
  | _ => false

/-- A sexagesimal double without its sign: places between colons, the last with a point. -/
def sexagesimalParts? (cs : List Char) : Option (List (List Char) × List Char) :=
  match (splitColons cs).reverse with
  | last :: before =>
    let place := last.takeWhile (· != '.')
    match last.dropWhile (· != '.') with
    | '.' :: fraction =>
      match before.reverse with
      | whole :: places =>
        if startsWithDigit whole && whole.all isGroupedDigit &&
            (places ++ [place]).all isSexagesimalPlace && fraction.all isGroupedDigit then
          some (whole :: places ++ [place], fraction)
        else none
      | [] => none
    | _ => none
  | [] => none

/-- The words for the infinite double. -/
def infinityWords : List String := [".inf", ".Inf", ".INF"]

/-- The words for the double that is no number. -/
def nanWords : List String := [".nan", ".NaN", ".NAN"]

/-- The double that a scalar denotes. -/
def readDouble? (s : String) : Option Binary64 :=
  let (negative, cs) := splitSign s.toList
  let signed := cs.length < s.length
  if nanWords.contains s then some .nan
  else if infinityWords.contains (String.ofList cs) then some (.infinite negative)
  else
    match sexagesimalParts? cs with
    | some (places, fraction) =>
      let ds := (ungroup fraction).filterMap (Text.digitIn? 10)
      let scale := Nat.pow 10 ds.length
      let whole := Text.ofDigits 60 (places.map fun p => (valueIn? 10 p).getD 0)
      some (Binary64.ofRatio negative (whole * scale + Text.ofDigits 10 ds) scale)
    | none =>
      if isPointed signed cs then
        Binary64.read? (String.ofList ((if negative then ['-'] else []) ++ ungroup cs))
      else none

/-- The integer that a scalar denotes, with the failure of one that has no value. -/
def readInteger? (s : String) : Option (Except Error Int) :=
  let (negative, cs) := splitSign s.toList
  (readMagnitude cs).map fun magnitude =>
    match magnitude with
    | some n => .ok (if negative then -(n : Int) else n)
    | none => fail (.fault .value)

/-- The word that merges mappings; it has no meaning outside the keys of a mapping. -/
def mergeWord : String := "<<"

/-- The word for a default value, which is a text as a key and has no meaning elsewhere. -/
def defaultWord : String := "="

/-- The value of a plain scalar. -/
def plainValue (s : String) : Except Error Value :=
  if nullWords.contains s then .ok .null
  else if s == mergeWord || s == defaultWord then .error .yamlSyntax
  else
    match truthWords.lookup s with
    | some b => .ok (.bool b)
    | none =>
      match readDouble? s with
      | some x => .ok (.float x)
      | none =>
        match readInteger? s with
        | some r => r.map .int
        | none => .ok (.str s)

end SwapCodec.Yaml

import SwapCodec.Binary64.Text
import SwapCodec.Text.Numeral
import SwapCodec.Value

/-!
# Reading documents

`Json.read` takes a text apart into a value. Blanks are spaces, tabs and line ends. A number with a
fraction or an exponent is a double and any other is an integer, of at most the given number of
digits. `NaN`, `Infinity` and `-Infinity` are read too. Of two entries with the same key the later
one counts, at the place of the earlier one.

Every step returns the text that it leaves, and a bound on the number of steps is counted down; a
text needs at most one step for each of its characters.
-/

set_option autoImplicit false

namespace SwapCodec.Json

/-- Why a text is no document. -/
inductive Flaw where
  /-- The text does not follow the grammar. -/
  | malformed
  /-- An integer has too many digits. -/
  | numeralTooLong
  deriving DecidableEq, Repr

/-- What is read from the front of a text, with the text behind it. -/
abbrev Step (α : Type) : Type := Except Flaw (α × List Char)

/-- A blank between the parts of a document. -/
def isBlank (c : Char) : Bool :=
  c == ' ' || c == '\t' || c == '\n' || c == '\r'

/-- The text behind its leading blanks. -/
def skipBlanks (cs : List Char) : List Char := cs.dropWhile isBlank

/-- An ASCII digit. -/
def isDigit (c : Char) : Bool := '0' ≤ c && c ≤ '9'

/-- The natural number that four hexadecimal digits denote, with the text behind them. -/
def unit? : List Char → Option (Nat × List Char)
  | a :: b :: c :: d :: rest => do
    let a ← Text.hexDigitValue? a
    let b ← Text.hexDigitValue? b
    let c ← Text.hexDigitValue? c
    let d ← Text.hexDigitValue? d
    return (((a * 16 + b) * 16 + c) * 16 + d, rest)
  | _ => none

/-- The character of an escape by number; a high unit takes the low unit behind it along. -/
def unitChar? (cs : List Char) : Option (Char × List Char) := do
  let (n, rest) ← unit? cs
  if 0xd800 ≤ n ∧ n < 0xdc00 then
    match rest with
    | '\\' :: 'u' :: more =>
      match unit? more with
      | some (m, tail) =>
        if 0xdc00 ≤ m ∧ m < 0xe000 then
          return (Char.ofNat (0x10000 + (n - 0xd800) * 0x400 + (m - 0xdc00)), tail)
        else return ('\ufffd', rest)
      | none => return ('\ufffd', rest)
    | _ => return ('\ufffd', rest)
  else if 0xdc00 ≤ n ∧ n < 0xe000 then return ('\ufffd', rest)
  else return (Char.ofNat n, rest)

/-- The character that an escape by letter stands for. -/
def letterEscape? : Char → Option Char
  | '"' => some '"'
  | '\\' => some '\\'
  | '/' => some '/'
  | 'b' => some '\x08'
  | 'f' => some '\x0c'
  | 'n' => some '\n'
  | 'r' => some '\r'
  | 't' => some '\t'
  | _ => none

/-- The rest of a text up to its closing quote; `done` holds the characters so far, the last one
first. -/
def readText (done : List Char) : Nat → List Char → Step String
  | 0, _ => .error .malformed
  | fuel + 1, cs =>
    match cs with
    | [] => .error .malformed
    | '"' :: rest => .ok (String.ofList done.reverse, rest)
    | '\\' :: 'u' :: rest =>
      match unitChar? rest with
      | some (c, more) => readText (c :: done) fuel more
      | none => .error .malformed
    | '\\' :: c :: rest =>
      match letterEscape? c with
      | some d => readText (d :: done) fuel rest
      | none => .error .malformed
    | c :: rest =>
      if c < ' ' then .error .malformed else readText (c :: done) fuel rest

/-- The digits of an integer without a sign: zero alone, or digits that do not start with zero. -/
def integerDigits? : List Char → Option (List Char × List Char)
  | '0' :: rest => some (['0'], rest)
  | cs =>
    let digits := cs.takeWhile isDigit
    if digits.isEmpty then none else some (digits, cs.dropWhile isDigit)

/-- The digits of a fraction behind its point, if there is one. -/
def fractionDigits : List Char → List Char × List Char
  | '.' :: rest =>
    let digits := rest.takeWhile isDigit
    if digits.isEmpty then ([], '.' :: rest) else (digits, rest.dropWhile isDigit)
  | cs => ([], cs)

/-- The natural number with the given ASCII digits. -/
def digitsValue (digits : List Char) : Nat :=
  Text.ofDigits 10 (digits.map fun c => c.toNat - '0'.toNat)

/-- The digits of an exponent behind its letter and sign. -/
def signedExponent? (negative : Bool) (tail : List Char) : Option (Int × List Char) :=
  let digits := tail.takeWhile isDigit
  if digits.isEmpty then none
  else
    let n : Int := digitsValue digits
    some (if negative then -n else n, tail.dropWhile isDigit)

/-- An exponent, if there is one. -/
def exponent? : List Char → Option (Int × List Char)
  | c :: rest =>
    if c == 'e' || c == 'E' then
      match rest with
      | '-' :: more => signedExponent? true more
      | '+' :: more => signedExponent? false more
      | more => signedExponent? false more
    else none
  | [] => none

/-- A number whose sign has been read. -/
def readNumber (digitLimit : Nat) (negative : Bool) (cs : List Char) : Step Value :=
  match integerDigits? cs with
  | none => .error .malformed
  | some (digits, rest) =>
    let (fraction, rest) := fractionDigits rest
    match exponent? rest with
    | some (e, rest) =>
      let n := digitsValue (digits ++ fraction)
      .ok (.float (Binary64.ofDecimal negative n (e - fraction.length)), rest)
    | none =>
      if fraction.isEmpty then
        if digitLimit < digits.length then .error .numeralTooLong
        else
          let n : Int := digitsValue digits
          .ok (.int (if negative then -n else n), rest)
      else
        let n := digitsValue (digits ++ fraction)
        .ok (.float (Binary64.ofDecimal negative n (-fraction.length)), rest)

/-- The text behind a word that it starts with. -/
def afterWord? : List Char → List Char → Option (List Char)
  | [], cs => some cs
  | c :: word, d :: cs => if c == d then afterWord? word cs else none
  | _ :: _, [] => none

/-- The values that are written as words. -/
def words : List (String × Value) :=
  [("null", .null), ("true", .bool true), ("false", .bool false), ("NaN", .float .nan),
   ("Infinity", .float (.infinite false)), ("-Infinity", .float (.infinite true))]

/-- A value that is written as a word. -/
def readWord? (cs : List Char) : Option (Value × List Char) :=
  words.findSome? fun w => (afterWord? w.1.toList cs).map fun rest => (w.2, rest)

/-- A value that is no list, dictionary or text. -/
def readScalar (digitLimit : Nat) (cs : List Char) : Step Value :=
  match readWord? cs with
  | some found => .ok found
  | none =>
    match cs with
    | '-' :: rest => readNumber digitLimit true rest
    | _ => readNumber digitLimit false cs

mutual

/-- A value. -/
def readValue (digitLimit : Nat) : Nat → List Char → Step Value
  | 0, _ => .error .malformed
  | fuel + 1, cs =>
    match cs with
    | '"' :: rest =>
      match readText [] fuel rest with
      | .ok (s, rest) => .ok (.str s, rest)
      | .error flaw => .error flaw
    | '[' :: rest =>
      match skipBlanks rest with
      | ']' :: more => .ok (.list [], more)
      | items => readItems digitLimit [] fuel items
    | '\x7b' :: rest =>
      match skipBlanks rest with
      | '\x7d' :: more => .ok (.dict [], more)
      | entries => readEntries digitLimit [] fuel entries
    | _ => readScalar digitLimit cs

/-- The rest of a list from its next value on. -/
def readItems (digitLimit : Nat) (done : List Value) : Nat → List Char → Step Value
  | 0, _ => .error .malformed
  | fuel + 1, cs =>
    match readValue digitLimit fuel cs with
    | .error flaw => .error flaw
    | .ok (v, rest) =>
      match skipBlanks rest with
      | ',' :: more => readItems digitLimit (v :: done) fuel (skipBlanks more)
      | ']' :: more => .ok (.list (v :: done).reverse, more)
      | _ => .error .malformed

/-- The rest of a dictionary from its next key on. -/
def readEntries (digitLimit : Nat) (done : List (Key × Value)) : Nat → List Char → Step Value
  | 0, _ => .error .malformed
  | fuel + 1, cs =>
    match cs with
    | '"' :: rest =>
      match readText [] fuel rest with
      | .error flaw => .error flaw
      | .ok (key, rest) =>
        match skipBlanks rest with
        | ':' :: more =>
          match readValue digitLimit fuel (skipBlanks more) with
          | .error flaw => .error flaw
          | .ok (v, rest) =>
            let entries := putEntry (.str key) v done
            match skipBlanks rest with
            | ',' :: more => readEntries digitLimit entries fuel (skipBlanks more)
            | '\x7d' :: more => .ok (.dict entries, more)
            | _ => .error .malformed
        | _ => .error .malformed
    | _ => .error .malformed

end

/-- Reads a document with nothing but blanks around it. -/
def readWithin (digitLimit : Nat) (s : String) : Except Flaw Value :=
  let cs := s.toList
  match readValue digitLimit (cs.length + 1) (skipBlanks cs) with
  | .error flaw => .error flaw
  | .ok (v, rest) => if (skipBlanks rest).isEmpty then .ok v else .error .malformed

/-- Reads a document whose integers have at most `Text.digitLimit` digits. -/
def read (s : String) : Except Flaw Value := readWithin Text.digitLimit s

end SwapCodec.Json

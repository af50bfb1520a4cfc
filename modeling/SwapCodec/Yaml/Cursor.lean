import SwapCodec.Text.Numeral

/-!
# Places in a YAML text

A `Cursor` is a place in a text: what is left, and the line and the column. This module reads the
parts of a document that do not nest: the gap between two tokens (blanks, comments and line ends),
plain scalars and quoted scalars.

A scalar may run over several lines. A single line end in it becomes a space, and of several line
ends the first is dropped. A plain scalar ends before a comment, before a colon with a blank behind
it, and before a line that is not indented far enough.

Loops count down a number of steps, which the length of the text bounds.
-/

set_option autoImplicit false

namespace SwapCodec.Yaml

/-- The end of a line. -/
def isBreak (c : Char) : Bool := c == '\n' || c == '\u2028' || c == '\u2029'

/-- A space, a tab or the end of a line. -/
def isSeparator (c : Char) : Bool := c == ' ' || c == '\t' || isBreak c

/-- What is left starts with a separator, or nothing is left. -/
def startsBlank (cs : List Char) : Bool := (cs.head?.map isSeparator).getD true

/-- A character that a text may hold. -/
def isAllowed (c : Char) : Bool :=
  let n := c.toNat
  n == 0x09 || n == 0x0a || n == 0x0d || (0x20 ≤ n && n ≤ 0x7e) || n == 0x85
    || (0xa0 ≤ n && n ≤ 0xd7ff) || (0xe000 ≤ n && n ≤ 0xfffd) || 0x10000 ≤ n

/-- The text with every line end but the two wide ones written as a line feed. -/
def unifyBreaks : List Char → List Char
  | '\r' :: '\n' :: cs => '\n' :: unifyBreaks cs
  | c :: cs => (if c == '\r' || c == '\u0085' then '\n' else c) :: unifyBreaks cs
  | [] => []

/-- A place in a text. -/
structure Cursor where
  /-- What is left of the text. -/
  rest : List Char
  /-- How many characters stand before the place. -/
  index : Nat := 0
  /-- How many lines end before the place. -/
  line : Nat := 0
  /-- How many characters of the line stand before the place. -/
  column : Nat := 0

namespace Cursor

/-- The place behind the next character. -/
def next (p : Cursor) : Cursor :=
  match p.rest with
  | [] => p
  | c :: cs =>
    if isBreak c then ⟨cs, p.index + 1, p.line + 1, 0⟩
    else ⟨cs, p.index + 1, p.line, p.column + 1⟩

/-- The place `n` characters on. -/
def skip (p : Cursor) : Nat → Cursor
  | 0 => p
  | n + 1 => p.next.skip n

/-- A line of three hyphens or three points, which ends a document. -/
def atMarker (p : Cursor) : Bool :=
  p.column == 0 &&
    match p.rest with
    | a :: b :: c :: more =>
      (a == '-' || a == '.') && a == b && b == c && startsBlank more
    | _ => false

/-- The end of the text or of the document. -/
def atEnd (p : Cursor) : Bool := p.rest.isEmpty || p.atMarker

/-- The next token and whether a line ends before it, skipping spaces, comments and line ends. -/
def gap (p : Cursor) (crossed comment : Bool) : Nat → Cursor × Bool
  | 0 => (p, crossed)
  | fuel + 1 =>
    match p.rest with
    | [] => (p, crossed)
    | c :: _ =>
      if isBreak c then p.next.gap true false fuel
      else if comment || c == ' ' then p.next.gap crossed comment fuel
      else if c == '#' then p.next.gap crossed true fuel
      else (p, crossed)

/-- The next token, and whether a line ends before it. -/
def toToken (p : Cursor) : Cursor × Bool := p.gap false false (p.rest.length + 1)

end Cursor

/-- The line ends of a folded text: one becomes a space and of several the first is dropped. -/
def folded : List Char → List Char
  | [] => []
  | ['\n'] => [' ']
  | '\n' :: more => more
  | first :: more => first :: more

/-! ## Plain scalars -/

/-- The characters that start no plain scalar, unless a hyphen, a question mark or a colon is
followed by more. -/
def indicators : List Char :=
  ['-', '?', ':', ',', '[', ']', '\x7b', '\x7d', '#', '&', '*', '!', '|', '>', '\'', '"', '%', '@',
   '\x60']

/-- The characters that divide the parts of a bracketed collection. -/
def dividers : List Char := [',', '[', ']', '\x7b', '\x7d']

/-- A plain scalar starts here. -/
def startsPlain (flow : Bool) (cs : List Char) : Bool :=
  match cs with
  | [] => false
  | c :: more =>
    if isSeparator c then false
    else if indicators.contains c then
      !startsBlank more && (c == '-' || (!flow && (c == '?' || c == ':')))
    else true

/-- A colon with `more` behind it ends a plain scalar. -/
def endsAtColon (flow : Bool) (more : List Char) : Bool :=
  startsBlank more || (flow && (more.head?.map dividers.contains).getD false)

/-- The characters of a plain scalar up to the next blank or the end of the scalar. -/
def plainRun (flow : Bool) : List Char → List Char
  | [] => []
  | c :: more =>
    if isSeparator c || (c == ':' && endsAtColon flow more)
        || (flow && (c == '?' || dividers.contains c)) then []
    else c :: plainRun flow more

/-- The line ends from here to the next character, and its place; none if a document ends. -/
def plainBreaks (breaks : List Char) (p : Cursor) : Nat → Option (List Char × Cursor)
  | 0 => none
  | fuel + 1 =>
    match p.rest with
    | [] => some (breaks.reverse, p)
    | c :: _ =>
      if isBreak c then
        if p.next.atMarker then none else plainBreaks (c :: breaks) p.next fuel
      else if c == ' ' then plainBreaks breaks p.next fuel
      else some (breaks.reverse, p)

/-- What stands behind a run of a plain scalar, as it is folded, and the place behind it. -/
def plainSpaces (p : Cursor) : Option (List Char × Cursor) :=
  let spaces := p.rest.takeWhile (· == ' ')
  let q := p.skip spaces.length
  if (q.rest.head?.map isBreak).getD false then
    (plainBreaks [] q (q.rest.length + 1)).map fun found => (folded found.1, found.2)
  else some (spaces, q)

/-- A plain scalar goes on here behind the given spaces. On a later line it only goes on from the
column `least` on. -/
def goesOn (flow : Bool) (least : Int) (spaces : List Char) (p : Cursor) : Bool :=
  !spaces.isEmpty && p.rest.head? != some '#' && (flow || least ≤ p.column)
    && !(plainRun flow p.rest).isEmpty

/-- The rest of a plain scalar that goes on here, behind the characters `done`. -/
def plainRuns (flow : Bool) (least : Int) (done : List Char) (p : Cursor) :
    Nat → List Char × Cursor
  | 0 => (done, p)
  | fuel + 1 =>
    let run := plainRun flow p.rest
    let q := p.skip run.length
    match plainSpaces q with
    | none => (done ++ run, q)
    | some (spaces, r) =>
      if goesOn flow least spaces r then plainRuns flow least (done ++ run ++ spaces) r fuel
      else (done ++ run, q)

/-- The plain scalar that starts here. -/
def readPlain (flow : Bool) (least : Int) (p : Cursor) : String × Cursor :=
  let (cs, q) := plainRuns flow least [] p (p.rest.length + 1)
  (String.ofList cs, q)

/-! ## Quoted scalars -/

/-- The characters that an escape by letter stands for. -/
def letterEscapes : List (Char × Char) :=
  [('0', '\x00'), ('a', '\x07'), ('b', '\x08'), ('t', '\t'), ('\t', '\t'), ('n', '\n'),
   ('v', '\x0b'), ('f', '\x0c'), ('r', '\r'), ('e', '\x1b'), (' ', ' '), ('"', '"'),
   ('\\', '\\'), ('/', '/'), ('N', '\u0085'), ('_', '\u00a0'), ('L', '\u2028'),
   ('P', '\u2029')]

/-- How many hexadecimal digits follow the letter of an escape by number. -/
def numberEscapes : List (Char × Nat) := [('x', 2), ('u', 4), ('U', 8)]

/-- The line ends from the one here to the next character, and its place; none if a document
ends. -/
def quotedBreaks (breaks : List Char) (p : Cursor) : Nat → Option (List Char × Cursor)
  | 0 => none
  | fuel + 1 =>
    match p.rest with
    | [] => some (breaks.reverse, p)
    | c :: _ =>
      if isBreak c then
        let q := p.next
        if q.atMarker then none
        else
          let blanks := q.rest.takeWhile fun d => d == ' ' || d == '\t'
          quotedBreaks (c :: breaks) (q.skip blanks.length) fuel
      else some (breaks.reverse, p)

/-- What an escape stands for, read behind its backslash, and the place behind it. The end of a
line that is escaped stands for nothing. -/
def readEscape (p : Cursor) : Option (List Char × Cursor) :=
  match p.rest with
  | [] => none
  | c :: more =>
    match letterEscapes.lookup c with
    | some d => some ([d], p.next)
    | none =>
      match numberEscapes.lookup c with
      | some count =>
        let digits := more.take count
        if digits.length = count && digits.all fun d => (Text.hexDigitValue? d).isSome then
          let n := Text.ofDigits 16 (digits.filterMap Text.hexDigitValue?)
          some ([if n.isValidChar then Char.ofNat n else '\ufffd'], p.skip (count + 1))
        else none
      | none =>
        if isBreak c then
          (quotedBreaks [] p (p.rest.length + 1)).map fun found => (found.1.drop 1, found.2)
        else none

/-- The rest of a quoted scalar and the place behind its closing quote; `done` holds the characters
so far, the last one first. -/
def quotedRest (double : Bool) (done : List Char) (p : Cursor) : Nat → Option (String × Cursor)
  | 0 => none
  | fuel + 1 =>
    match p.rest with
    | [] => none
    | c :: more =>
      if c == '"' && double then some (String.ofList done.reverse, p.next)
      else if c == '\'' && !double then
        if more.head? == some '\'' then quotedRest double (c :: done) (p.skip 2) fuel
        else some (String.ofList done.reverse, p.next)
      else if c == '\\' && double then
        match readEscape p.next with
        | some (cs, q) => quotedRest double (cs.reverse ++ done) q fuel
        | none => none
      else if isSeparator c then
        let blanks := p.rest.takeWhile fun d => d == ' ' || d == '\t'
        let q := p.skip blanks.length
        if (q.rest.head?.map isBreak).getD false then
          match quotedBreaks [] q (q.rest.length + 1) with
          | some (breaks, r) => quotedRest double ((folded breaks).reverse ++ done) r fuel
          | none => none
        else quotedRest double (blanks.reverse ++ done) q fuel
      else quotedRest double (c :: done) p.next fuel

/-- The quoted scalar that starts here. -/
def readQuoted (double : Bool) (p : Cursor) : Option (String × Cursor) :=
  quotedRest double [] p.next (p.rest.length + 1)

end SwapCodec.Yaml

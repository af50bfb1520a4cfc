import SwapCodec.Yaml.Cursor
import SwapCodec.Yaml.Node

/-!
# Reading YAML

`Yaml.read` gives the value of a text that holds at most one document, null for a text without
one. It knows a part of YAML: a document is made of block and bracketed mappings and sequences,
plain and quoted scalars and comments. Anchors, tags, directives, explicit keys and literal blocks
are refused, so no value is in itself, and a date is a text.

The reader is that of `Library.standard`, with which concrete texts are read. What holds whatever
the reader does is said of `Library.read`.

A block collection stands at a column, and what is in it stands further right. A key must end on
the line on which it starts, within `keyLimit` characters, and a block collection may start behind a
hyphen or on a line of its own, but not behind a key. Brackets ignore columns.

A reader of a part takes the place where it starts and gives the place behind it. The nesting of a
text is bounded by its length, and readers count down a bound on it.
-/

set_option autoImplicit false

namespace SwapCodec.Yaml

/-- How long a key may be. -/
def keyLimit : Nat := 1024

/-- What is read, and the place behind it. -/
abbrev Part (α : Type) : Type := Option (α × Cursor)

/-- A hyphen that starts an entry of a block sequence. -/
def startsEntry (p : Cursor) : Bool :=
  match p.rest with
  | '-' :: more => startsBlank more
  | _ => false

/-- A colon that ends a key; inside brackets any colon does. -/
def startsValue (flow : Bool) (p : Cursor) : Bool :=
  match p.rest with
  | ':' :: more => flow || startsBlank more
  | _ => false

/-- The node that started at `start` is a key: the colon at `colon` belongs to it. -/
def isKey (flow : Bool) (start colon : Cursor) : Bool :=
  startsValue flow colon && start.line == colon.line && colon.index - start.index ≤ keyLimit

/-- A scalar. -/
def readScalar (flow : Bool) (least : Int) (p : Cursor) : Part Node :=
  match p.rest with
  | '\'' :: _ => (readQuoted false p).map fun r => (.quoted r.1, r.2)
  | '"' :: _ => (readQuoted true p).map fun r => (.quoted r.1, r.2)
  | cs =>
    if startsPlain flow cs then
      let (s, q) := readPlain flow least p
      some (.plain s, q)
    else none

mutual

/-- A node inside brackets. -/
def readFlow : Nat → Cursor → Part Node
  | 0, _ => none
  | fuel + 1, p =>
    if p.atMarker then none
    else match p.rest with
      | '[' :: _ => readFlowItems fuel [] p.next
      | '\x7b' :: _ => readFlowEntries fuel [] p.next
      | _ => readScalar true 0 p

/-- The value behind a colon inside brackets, which may be left out. -/
def readFlowValue : Nat → Cursor → Part Node
  | 0, _ => none
  | fuel + 1, p =>
    let q := p.next.toToken.1
    match q.rest with
    | ',' :: _ => some (.empty, q)
    | ']' :: _ => some (.empty, q)
    | '\x7d' :: _ => some (.empty, q)
    | _ => readFlow fuel q

/-- The rest of a bracketed sequence, from where an item may start. -/
def readFlowItems : Nat → List Node → Cursor → Part Node
  | 0, _, _ => none
  | fuel + 1, done, p =>
    let q := p.toToken.1
    match q.rest with
    | ']' :: _ => some (.sequence done.reverse, q.next)
    | _ =>
      match readFlow fuel q with
      | none => none
      | some (item, r) =>
        let colon := r.toToken.1
        match (if isKey true q colon then
            (readFlowValue fuel colon).map fun v => (Node.mapping [(item, v.1)], v.2)
          else some (item, r)) with
        | none => none
        | some (item, r) =>
          let s := r.toToken.1
          match s.rest with
          | ',' :: _ => readFlowItems fuel (item :: done) s.next
          | ']' :: _ => some (.sequence (item :: done).reverse, s.next)
          | _ => none

/-- The rest of a bracketed mapping, from where an entry may start. -/
def readFlowEntries : Nat → List (Node × Node) → Cursor → Part Node
  | 0, _, _ => none
  | fuel + 1, done, p =>
    let q := p.toToken.1
    match q.rest with
    | '\x7d' :: _ => some (.mapping done.reverse, q.next)
    | _ =>
      match readFlow fuel q with
      | none => none
      | some (key, r) =>
        let colon := r.toToken.1
        match (if isKey true q colon then readFlowValue fuel colon else some (.empty, r)) with
        | none => none
        | some (v, r) =>
          let s := r.toToken.1
          match s.rest with
          | ',' :: _ => readFlowEntries fuel ((key, v) :: done) s.next
          | '\x7d' :: _ => some (.mapping ((key, v) :: done).reverse, s.next)
          | _ => none

end

mutual

/-- A scalar or a bracketed collection that stands in a block; `indent` is the column of the block
around it. -/
def readInline : Nat → Int → Cursor → Part Node
  | 0, _, _ => none
  | fuel + 1, indent, p =>
    match p.rest with
    | '[' :: _ => readFlow (fuel + 1) p
    | '\x7b' :: _ => readFlow (fuel + 1) p
    | _ => readScalar false (indent + 1) p

/-- A node that stands in a block at column `indent`. A block collection may start here if `fresh`
is set. -/
def readBlock : Nat → Int → Bool → Cursor → Part Node
  | 0, _, _, _ => none
  | fuel + 1, indent, fresh, p =>
    if startsEntry p then
      if fresh then readItems fuel p.column [] p else none
    else
      match readInline fuel indent p with
      | none => none
      | some (n, q) =>
        let colon := q.toToken.1
        if isKey false p colon then
          if fresh then
            match readValue fuel p.column colon with
            | none => none
            | some (v, r) => readEntries fuel p.column [(n, v)] r
          else none
        else some (n, q)

/-- The value behind the colon of a key at a column. -/
def readValue : Nat → Nat → Cursor → Part Node
  | 0, _, _ => none
  | fuel + 1, column, colon =>
    let (p, crossed) := colon.next.toToken
    if p.atEnd then some (.empty, colon.next)
    else if !crossed then readBlock fuel column false p
    else if column < p.column then readBlock fuel column true p
    else if p.column == column && startsEntry p then readItems fuel column [] p
    else some (.empty, colon.next)

/-- The rest of a block mapping at a column, behind an entry. -/
def readEntries : Nat → Nat → List (Node × Node) → Cursor → Part Node
  | 0, _, _, _ => none
  | fuel + 1, column, done, p =>
    let (q, crossed) := p.toToken
    if q.atEnd || (crossed && q.column < column) then some (.mapping done.reverse, p)
    else if !crossed || column < q.column then none
    else
      match readInline fuel column q with
      | none => none
      | some (key, r) =>
        let colon := r.toToken.1
        if isKey false q colon then
          match readValue fuel column colon with
          | none => none
          | some (v, s) => readEntries fuel column ((key, v) :: done) s
        else none

/-- The rest of a block sequence at a column, from the hyphen of an entry on. -/
def readItems : Nat → Nat → List Node → Cursor → Part Node
  | 0, _, _, _ => none
  | fuel + 1, column, done, p =>
    let (q, crossed) := p.next.toToken
    match (if q.atEnd || (crossed && q.column ≤ column) then some (.empty, p.next)
      else readBlock fuel column true q) with
    | none => none
    | some (item, r) =>
      let (s, crossed) := r.toToken
      if crossed && !s.atEnd && s.column == column && startsEntry s then
        readItems fuel column (item :: done) s
      else some (.sequence (item :: done).reverse, r)

end

/-- A marker of three equal characters. -/
def atMarkerOf (c : Char) (p : Cursor) : Bool := p.atMarker && p.rest.head? == some c

/-- The document that starts here, if there is one: behind a line of hyphens or at once. -/
def readDocument (fuel : Nat) (p : Cursor) : Part Node :=
  if atMarkerOf '-' p then
    let q := p.skip 3
    let (r, crossed) := q.toToken
    if r.atEnd then some (.empty, q) else readBlock fuel (-1) crossed r
  else if p.rest.isEmpty then some (.empty, p)
  else if p.atMarker then none
  else readBlock fuel (-1) true p

/-- The place behind the lines of points that end a document. -/
def skipEnds (p : Cursor) : Nat → Cursor
  | 0 => p
  | fuel + 1 =>
    let q := p.toToken.1
    if atMarkerOf '.' q then skipEnds (q.skip 3) fuel else q

/-- The root node of a text with at most one document. -/
def readNode? (s : String) : Option Node :=
  let cs := unifyBreaks s.toList
  let cs := if cs.head? == some '\ufeff' then cs.drop 1 else cs
  if cs.all isAllowed then
    let fuel := 4 * cs.length + 8
    let start := (Cursor.mk cs 0 0 0).toToken.1
    match readDocument fuel start with
    | some (n, p) =>
      let q := skipEnds p (cs.length + 1)
      if q.rest.isEmpty then some n else none
    | none => none
  else none

/-- The value of a text in the part of YAML that is known. -/
def read (s : String) : Except Error Value :=
  match readNode? s with
  | some n => n.value
  | none => .error .yamlSyntax

end SwapCodec.Yaml

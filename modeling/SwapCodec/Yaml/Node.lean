import SwapCodec.Yaml.Scalar

/-!
# Nodes of a YAML document

A node is a scalar, a sequence of nodes or a mapping between nodes. `Node.value` gives the value
that a node stands for. Keys of mappings must be scalars, of two equal keys the later one counts,
and the merge key `<<` brings in the entries of one or more other mappings, which the mapping's own
entries override.
-/

set_option autoImplicit false

namespace SwapCodec.Yaml

/-- A node of a document. -/
inductive Node where
  /-- A scalar without quotes. -/
  | plain (text : String)
  /-- A scalar between quotes. -/
  | quoted (text : String)
  /-- A sequence. -/
  | sequence (items : List Node)
  /-- A mapping, with its keys in the order of the text. -/
  | mapping (entries : List (Node × Node))

instance : Inhabited Node := ⟨.plain ""⟩

namespace Node

/-- The empty node. -/
def empty : Node := .plain ""

/-- The key that a scalar stands for. -/
def key : Node → Except Error Key
  | plain s =>
    if s == defaultWord then .ok (.str s)
    else match plainValue s with
      | .error e => .error e
      | .ok .null => .ok .null
      | .ok (.bool b) => .ok (.bool b)
      | .ok (.int n) => .ok (.int n)
      | .ok (.float x) => .ok (.float x)
      | .ok (.str t) => .ok (.str t)
      | .ok _ => .error .yamlSyntax
  | quoted s => .ok (.str s)
  | _ => .error .yamlSyntax

/-- The merge key. -/
def isMerge : Node → Bool
  | plain s => s == mergeWord
  | _ => false

mutual

/-- The value of a node. -/
def value : Node → Except Error Value
  | plain s => plainValue s
  | quoted s => .ok (.str s)
  | sequence items => do
    let vs ← values items
    return .list vs
  | mapping entries => do
    let merged ← mergedEntries entries
    let own ← ownEntries entries
    return .dict ((merged ++ own).foldl (fun done e => putEntry e.1 e.2 done) [])

/-- The value of each node of a sequence. -/
def values : List Node → Except Error (List Value)
  | [] => .ok []
  | n :: rest => do
    let v ← value n
    let vs ← values rest
    return v :: vs

/-- The entries of a mapping that have a key of their own. -/
def ownEntries : List (Node × Node) → Except Error (List (Key × Value))
  | [] => .ok []
  | (k, n) :: rest =>
    if k.isMerge then ownEntries rest
    else do
      let key ← k.key
      let v ← value n
      let more ← ownEntries rest
      return (key, v) :: more

/-- The entries that the merge keys of a mapping bring in. -/
def mergedEntries : List (Node × Node) → Except Error (List (Key × Value))
  | [] => .ok []
  | (k, n) :: rest => do
    let here ← if k.isMerge then broughtIn n else pure []
    let more ← mergedEntries rest
    return here ++ more

/-- The entries of a merged mapping, or of several, the first of which counts most. -/
def broughtIn : Node → Except Error (List (Key × Value))
  | mapping entries => do
    let merged ← mergedEntries entries
    let own ← ownEntries entries
    return merged ++ own
  | sequence items => broughtInAll items
  | _ => .error .yamlSyntax

/-- The entries of each merged mapping of a sequence, the last mapping first. -/
def broughtInAll : List Node → Except Error (List (Key × Value))
  | [] => .ok []
  | mapping entries :: rest => do
    let merged ← mergedEntries entries
    let own ← ownEntries entries
    let more ← broughtInAll rest
    return more ++ (merged ++ own)
  | _ :: _ => .error .yamlSyntax

end

end Node

end SwapCodec.Yaml

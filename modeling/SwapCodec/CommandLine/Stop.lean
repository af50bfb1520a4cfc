import SwapCodec.Error

/-!
# Stops

The ways in which a command ends without a result: its command line is wrong, help was asked for,
its input is refused with a message, or something failed that has no message for the user.

`Stop.ofError` tells the last two apart. The errors that instructions and programs report are
messages for the user, and all others are failures.
-/

set_option autoImplicit false

namespace SwapCodec.CommandLine

/-- Why an input is refused. -/
inductive Refusal where
  /-- An error of an instruction or a program. -/
  | cause (e : Error)
  /-- The text is not hexadecimal. -/
  | badHex (text : String)
  /-- The text is not a document. -/
  | badDocument
  /-- The text is not an integer. -/
  | badInteger (text : String)
  /-- The document is not a dictionary. -/
  | dictionaryRequired
  /-- Options that are needed together are not there. -/
  | missingOptions (spellings : List String)

/-- The wording of a refusal. -/
def Refusal.message : Refusal → String
  | cause e => e.message?.getD ""
  | badHex text => "invalid hex string: " ++ Text.quoted text
  | badDocument => "invalid JSON"
  | badInteger text => "invalid integer: " ++ Text.quoted text
  | dictionaryRequired => "fields must be a JSON object"
  | missingOptions spellings => "missing " ++ joined ", " spellings

/-- Why a command ends without a result. -/
inductive Stop where
  /-- The command line does not follow the grammar. -/
  | usage
  /-- The user asked for help. -/
  | help
  /-- The input is refused. -/
  | refused (why : Refusal)
  /-- A failure without a message for the user. -/
  | failed (e : Error)

namespace Stop

/-- The stop that an error causes. -/
def ofError (e : Error) : Stop :=
  if e.kind.isProgramKind then .refused (.cause e) else .failed e

/-- The exit code of a command that stops. -/
def exitCode : Stop → Int
  | usage => 2
  | help => 0
  | refused _ => 1
  | failed _ => 2

end Stop

end SwapCodec.CommandLine

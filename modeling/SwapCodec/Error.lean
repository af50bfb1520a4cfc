import SwapCodec.Value.Text
import SwapCodec.Word

/-!
# Errors

Every way in which an operation of this library fails. A constructor of `Error` is a cause with
its particulars; `Error.kind` says to which kind a cause belongs and `Error.message?` words it.

A message quotes integers, and an integer with too many digits has no numeral. Such a message
cannot be worded, and `Error.settled` replaces its cause by `Error.numeralTooLong`, or by a bare
fault where amounts of an auction are compared; operations fail through `fail` and `settled`, so
the causes they report always have their message.
-/

set_option autoImplicit false

namespace SwapCodec

/-- The kinds of errors. -/
inductive ErrorKind where
  /-- An argument is missing or has the wrong form. -/
  | validation
  /-- A value does not fit its width. -/
  | range
  /-- Bytes are malformed or cut off. -/
  | decode
  /-- An opcode or a discriminator is not registered. -/
  | unknownOpcode
  /-- An opcode is registered already. -/
  | duplicateOpcode
  /-- A registry takes no more opcodes. -/
  | registryFrozen
  /-- The parameters of an auction contradict each other. -/
  | invalidRange
  /-- The fields of a layout do not fit together. -/
  | layout
  /-- Any other error of instructions and programs. -/
  | general
  /-- A stream was used wrongly. -/
  | serialization
  /-- A stream has too few bytes. -/
  | outOfData
  /-- A collection has too many elements. -/
  | tooLong
  /-- A byte has no meaning. -/
  | badData
  /-- A value of the right kind is out of place. -/
  | value
  /-- A value of the wrong kind. -/
  | type
  /-- A key is not in a table. -/
  | key
  /-- A field is not in a record. -/
  | attribute
  /-- A condition that always holds does not. -/
  | assertion
  /-- A number is too large for its representation. -/
  | overflow
  /-- A failure without a kind of its own. -/
  | other
  /-- A YAML text does not follow its grammar. -/
  | yaml
  /-- Settings do not follow their model. -/
  | settings
  /-- The file system refuses a path. -/
  | system
  /-- Steps are nested too deep. -/
  | recursion
  deriving DecidableEq, Repr

namespace ErrorKind

/-- The kinds that instructions and programs report. -/
def isProgramKind : ErrorKind → Bool
  | validation | range | decode | unknownOpcode | duplicateOpcode | registryFrozen
  | invalidRange | layout | general => true
  | _ => false

/-- The kinds that streams report. -/
def isStreamKind : ErrorKind → Bool
  | serialization | outOfData | tooLong | badData => true
  | _ => false

end ErrorKind

/-- The forms that a document may be required to have. -/
inductive DocumentForm where
  | integer
  | truthValue
  | hexText
  | dictionary
  | list
  | object
  deriving DecidableEq, Repr

/-- What is wrong with a setting. -/
inductive IssueKind where
  /-- The text is no integer. -/
  | intParsing
  /-- The text has too many digits. -/
  | intParsingSize
  /-- The value is no integer. -/
  | intType
  /-- The double has a fraction. -/
  | intFromFloat
  /-- The double is infinite or no number. -/
  | finiteNumber
  /-- The integer is not positive. -/
  | notPositive
  /-- The text or the integer is no truth value. -/
  | boolParsing
  /-- The value is no truth value. -/
  | boolType
  /-- The value is not among the names. -/
  | enumeration
  /-- There is no such setting. -/
  | extraForbidden
  /-- The name of a setting is not a text. -/
  | invalidKey
  /-- Settings never change. -/
  | frozenInstance
  deriving DecidableEq, Repr

/-- A problem with one setting. -/
structure Issue where
  /-- The name of the setting. -/
  location : String
  /-- What is wrong with it. -/
  kind : IssueKind
  deriving DecidableEq, Repr

/-- The causes of failure. -/
inductive Error where
  /-- A failure without a message of its own. -/
  | fault (kind : ErrorKind)
  /-- A failure that a relation between arguments reports. -/
  | custom (kind : ErrorKind) (text : String)
  /-- A message has to quote an integer with too many digits. -/
  | numeralTooLong
  -- Words
  | invalidWidth (got : Value)
  | integerRequired (got : Value)
  | outOfWidth (s : Signedness) (w : Width) (n : Int)
  | wrongByteCount (s : Signedness) (w : Width) (count : Nat)
  -- Streams
  | notEnoughBytes
  | negativeCount
  | trailingData (count : Nat)
  | readerClosed
  | readerNotClosable
  | writerNotClosable
  | badBoolean (b : UInt8)
  | tooManyElements
  | unmetCondition
  -- Layouts and traits
  | badLayout (layout : String) (field : BitField) (wordBits : Int) (flaw : LayoutFault)
  | unknownField (layout : String) (name : Value)
  | flagRequired (layout field : String) (got : Value)
  | fieldIntegerRequired (layout field : String) (got : Value)
  | fieldOverflow (layout field : String) (n : Int) (width : Int)
  | wordRequired (layout : String) (got : Value)
  | wordOverflow (layout : String) (wordBits : Int)
  | strayBits (layout : String) (bits : Nat)
  | senderLength
  | senderAddressLength
  -- Argument types
  | booleanRequired
  | bytesRequired
  | addressLength (count : Nat)
  | traitsRequired (kind : TraitKind)
  | tupleRequired
  | arrayTooLong
  | formRequired (form : DocumentForm)
  | invalidInteger (text : String)
  | invalidAddress (text : String)
  | undecodableArgument (cause : Error)
  -- Schemas
  | recordTypeRequired
  | schemaMismatch (schema : List String) (record : String) (fields : List String)
  | argumentsRequired (record : String) (got : Value)
  | missingArgument (record field : String)
  | unknownArguments (record : String) (names : List String)
  | unencodableArguments (record : String) (cause : Error)
  | undecodableArguments (record : String) (cause : Error)
  | shortPayload (record : String)
  | unevenBalances (tokens balances : Nat)
  | durationNotPositive
  | feeTooHigh (fee : Int)
  -- Registries
  | opcodeRequired (got : Value)
  | registryClosed (registry : String) (o : Opcode)
  | alreadyRegistered (registry : String) (o : Opcode)
  | registryFull (registry : String)
  | notRegistered (registry : String) (identity : Value)
  | unassignedDiscriminator (registry : String) (discriminator : Value)
  | unknownOpcodeName (name : Value)
  | unknownOpcodeSet (name : Value)
  | payloadTooLong (o : Opcode) (count : Nat)
  | shortHeader
  | cutPayload (o : Opcode) (length remaining : Nat)
  | trailingBytes (o : Opcode) (count : Nat)
  -- Programs
  | overlongBuild (count : Nat) (limit : Int)
  | overlongProgram (count : Nat) (limit : Int)
  | atOffset (pc : Nat) (cause : Error)
  -- Auctions
  | auctionDuration (duration : Int)
  | inputIncreases (start stop : Int)
  | outputDecreases (start stop : Int)
  | notAnAuction (identity : Value)
  -- Settings
  | yamlSyntax
  | notAFile (path : String)
  | notADictionary (path : String)
  | extendsItself (path : String)
  | invalidSettings (issues : List Issue)
  | secondSource
  | noSettingsLoaded

instance : Inhabited Error := ⟨.fault .value⟩

namespace Error

/-- The kind of a cause. -/
def kind : Error → ErrorKind
  | fault k => k
  | custom k _ => k
  | numeralTooLong => .value
  | invalidWidth _ => .value
  | integerRequired _ | outOfWidth _ _ _ | wrongByteCount _ _ _ => .range
  | notEnoughBytes => .outOfData
  | negativeCount | trailingData _ | readerClosed => .serialization
  | readerNotClosable | writerNotClosable => .type
  | badBoolean _ => .badData
  | tooManyElements => .tooLong
  | unmetCondition => .assertion
  | badLayout _ _ _ _ => .layout
  | unknownField _ _ | fieldIntegerRequired _ _ _ | wordRequired _ _ => .validation
  | flagRequired _ _ _ | fieldOverflow _ _ _ _ | wordOverflow _ _ | strayBits _ _ => .range
  | senderLength | senderAddressLength => .validation
  | booleanRequired | bytesRequired | addressLength _ | traitsRequired _ | tupleRequired
  | arrayTooLong | formRequired _ | invalidInteger _ | invalidAddress _ => .validation
  | undecodableArgument _ => .decode
  | recordTypeRequired | schemaMismatch _ _ _ => .type
  | argumentsRequired _ _ | missingArgument _ _ | unknownArguments _ _
  | unencodableArguments _ _ => .validation
  | undecodableArguments _ _ | shortPayload _ => .decode
  | unevenBalances _ _ | durationNotPositive => .validation
  | feeTooHigh _ => .range
  | opcodeRequired _ | registryFull _ => .validation
  | registryClosed _ _ => .registryFrozen
  | alreadyRegistered _ _ => .duplicateOpcode
  | notRegistered _ _ | unassignedDiscriminator _ _ | unknownOpcodeName _ => .unknownOpcode
  | unknownOpcodeSet _ | payloadTooLong _ _ => .validation
  | shortHeader | cutPayload _ _ _ | trailingBytes _ _ => .decode
  | overlongBuild _ _ => .validation
  | overlongProgram _ _ | atOffset _ _ => .decode
  | auctionDuration _ | inputIncreases _ _ | outputDecreases _ _ => .invalidRange
  | notAnAuction _ => .validation
  | yamlSyntax => .yaml
  | notAFile _ | notADictionary _ | extendsItself _ => .value
  | invalidSettings _ => .settings
  | secondSource => .other
  | noSettingsLoaded => .assertion

end Error

/-- The spelling of a signedness in the name of an integer type. -/
def Signedness.name : Signedness → String
  | .unsigned => "uint"
  | .signed => "int"

/-- The wording of a required form. -/
def DocumentForm.wording : DocumentForm → String
  | integer => "expected int"
  | truthValue => "expected bool"
  | hexText => "expected hex string"
  | dictionary => "expected dict"
  | list => "expected list"
  | object => "expected a JSON object"

/-- The names as a quoted list. -/
def quotedNames (names : List String) : String :=
  "[" ++ joined ", " (names.map Text.quoted) ++ "]"

/-- The wording of a fault of a layout. -/
def layoutMessage? (layout : String) (f : BitField) (wordBits : Int) :
    LayoutFault → Option String
  | .duplicated => some (layout ++ ": duplicated field " ++ Text.quoted f.name)
  | .badRange => some (layout ++ "." ++ f.name ++ ": invalid range")
  | .wideFlag => some (layout ++ "." ++ f.name ++ ": flags must be 1 bit wide")
  | .beyondWord => do
    let first ← Text.decimal? f.offset
    let last ← Text.decimal? (f.stop - 1)
    let limit ← Text.decimal? wordBits
    return layout ++ "." ++ f.name ++ ": bits " ++ first ++ ".." ++ last ++ " exceed " ++ limit
      ++ " bits"
  | .overlapping => some (layout ++ "." ++ f.name ++ ": overlaps another field")

namespace Error

/-- The message of a cause, if it has one and its integers have numerals. -/
def message? : Error → Option String
  | fault _ => none
  | custom _ text => some text
  | numeralTooLong =>
    some ("Exceeds the limit (4300 digits) for integer string conversion; "
      ++ "use sys.set_int_max_str_digits() to increase the limit")
  | invalidWidth got => got.quoted?.map ("invalid bit width: " ++ ·)
  | integerRequired got => some ("expected integer, got " ++ got.kindName)
  | outOfWidth s w n => do
    let value ← Text.decimal? n
    let bits ← Text.decimal? w.bits
    return value ++ " does not fit in " ++ s.name ++ bits
  | wrongByteCount s w count => do
    let expected ← Text.decimal? w.byteCount
    let bits ← Text.decimal? w.bits
    return "expected " ++ expected ++ " bytes for " ++ s.name ++ bits ++ ", got "
      ++ Text.decimalNat count
  | notEnoughBytes => some "not enough bytes to read"
  | negativeCount => some "value cannot be negative"
  | trailingData count => some ("trailing data: " ++ Text.decimalNat count ++ " bytes")
  | readerClosed => some "deserializer was already finalized"
  | readerNotClosable => some "this deserializer does not support finalization"
  | writerNotClosable => some "this serializer does not support finalization"
  | badBoolean b => some (Text.quotedBytes [b] ++ " is not a valid boolean")
  | tooManyElements => some "array has more than 65535 elements"
  | unmetCondition => some ""
  | badLayout layout f wordBits flaw => layoutMessage? layout f wordBits flaw
  | unknownField layout name => name.quoted?.map (layout ++ ": unknown field " ++ ·)
  | flagRequired layout field got =>
    got.quoted?.map (layout ++ "." ++ field ++ ": expected a boolean, got " ++ ·)
  | fieldIntegerRequired layout field got =>
    some (layout ++ "." ++ field ++ ": expected an integer, got " ++ got.kindName)
  | fieldOverflow layout field n width => do
    let value ← Text.decimal? n
    let bits ← Text.decimal? width
    return layout ++ "." ++ field ++ ": " ++ value ++ " does not fit in " ++ bits ++ " bits"
  | wordRequired layout got => some (layout ++ ": expected an integer word, got " ++ got.kindName)
  | wordOverflow layout wordBits =>
    (Text.decimal? wordBits).map fun bits => layout ++ ": word does not fit in " ++ bits ++ " bits"
  | strayBits layout bits =>
    some (layout ++ ": unassigned bits are set: " ++ Text.hexadecimal bits)
  | senderLength => some "sender must be a 20 bytes address"
  | senderAddressLength => some "address must have 20 bytes"
  | booleanRequired => some "expected boolean"
  | bytesRequired => some "expected bytes"
  | addressLength count => some ("address must have 20 bytes, got " ++ Text.decimalNat count)
  | traitsRequired kind => some ("expected " ++ kind.name ++ " instance")
  | tupleRequired => some "expected tuple"
  | arrayTooLong => some "array has more than 65535 elements"
  | formRequired form => some form.wording
  | invalidInteger text => some ("invalid integer: " ++ Text.quoted text)
  | invalidAddress text => some ("invalid address: " ++ Text.quoted text)
  | undecodableArgument cause => cause.message?
  | recordTypeRequired => some "expected a dataclass"
  | schemaMismatch schema record fields =>
    some ("schema " ++ quotedNames schema ++ " does not match " ++ record ++ " fields "
      ++ quotedNames fields)
  | argumentsRequired record got => some ("expected " ++ record ++ ", got " ++ got.kindName)
  | missingArgument record field =>
    some (record ++ ": missing argument " ++ Text.quoted field)
  | unknownArguments record names =>
    some (record ++ ": unknown arguments " ++ quotedNames names)
  | unencodableArguments record cause => cause.message?.map (record ++ ": " ++ ·)
  | undecodableArguments record cause => cause.message?.map (record ++ ": " ++ ·)
  | shortPayload record => some (record ++ ": not enough bytes to read")
  | unevenBalances tokens balances =>
    some ("got " ++ Text.decimalNat tokens ++ " tokens and " ++ Text.decimalNat balances
      ++ " balances")
  | durationNotPositive => some "duration must be positive"
  | feeTooHigh fee => (Text.decimal? fee).map fun n => "fee " ++ n ++ " is above 1000000000"
  | opcodeRequired got => some ("expected an OpcodeId, got " ++ got.kindName)
  | registryClosed registry o =>
    some (registry ++ ": cannot register " ++ o.dotted ++ " after freeze")
  | alreadyRegistered registry o =>
    some (registry ++ ": " ++ o.dotted ++ " is already registered")
  | registryFull registry => some (registry ++ ": cannot register more than 256 opcodes")
  | notRegistered registry identity =>
    identity.plain?.map fun s => registry ++ ": " ++ s ++ " is not registered"
  | unassignedDiscriminator registry discriminator =>
    discriminator.plain?.map (registry ++ ": unassigned discriminator " ++ ·)
  | unknownOpcodeName name => name.quoted?.map ("unknown opcode: " ++ ·)
  | unknownOpcodeSet name => name.quoted?.map ("unknown opcode set: " ++ ·)
  | payloadTooLong o count =>
    some (o.dotted ++ ": payload has " ++ Text.decimalNat count ++ " bytes, max is 255")
  | shortHeader => some "not enough bytes for the instruction header"
  | cutPayload o length remaining =>
    some (o.dotted ++ ": payload length is " ++ Text.decimalNat length ++ " but only "
      ++ Text.decimalNat remaining ++ " bytes remain")
  | trailingBytes o count =>
    some (o.dotted ++ ": " ++ Text.decimalNat count ++ " trailing bytes after the payload")
  | overlongBuild count limit =>
    (Text.decimal? limit).map fun n =>
      "program has " ++ Text.decimalNat count ++ " bytes, max is " ++ n
  | overlongProgram count limit =>
    (Text.decimal? limit).map fun n =>
      "program has " ++ Text.decimalNat count ++ " bytes, max is " ++ n
  | atOffset pc cause => cause.message?.map ("pc=" ++ Text.decimalNat pc ++ ": " ++ ·)
  | auctionDuration duration =>
    (Text.decimal? duration).map ("auction duration must be positive, got " ++ ·)
  | inputIncreases start stop => do
    let first ← Text.decimal? start
    let last ← Text.decimal? stop
    return "input auction must not increase: " ++ first ++ " -> " ++ last
  | outputDecreases start stop => do
    let first ← Text.decimal? start
    let last ← Text.decimal? stop
    return "output auction must not decrease: " ++ first ++ " -> " ++ last
  | notAnAuction identity =>
    identity.plain?.map (· ++ " is not a dutch auction instruction")
  | yamlSyntax => none
  | notAFile path => some ("'" ++ path ++ "' is not a file")
  | notADictionary path => some ("'" ++ path ++ "' cannot be parsed as a dictionary")
  | extendsItself path => some ("'" ++ path ++ "' extends itself")
  | invalidSettings _ => none
  | secondSource => some "loading config twice with a different file"
  | noSettingsLoaded => some "get_global_settings() not called before"

/-- A cause that has no message because it never has one. -/
def isWordless : Error → Bool
  | fault _ | yamlSyntax | invalidSettings _ => true
  | _ => false

/-- What replaces a cause that cannot be worded. -/
def unworded : Error → Error
  | inputIncreases _ _ | outputDecreases _ _ => .fault .value
  | _ => .numeralTooLong

/-- The cause itself if it can be worded, and what replaces it otherwise. -/
def settled (e : Error) : Error :=
  if e.isWordless || e.message?.isSome then e else e.unworded

end Error

/-- Fails with a cause. -/
def fail {α : Type} (e : Error) : Except Error α :=
  .error e.settled

end SwapCodec

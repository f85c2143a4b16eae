import HdfsBrowser.Json.Literal
import HdfsBrowser.Url.Fault

/-!
# Faults

Why a computation stopped.  A `Rejection` refuses input of the user; the other
faults come from values of the wrong kind or size, from addresses, and from
the connection.  `Fault.family` sorts them by what a caller may do about them:
the first four families mean that a value was malformed.
-/

namespace HdfsBrowser

inductive Rejection where
  | flagCount (count : Nat)
  | notOctal (given : String)
  | octalDigit (given : String)
  | bitsRange (given : String)
  | symbolic (given : String)
  | emptyName
  | noOwner
  | replication (given : String)
  deriving DecidableEq, Repr

def Rejection.message : Rejection → String
  | .flagCount count => "Expected 10 permission flags, got " ++ Numeral.text count
  | .notOctal given => "Invalid permission '" ++ given ++ "': expected octal digits"
  | .octalDigit given => "Invalid permission '" ++ given ++ "': digits must be 0-7"
  | .bitsRange given => "Invalid permission '" ++ given ++ "': out of range"
  | .symbolic given => "Invalid permission string '" ++ given ++ "'"
  | .emptyName => "Directory name must not be empty"
  | .noOwner => "Owner and group must not both be empty"
  | .replication given => "Invalid replication count '" ++ given ++ "'"

inductive Fault where
  | rejected (why : Rejection)
  -- a value of the right kind that does not convert
  | numeral (why : NumeralFault)
  | notNumber (text : String)
  | nanInteger
  | year (year : Int)
  | unknownPage (name : String)
  | unknownEntryKind (given : String)
  | unknownOperation (given : String)
  | unknownScheme (given : String)
  -- a value of the wrong kind
  | notInteger (kind : Value.Kind)
  | notFloat (kind : Value.Kind)
  | notIterable (kind : Value.Kind)
  | noLength (kind : Value.Kind)
  | notAppended (kind : Value.Kind)
  | notExtended (kind : Value.Kind)
  | noColumn (kind : Value.Kind)
  | noMethod (kind : Value.Kind) (method : String)
  -- everything else
  | noEntry
  | tooLarge
  | calendar
  | notText
  | unknownSetting (key : String)
  | address (why : UrlFault)
  | undecodable (message : String)
  | redirects (message : String)
  /-- What the client library raises, with its name for it. -/
  | client (name message : String)
  deriving DecidableEq, Repr

namespace Fault

inductive Family where
  | rejection
  | value
  | kind
  | method
  | index
  | overflow
  | system
  | encoding
  | key
  | address
  | decoding
  | redirects
  | client
  deriving DecidableEq, Repr

def family : Fault → Family
  | .rejected _ => .rejection
  | .numeral _ | .notNumber _ | .nanInteger | .year _ | .unknownPage _ | .unknownEntryKind _
  | .unknownOperation _ | .unknownScheme _ => .value
  | .notInteger _ | .notFloat _ | .notIterable _ | .noLength _ | .notAppended _
  | .notExtended _ | .noColumn _ => .kind
  | .noMethod .. => .method
  | .noEntry => .index
  | .tooLarge => .overflow
  | .calendar => .system
  | .notText => .encoding
  | .unknownSetting _ => .key
  | .address _ => .address
  | .undecodable _ => .decoding
  | .redirects _ => .redirects
  | .client .. => .client

/-- A value was malformed: the fault says something about what was read, and not about the
connection or the limits of a conversion. -/
def isMalformed (f : Fault) : Bool :=
  match f.family with
  | .rejection | .value | .kind | .method => true
  | _ => false

def numeralMessage : NumeralFault → String
  | .malformed text =>
    "invalid literal for int() with base 10: " ++
      String.ofList ((Text.quoted text).toList.take 200)
  | .tooLong none =>
    "Exceeds the limit (4300 digits) for integer string conversion; " ++
      "use sys.set_int_max_str_digits() to increase the limit"
  | .tooLong (some count) =>
    "Exceeds the limit (4300 digits) for integer string conversion: value has " ++
      Numeral.text count ++
      " digits; use sys.set_int_max_str_digits() to increase the limit"

def message : Fault → String
  | .rejected why => why.message
  | .numeral why => numeralMessage why
  | .notNumber text => "could not convert string to float: " ++ Text.quoted text
  | .nanInteger => "cannot convert float NaN to integer"
  | .year n => "year " ++ Numeral.text n ++ " is out of range"
  | .unknownPage name => "Unknown view: " ++ name
  | .unknownEntryKind given => given ++ " is not a valid InodeType"
  | .unknownOperation given => given ++ " is not a valid Operation"
  | .unknownScheme given => "unknown url type: " ++ Text.quoted given
  | .notInteger k =>
    "int() argument must be a string, a bytes-like object or a real number, not '" ++ k.name ++
      "'"
  | .notFloat k => "float() argument must be a string or a real number, not '" ++ k.name ++ "'"
  | .notIterable k => "'" ++ k.name ++ "' object is not iterable"
  | .noLength k => "object of type '" ++ k.name ++ "' has no len()"
  | .notAppended k => "can only concatenate str (not \"" ++ k.name ++ "\") to str"
  | .notExtended .list => "can only concatenate list (not \"str\") to list"
  | .notExtended k => "unsupported operand type(s) for +: '" ++ k.name ++ "' and 'str'"
  | .noColumn k => "unsupported format string passed to " ++ k.name ++ ".__format__"
  | .noMethod k method => "'" ++ k.name ++ "' object has no attribute '" ++ method ++ "'"
  | .noEntry => "tuple index out of range"
  | .tooLarge => "number out of range"
  | .calendar => "time out of range"
  | .notText => "not a text"
  | .unknownSetting key => Text.quoted ("Unknown config key: " ++ key)
  | .address why => why.message
  | .undecodable message => message
  | .redirects message => message
  | .client _ message => message

end Fault

end HdfsBrowser

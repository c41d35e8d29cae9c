import Stylesheet.Config.Json
import Stylesheet.Options

/-!
# Configuration files

A configuration is a JSON object with two members, both of which may be left out: `maxDepth`, a
natural number below `2 ^ 64`, and `unknownFunctions`, one of the words `error` and `passThrough`.
Other members are ignored. A member that is given twice is a fault.

A word may also be given as the only key of an object whose value is empty, `null` or an empty
object: `{"error": null}` is another spelling of `"error"`.
-/

namespace Stylesheet

/-- Why a configuration is refused. -/
inductive ConfigError where
  /-- The text is not a JSON object. -/
  | notAnObject
  /-- A member is given twice. -/
  | repeatedMember (key : String)
  /-- The value of a member is not one of those it can have. -/
  | badValue (key : String)
  /-- The file is not UTF-8 text. -/
  | notUtf8
  deriving Repr, DecidableEq

/-- The wording of a refusal. -/
def ConfigError.message : ConfigError → String
  | notAnObject => "Invalid configuration: not a JSON object"
  | repeatedMember key => s!"Invalid configuration: repeated member '{key}'"
  | badValue key => s!"Invalid configuration: bad value for '{key}'"
  | notUtf8 => "Invalid configuration: not UTF-8 text"

namespace UnknownFunctions

/-- The word for a choice in a configuration. -/
def word : UnknownFunctions → String
  | fault => "error"
  | passThrough => "passThrough"

/-- The choice that a word stands for. -/
def ofWord? (word : String) : Option UnknownFunctions :=
  [fault, passThrough].find? fun choice => choice.word == word

/-- The choice that a JSON value stands for. -/
def ofJson? : Json → Option UnknownFunctions
  | .string word => ofWord? word
  | .object [(word, .null)] => ofWord? word
  | .object [(word, .object [])] => ofWord? word
  | _ => none

end UnknownFunctions

namespace Options

/-- The value of a member that may be left out. -/
def member? (members : List (String × Json)) (key : String) : Except ConfigError (Option Json) :=
  match members.filter fun m => m.1 == key with
  | [] => .ok none
  | [m] => .ok (some m.2)
  | _ => .error (.repeatedMember key)

/-- The depth that the value of a member stands for. -/
def depthOfJson? : Json → Option Nat
  | .natural n => some n
  | _ => none

/-- A setting from a member that may be left out. -/
def setting {α : Type} (members : List (String × Json)) (key : String) (absent : α)
    (read? : Json → Option α) : Except ConfigError α := do
  match ← member? members key with
  | none => return absent
  | some value =>
    match read? value with
    | some choice => return choice
    | none => throw (.badValue key)

/-- The options that a configuration text stands for. -/
def ofConfig (text : String) : Except ConfigError Options := do
  match Json.parse? text with
  | some (.object members) =>
    let maxDepth ← setting members "maxDepth" 64 depthOfJson?
    let unknownFunctions ← setting members "unknownFunctions" .fault UnknownFunctions.ofJson?
    return ⟨maxDepth, unknownFunctions⟩
  | _ => throw .notAnObject

/-- The options from the contents of a configuration file, or the usual ones if there is no file. -/
def ofFile (contents : Option ByteArray) : Except ConfigError Options :=
  match contents with
  | none => .ok {}
  | some bytes =>
    match String.fromUTF8? bytes with
    | some text => ofConfig text
    | none => .error .notUtf8

/-- The configuration text of options. -/
def toConfig (o : Options) : String :=
  "\x7b\"maxDepth\":" ++ toString o.maxDepth ++ ",\"unknownFunctions\":\"" ++
    o.unknownFunctions.word ++ "\"\x7d"

end Options

end Stylesheet

import BlockCache.Decimal.Notation
import BlockCache.Text.Quoted

/-!
# Failures of reading JSON

A text is read from left to right, and the first problem met is the one reported: the text
ends too early, it is not JSON, or it is JSON of the wrong shape.
-/

namespace BlockCache
namespace Json

inductive Found where
  | null
  | boolean (b : Bool)
  | integer (n : Int)
  | real (x : Float)
  | string (s : String)
  | array
  | object
deriving Repr

def Found.text : Found -> String
  | .null => "null"
  | .boolean b => "boolean `" ++ (if b then "true" else "false") ++ "`"
  | .integer n => "integer `" ++ toString n ++ "`"
  | .real x => "floating point `" ++ Decimal.floatText x ++ "`"
  | .string s => "string " ++ Text.quoted s
  | .array => "sequence"
  | .object => "map"

inductive Mismatch where
  | missingField (name : String)
  | duplicateField (name : String)
  | unknownField (name : String) (known : List String)
  | unknownVariant (name : String) (known : List String)
  | outOfRange (n : Int) (expected : String)
  | wrongKind (found : Found) (expected : String)
  | tooFewElements (count : Nat) (expected : String)
deriving Repr

def Mismatch.message : Mismatch -> String
  | .missingField name => "missing field " ++ marked name
  | .duplicateField name => "duplicate field " ++ marked name
  | .unknownField name known => "unknown field " ++ marked name ++ oneOf known
  | .unknownVariant name known => "unknown variant " ++ marked name ++ oneOf known
  | .outOfRange n expected =>
      "invalid value: " ++ (Found.integer n).text ++ ", expected " ++ expected
  | .wrongKind found expected => "invalid type: " ++ found.text ++ ", expected " ++ expected
  | .tooFewElements count expected =>
      "invalid length " ++ toString count ++ ", expected " ++ expected
where
  marked (name : String) : String := "`" ++ name ++ "`"
  oneOf (known : List String) : String :=
    ", expected one of " ++ ", ".intercalate (known.map marked)

inductive Failure where
  | unfinished
  | malformed
  | mismatch (cause : Mismatch)
deriving Repr

end Json
end BlockCache

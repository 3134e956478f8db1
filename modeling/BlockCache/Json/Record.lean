import BlockCache.Json.Value

/-!
# Records of integers

A record has named fields that hold integers. It is written as an object with the fields
in order, and read from an object with its fields in any order or from an array with
exactly the values of its fields in order.
-/

namespace BlockCache
namespace Json

/-- The integers from `least` to `greatest`. -/
structure IntRange where
  name : String
  least : Int
  greatest : Int
deriving DecidableEq, Repr

namespace IntRange

def word : IntRange := ⟨"u64", 0, 18446744073709551615⟩
def size : IntRange := ⟨"usize", 0, 18446744073709551615⟩
def halfWord : IntRange := ⟨"u32", 0, 4294967295⟩
def signedHalfWord : IntRange := ⟨"i32", -2147483648, 2147483647⟩

def accept (range : IntRange) : Number -> Except Failure Int
  | .integer n =>
      if range.least <= n ∧ n <= range.greatest then
        .ok n
      else
        .error (.mismatch (.outOfRange n range.name))
  | .real x => .error (.mismatch (.wrongKind (.real x) range.name))

end IntRange

def readInteger (range : IntRange) (cs : List Char) : Except Failure (Int × Rest cs) := do
  let (c, rest) <- nextChar cs
  if c = '-' then
    let (number, last) <- readNumber true rest.val
    return (<- range.accept number, rest.next last)
  else if c.isDigit then
    let (number, last) <- readNumber false (c :: rest.val)
    return (<- range.accept number, rest.nextFrom c last)
  else
    .error (wrongKind range.name (c :: rest.val))

def writeInteger (n : Int) : List Char :=
  if n < 0 then '-' :: Nat.toDigits 10 n.natAbs else Nat.toDigits 10 n.natAbs

structure Field where
  name : String
  range : IntRange
deriving DecidableEq, Repr

structure Shape where
  name : String
  fields : List Field
  strict : Bool
deriving DecidableEq, Repr

namespace Shape

def fieldNames (shape : Shape) : List String :=
  shape.fields.map Field.name

def title (shape : Shape) : String :=
  "struct " ++ shape.name

def arrayTitle (shape : Shape) : String :=
  shape.title ++ " with " ++ toString shape.fields.length ++ " elements"

end Shape

abbrev FieldValues : Type := List (Option Int)

/-- The values of all fields; the first that is missing is reported. -/
def complete : List Field -> FieldValues -> Except Failure (List Int)
  | [], _ => .ok []
  | field :: _, [] | field :: _, none :: _ => .error (.mismatch (.missingField field.name))
  | _ :: fields, some n :: values => do
      return n :: (<- complete fields values)

/--
Reads the value of the member with the given name, whose colon is next. A name that is
known and was read before, or that is not known to a strict shape, is reported at once.
-/
def readMember (shape : Shape) (values : FieldValues) (name : String) (cs : List Char) :
    Except Failure (FieldValues × Rest cs) :=
  match shape.fields.findIdx? fun field => field.name = name with
  | none =>
      if shape.strict then
        .error (.mismatch (.unknownField name shape.fieldNames))
      else do
        let colon <- readColon cs
        let last <- skipValue colon.val
        return (values, colon.next last)
  | some i =>
      if (values[i]?.join).isSome then
        .error (.mismatch (.duplicateField name))
      else do
        let colon <- readColon cs
        let range := (shape.fields[i]?.map Field.range).getD .word
        let (n, last) <- readInteger range colon.val
        return (values.set i (some n), colon.next last)

/-- Reads the members of an object, the opening quote of whose first name has been read. -/
def readMembers (shape : Shape) (values : FieldValues) (cs : List Char) :
    Except Failure (FieldValues × Rest cs) := do
  let (name, named) <- readString cs
  let (values, valued) <- readMember shape values (String.ofList name) named.val
  let (c, rest) <- nextChar valued.val
  if c = '}' then
    return (values, named.next (valued.next rest.toRest))
  else if c = ',' then
    let (q, quoted) <- nextChar rest.val
    if q = '"' then
      let (values, last) <- readMembers shape values quoted.val
      return (values, named.next (valued.next (rest.next (quoted.next last))))
    else
      .error .malformed
  else
    .error .malformed
termination_by cs.length
decreasing_by
  exact Nat.lt_of_lt_of_le quoted.property (named.next (valued.next rest.toRest)).property

def readObject (shape : Shape) (cs : List Char) : Except Failure (List Int × Rest cs) := do
  let none := shape.fields.map fun _ => none
  let (c, rest) <- nextChar cs
  if c = '}' then
    return (<- complete shape.fields none, rest.toRest)
  else if c = '"' then
    let (values, last) <- readMembers shape none rest.val
    return (<- complete shape.fields values, rest.next last)
  else
    .error .malformed

def readSeparator (count : Nat) (c : Char) (rest : List Char) :
    Except Failure (Rest (c :: rest)) :=
  if count = 0 then
    .ok (.whole (c :: rest))
  else if c = ',' then do
    let (d, last) <- nextChar rest
    if d = ']' then
      .error .malformed
    else
      return (last.nextFrom d (.whole (d :: last.val))).cons c
  else
    .error .malformed

/-- Reads the values of `fields` from an array of which `count` elements have been read. -/
def readElements (shape : Shape) (count : Nat) :
    (fields : List Field) -> (cs : List Char) -> Except Failure (List Int × Rest cs)
  | [], cs => do
      let (c, rest) <- nextChar cs
      if c = ']' then return ([], rest.toRest) else .error .malformed
  | field :: fields, cs => do
      let (c, rest) <- nextChar cs
      if c = ']' then
        .error (.mismatch (.tooFewElements count shape.arrayTitle))
      else
        let start <- readSeparator count c rest.val
        let (n, read) <- readInteger field.range start.val
        let (values, last) <- readElements shape (count + 1) fields read.val
        return (n :: values, rest.nextFrom c (start.next (read.next last)))

def readRecord (shape : Shape) (cs : List Char) : Except Failure (List Int × Rest cs) := do
  let (c, rest) <- nextChar cs
  if c = '[' then
    let (values, last) <- readElements shape 0 shape.fields rest.val
    return (values, rest.next last)
  else if c = '{' then
    let (values, last) <- readObject shape rest.val
    return (values, rest.next last)
  else
    .error (wrongKind shape.title (c :: rest.val))

def writeMember (name : String) (n : Int) : List Char :=
  '"' :: name.toList ++ ('"' :: ':' :: writeInteger n)

def writeObject (members : List (String × Int)) : List Char :=
  '{' :: [','].intercalate (members.map fun m => writeMember m.1 m.2) ++ ['}']

end Json
end BlockCache

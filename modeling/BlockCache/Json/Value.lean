import BlockCache.Json.Number

/-!
# Values of JSON

Two things are done with a value that is not the one looked for: it is named in a message,
or, where any value may stand, it is skipped. Skipping keeps the brackets that are open on
a list, so a value may be nested to any depth.
-/

namespace BlockCache
namespace Json

def wrongKind (expected : String) (cs : List Char) : Failure :=
  match found with
  | .ok found => .mismatch (.wrongKind found expected)
  | .error failure => failure
where
  found : Except Failure Found :=
    match cs with
    | 'n' :: cs => (readWord "ull".toList cs).map fun _ => .null
    | 't' :: cs => (readWord "rue".toList cs).map fun _ => .boolean true
    | 'f' :: cs => (readWord "alse".toList cs).map fun _ => .boolean false
    | '"' :: cs => (readString cs).map fun read => .string (String.ofList read.1)
    | '[' :: _ => .ok .array
    | '{' :: _ => .ok .object
    | '-' :: cs => (readNumber true cs).map fun read => read.1.found
    | c :: _ =>
        if c.isDigit then
          (readNumber false cs).map fun read => read.1.found
        else
          .error .malformed
    | [] => .error .unfinished

inductive Bracket where
  | square
  | curly
deriving DecidableEq, Repr

namespace Bracket

def ofOpening? : Char -> Option Bracket
  | '[' => some .square
  | '{' => some .curly
  | _ => none

def closing : Bracket -> Char
  | .square => ']'
  | .curly => '}'

end Bracket

/-- What comes next while a value is skipped. -/
inductive Expected where
  | value
  | member
  | separator
deriving DecidableEq, Repr

def Bracket.item : Bracket -> Expected
  | .square => .value
  | .curly => .member

def skipScalar : (cs : List Char) -> Except Failure (Rest cs)
  | [] => .error .unfinished
  | c :: cs => do
      if c = 'n' then
        return (<- readWord "ull".toList cs).cons c
      else if c = 't' then
        return (<- readWord "rue".toList cs).cons c
      else if c = 'f' then
        return (<- readWord "alse".toList cs).cons c
      else if c = '"' then
        return (<- skipString cs).cons c
      else if c = '-' then
        return (<- skipNumber cs).cons c
      else if c.isDigit then
        skipNumber (c :: cs)
      else
        .error .malformed

/-- Skips what is expected next and all that the brackets in `opened` still hold. -/
def skip (expected : Expected) (opened : List Bracket) (cs : List Char) :
    Except Failure (Rest cs) :=
  match expected, opened with
  | .separator, [] => .ok (.whole cs)
  | .separator, bracket :: outer => do
      let (c, ⟨rest, h⟩) <- nextChar cs
      if c = ',' then
        let last <- skip bracket.item (bracket :: outer) rest
        return last.widen (Nat.le_of_lt h)
      else if c = bracket.closing then
        let last <- skip .separator outer rest
        return last.widen (Nat.le_of_lt h)
      else
        .error .malformed
  | .member, opened => do
      let (c, ⟨rest, h⟩) <- nextChar cs
      if c = '"' then
        let ⟨name, hname⟩ <- skipString rest
        let ⟨colon, hcolon⟩ <- readColon name
        let last <- skip .value opened colon
        return last.widen (by omega)
      else
        .error .malformed
  | .value, opened => do
      let (c, ⟨rest, h⟩) <- nextChar cs
      match Bracket.ofOpening? c with
      | none =>
          let ⟨scalar, hscalar⟩ <- skipScalar (c :: rest)
          have hle : scalar.length <= cs.length :=
            Nat.le_trans hscalar h
          let last <- skip .separator opened scalar
          return last.widen hle
      | some bracket =>
          let (d, ⟨inside, hinside⟩) <- nextChar rest
          if d = bracket.closing then
            let last <- skip .separator opened inside
            return last.widen (by omega)
          else
            let last <- skip bracket.item (bracket :: opened) rest
            return last.widen (Nat.le_of_lt h)
termination_by 2 * cs.length + (if expected = .separator then 0 else 1)
decreasing_by
  all_goals
    simp only [reduceIte]
    try split
    all_goals omega

def skipValue (cs : List Char) : Except Failure (Rest cs) :=
  skip .value [] cs

end Json
end BlockCache

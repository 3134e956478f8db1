import BlockCache.Json.Failure

/-!
# Blanks, words and strings of JSON

The smallest parts of a JSON text. Every reader takes the characters that are left and
answers what it read together with the rest, which is never longer.
-/

namespace BlockCache
namespace Json

/-- What is left of `cs` after something was read from it. -/
abbrev Rest (cs : List Char) : Type :=
  { rest : List Char // rest.length <= cs.length }

/-- What is left of `cs` after at least one character was read from it. -/
abbrev ShorterRest (cs : List Char) : Type :=
  { rest : List Char // rest.length < cs.length }

namespace Rest

def whole (cs : List Char) : Rest cs :=
  ⟨cs, Nat.le_refl _⟩

def widen {cs ds : List Char} (rest : Rest cs) (h : cs.length <= ds.length) : Rest ds :=
  ⟨rest.val, Nat.le_trans rest.property h⟩

def cons {cs : List Char} (c : Char) (rest : Rest cs) : Rest (c :: cs) :=
  rest.widen (Nat.le_succ _)

def next {cs : List Char} (rest : Rest cs) (last : Rest rest.val) : Rest cs :=
  last.widen rest.property

def nextBehind {cs ds : List Char} {c : Char} (rest : Rest cs) (h : rest.val = c :: ds)
    (last : Rest ds) : Rest cs :=
  rest.next (h ▸ last.cons c)

end Rest

namespace ShorterRest

def toRest {cs : List Char} (rest : ShorterRest cs) : Rest cs :=
  ⟨rest.val, Nat.le_of_lt rest.property⟩

def next {cs : List Char} (rest : ShorterRest cs) (last : Rest rest.val) : Rest cs :=
  rest.toRest.next last

def nextFrom {cs : List Char} (c : Char) (rest : ShorterRest cs) (last : Rest (c :: rest.val)) :
    Rest cs :=
  last.widen rest.property

end ShorterRest

def isBlank (c : Char) : Bool :=
  c = ' ' || c = '\n' || c = '\t' || c = '\r'

def skipBlank (cs : List Char) : List Char :=
  cs.dropWhile isBlank

theorem length_skipBlank_le (cs : List Char) : (skipBlank cs).length <= cs.length :=
  List.IsSuffix.length_le (List.dropWhile_suffix _)

theorem length_lt_of_skipBlank {cs rest : List Char} {c : Char} (h : skipBlank cs = c :: rest) :
    rest.length < cs.length :=
  Nat.lt_of_lt_of_le (h ▸ Nat.lt_succ_self _) (length_skipBlank_le cs)

def nextChar (cs : List Char) : Except Failure (Char × ShorterRest cs) :=
  match h : skipBlank cs with
  | [] => .error .unfinished
  | c :: rest => .ok (c, ⟨rest, length_lt_of_skipBlank h⟩)

def readColon (cs : List Char) : Except Failure (ShorterRest cs) := do
  let (c, rest) <- nextChar cs
  if c = ':' then return rest else .error .malformed

def readWord : (word : List Char) -> (cs : List Char) -> Except Failure (Rest cs)
  | [], cs => .ok (.whole cs)
  | _ :: _, [] => .error .unfinished
  | w :: word, c :: cs =>
      if c = w then
        (readWord word cs).map fun rest => rest.cons c
      else
        .error .malformed

def escaped? : Char -> Option Char
  | '"' => some '"'
  | '\\' => some '\\'
  | '/' => some '/'
  | 'b' => some '\x08'
  | 'f' => some '\x0c'
  | 'n' => some '\n'
  | 'r' => some '\r'
  | 't' => some '\t'
  | _ => none

def hexDigit? (c : Char) : Option Nat :=
  if '0' <= c ∧ c <= '9' then some (c.toNat - '0'.toNat)
  else if 'a' <= c ∧ c <= 'f' then some (c.toNat - 'a'.toNat + 10)
  else if 'A' <= c ∧ c <= 'F' then some (c.toNat - 'A'.toNat + 10)
  else none

def hexValue? (digits : List Char) : Option Nat :=
  digits.foldl
    (fun value c => do return (<- value) * 16 + (<- hexDigit? c))
    (some 0)

def byteLength (cs : List Char) : Nat :=
  cs.foldl (fun length c => length + c.utf8Size) 0

/-- Reads four hexadecimal digits; the text is at its end if not even four bytes are left. -/
def readHex (cs : List Char) : Except Failure (Nat × Rest cs) :=
  let digits := cs.take 4
  if byteLength digits < 4 then
    .error .unfinished
  else
    match hexValue? digits with
    | some n => .ok (n, ⟨cs.drop 4, (List.drop_suffix 4 cs).length_le⟩)
    | none => .error .malformed

def isLeadSurrogate (n : Nat) : Bool :=
  0xd800 <= n && n <= 0xdbff

def isTrailSurrogate (n : Nat) : Bool :=
  0xdc00 <= n && n <= 0xdfff

def ofSurrogates (lead trail : Nat) : Char :=
  Char.ofNat (0x10000 + (lead - 0xd800) * 0x400 + (trail - 0xdc00))

/-- Reads what follows `\u`: one number, or two if the first is the lead of a pair. -/
def readUnicode (cs : List Char) : Except Failure (Char × Rest cs) := do
  let (lead, rest) <- readHex cs
  if isTrailSurrogate lead then
    .error .malformed
  else if isLeadSurrogate lead then
    let marker <- readWord ['\\', 'u'] rest.val
    let (trail, last) <- readHex marker.val
    if isTrailSurrogate trail then
      return (ofSurrogates lead trail, rest.next (marker.next last))
    else
      .error .malformed
  else
    return (Char.ofNat lead, rest)

def readEscape : (cs : List Char) -> Except Failure (Char × Rest cs)
  | [] => .error .unfinished
  | 'u' :: cs => do
      let (c, rest) <- readUnicode cs
      return (c, rest.cons 'u')
  | c :: cs =>
      match escaped? c with
      | some d => .ok (d, (Rest.whole cs).cons c)
      | none => .error .malformed

/-- Skips what follows a backslash; numbers that stand for no character are let through. -/
def skipEscape : (cs : List Char) -> Except Failure (Rest cs)
  | [] => .error .unfinished
  | 'u' :: cs => do
      let (_, rest) <- readHex cs
      return rest.cons 'u'
  | c :: cs =>
      match escaped? c with
      | some _ => .ok ((Rest.whole cs).cons c)
      | none => .error .malformed

def isControl (c : Char) : Bool :=
  c.toNat < 0x20

def readString (cs : List Char) : Except Failure (List Char × Rest cs) :=
  match cs with
  | [] => .error .unfinished
  | c :: cs => do
      if c = '"' then
        return ([], (Rest.whole cs).cons c)
      else if c = '\\' then
        let (d, rest) <- readEscape cs
        let (ds, last) <- readString rest.val
        return (d :: ds, (rest.next last).cons c)
      else if isControl c then
        .error .malformed
      else
        let (ds, last) <- readString cs
        return (c :: ds, last.cons c)
termination_by cs.length
decreasing_by
  · exact Nat.lt_succ_of_le rest.property
  · exact Nat.lt_succ_self _

def skipString (cs : List Char) : Except Failure (Rest cs) :=
  match cs with
  | [] => .error .unfinished
  | c :: cs => do
      if c = '"' then
        return (Rest.whole cs).cons c
      else if c = '\\' then
        let rest <- skipEscape cs
        let last <- skipString rest.val
        return (rest.next last).cons c
      else if isControl c then
        .error .malformed
      else
        let last <- skipString cs
        return last.cons c
termination_by cs.length
decreasing_by
  · exact Nat.lt_succ_of_le rest.property
  · exact Nat.lt_succ_self _

end Json
end BlockCache

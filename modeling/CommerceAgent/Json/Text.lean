import CommerceAgent.Agent.State
import CommerceAgent.Text.Reader
import Mathlib.Data.Int.Notation

/-!
# The text of a JSON value

`json.dumps(v, ensure_ascii=False)` and `model_dump_json` write a value with and without
blanks behind commas and colons, and `json.loads` reads what either of them has written.
A floating-point number is kept as its text, so that how `float` and `repr` convert it is a
parameter of the reader: the text that `json.dumps` writes of the number that a spelling
stands for. A string is one of whole characters: an escape of half a surrogate pair is read as
no value.

The reader of the source recurses as deep as a value is nested. Here it is bounded by the
length of the text, which is more than that.
-/

namespace CommerceAgent

open Text

namespace Json

/-- What is written behind a comma and behind a colon. -/
structure Style where
  itemGap : List Char
  keyGap : List Char

/-- The separators of `json.dumps`. -/
def spaced : Style := ⟨[' '], [' ']⟩

/-- The separators of `model_dump_json`. -/
def compact : Style := ⟨[], []⟩

/-- A character of a string. -/
def escape (c : Char) : List Char :=
  if c = '"' then ['\\', '"']
  else if c = '\\' then ['\\', '\\']
  else if c = '\n' then ['\\', 'n']
  else if c = '\r' then ['\\', 'r']
  else if c = '\t' then ['\\', 't']
  else if c = '\x08' then ['\\', 'b']
  else if c = '\x0c' then ['\\', 'f']
  else if c.toNat < 0x20 then
    ['\\', 'u', '0', '0', Nat.digitChar (c.toNat / 16), Nat.digitChar (c.toNat % 16)]
  else [c]

def quote (s : String) : List Char := '"' :: (s.toList.flatMap escape ++ ['"'])

def writeInt (n : ℤ) : List Char :=
  (if n < 0 then ['-'] else []) ++ Nat.toDigits 10 n.natAbs

mutual

def write (style : Style) : Json → List Char
  | .null => ['n', 'u', 'l', 'l']
  | .bool true => ['t', 'r', 'u', 'e']
  | .bool false => ['f', 'a', 'l', 's', 'e']
  | .int n => writeInt n
  | .float text => text.toList
  | .str s => quote s
  | .arr items => '[' :: (writeItems id style.itemGap (writeAll style items) ++ [']'])
  | .obj fields => '{' :: (writeItems id style.itemGap (writeFields style fields) ++ ['}'])

def writeAll (style : Style) : List Json → List (List Char)
  | [] => []
  | v :: items => v.write style :: writeAll style items

def writeFields (style : Style) : List (String × Json) → List (List Char)
  | [] => []
  | (key, v) :: fields =>
      (quote key ++ ':' :: (style.keyGap ++ v.write style)) :: writeFields style fields

end

/-- `json.dumps`, or `model_dump_json`. -/
def dumps (style : Style) (v : Json) : String := String.ofList (v.write style)

/-- The blanks of JSON. -/
def isBlank (c : Char) : Bool := c == ' ' || c == '\t' || c == '\n' || c == '\r'

/-- `int(c, 16)`. -/
def hexValue? (c : Char) : Option ℕ :=
  if c.isDigit then some (c.toNat - 48)
  else if 'a' ≤ c ∧ c ≤ 'f' then some (c.toNat - 87)
  else if 'A' ≤ c ∧ c ≤ 'F' then some (c.toNat - 55)
  else none

/-- Four hexadecimal digits. -/
def readHex : Reader ℕ
  | a :: b :: c :: d :: s => do
      let a ← hexValue? a
      let b ← hexValue? b
      let c ← hexValue? c
      let d ← hexValue? d
      pure (((a * 16 + b) * 16 + c) * 16 + d, s)
  | _ => none

/-- The character behind `\u`. Half of a surrogate pair is not one: here the text that has it
alone is rejected, where the source makes a string of it that has no UTF-8. -/
def readCode : Reader Char := fun s => do
  let (code, s) ← readHex s
  if 0xd800 ≤ code ∧ code < 0xdc00 then
    match s with
    | c :: d :: s =>
        if c = '\\' ∧ d = 'u' then do
          let (low, s) ← readHex s
          if 0xdc00 ≤ low ∧ low < 0xe000 then
            pure (Char.ofNat (0x10000 + (code - 0xd800) * 0x400 + (low - 0xdc00)), s)
          else none
        else none
    | _ => none
  else if 0xdc00 ≤ code ∧ code < 0xe000 then none
  else pure (Char.ofNat code, s)

/-- What a backslash and a character stand for. -/
def unescape? (c : Char) : Option Char :=
  if c = '"' ∨ c = '\\' ∨ c = '/' then some c
  else if c = 'n' then some '\n'
  else if c = 'r' then some '\r'
  else if c = 't' then some '\t'
  else if c = 'b' then some '\x08'
  else if c = 'f' then some '\x0c'
  else none

def readChar : Reader Char
  | [] => none
  | c :: s =>
      if c = '\\' then
        match s with
        | [] => none
        | d :: s => if d = 'u' then readCode s else (unescape? d).map fun c => (c, s)
      else if c.toNat < 0x20 then none
      else some (c, s)

/-- A string behind its opening quote. -/
def readString : Reader String := fun s =>
  (readClosed readChar '"' s).map fun r => (String.ofList r.1, r.2)

/-- A sign, or none. -/
def splitSign (signs : List Char) : List Char → List Char × List Char
  | [] => ([], [])
  | c :: s => if c ∈ signs then ([c], s) else ([], c :: s)

/-- A mark and a sign in front of digits, with them; nothing if there is no digit. -/
def splitPart (marks signs : List Char) : List Char → List Char × List Char
  | [] => ([], [])
  | c :: s =>
      let digits := (splitSign signs s).2.takeWhile Char.isDigit
      if c ∈ marks ∧ digits ≠ [] then
        (c :: ((splitSign signs s).1 ++ digits), (splitSign signs s).2.dropWhile Char.isDigit)
      else ([], c :: s)

def splitFraction : List Char → List Char × List Char := splitPart ['.'] []

def splitExponent : List Char → List Char × List Char := splitPart ['e', 'E'] ['+', '-']

section Loads

variable (floatText : String → String)

def readNumber : Reader Json := fun s => do
  let sign := splitSign ['-'] s
  let (n, rest) ← readNatural sign.2
  let fraction := splitFraction rest
  let exponent := splitExponent fraction.2
  if fraction.1 ++ exponent.1 = [] then pure (.int (if sign.1 = [] then n else -n), rest)
  else
    pure (.float (floatText (String.ofList
      (sign.1 ++ Nat.toDigits 10 n ++ (fraction.1 ++ exponent.1)))), exponent.2)

/-- The values that are written as words. -/
def constants : List (List Char × Json) :=
  [(['n', 'u', 'l', 'l'], .null), (['t', 'r', 'u', 'e'], .bool true),
    (['f', 'a', 'l', 's', 'e'], .bool false), (['N', 'a', 'N'], .float "NaN"),
    ("Infinity".toList, .float "Infinity"), ("-Infinity".toList, .float "-Infinity")]

def readConstant : Reader Json := fun s =>
  constants.findSome? fun word =>
    if word.1.isPrefixOf s then some (word.2, s.drop word.1.length) else none

/-- A key, a colon and a value. -/
def readMember (value : Reader Json) : Reader (String × Json)
  | [] => none
  | c :: s =>
      if c = '"' then do
        let (key, s) ← readString s
        match s.dropWhile isBlank with
        | [] => none
        | c :: s =>
            if c = ':' then do
              let (v, s) ← value (s.dropWhile isBlank)
              pure ((key, v), s)
            else none
      else none

/-- `d[key] = v`. -/
def setField (d : JsonObject) (field : String × Json) : JsonObject :=
  if d.any fun member => member.1 == field.1 then
    d.map fun member => if member.1 == field.1 then field else member
  else d ++ [field]

/-- `dict(fields)`. -/
def dictOf (fields : List (String × Json)) : JsonObject := fields.foldl setField []

def readValue : ℕ → Reader Json
  | 0, _ => none
  | _ + 1, [] => none
  | n + 1, c :: s =>
      if c = '"' then (readString s).map fun r => (.str r.1, r.2)
      else if c = '[' then
        (readList (readValue n) isBlank ']' s).map fun r => (.arr r.1, r.2)
      else if c = '{' then
        (readList (readMember (readValue n)) isBlank '}' s).map fun r => (.obj (dictOf r.1), r.2)
      else (readConstant (c :: s)).or (readNumber floatText (c :: s))

/-- `json.loads`, of texts whose escapes are whole characters. -/
def loads (text : String) : Option Json := do
  let (v, rest) ← readValue floatText text.length (text.toList.dropWhile isBlank)
  if rest.dropWhile isBlank = [] then pure v else none

end Loads

end Json

end CommerceAgent

import IdentityCommon.Ecma.Value
import IdentityCommon.Lib.DigitString

/-!
# JSON text

`JSON.stringify` and `JSON.parse` without their optional arguments.

## Main definitions

- `Json.stringify` — the text of a value, if it has one
- `Json.parse` — the value of a text, if it is JSON

## Design notes

Strings are sequences of Unicode scalar values, so an escape for one half of a surrogate pair
is only read together with the other half. The number of steps that `parseValue` takes is
bounded by the length of the text.
-/

namespace IdentityCommon.Ecma.Json

open AssocList DigitString Value

/-! ## Writing -/

/-- A digit of base 16. -/
def hexDigit (n : ℕ) : Char := Nat.digitChar n

/-- The text for one character of a string. -/
def escape (c : Char) : List Char :=
  if c = '"' then ['\\', '"']
  else if c = '\\' then ['\\', '\\']
  else if c = '\u0008' then ['\\', 'b']
  else if c = '\u0009' then ['\\', 't']
  else if c = '\u000a' then ['\\', 'n']
  else if c = '\u000c' then ['\\', 'f']
  else if c = '\u000d' then ['\\', 'r']
  else if c.toNat < 32 then ['\\', 'u', '0', '0', hexDigit (c.toNat / 16), hexDigit (c.toNat % 16)]
  else [c]

def quote (s : String) : List Char := '"' :: (s.toList.flatMap escape ++ ['"'])

def commas (texts : List (List Char)) : List Char := [','].intercalate texts

def leafText : Leaf → Option (List Char)
  | .undefined | .notDisclosed | .builtin _ => none
  | .null => some "null".toList
  | .bool b => some (if b then "true".toList else "false".toList)
  | .num n => some n.toText
  | .str s => some (quote s)
  | .objectPrototype | .host _ => some "\x7b\x7d".toList

mutual

/-- `JSON.stringify(value)`. -/
def stringify : Value → Option (List Char)
  | leaf l => leafText l
  | arr items => some ('[' :: (commas (itemTexts items) ++ [']']))
  | obj members => some ('\x7b' :: (commas (memberTexts members) ++ ['\x7d']))

/-- An element without a text is `null`. -/
def itemTexts : List Value → List (List Char)
  | [] => []
  | item :: items => (stringify item).getD "null".toList :: itemTexts items

/-- A member without a text is left out. -/
def memberTexts : List (String × Value) → List (List Char)
  | [] => []
  | (key, value) :: members =>
    match stringify value with
    | some text => (quote key ++ ':' :: text) :: memberTexts members
    | none => memberTexts members

end

/-! ## Reading -/

def isSpace (c : Char) : Bool := c = ' ' || c = '\u0009' || c = '\u000a' || c = '\u000d'

def skipSpace (cs : List Char) : List Char := cs.dropWhile isSpace

def hexValue (c : Char) : Option ℕ :=
  if c.isDigit then some (c.toNat - 48)
  else if 'a' ≤ c ∧ c ≤ 'f' then some (c.toNat - 87)
  else if 'A' ≤ c ∧ c ≤ 'F' then some (c.toNat - 55)
  else none

/-- Four digits of base 16. -/
def parseHex : List Char → Option (ℕ × List Char)
  | a :: b :: c :: d :: rest => do
    let a ← hexValue a
    let b ← hexValue b
    let c ← hexValue c
    let d ← hexValue d
    return (((a * 16 + b) * 16 + c) * 16 + d, rest)
  | _ => none

/-- The character of an escape, from after its backslash on. -/
def parseEscape : List Char → Option (Char × List Char)
  | [] => none
  | c :: rest =>
    if c = '"' ∨ c = '\\' ∨ c = '/' then some (c, rest)
    else if c = 'b' then some ('\u0008', rest)
    else if c = 't' then some ('\u0009', rest)
    else if c = 'n' then some ('\u000a', rest)
    else if c = 'f' then some ('\u000c', rest)
    else if c = 'r' then some ('\u000d', rest)
    else if c = 'u' then
      match parseHex rest with
      | none => none
      | some (n, rest) =>
        if n < 0xD800 ∨ 0xDFFF < n then some (Char.ofNat n, rest)
        else match rest with
          -- the other half of a surrogate pair
          | '\\' :: 'u' :: rest => match parseHex rest with
            | some (m, rest) =>
              if n < 0xDC00 ∧ 0xDC00 ≤ m ∧ m ≤ 0xDFFF then
                some (Char.ofNat (0x10000 + (n - 0xD800) * 0x400 + (m - 0xDC00)), rest)
              else none
            | none => none
          | _ => none
    else none

/-- The characters of a string, from after its opening quote on. -/
def parseString : ℕ → List Char → Option (List Char × List Char)
  | 0, _ | _, [] => none
  | fuel + 1, c :: rest =>
    if c = '"' then some ([], rest)
    else if c = '\\' then do
      let (c, rest) ← parseEscape rest
      let (cs, rest) ← parseString fuel rest
      return (c :: cs, rest)
    else if c.toNat < 32 then none
    else do
      let (cs, rest) ← parseString fuel rest
      return (c :: cs, rest)

/-- The digits after the point, if there is one. -/
def parseFraction : List Char → Option (List Char × List Char)
  | '.' :: cs =>
    if cs.takeWhile Char.isDigit = [] then none
    else some (cs.takeWhile Char.isDigit, cs.dropWhile Char.isDigit)
  | cs => some ([], cs)

/-- Whether there is a minus, and what follows the sign. -/
def parseSign (plus : Bool) : List Char → Bool × List Char
  | '-' :: cs => (true, cs)
  | '+' :: cs => if plus then (false, cs) else (false, '+' :: cs)
  | cs => (false, cs)

def parseExponent : List Char → Option (ℤ × List Char)
  | [] => some (0, [])
  | c :: cs =>
    if c = 'e' ∨ c = 'E' then
      let (negative, cs) := parseSign true cs
      let digits := cs.takeWhile Char.isDigit
      if digits = [] then none
      else some (if negative then -(parseDigits 10 digits : ℤ) else parseDigits 10 digits,
        cs.dropWhile Char.isDigit)
    else some (0, c :: cs)

def parseNumber (cs : List Char) : Option (Number × List Char) :=
  let (negative, cs) := parseSign false cs
  let digits := cs.takeWhile Char.isDigit
  if digits = [] ∨ digits.head? = some '0' ∧ digits.length ≠ 1 then none
  else do
    let (fraction, rest) ← parseFraction (cs.dropWhile Char.isDigit)
    let (exponent, rest) ← parseExponent rest
    let mantissa : ℤ := parseDigits 10 (digits ++ fraction)
    return (.ofDecimal (if negative then -mantissa else mantissa)
      (exponent - fraction.length), rest)

/-- The rest of a text that starts with a keyword. -/
def parseKeyword (keyword : String) (cs : List Char) : Option (List Char) :=
  if keyword.toList <+: cs then some (cs.drop keyword.length) else none

/-- The object with the members, where the last one of a name counts. -/
def makeObject (members : List (String × Value)) : Value :=
  obj (members.foldl (fun members m => insert m.1 m.2 members) [])

mutual

def parseValue : ℕ → List Char → Option (Value × List Char)
  | 0, _ => none
  | fuel + 1, cs =>
    match skipSpace cs with
    | '"' :: rest => (parseString rest.length rest).map fun (s, rest) =>
        (str (String.ofList s), rest)
    | '[' :: rest => match skipSpace rest with
      | ']' :: rest => some (arr [], rest)
      | rest => (parseItems fuel rest).map fun (items, rest) => (arr items, rest)
    | '\x7b' :: rest => match skipSpace rest with
      | '\x7d' :: rest => some (obj [], rest)
      | rest => (parseMembers fuel rest).map fun (members, rest) => (makeObject members, rest)
    | 'n' :: rest => (parseKeyword "ull" rest).map fun rest => (null, rest)
    | 't' :: rest => (parseKeyword "rue" rest).map fun rest => (bool true, rest)
    | 'f' :: rest => (parseKeyword "alse" rest).map fun rest => (bool false, rest)
    | rest => (parseNumber rest).map fun (n, rest) => (num n, rest)

/-- The elements of an array, from its first one on. -/
def parseItems : ℕ → List Char → Option (List Value × List Char)
  | 0, _ => none
  | fuel + 1, cs => do
    let (item, rest) ← parseValue fuel cs
    match skipSpace rest with
    | ',' :: rest => do
      let (items, rest) ← parseItems fuel rest
      return (item :: items, rest)
    | ']' :: rest => return ([item], rest)
    | _ => none

/-- The members of an object, from its first one on. -/
def parseMembers : ℕ → List Char → Option (List (String × Value) × List Char)
  | 0, _ => none
  | fuel + 1, cs =>
    match skipSpace cs with
    | '"' :: rest => do
      let (key, rest) ← parseString rest.length rest
      match skipSpace rest with
      | ':' :: rest => do
        let (value, rest) ← parseValue fuel rest
        match skipSpace rest with
        | ',' :: rest => do
          let (members, rest) ← parseMembers fuel rest
          return ((String.ofList key, value) :: members, rest)
        | '\x7d' :: rest => return ([(String.ofList key, value)], rest)
        | _ => none
      | _ => none
    | _ => none

end

/-- `JSON.parse(text)`. -/
def parse (text : List Char) : Option Value :=
  match parseValue (text.length + 1) text with
  | some (value, rest) => if skipSpace rest = [] then some value else none
  | none => none

end IdentityCommon.Ecma.Json

import Mathlib.Data.Nat.Notation
import Mathlib.Tactic.Common

/-! JSON texts over UTF-16 code units: the grammar that `JSON.parse` accepts, the text that
`JSON.stringify` writes without white space, and the round trip between them. -/
namespace JsonText

abbrev Units := List UInt16

/-! Values -/

def isDigit (c : UInt16) : Bool := 0x30 ≤ c && c ≤ 0x39

def isDigits (t : Units) : Bool := !t.isEmpty && t.all isDigit

/-- An integer part has no leading zero. -/
def isInt (t : Units) : Bool := isDigits t && (t.head? ≠ some 0x30 || t.length = 1)

def dropMinus (t : Units) : Units := if t.head? = some 0x2d then t.tail else t

/-- The exponent that follows an `e`. -/
def dropSign (t : Units) : Units :=
  if t.head? = some 0x2b || t.head? = some 0x2d then t.tail else t

def inMantissa (c : UInt16) : Bool := c ≠ 0x65 && c ≠ 0x45

def mantissa (t : Units) : Units := (dropMinus t).takeWhile inMantissa

/-- The exponent and its `e`, if there is one. -/
def exponent (t : Units) : Units := (dropMinus t).dropWhile inMantissa

/-- The fraction and its dot, if there is one. -/
def fraction (t : Units) : Units := (mantissa t).dropWhile fun c => c ≠ 0x2e

def integer (t : Units) : Units := (mantissa t).takeWhile fun c => c ≠ 0x2e

/-- The literals of numbers: a sign, an integer, a fraction, an exponent. -/
def isNumber (t : Units) : Bool :=
  isInt (integer t) && ((fraction t).isEmpty || isDigits (fraction t).tail) &&
    ((exponent t).isEmpty || isDigits (dropSign (exponent t).tail))

structure Number where
  text : Units
  valid : isNumber text = true

inductive Json where
  | null
  | bool (b : Bool)
  | number (n : Number)
  | string (s : Units)
  | array (elements : List Json)
  | object (members : List (Units × Json))

/-! Code units -/

/-- A character as one or two code units. -/
def utf16 (c : Char) : Units :=
  if c.toNat < 0x10000 then [UInt16.ofNat c.toNat]
  else [UInt16.ofNat (0xd800 + (c.toNat - 0x10000) / 0x400),
    UInt16.ofNat (0xdc00 + (c.toNat - 0x10000) % 0x400)]

def units (s : String) : Units := s.toList.flatMap utf16

def isLead (c : UInt16) : Bool := 0xd800 ≤ c && c ≤ 0xdbff
def isTrail (c : UInt16) : Bool := 0xdc00 ≤ c && c ≤ 0xdfff

/-- The characters of a text without lone surrogates. -/
def decodeUnits : Units → Option (List Char)
  | [] => some []
  | [c] => if isLead c || isTrail c then none else some [Char.ofNat c.toNat]
  | c :: d :: rest =>
    if isLead c && isTrail d then
      (decodeUnits rest).map
        (Char.ofNat (0x10000 + (c.toNat - 0xd800) * 0x400 + (d.toNat - 0xdc00)) :: ·)
    else if isLead c || isTrail c then none
    else (decodeUnits (d :: rest)).map (Char.ofNat c.toNat :: ·)

def isSpace (c : UInt16) : Bool := c = 0x20 || c = 0x09 || c = 0x0a || c = 0x0d

def skipSpace (s : Units) : Units := s.dropWhile isSpace

/-! Texts -/

def hexUnit (d : Nat) : UInt16 := UInt16.ofNat (if d < 10 then 0x30 + d else 0x57 + d)

def hexUnits (c : UInt16) : Units :=
  [hexUnit (c.toNat / 4096), hexUnit (c.toNat / 256 % 16), hexUnit (c.toNat / 16 % 16),
    hexUnit (c.toNat % 16)]

/-- One unit inside quotes; control characters and lone surrogates are escaped. -/
def quoteUnit (c : UInt16) : Units :=
  if c = 0x22 then [0x5c, 0x22]
  else if c = 0x5c then [0x5c, 0x5c]
  else if c = 0x08 then [0x5c, 0x62]
  else if c = 0x0c then [0x5c, 0x66]
  else if c = 0x0a then [0x5c, 0x6e]
  else if c = 0x0d then [0x5c, 0x72]
  else if c = 0x09 then [0x5c, 0x74]
  else if c < 0x20 || isLead c || isTrail c then 0x5c :: 0x75 :: hexUnits c
  else [c]

def quoteUnits : Units → Units
  | [] => []
  | [c] => quoteUnit c
  | c :: d :: cs =>
    if isLead c && isTrail d then c :: d :: quoteUnits cs else quoteUnit c ++ quoteUnits (d :: cs)

def quote (s : Units) : Units := 0x22 :: quoteUnits s ++ [0x22]

mutual

def stringify : Json → Units
  | .null => units "null"
  | .bool true => units "true"
  | .bool false => units "false"
  | .number n => n.text
  | .string s => quote s
  | .array elements => 0x5b :: elementsText elements
  | .object members => 0x7b :: membersText members

/-- The elements of an array and its closing bracket. -/
def elementsText : List Json → Units
  | [] => [0x5d]
  | [x] => stringify x ++ [0x5d]
  | x :: y :: ys => stringify x ++ 0x2c :: elementsText (y :: ys)

/-- The members of an object and its closing brace. -/
def membersText : List (Units × Json) → Units
  | [] => [0x7d]
  | [(key, x)] => quote key ++ 0x3a :: (stringify x ++ [0x7d])
  | (key, x) :: m :: ms => quote key ++ 0x3a :: (stringify x ++ 0x2c :: membersText (m :: ms))

end

/-! Parsing -/

def hexValue (c : UInt16) : Option Nat :=
  if 0x30 ≤ c && c ≤ 0x39 then some (c.toNat - 0x30)
  else if 0x61 ≤ c && c ≤ 0x66 then some (c.toNat - 0x57)
  else if 0x41 ≤ c && c ≤ 0x46 then some (c.toNat - 0x37)
  else none

def unescape (c : UInt16) : Option UInt16 :=
  if c = 0x22 || c = 0x5c || c = 0x2f then some c
  else if c = 0x62 then some 0x08
  else if c = 0x66 then some 0x0c
  else if c = 0x6e then some 0x0a
  else if c = 0x72 then some 0x0d
  else if c = 0x74 then some 0x09
  else none

/-- The rest of a string behind its opening quote, and what follows its closing one. -/
def stringBody : Units → Option (Units × Units)
  | [] => none
  | c :: rest =>
    if c = 0x22 then some ([], rest)
    else if c = 0x5c then
      match rest with
      | [] => none
      | e :: rest =>
        if e = 0x75 then
          match rest with
          | h₃ :: h₂ :: h₁ :: h₀ :: rest => do
            let d₃ ← hexValue h₃
            let d₂ ← hexValue h₂
            let d₁ ← hexValue h₁
            let d₀ ← hexValue h₀
            let (s, after) ← stringBody rest
            some (UInt16.ofNat (d₃ * 4096 + d₂ * 256 + d₁ * 16 + d₀) :: s, after)
          | _ => none
        else do
          let x ← unescape e
          let (s, after) ← stringBody rest
          some (x :: s, after)
    else if c < 0x20 then none
    else do
      let (s, after) ← stringBody rest
      some (c :: s, after)

def isNumberUnit (c : UInt16) : Bool :=
  isDigit c || c = 0x2b || c = 0x2d || c = 0x2e || c = 0x65 || c = 0x45

/-- A number takes all units that can stand in one: no value may follow it directly. -/
def number (s : Units) : Option (Json × Units) :=
  if h : isNumber (s.takeWhile isNumberUnit) = true then
    some (.number ⟨_, h⟩, s.dropWhile isNumberUnit)
  else none

def keyword (text : Units) (value : Json) (s : Units) : Option (Json × Units) :=
  if text.isPrefixOf s then some (value, s.drop text.length) else none

/-- What follows a unit that may stand behind white space. -/
def after (c : UInt16) (s : Units) : Option Units :=
  match skipSpace s with
  | [] => none
  | d :: rest => if d = c then some rest else none

mutual

def value : Nat → Units → Option (Json × Units)
  | 0, _ => none
  | fuel + 1, s =>
    match skipSpace s with
    | [] => none
    | c :: rest =>
      if c = 0x22 then (stringBody rest).map fun p => (.string p.1, p.2)
      else if c = 0x5b then
        match after 0x5d rest with
        | some rest => some (.array [], rest)
        | none => (elements fuel rest).map fun p => (.array p.1, p.2)
      else if c = 0x7b then
        match after 0x7d rest with
        | some rest => some (.object [], rest)
        | none => (members fuel rest).map fun p => (.object p.1, p.2)
      else if c = 0x6e then keyword (units "null") .null (c :: rest)
      else if c = 0x74 then keyword (units "true") (.bool true) (c :: rest)
      else if c = 0x66 then keyword (units "false") (.bool false) (c :: rest)
      else number (c :: rest)

def elements : Nat → Units → Option (List Json × Units)
  | 0, _ => none
  | fuel + 1, s =>
    (value fuel s).bind fun p =>
      match after 0x5d p.2 with
      | some rest => some ([p.1], rest)
      | none => (after 0x2c p.2).bind fun rest =>
        (elements fuel rest).map fun q => (p.1 :: q.1, q.2)

def members : Nat → Units → Option (List (Units × Json) × Units)
  | 0, _ => none
  | fuel + 1, s =>
    (after 0x22 s).bind fun rest => (stringBody rest).bind fun key =>
      (after 0x3a key.2).bind fun rest => (value fuel rest).bind fun p =>
        match after 0x7d p.2 with
        | some rest => some ([(key.1, p.1)], rest)
        | none => (after 0x2c p.2).bind fun rest =>
          (members fuel rest).map fun q => ((key.1, p.1) :: q.1, q.2)

end

/-- `JSON.parse`; a value of `n` units is nested less than `n` deep. -/
def parse (s : Units) : Option Json :=
  match value (2 * s.length) s with
  | some (j, rest) => if (skipSpace rest).isEmpty then some j else none
  | none => none

end JsonText

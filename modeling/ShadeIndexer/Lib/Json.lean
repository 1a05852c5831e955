import Mathlib.Algebra.Order.Ring.Rat
import Mathlib.Data.List.TakeWhile
import Mathlib.Tactic.Ring

/-!
JSON texts. The writer is a compact one, which escapes what a JSON string must
escape and nothing else. The reader takes the whole grammar, with white space,
fractions, exponents and escapes, and yields strings of UTF-16 code units, so
that an unpaired surrogate is a string as well.

The reader recurses on a bound, of which every value and every item takes one.
It is given one more than there are characters.
-/

namespace ShadeIndexer.Lib.Json

variable {ν ν' σ σ' : Type}

inductive Value (ν σ : Type) where
  | null
  | bool (b : Bool)
  | number (n : ν)
  | string (s : σ)
  | array (items : List (Value ν σ))
  | object (fields : List (σ × Value ν σ))

mutual

/-- The same value with other numbers and strings. -/
def Value.map (f : ν → ν') (g : σ → σ') : Value ν σ → Value ν' σ'
  | .null => .null
  | .bool b => .bool b
  | .number n => .number (f n)
  | .string s => .string (g s)
  | .array items => .array (mapItems f g items)
  | .object fields => .object (mapFields f g fields)

def mapItems (f : ν → ν') (g : σ → σ') : List (Value ν σ) → List (Value ν' σ')
  | [] => []
  | v :: rest => v.map f g :: mapItems f g rest

def mapFields (f : ν → ν') (g : σ → σ') : List (σ × Value ν σ) → List (σ' × Value ν' σ')
  | [] => []
  | (key, v) :: rest => (g key, v.map f g) :: mapFields f g rest

end

mutual

/-- No object of the value has two fields of one key. -/
def Value.Distinct : Value ν σ → Prop
  | .null => True
  | .bool _ => True
  | .number _ => True
  | .string _ => True
  | .array items => DistinctItems items
  | .object fields => (fields.map Prod.fst).Nodup ∧ DistinctFields fields

def DistinctItems : List (Value ν σ) → Prop
  | [] => True
  | v :: rest => v.Distinct ∧ DistinctItems rest

def DistinctFields : List (σ × Value ν σ) → Prop
  | [] => True
  | (_, v) :: rest => v.Distinct ∧ DistinctFields rest

end

abbrev Units := List UInt16

def encodeChar (c : Char) : Units :=
  if c.toNat < 0x10000 then [UInt16.ofNat c.toNat]
  else
    [UInt16.ofNat (0xd800 + (c.toNat - 0x10000) / 0x400),
      UInt16.ofNat (0xdc00 + (c.toNat - 0x10000) % 0x400)]

def utf16 (s : String) : Units := s.toList.flatMap encodeChar

def quotationMark : Char := Char.ofNat 0x22

def reverseSolidus : Char := Char.ofNat 0x5c

def escape (c : Char) : List Char :=
  if c = quotationMark then [reverseSolidus, quotationMark]
  else if c = reverseSolidus then [reverseSolidus, reverseSolidus]
  else if c.toNat = 8 then [reverseSolidus, 'b']
  else if c.toNat = 9 then [reverseSolidus, 't']
  else if c.toNat = 10 then [reverseSolidus, 'n']
  else if c.toNat = 12 then [reverseSolidus, 'f']
  else if c.toNat = 13 then [reverseSolidus, 'r']
  else if c.toNat < 32 then
    [reverseSolidus, 'u', '0', '0', Nat.digitChar (c.toNat / 16), Nat.digitChar (c.toNat % 16)]
  else [c]

def writeString (s : String) : List Char :=
  quotationMark :: (s.toList.flatMap escape ++ [quotationMark])

def writeNumber (n : Int) : List Char :=
  if n < 0 then '-' :: Nat.toDigits 10 n.natAbs else Nat.toDigits 10 n.natAbs

mutual

def write : Value Int String → List Char
  | .null => ['n', 'u', 'l', 'l']
  | .bool true => ['t', 'r', 'u', 'e']
  | .bool false => ['f', 'a', 'l', 's', 'e']
  | .number n => writeNumber n
  | .string s => writeString s
  | .array items => '[' :: writeItems true items
  | .object fields => '{' :: writeFields true fields

/-- The items from here on and the closing bracket. -/
def writeItems (first : Bool) : List (Value Int String) → List Char
  | [] => [']']
  | v :: rest => (if first then [] else [',']) ++ write v ++ writeItems false rest

/-- The fields from here on and the closing bracket. -/
def writeFields (first : Bool) : List (String × Value Int String) → List Char
  | [] => ['}']
  | (key, v) :: rest =>
    (if first then [] else [',']) ++ writeString key ++ ':' :: write v ++ writeFields false rest

end

def isSpace (c : Char) : Bool := c = ' ' || c.toNat = 9 || c.toNat = 10 || c.toNat = 13

def skipSpace (cs : List Char) : List Char := cs.dropWhile isSpace

def hexValue (c : Char) : Option Nat :=
  if 48 ≤ c.toNat ∧ c.toNat ≤ 57 then some (c.toNat - 48)
  else if 97 ≤ c.toNat ∧ c.toNat ≤ 102 then some (c.toNat - 87)
  else if 65 ≤ c.toNat ∧ c.toNat ≤ 70 then some (c.toNat - 55)
  else none

def hexUnit (a b c d : Char) : Option UInt16 := do
  let w ← hexValue a
  let x ← hexValue b
  let y ← hexValue c
  let z ← hexValue d
  pure (UInt16.ofNat (((w * 16 + x) * 16 + y) * 16 + z))

/-- The unit that an escape of one character stands for. -/
def unescape (c : Char) : Option UInt16 :=
  if c = quotationMark ∨ c = reverseSolidus ∨ c = '/' then some (UInt16.ofNat c.toNat)
  else if c = 'b' then some 8
  else if c = 't' then some 9
  else if c = 'n' then some 10
  else if c = 'f' then some 12
  else if c = 'r' then some 13
  else none

/-- The rest of a string whose opening quotation mark has been read. -/
def readString : List Char → Option (Units × List Char)
  | [] => none
  | c :: rest =>
    if c = quotationMark then some ([], rest)
    else if c = reverseSolidus then
      match rest with
      | 'u' :: w :: x :: y :: z :: rest => do
          let unit ← hexUnit w x y z
          let (units, rest) ← readString rest
          pure (unit :: units, rest)
      | e :: rest => do
          let unit ← unescape e
          let (units, rest) ← readString rest
          pure (unit :: units, rest)
      | [] => none
    else if c.toNat < 32 then none
    else do
      let (units, rest) ← readString rest
      pure (encodeChar c ++ units, rest)

/-- A run of at least one digit. -/
def readDigits (cs : List Char) : Option (List Char × List Char) :=
  if (cs.takeWhile Char.isDigit).isEmpty then none
  else some (cs.takeWhile Char.isDigit, cs.dropWhile Char.isDigit)

def readFraction : List Char → Option (ℚ × List Char)
  | [] => some (0, [])
  | c :: rest =>
    if c = '.' then do
      let (digits, rest) ← readDigits rest
      pure (Nat.ofDigitChars 10 digits 0 / 10 ^ digits.length, rest)
    else some (0, c :: rest)

def readSign : List Char → Bool × List Char
  | [] => (false, [])
  | c :: rest =>
    if c = '-' then (true, rest) else if c = '+' then (false, rest) else (false, c :: rest)

def readExponent : List Char → Option (Int × List Char)
  | [] => some (0, [])
  | c :: rest =>
    if c = 'e' ∨ c = 'E' then do
      let (negative, rest) := readSign rest
      let (digits, rest) ← readDigits rest
      let magnitude : Int := Nat.ofDigitChars 10 digits 0
      pure (if negative then -magnitude else magnitude, rest)
    else some (0, c :: rest)

/-- A number without its sign. A run of digits that starts with `0` is no
longer than that. -/
def readMagnitude (cs : List Char) : Option (ℚ × List Char) := do
  let (digits, rest) ← readDigits cs
  if digits.head? = some '0' ∧ digits.length ≠ 1 then none
  else
    let (fraction, rest) ← readFraction rest
    let (exponent, rest) ← readExponent rest
    pure ((Nat.ofDigitChars 10 digits 0 + fraction) * 10 ^ exponent, rest)

def readNumber : List Char → Option (ℚ × List Char)
  | [] => none
  | c :: rest =>
    if c = '-' then (readMagnitude rest).map fun r => (-r.1, r.2) else readMagnitude (c :: rest)

/-- A property that is set again keeps its place and takes the new value. -/
def setField [DecidableEq σ] (fields : List (σ × Value ν σ)) (key : σ) (v : Value ν σ) :
    List (σ × Value ν σ) :=
  if key ∈ fields.map Prod.fst then
    fields.map fun field => if field.1 = key then (key, v) else field
  else fields ++ [(key, v)]

def setFields [DecidableEq σ] (fields : List (σ × Value ν σ)) : List (σ × Value ν σ) :=
  fields.foldl (fun set field => setField set field.1 field.2) []

def keyword (word : List Char) (v : Value ν Units) (cs : List Char) :
    Option (Value ν Units × List Char) :=
  (cs.dropPrefix? word).map fun rest => (v, rest)

variable (number : ℚ → ν)

mutual

def readValue : Nat → List Char → Option (Value ν Units × List Char)
  | 0, _ => none
  | n + 1, cs =>
    match skipSpace cs with
    | [] => none
    | c :: rest =>
      if c = quotationMark then (readString rest).map fun r => (.string r.1, r.2)
      else if c = '[' then
        if (skipSpace rest).head? = some ']' then some (.array [], (skipSpace rest).tail)
        else (readItems n rest).map fun r => (.array r.1, r.2)
      else if c = '{' then
        if (skipSpace rest).head? = some '}' then some (.object [], (skipSpace rest).tail)
        else (readFields n rest).map fun r => (.object (setFields r.1), r.2)
      else if c = 'n' then keyword ['u', 'l', 'l'] .null rest
      else if c = 't' then keyword ['r', 'u', 'e'] (.bool true) rest
      else if c = 'f' then keyword ['a', 'l', 's', 'e'] (.bool false) rest
      else (readNumber (c :: rest)).map fun r => (.number (number r.1), r.2)

def readItems : Nat → List Char → Option (List (Value ν Units) × List Char)
  | 0, _ => none
  | n + 1, cs => do
      let (v, rest) ← readValue n cs
      match skipSpace rest with
      | [] => none
      | c :: rest =>
        if c = ',' then (readItems n rest).map fun r => (v :: r.1, r.2)
        else if c = ']' then some ([v], rest)
        else none

def readFields : Nat → List Char → Option (List (Units × Value ν Units) × List Char)
  | 0, _ => none
  | n + 1, cs =>
    match skipSpace cs with
    | [] => none
    | q :: rest =>
      if q = quotationMark then do
        let (key, rest) ← readString rest
        match skipSpace rest with
        | [] => none
        | c :: rest =>
          if c = ':' then do
            let (v, rest) ← readValue n rest
            match skipSpace rest with
            | [] => none
            | c :: rest =>
              if c = ',' then (readFields n rest).map fun r => ((key, v) :: r.1, r.2)
              else if c = '}' then some ([(key, v)], rest)
              else none
          else none
      else none

end

/-- One value, with nothing but white space after it. -/
def read (cs : List Char) : Option (Value ν Units) := do
  let (v, rest) ← readValue number (cs.length + 1) cs
  if (skipSpace rest).isEmpty then some v else none

end ShadeIndexer.Lib.Json

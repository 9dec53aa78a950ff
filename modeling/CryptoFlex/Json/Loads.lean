import CryptoFlex.Json.Dumps
import CryptoFlex.Lib.Scanner

namespace CryptoFlex

open Lib CodePoint

namespace JsonText

/-- A character of a string literal, and whether it was written as `\uXXXX`. -/
inductive StrUnit
  | char (c : CodePoint)
  | escaped (c : CodePoint)

def hexValue (c : CodePoint) : Option Nat :=
  if 48 ≤ c.val ∧ c.val ≤ 57 then some (c.val - 48)
  else if 97 ≤ c.val ∧ c.val ≤ 102 then some (c.val - 87)
  else if 65 ≤ c.val ∧ c.val ≤ 70 then some (c.val - 55)
  else none

/-- Four hexadecimal digits. -/
def hex4 (a b c d : CodePoint) : Option CodePoint := do
  let a ← hexValue a
  let b ← hexValue b
  let c ← hexValue c
  let d ← hexValue d
  return Fin.ofNat _ (a * 4096 + b * 256 + c * 16 + d)

/-- The character that a letter stands for behind a backslash. -/
def unescape (letter : CodePoint) : Option CodePoint :=
  if letter = ofChar '/' then some letter else (shortEscapes.map Prod.swap).lookup letter

/-- The text of a `JSONDecodeError`, without the position. -/
def decodeError (msg : String) : Exc := .valueError msg

/-- A string literal behind its opening quote, up to and with the closing one. -/
def scanUnits : List CodePoint → Except Exc (List StrUnit × List CodePoint)
  | [] => .error (decodeError "Unterminated string starting at")
  | c :: rest =>
    if c = ofChar '"' then .ok ([], rest)
    else if c ≠ ofChar '\\' then
      if c.val < 0x20 then .error (decodeError "Invalid control character at")
      else (scanUnits rest).map fun r => (.char c :: r.1, r.2)
    else
    match rest with
    | [] => .error (decodeError "Unterminated string starting at")
    | letter :: rest =>
      if letter ≠ ofChar 'u' then
        match unescape letter with
        | some c => (scanUnits rest).map fun r => (.char c :: r.1, r.2)
        | none => .error (decodeError "Invalid \\escape")
      else
      match rest with
      | h₁ :: h₂ :: h₃ :: h₄ :: rest =>
        match hex4 h₁ h₂ h₃ h₄ with
        | some c => (scanUnits rest).map fun r => (.escaped c :: r.1, r.2)
        | none => .error (decodeError "Invalid \\uXXXX escape")
      | _ => .error (decodeError "Invalid \\uXXXX escape")

/-- Two escapes that form a surrogate pair are one character. -/
def joinUnits : List StrUnit → List CodePoint
  | [] => []
  | .char c :: units => c :: joinUnits units
  | [.escaped c] => [c]
  | .escaped c :: .char d :: units => c :: d :: joinUnits units
  | .escaped c :: .escaped d :: units =>
    if c.IsHigh ∧ d.IsLow then join c d :: joinUnits units
    else c :: joinUnits (.escaped d :: units)

/-- `json.decoder.scanstring`. -/
def scanString : Scanner Exc CodePoint PyStr := ⟨fun d =>
  (scanUnits d).map fun r => (.ofCodes (joinUnits r.1), r.2)⟩

def isDigit (c : CodePoint) : Bool := 48 ≤ c.val && c.val ≤ 57

/-- The integer part of a number: 0, or digits that do not begin with 0. -/
def matchInteger (d : List CodePoint) : Option (List CodePoint × List CodePoint) :=
  match d with
  | [] => none
  | c :: rest =>
    if c = ofChar '0' then some ([c], rest)
    else if isDigit c then some (d.takeWhile isDigit, d.dropWhile isDigit)
    else none

/-- `mark` and digits behind it, or nothing. -/
def matchDigits (mark d : List CodePoint) : List CodePoint × List CodePoint :=
  if d.takeWhile isDigit = [] then ([], mark ++ d)
  else (mark ++ d.takeWhile isDigit, d.dropWhile isDigit)

def matchFraction (d : List CodePoint) : List CodePoint × List CodePoint :=
  match d with
  | c :: rest => if c = ofChar '.' then matchDigits [c] rest else ([], d)
  | [] => ([], [])

def matchExponent (d : List CodePoint) : List CodePoint × List CodePoint :=
  match d with
  | e :: rest =>
    if e = ofChar 'e' ∨ e = ofChar 'E' then
      match rest with
      | sign :: digits =>
        if sign = ofChar '+' ∨ sign = ofChar '-' then matchDigits [e, sign] digits
        else matchDigits [e] rest
      | [] => ([], d)
    else ([], d)
  | [] => ([], [])

/-- `NUMBER_RE`: the number at the beginning of `d` and the rest. -/
def matchNumber (d : List CodePoint) : Option (List CodePoint × List CodePoint) := do
  let (sign, unsigned) := match d with
    | c :: rest => if c = ofChar '-' then ([c], rest) else ([], d)
    | [] => ([], [])
  let (integer, rest) ← matchInteger unsigned
  let (fraction, rest) := matchFraction rest
  let (exponent, rest) := matchExponent rest
  return (sign ++ integer ++ fraction ++ exponent, rest)

/-- The names that stand for a value. `NaN` and the infinities are numbers to Python. -/
def names : List (String × Json) :=
  [("null", .null), ("true", .bool true), ("false", .bool false), ("NaN", .num "NaN"),
    ("Infinity", .num "Infinity"), ("-Infinity", .num "-Infinity")]

def scanScalar : Scanner Exc CodePoint Json := ⟨fun d =>
  match names.find? fun n => (codesOf n.1).isPrefixOf d with
  | some (name, value) => .ok (value, d.drop name.length)
  | none =>
    match matchNumber d with
    | some (token, rest) => .ok (.num (String.ofList (token.map toChar)), rest)
    | none => .error (decodeError "Expecting value")⟩

def isWhitespace (c : CodePoint) : Bool := c.val == 0x20 || c.val == 0x09 || c.val == 0x0A ||
  c.val == 0x0D

def skipWhitespace : Scanner Exc CodePoint Unit := Scanner.skipWhile isWhitespace

/-- `dct[key] = value`: a new key goes last, a known one keeps its place. -/
def setItem (o : JsonObject) (member : PyStr × Json) : JsonObject :=
  if member.1 ∈ o.map Prod.fst then
    o.map fun m => if m.1 = member.1 then member else m
  else o ++ [member]

def dictOf (members : List (PyStr × Json)) : JsonObject := members.foldl setItem []

mutual

/-- `scan_once`. The fuel bounds the brackets and values that are still read: a nested value takes
two of it, and at least one character. -/
def scanOnce : Nat → Scanner Exc CodePoint Json
  | 0 => Scanner.fail (.other "RecursionError")
  | fuel + 1 => do
    if ← Scanner.accept (ofChar '"') then
      let s ← scanString
      return .str s
    else if ← Scanner.accept (ofChar '{') then
      skipWhitespace
      if ← Scanner.accept (ofChar '}') then return .obj [] else
      let members ← scanMembers fuel
      return .obj (dictOf members)
    else if ← Scanner.accept (ofChar '[') then
      skipWhitespace
      if ← Scanner.accept (ofChar ']') then return .arr [] else
      let items ← scanItems fuel
      return .arr items
    else scanScalar

/-- The items of a non-empty array and its closing bracket. -/
def scanItems : Nat → Scanner Exc CodePoint (List Json)
  | 0 => Scanner.fail (.other "RecursionError")
  | fuel + 1 => do
    let item ← scanOnce fuel
    skipWhitespace
    if ← Scanner.accept (ofChar ']') then return [item] else
    Scanner.expect (ofChar ',') (decodeError "Expecting ',' delimiter")
    skipWhitespace
    let items ← scanItems fuel
    return item :: items

/-- The members of a non-empty object and its closing brace. -/
def scanMembers : Nat → Scanner Exc CodePoint (List (PyStr × Json))
  | 0 => Scanner.fail (.other "RecursionError")
  | fuel + 1 => do
    Scanner.expect (ofChar '"')
      (decodeError "Expecting property name enclosed in double quotes")
    let key ← scanString
    skipWhitespace
    Scanner.expect (ofChar ':') (decodeError "Expecting ':' delimiter")
    skipWhitespace
    let value ← scanOnce fuel
    skipWhitespace
    if ← Scanner.accept (ofChar '}') then return [(key, value)] else
    Scanner.expect (ofChar ',') (decodeError "Expecting ',' delimiter")
    skipWhitespace
    let members ← scanMembers fuel
    return (key, value) :: members

end

end JsonText

open JsonText

/-- `json.loads(s)`. -/
def Json.loads (s : PyStr) : Except Exc Json :=
  if s.codes.head? = some (ofChar '\uFEFF') then
    .error (decodeError "Unexpected UTF-8 BOM (decode using utf-8-sig)")
  else do
    let document : Scanner Exc CodePoint Json := do
      skipWhitespace
      let value ← scanOnce (2 * s.codes.length + 2)
      skipWhitespace
      return value
    let (value, rest) ← document.run s.codes
    if rest ≠ [] then .error (decodeError "Extra data") else .ok value

end CryptoFlex

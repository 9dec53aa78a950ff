import CryptoFlex.CodePoints
import CryptoFlex.Json.Value

namespace CryptoFlex

open CodePoint

namespace JsonText

/-- A hexadecimal digit below 16, in lower case. -/
def hexDigit (v : Nat) : CodePoint :=
  if v < 10 then Fin.ofNat _ (v + 48) else Fin.ofNat _ (v + 87)

/-- `\uXXXX`. -/
def escapeU (n : Nat) : List CodePoint :=
  [ofChar '\\', ofChar 'u', hexDigit (n / 4096 % 16), hexDigit (n / 256 % 16),
    hexDigit (n / 16 % 16), hexDigit (n % 16)]

/-- The characters with an escape of their own, and the letter that stands for each. -/
def shortEscapes : List (CodePoint × CodePoint) :=
  [(ofChar '"', ofChar '"'), (ofChar '\\', ofChar '\\'), (0x08, ofChar 'b'), (0x0C, ofChar 'f'),
    (0x0A, ofChar 'n'), (0x0D, ofChar 'r'), (0x09, ofChar 't')]

/-- What `json.encoder.encode_basestring_ascii` makes of a character. -/
def escape (c : CodePoint) : List CodePoint :=
  match shortEscapes.lookup c with
  | some letter => [ofChar '\\', letter]
  | none =>
    if 0x20 ≤ c.val ∧ c.val ≤ 0x7E then [c]
    else if c.val < 0x10000 then escapeU c.val
    else
      let n := c.val - 0x10000
      escapeU (0xD800 + n / 0x400) ++ escapeU (0xDC00 + n % 0x400)

def quoted (s : PyStr) : List CodePoint :=
  ofChar '"' :: (s.codes.flatMap escape ++ [ofChar '"'])

/-- A new line at a nesting level, where `indent` asks for one. -/
def newline (indent : Option Nat) (level : Nat) : List CodePoint :=
  match indent with
  | none => []
  | some width => ofChar '\n' :: List.replicate (width * level) (ofChar ' ')

/-- The item separator: ", ", or "," and a new line. -/
def comma (indent : Option Nat) (level : Nat) : List CodePoint :=
  match indent with
  | none => [ofChar ',', ofChar ' ']
  | some _ => ofChar ',' :: newline indent level

def colon : List CodePoint := [ofChar ':', ofChar ' ']

end JsonText

open JsonText

namespace Json

mutual

def dump (indent : Option Nat) : Nat → Json → List CodePoint
  | _, null => codesOf "null"
  | _, bool b => codesOf (if b then "true" else "false")
  | _, num token => codesOf token
  | _, str s => quoted s
  | _, arr [] => [ofChar '[', ofChar ']']
  | level, arr (item :: items) =>
    ofChar '[' :: (newline indent (level + 1) ++ (dump indent (level + 1) item ++
      (dumpItems indent (level + 1) items ++ (newline indent level ++ [ofChar ']']))))
  | _, obj [] => [ofChar '{', ofChar '}']
  | level, obj ((key, value) :: members) =>
    ofChar '{' :: (newline indent (level + 1) ++ (quoted key ++ (colon ++
      (dump indent (level + 1) value ++ (dumpMembers indent (level + 1) members ++
        (newline indent level ++ [ofChar '}']))))))

/-- The items after the first. -/
def dumpItems (indent : Option Nat) : Nat → List Json → List CodePoint
  | _, [] => []
  | level, item :: items =>
    comma indent level ++ (dump indent level item ++ dumpItems indent level items)

/-- The members after the first. -/
def dumpMembers (indent : Option Nat) : Nat → List (PyStr × Json) → List CodePoint
  | _, [] => []
  | level, (key, value) :: members =>
    comma indent level ++ (quoted key ++ (colon ++ (dump indent level value ++
      dumpMembers indent level members)))

end

/-- `json.dumps(j, indent=indent)`. -/
def dumps (j : Json) (indent : Option Nat := none) : PyStr := .ofCodes (dump indent 0 j)

end Json

end CryptoFlex

import CryptoFlex.Python

namespace CryptoFlex

/-- A value of the `json` module. Numbers keep their text; an object is a dict in insertion
order. -/
inductive Json
  | null
  | bool (b : Bool)
  | num (token : String)
  | str (s : PyStr)
  | arr (items : List Json)
  | obj (members : List (PyStr × Json))

abbrev JsonObject := List (PyStr × Json)

namespace Json

instance : Inhabited Json := ⟨null⟩

/-- `o.get(key)` on a dict. -/
def field (o : JsonObject) (key : PyStr) : Option Json := o.lookup key

/-- How a value shows in a message. -/
def display : Json → String
  | null => "None"
  | bool b => if b then "True" else "False"
  | num token => token
  | str s => s.display
  | arr _ => "[...]"
  | obj _ => "{...}"

instance : ToString Json := ⟨display⟩

end Json

end CryptoFlex

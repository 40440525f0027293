import AigentSquad.PyJson

/-!
# Printed values

`repr` of texts and of values read from JSON, and `str`.
-/

set_option autoImplicit false

namespace AigentSquad.PyRepr
open AigentSquad.PyText AigentSquad.PyJson

def hexPad (width n : Nat) : Str :=
  let ds := Nat.toDigits 16 n
  List.replicate (width - ds.length) '0' ++ ds

def reprChar (py : Runtime) (delimiter c : Char) : Str :=
  if c = delimiter ∨ c = '\\' then ['\\', c]
  else if c = '\n' then "\\n".toList
  else if c = '\r' then "\\r".toList
  else if c = '\t' then "\\t".toList
  else if py.printable c then [c]
  else if c.toNat < 0x100 then "\\x".toList ++ hexPad 2 c.toNat
  else if c.toNat < 0x10000 then "\\u".toList ++ hexPad 4 c.toNat
  else "\\U".toList ++ hexPad 8 c.toNat

/-- `repr` of a `str` -/
def reprStr (py : Runtime) (s : Str) : Str :=
  let delimiter := if s.contains '\'' && !s.contains '"' then '"' else '\''
  delimiter :: s.flatMap (reprChar py delimiter) ++ [delimiter]

/-- `repr` of a list of `str` -/
def reprList (py : Runtime) (xs : List Str) : Str :=
  '[' :: join ", ".toList (xs.map (reprStr py)) ++ [']']

/-- A float, whose JSON text differs from `repr` for the values JSON has none for. -/
def reprFloat (text : Str) : Str :=
  if text = "NaN".toList then "nan".toList
  else if text = "Infinity".toList then "inf".toList
  else if text = "-Infinity".toList then "-inf".toList
  else text

mutual

def repr (py : Runtime) : Json → Str
  | .null => "None".toList
  | .bool true => "True".toList
  | .bool false => "False".toList
  | .int i => strInt i
  | .float text => reprFloat text
  | .str s => reprStr py s
  | .arr items => '[' :: join ", ".toList (reprItems py items) ++ [']']
  | .obj pairs => '{' :: join ", ".toList (reprPairs py pairs) ++ ['}']

def reprItems (py : Runtime) : List Json → List Str
  | [] => []
  | x :: xs => repr py x :: reprItems py xs

def reprPairs (py : Runtime) : List (Str × Json) → List Str
  | [] => []
  | (k, x) :: kvs => (reprStr py k ++ ": ".toList ++ repr py x) :: reprPairs py kvs

end

/-- `str`, as a format field prints a value -/
def str (py : Runtime) : Json → Str
  | .str s => s
  | v => repr py v

end AigentSquad.PyRepr

import AigentSquad.JsonLayout

/-!
# What `json.dumps` writes, `json.loads` reads

The round trip for values without numbers whose objects have no key twice, with
either setting of `ensure_ascii`.
-/

set_option autoImplicit false

namespace AigentSquad.PyJson
open AigentSquad.PyText

mutual

def Textual : Json → Prop
  | .int _ => False
  | .float _ => False
  | .arr items => TextualItems items
  | .obj pairs => (pairs.map Prod.fst).Nodup ∧ TextualPairs pairs
  | _ => True

def TextualItems : List Json → Prop
  | [] => True
  | x :: xs => Textual x ∧ TextualItems xs

def TextualPairs : List (Str × Json) → Prop
  | [] => True
  | (_, x) :: kvs => Textual x ∧ TextualPairs kvs

end

mutual

theorem Textual.sound (py : Runtime) : (j : Json) → Textual j → Sound py j
  | .null, _ => trivial
  | .bool _, _ => trivial
  | .int _, h => absurd h id
  | .float _, h => absurd h id
  | .str _, _ => trivial
  | .arr items, h => TextualItems.sound py items h
  | .obj pairs, h => ⟨h.1, TextualPairs.sound py pairs h.2⟩

theorem TextualItems.sound (py : Runtime) : (items : List Json) → TextualItems items →
    SoundItems py items
  | [], _ => trivial
  | x :: xs, h => ⟨Textual.sound py x h.1, TextualItems.sound py xs h.2⟩

theorem TextualPairs.sound (py : Runtime) : (pairs : List (Str × Json)) → TextualPairs pairs →
    SoundPairs py pairs
  | [], _ => trivial
  | (_, x) :: kvs, h => ⟨Textual.sound py x h.1, TextualPairs.sound py kvs h.2⟩

end

/-- Reading back what was written. -/
theorem loads_dumps (py : Runtime) (ea : Bool) (j : Json) (h : Textual j) :
    loads py (dumps ea j) = .ok j := by
  rw [← render_plain ea 0 j]
  exact loads_render py ea .plain j (h.sound py)

end AigentSquad.PyJson

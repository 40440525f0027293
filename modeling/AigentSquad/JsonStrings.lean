import AigentSquad.JsonRoundTrip

/-!
# The strings of a value

The texts in a value read from JSON, names of object entries included, and where
they stand in its encoding.
-/

set_option autoImplicit false

namespace AigentSquad.JsonStrings
open AigentSquad.PyText AigentSquad.PyJson

mutual

def strings : Json → List Str
  | .str s => [s]
  | .arr items => stringsOfItems items
  | .obj pairs => stringsOfPairs pairs
  | _ => []

def stringsOfItems : List Json → List Str
  | [] => []
  | x :: xs => strings x ++ stringsOfItems xs

def stringsOfPairs : List (Str × Json) → List Str
  | [] => []
  | (k, x) :: kvs => k :: strings x ++ stringsOfPairs kvs

end

/-- What counts as false is no text but the empty one. -/
theorem strings_of_false (j : Json) (h : j.truthy = false) (s : Str) (hs : s ∈ strings j) :
    s = [] := by
  cases j with
  | str t =>
    simp only [Json.truthy, ne_eq, decide_not, Bool.not_eq_eq_eq_not, Bool.not_false,
      decide_eq_true_eq] at h
    simp only [strings, List.mem_singleton] at hs
    rw [hs, h]
  | arr items =>
    simp only [Json.truthy, Bool.not_eq_eq_eq_not, Bool.not_false, List.isEmpty_iff] at h
    subst h
    simp [strings, stringsOfItems] at hs
  | obj pairs =>
    simp only [Json.truthy, Bool.not_eq_eq_eq_not, Bool.not_false, List.isEmpty_iff] at h
    subst h
    simp [strings, stringsOfPairs] at hs
  | _ => simp [strings] at hs

/-! ## Where a string stands in the encoding -/

theorem join_mem (sep : Str) (xs : List Str) (x : Str) (hx : x ∈ xs) :
    ∃ a b, join sep xs = a ++ (x ++ b) := by
  induction xs with
  | nil => cases hx
  | cons y ys ih =>
    cases ys with
    | nil =>
      rw [List.mem_singleton] at hx
      exact ⟨[], [], by simp [hx, join]⟩
    | cons z zs =>
      rw [join_cons_cons]
      rcases List.mem_cons.mp hx with rfl | hx
      · exact ⟨[], sep ++ join sep (z :: zs), by simp⟩
      · obtain ⟨a, b, hab⟩ := ih hx
        exact ⟨y ++ sep ++ a, b, by rw [hab]; simp⟩

/-- Each string of a value stands quoted in its encoding. -/
def Quoted (ea : Bool) (f encoded : Str) : Prop := ∃ a b, encoded = a ++ (quote ea f ++ b)

theorem Quoted.inside {ea : Bool} {f s : Str} (h : Quoted ea f s) (u v : Str) :
    Quoted ea f (u ++ (s ++ v)) := by
  obtain ⟨a, b, rfl⟩ := h
  exact ⟨u ++ a, b ++ v, by simp⟩

theorem Quoted.joined {ea : Bool} {f s : Str} (h : Quoted ea f s) (sep : Str) (xs : List Str)
    (hs : s ∈ xs) : Quoted ea f (join sep xs) := by
  obtain ⟨a, b, hab⟩ := join_mem sep xs s hs
  rw [hab]
  exact h.inside a b

mutual

theorem strings_quoted (ea : Bool) : (j : Json) → ∀ f ∈ strings j, Quoted ea f (dumps ea j)
  | .str s => by
    intro f hf
    rw [strings, List.mem_singleton] at hf
    exact ⟨[], [], by rw [hf, dumps, List.append_nil, List.nil_append]⟩
  | .arr items => by
    intro f hf
    rw [strings] at hf
    obtain ⟨s, hs, hquoted⟩ := items_quoted ea items f hf
    rw [dumps]
    exact (hquoted.joined _ _ hs).inside ['['] [']']
  | .obj pairs => by
    intro f hf
    rw [strings] at hf
    obtain ⟨s, hs, hquoted⟩ := pairs_quoted ea pairs f hf
    rw [dumps]
    exact (hquoted.joined _ _ hs).inside ['\x7b'] ['\x7d']
  | .null => by simp [strings]
  | .bool _ => by simp [strings]
  | .int _ => by simp [strings]
  | .float _ => by simp [strings]

theorem items_quoted (ea : Bool) : (items : List Json) → ∀ f ∈ stringsOfItems items,
    ∃ s ∈ dumpsItems ea items, Quoted ea f s
  | [] => by simp [stringsOfItems]
  | x :: xs => by
    intro f hf
    rw [stringsOfItems, List.mem_append] at hf
    rw [dumpsItems]
    rcases hf with hf | hf
    · exact ⟨_, List.mem_cons_self, strings_quoted ea x f hf⟩
    · obtain ⟨s, hs, hquoted⟩ := items_quoted ea xs f hf
      exact ⟨s, List.mem_cons_of_mem _ hs, hquoted⟩

theorem pairs_quoted (ea : Bool) : (pairs : List (Str × Json)) → ∀ f ∈ stringsOfPairs pairs,
    ∃ s ∈ dumpsPairs ea pairs, Quoted ea f s
  | [] => by simp [stringsOfPairs]
  | (k, x) :: kvs => by
    intro f hf
    rw [stringsOfPairs, List.cons_append, List.mem_cons, List.mem_append] at hf
    rw [dumpsPairs]
    rcases hf with rfl | hf | hf
    · exact ⟨_, List.mem_cons_self, [], ": ".toList ++ dumps ea x, by simp⟩
    · refine ⟨_, List.mem_cons_self, ?_⟩
      have hinside := (strings_quoted ea x f hf).inside (quote ea k ++ ": ".toList) []
      rwa [List.append_nil] at hinside
    · obtain ⟨s, hs, hquoted⟩ := pairs_quoted ea kvs f hf
      exact ⟨s, List.mem_cons_of_mem _ hs, hquoted⟩

end

end AigentSquad.JsonStrings

import AigentSquad.PyText

/-!
# JSON text

Values, `json.dumps` with its default separators and `json.loads`. A float
carries its printed text. A lone surrogate escape is read as U+FFFD. The parser
recurses on a counter that starts above the length of the text.
-/

set_option autoImplicit false

namespace AigentSquad.PyJson
open AigentSquad.PyText

inductive Json where
  | null
  | bool (b : Bool)
  | int (i : Int)
  | float (text : Str)
  | str (s : Str)
  | arr (items : List Json)
  | obj (pairs : List (Str × Json))
deriving Repr, Inhabited

def Json.isObject : Json → Bool
  | obj _ => true
  | _ => false

/-- Python truth of a value read from JSON. -/
def Json.truthy : Json → Bool
  | null => false
  | bool b => b
  | int i => i ≠ 0
  | float text => !(text ∈ ["0.0".toList, "-0.0".toList])
  | str s => s ≠ []
  | arr items => !items.isEmpty
  | obj pairs => !pairs.isEmpty

def Json.get (pairs : List (Str × Json)) (k : Str) : Option Json :=
  (pairs.find? (fun kv => kv.1 = k)).map Prod.snd

def hex4 (n : Nat) : Str :=
  let ds := Nat.toDigits 16 n
  List.replicate (4 - ds.length) '0' ++ ds

def unicodeEscape (n : Nat) : Str :=
  if n < 0x10000 then "\\u".toList ++ hex4 n
  else
    let m := n - 0x10000
    "\\u".toList ++ hex4 (0xd800 + m / 0x400) ++ "\\u".toList ++ hex4 (0xdc00 + m % 0x400)

def escape (ensure_ascii : Bool) (c : Char) : Str :=
  if c = '"' then "\\\"".toList
  else if c = '\\' then "\\\\".toList
  else if c = '\n' then "\\n".toList
  else if c = '\r' then "\\r".toList
  else if c = '\t' then "\\t".toList
  else if c.toNat = 0x0c then "\\f".toList
  else if c.toNat = 0x08 then "\\b".toList
  else if c.toNat < 0x20 || (ensure_ascii && 0x7e < c.toNat) then unicodeEscape c.toNat
  else [c]

def quote (ensure_ascii : Bool) (s : Str) : Str :=
  '"' :: s.flatMap (escape ensure_ascii) ++ ['"']

mutual

def dumps (ensure_ascii : Bool) : Json → Str
  | .null => "null".toList
  | .bool true => "true".toList
  | .bool false => "false".toList
  | .int i => strInt i
  | .float text => text
  | .str s => quote ensure_ascii s
  | .arr items => '[' :: join ", ".toList (dumpsItems ensure_ascii items) ++ [']']
  | .obj pairs => '{' :: join ", ".toList (dumpsPairs ensure_ascii pairs) ++ ['}']

def dumpsItems (ensure_ascii : Bool) : List Json → List Str
  | [] => []
  | x :: xs => dumps ensure_ascii x :: dumpsItems ensure_ascii xs

def dumpsPairs (ensure_ascii : Bool) : List (Str × Json) → List Str
  | [] => []
  | (k, x) :: kvs =>
    (quote ensure_ascii k ++ ": ".toList ++ dumps ensure_ascii x) :: dumpsPairs ensure_ascii kvs

end

inductive LoadsError where
  | JSONDecodeError
  /-- an integer literal beyond the digit limit of `int` -/
  | ValueError
deriving DecidableEq, Repr

abbrev Scan (α : Type) := Except LoadsError (α × Str)

def skipWhitespace (s : Str) : Str := s.dropWhile (fun c => c ∈ [' ', '\t', '\n', '\r'])

def hexValue (c : Char) : Option Nat :=
  if c.isDigit then some (c.toNat - '0'.toNat)
  else if 'a' ≤ c ∧ c ≤ 'f' then some (c.toNat - 'a'.toNat + 10)
  else if 'A' ≤ c ∧ c ≤ 'F' then some (c.toNat - 'A'.toNat + 10)
  else none

def hexValue4 (a b c d : Char) : Option Nat := do
  let a ← hexValue a
  let b ← hexValue b
  let c ← hexValue c
  let d ← hexValue d
  pure (((a * 16 + b) * 16 + c) * 16 + d)

def replacement : Char := Char.ofNat 0xfffd

def codePoint (n : Nat) : Char :=
  if 0xd800 ≤ n ∧ n ≤ 0xdfff then replacement else Char.ofNat n

/-- The low half that completes a high surrogate, and what follows it. -/
def lowSurrogate : Str → Option (Nat × Str)
  | '\\' :: 'u' :: a :: b :: c :: d :: rest =>
    match hexValue4 a b c d with
    | some m => if 0xdc00 ≤ m ∧ m ≤ 0xdfff then some (m, rest) else none
    | none => none
  | _ => none

def simpleEscape (c : Char) : Option Char :=
  if c = '"' then some '"'
  else if c = '\\' then some '\\'
  else if c = '/' then some '/'
  else if c = 'b' then some (Char.ofNat 0x08)
  else if c = 'f' then some (Char.ofNat 0x0c)
  else if c = 'n' then some '\n'
  else if c = 'r' then some '\r'
  else if c = 't' then some '\t'
  else none

/-- After the opening quote; `acc` is reversed. -/
def scanString : Nat → Str → Str → Scan Str
  | 0, _, _ => .error .JSONDecodeError
  | n + 1, acc, s =>
    match s with
    | [] => .error .JSONDecodeError
    | '"' :: rest => .ok (acc.reverse, rest)
    | '\\' :: 'u' :: a :: b :: c :: d :: rest =>
      match hexValue4 a b c d with
      | none => .error .JSONDecodeError
      | some hi =>
        if 0xd800 ≤ hi ∧ hi ≤ 0xdbff then
          match lowSurrogate rest with
          | some (lo, rest') =>
            scanString n
              (Char.ofNat (0x10000 + (hi - 0xd800) * 0x400 + (lo - 0xdc00)) :: acc) rest'
          | none => scanString n (replacement :: acc) rest
        else scanString n (codePoint hi :: acc) rest
    | '\\' :: c :: rest =>
      match simpleEscape c with
      | none => .error .JSONDecodeError
      | some e => scanString n (e :: acc) rest
    | c :: rest =>
      if c = '\\' ∨ c.toNat < 0x20 then .error .JSONDecodeError
      else scanString n (c :: acc) rest

def digits (s : Str) : Str := s.takeWhile Char.isDigit

def numeralValue (ds : Str) : Nat := ds.foldl (fun n c => n * 10 + (c.toNat - '0'.toNat)) 0

/-- The fraction and exponent parts of a numeral, each possibly empty. -/
def fraction : Str → Str
  | '.' :: s => if (digits s).isEmpty then [] else '.' :: digits s
  | _ => []

def exponent : Str → Str
  | e :: s =>
    if e = 'e' ∨ e = 'E' then
      match s with
      | '+' :: t => if (digits t).isEmpty then [] else e :: '+' :: digits t
      | '-' :: t => if (digits t).isEmpty then [] else e :: '-' :: digits t
      | t => if (digits t).isEmpty then [] else e :: digits t
    else []
  | [] => []

def integerPart (s : Str) : Str :=
  match s with
  | '0' :: _ => ['0']
  | _ => digits s

def scanNumber (py : Runtime) (s : Str) : Scan Json :=
  let sign : Str := if s.head? = some '-' then ['-'] else []
  let body := s.drop sign.length
  let whole := integerPart body
  if whole.isEmpty then .error .JSONDecodeError
  else
    let afterWhole := body.drop whole.length
    let frac := fraction afterWhole
    let afterFrac := afterWhole.drop frac.length
    let exp := exponent afterFrac
    let rest := afterFrac.drop exp.length
    if frac.isEmpty && exp.isEmpty then
      if 4300 < whole.length then .error .ValueError
      else
        let n : Int := numeralValue whole
        .ok (.int (if sign.isEmpty then n else -n), rest)
    else .ok (.float (py.float_repr (sign ++ whole ++ frac ++ exp)), rest)

def dropPrefix (p s : Str) : Option Str := if startswith s p then some (s.drop p.length) else none

def constants : List (Str × Json) :=
  [("null".toList, .null), ("true".toList, .bool true), ("false".toList, .bool false),
    ("NaN".toList, .float "NaN".toList), ("Infinity".toList, .float "Infinity".toList),
    ("-Infinity".toList, .float "-Infinity".toList)]

def scanConstant (s : Str) : Option (Json × Str) :=
  constants.findSome? (fun c => (dropPrefix c.1 s).map (fun rest => (c.2, rest)))

/-- `dict` of a pair list: the first position and the last value of each key. -/
def dictInsert (d : List (Str × Json)) (kv : Str × Json) : List (Str × Json) :=
  if d.any (fun e => e.1 = kv.1) then d.map (fun e => if e.1 = kv.1 then kv else e)
  else d ++ [kv]

def dictOf (pairs : List (Str × Json)) : List (Str × Json) := pairs.foldl dictInsert []

mutual

def scanOnce (py : Runtime) : Nat → Str → Scan Json
  | 0, _ => .error .JSONDecodeError
  | n + 1, s =>
    match s with
    | '"' :: rest =>
      match scanString (rest.length + 1) [] rest with
      | .ok (t, rest') => .ok (.str t, rest')
      | .error e => .error e
    | '[' :: rest =>
      match skipWhitespace rest with
      | ']' :: rest' => .ok (.arr [], rest')
      | rest' => scanItems py n [] rest'
    | '{' :: rest =>
      match skipWhitespace rest with
      | '}' :: rest' => .ok (.obj [], rest')
      | rest' => scanPairs py n [] rest'
    | _ =>
      match scanConstant s with
      | some out => .ok out
      | none => scanNumber py s

/-- The items of an array from the first one on; `acc` is reversed. -/
def scanItems (py : Runtime) : Nat → List Json → Str → Scan Json
  | 0, _, _ => .error .JSONDecodeError
  | n + 1, acc, s =>
    match scanOnce py n s with
    | .error e => .error e
    | .ok (v, rest) =>
      match skipWhitespace rest with
      | ']' :: rest' => .ok (.arr (v :: acc).reverse, rest')
      | ',' :: rest' => scanItems py n (v :: acc) (skipWhitespace rest')
      | _ => .error .JSONDecodeError

def scanPairs (py : Runtime) : Nat → List (Str × Json) → Str → Scan Json
  | 0, _, _ => .error .JSONDecodeError
  | n + 1, acc, s =>
    match s with
    | '"' :: rest =>
      match scanString (rest.length + 1) [] rest with
      | .error e => .error e
      | .ok (k, rest') =>
        match skipWhitespace rest' with
        | ':' :: afterColon =>
          match scanOnce py n (skipWhitespace afterColon) with
          | .error e => .error e
          | .ok (v, rest'') =>
            match skipWhitespace rest'' with
            | '}' :: after => .ok (.obj (dictOf ((k, v) :: acc).reverse), after)
            | ',' :: after => scanPairs py n ((k, v) :: acc) (skipWhitespace after)
            | _ => .error .JSONDecodeError
        | _ => .error .JSONDecodeError
    | _ => .error .JSONDecodeError

end

/-- `json.loads` of a `str`. -/
def loads (py : Runtime) (s : Str) : Except LoadsError Json :=
  if s.head? = some (Char.ofNat 0xfeff) then .error .JSONDecodeError
  else
    match scanOnce py (2 * s.length + 1) (skipWhitespace s) with
    | .error e => .error e
    | .ok (v, rest) =>
      if (skipWhitespace rest).isEmpty then .ok v else .error .JSONDecodeError

theorem skipWhitespace_suffix (s : Str) : skipWhitespace s <:+ s := List.dropWhile_suffix _

theorem lowSurrogate_suffix (s rest : Str) (m : Nat) (h : lowSurrogate s = some (m, rest)) :
    rest <:+ s := by
  unfold lowSurrogate at h
  split at h
  · split at h
    · split at h
      · cases h
        exact ⟨[_, _, _, _, _, _], rfl⟩
      · cases h
    · cases h
  · cases h

theorem scanString_suffix (n : Nat) (acc s t rest : Str)
    (h : scanString n acc s = .ok (t, rest)) : rest <:+ s := by
  induction n generalizing acc s with
  | zero => cases h
  | succ n ih =>
    unfold scanString at h
    split at h
    · cases h
    · cases h
      exact List.suffix_cons _ _
    · next a b c d tail =>
      have htail : tail <:+ '\\' :: 'u' :: a :: b :: c :: d :: tail := ⟨[_, _, _, _, _, _], rfl⟩
      split at h
      · cases h
      · split at h
        · split at h
          · next hlow => exact (ih _ _ h).trans ((lowSurrogate_suffix _ _ _ hlow).trans htail)
          · exact (ih _ _ h).trans htail
        · exact (ih _ _ h).trans htail
    · next c tail _ =>
      split at h
      · cases h
      · exact (ih _ _ h).trans ⟨[_, c], rfl⟩
    · next c tail _ _ _ =>
      split at h
      · cases h
      · exact (ih _ _ h).trans ⟨[c], rfl⟩

theorem scanNumber_suffix (py : Runtime) (s rest : Str) (v : Json)
    (h : scanNumber py s = .ok (v, rest)) : rest <:+ s := by
  have hdrops : ∀ a b c d : Nat, (((s.drop a).drop b).drop c).drop d <:+ s := fun a b c d =>
    (List.drop_suffix d _).trans ((List.drop_suffix c _).trans
      ((List.drop_suffix b _).trans (List.drop_suffix a s)))
  unfold scanNumber at h
  extract_lets sign body whole afterWhole frac afterFrac exp tail at h
  split at h
  · cases h
  · split at h
    · split at h
      · cases h
      · simp only [Except.ok.injEq, Prod.mk.injEq] at h
        exact h.2 ▸ hdrops _ _ _ _
    · simp only [Except.ok.injEq, Prod.mk.injEq] at h
      exact h.2 ▸ hdrops _ _ _ _

theorem scanConstant_suffix (s rest : Str) (v : Json) (h : scanConstant s = some (v, rest)) :
    rest <:+ s := by
  obtain ⟨c, _, hc⟩ := List.exists_of_findSome?_eq_some h
  simp only [Option.map_eq_some_iff, dropPrefix, Option.ite_none_right_eq_some,
    Option.some.injEq, Prod.mk.injEq] at hc
  obtain ⟨_, ⟨_, rfl⟩, _, rfl⟩ := hc
  exact List.drop_suffix _ s

/-- What the scanners leave is a suffix of what they were given, and an array
stops right after its closing bracket. -/
theorem scan_suffix (py : Runtime) (n : Nat) :
    (∀ s v rest, scanOnce py n s = .ok (v, rest) → rest <:+ s) ∧
    (∀ acc s v rest, scanItems py n acc s = .ok (v, rest) → ']' :: rest <:+ s) ∧
    (∀ acc s v rest, scanPairs py n acc s = .ok (v, rest) → rest <:+ s) := by
  induction n with
  | zero =>
    refine ⟨fun s v rest h => ?_, fun acc s v rest h => ?_, fun acc s v rest h => ?_⟩ <;> cases h
  | succ n ih =>
    obtain ⟨ihOnce, ihItems, ihPairs⟩ := ih
    refine ⟨fun s v rest h => ?_, fun acc s v rest h => ?_, fun acc s v rest h => ?_⟩
    · unfold scanOnce at h
      split at h
      · next tail =>
        split at h
        · next hs =>
          cases h
          exact (scanString_suffix _ _ _ _ _ hs).trans (List.suffix_cons _ tail)
        · cases h
      · next tail =>
        have htail := (skipWhitespace_suffix tail).trans (List.suffix_cons '[' tail)
        split at h
        · next hskip =>
          cases h
          exact (List.suffix_cons _ _).trans (hskip ▸ htail)
        · exact ((List.suffix_cons _ _).trans (ihItems _ _ _ _ h)).trans htail
      · next tail =>
        have htail := (skipWhitespace_suffix tail).trans (List.suffix_cons '{' tail)
        split at h
        · next hskip =>
          cases h
          exact (List.suffix_cons _ _).trans (hskip ▸ htail)
        · exact (ihPairs _ _ _ _ h).trans htail
      · split at h
        · next hconst =>
          cases h
          exact scanConstant_suffix _ _ _ hconst
        · exact scanNumber_suffix py _ _ _ h
    · unfold scanItems at h
      split at h
      · cases h
      · next tail hone =>
        have hskip := (skipWhitespace_suffix tail).trans (ihOnce _ _ _ hone)
        split at h
        · next heq =>
          cases h
          exact heq ▸ hskip
        · next heq =>
          exact (ihItems _ _ _ _ h).trans ((skipWhitespace_suffix _).trans
            ((List.suffix_cons _ _).trans (heq ▸ hskip)))
        · cases h
    · unfold scanPairs at h
      split at h
      · next tail =>
        split at h
        · cases h
        · next hkey =>
          have hkey := (scanString_suffix _ _ _ _ _ hkey).trans (List.suffix_cons '"' tail)
          split at h
          · next hcolon =>
            have hcolon := (List.suffix_cons _ _).trans
              (hcolon ▸ (skipWhitespace_suffix _).trans hkey)
            split at h
            · cases h
            · next hvalue =>
              have hvalue := (skipWhitespace_suffix _).trans
                ((ihOnce _ _ _ hvalue).trans ((skipWhitespace_suffix _).trans hcolon))
              split at h
              · next heq =>
                cases h
                exact (List.suffix_cons _ _).trans (heq ▸ hvalue)
              · next heq =>
                exact (ihPairs _ _ _ _ h).trans ((skipWhitespace_suffix _).trans
                  ((List.suffix_cons _ _).trans (heq ▸ hvalue)))
              · cases h
          · cases h
      · cases h

theorem scan_array_closes (py : Runtime) (n : Nat) (s rest : Str) (v : Json)
    (h : scanOnce py n ('[' :: s) = .ok (v, rest)) : ']' :: rest <:+ s := by
  cases n with
  | zero => cases h
  | succ n =>
    unfold scanOnce at h
    split at h
    · next heq => cases heq
    · next tail heq =>
      cases heq
      split at h
      · next hskip =>
        cases h
        exact hskip ▸ skipWhitespace_suffix s
      · exact ((scan_suffix py n).2.1 _ _ _ _ h).trans (skipWhitespace_suffix s)
    · next heq => cases heq
    · next hne _ => exact absurd rfl (hne s)

/-- Neither a value nor a space nor a closing bracket starts with `c`. -/
def NoValue (c : Char) : Prop :=
  c ∉ ['"', '[', '{', 'n', 't', 'f', 'N', 'I', '-', ']', ' ', '\t', '\n', '\r'] ∧
    c.isDigit = false

theorem scanConstant_none (c : Char) (s : Str) (h : c ∉ ['n', 't', 'f', 'N', 'I', '-']) :
    scanConstant (c :: s) = none := by
  have hheads : ∀ k ∈ constants, ∃ d ds, k.1 = d :: ds ∧ d ∈ ['n', 't', 'f', 'N', 'I', '-'] := by
    simp [constants]
  refine List.findSome?_eq_none_iff.mpr (fun k hk => ?_)
  obtain ⟨d, ds, hkey, hd⟩ := hheads k hk
  have hne : d ≠ c := fun heq => h (heq ▸ hd)
  simp [hkey, dropPrefix, startswith, List.isPrefixOf, hne]

theorem scanNumber_error (py : Runtime) (c : Char) (s : Str) (hminus : c ≠ '-')
    (hdigit : c.isDigit = false) : scanNumber py (c :: s) = .error .JSONDecodeError := by
  have hzero : c ≠ '0' := by
    rintro rfl
    cases hdigit
  have hwhole : integerPart (c :: s) = [] := by
    unfold integerPart
    split
    · next heq =>
      cases heq
      exact absurd rfl hzero
    · simp [digits, hdigit]
  simp [scanNumber, hminus, hwhole]

theorem scan_no_value (py : Runtime) (c : Char) (h : NoValue c) (n : Nat) (s : Str) :
    scanOnce py n (c :: s) = .error .JSONDecodeError := by
  obtain ⟨hmem, hdigit⟩ := h
  simp only [List.mem_cons, List.not_mem_nil, or_false, not_or] at hmem
  cases n with
  | zero => rfl
  | succ n =>
    unfold scanOnce
    split
    · next heq => exact absurd (List.cons.inj heq).1 (by tauto)
    · next heq => exact absurd (List.cons.inj heq).1 (by tauto)
    · next heq => exact absurd (List.cons.inj heq).1 (by tauto)
    · rw [scanConstant_none c s (by simp; tauto)]
      exact scanNumber_error py c s (by tauto) hdigit

theorem loads_array_no_value (py : Runtime) (c : Char) (h : NoValue c) (s : Str) :
    loads py ('[' :: c :: s) = .error .JSONDecodeError := by
  have hmem := h.1
  simp only [List.mem_cons, List.not_mem_nil, or_false, not_or] at hmem
  have hskip : skipWhitespace (c :: s) = c :: s := by
    simp only [skipWhitespace, List.dropWhile_cons, List.mem_cons, List.not_mem_nil, or_false,
      decide_eq_true_eq]
    rw [if_neg (by tauto)]
  have hscan : ∀ n, scanOnce py n ('[' :: c :: s) = .error .JSONDecodeError := by
    intro n
    cases n with
    | zero => rfl
    | succ n =>
      simp only [scanOnce, hskip]
      split
      · next heq => exact absurd (List.cons.inj heq).1 (by tauto)
      · cases n with
        | zero => rfl
        | succ n => rw [scanItems, scan_no_value py c h]
  unfold loads
  rw [if_neg (by simp), show skipWhitespace ('[' :: c :: s) = '[' :: c :: s by simp [skipWhitespace],
    hscan]

/-- A text that opens an array is accepted only if it ends in a closing bracket,
whitespace aside. -/
theorem loads_array_closes (py : Runtime) (s : Str) (v : Json)
    (h : loads py ('[' :: s) = .ok v) : ∃ post, ']' :: post <:+ s ∧ skipWhitespace post = [] := by
  have hskip : skipWhitespace ('[' :: s) = '[' :: s := by simp [skipWhitespace]
  unfold loads at h
  rw [if_neg (by simp), hskip] at h
  split at h
  · cases h
  · next rest hscan =>
    split at h
    · next hempty => exact ⟨rest, scan_array_closes py _ s rest _ hscan, List.isEmpty_iff.mp hempty⟩
    · cases h

end AigentSquad.PyJson

import AigentSquad.Effects
import AigentSquad.Regex

/-!
# The input scanner

`InputScanner`: a text is normalised and refused for its size, control
characters, repeated characters or what a base64 blob in it says. Unicode NFKC is
a parameter; the audit log is left out.
-/

set_option autoImplicit false

namespace AigentSquad.InputScanner
open AigentSquad.PyText AigentSquad.Regex AigentSquad.Effects

/-- `_ZERO_WIDTH_RE` -/
def zero_width (c : Char) : Bool :=
  c.toNat ∈ [0x200b, 0x200c, 0x200d, 0xfeff, 0x2060, 0x180e, 0x00ad] ||
    (0x202a ≤ c.toNat && c.toNat ≤ 0x202e) || (0x2066 ≤ c.toNat && c.toNat ≤ 0x2069)

/-- `_HOMOGLYPH_MAP` -/
def HOMOGLYPH_MAP : List (ℕ × Char) :=
  [(0x0410, 'A'), (0x0412, 'B'), (0x0421, 'C'), (0x0415, 'E'), (0x041d, 'H'), (0x041a, 'K'),
    (0x041c, 'M'), (0x041e, 'O'), (0x0420, 'P'), (0x0422, 'T'), (0x0425, 'X'), (0x0430, 'a'),
    (0x0435, 'e'), (0x043e, 'o'), (0x0440, 'p'), (0x0441, 'c'), (0x0443, 'y'), (0x0445, 'x'),
    (0x0456, 'i'), (0x0458, 'j'), (0x0391, 'A'), (0x0392, 'B'), (0x0395, 'E'), (0x0397, 'H'),
    (0x0399, 'I'), (0x039a, 'K'), (0x039c, 'M'), (0x039d, 'N'), (0x039f, 'O'), (0x03a1, 'P'),
    (0x03a4, 'T'), (0x03a7, 'X'), (0x03b1, 'a'), (0x03bf, 'o'), (0x03c1, 'p')]

def fold_homoglyph (c : Char) : Char := (HOMOGLYPH_MAP.lookup c.toNat).getD c

/-- `_CONTROL_RE` -/
def control (c : Char) : Bool :=
  c.toNat ≤ 0x08 || c.toNat ∈ [0x0b, 0x0c, 0x7f] || (0x0e ≤ c.toNat && c.toNat ≤ 0x1f) ||
    (0x80 ≤ c.toNat && c.toNat ≤ 0x9f)

def CONTROL_CHAR_RATIO_THRESHOLD : ℚ := 1 / 20

def CONTROL_CHAR_MIN_LENGTH : ℕ := 20

def base64_char (c : Char) : Bool := c.isAlphanum || oneOf ['+', '/', '='] c

def BASE64_BLOB_RE : Rx := .rep (.set base64_char) 200 none

def INJECTION_MARKERS : List Str :=
  ["ignore previous".toList, "ignore all".toList, "disregard".toList, "system prompt".toList,
    "you are now".toList, "new instructions".toList, "override".toList,
    "forget everything".toList, "act as".toList, "jailbreak".toList, "dan".toList,
    "bypass".toList]

def MAX_INPUT_LENGTH : ℕ := 10000

/-- `_normalize` -/
def normalize_text (nfkc : Str → Str) (text : Str) : Str :=
  ((nfkc text).filter (fun c => !zero_width c)).map fold_homoglyph

def excessive_control (normalized : Str) : Bool :=
  CONTROL_CHAR_MIN_LENGTH ≤ normalized.length &&
    decide (CONTROL_CHAR_RATIO_THRESHOLD < (normalized.countP control : ℚ) / normalized.length)

/-- `_REPEATED_CHAR_RE.search`: some character but a line feed and 49 more of it. -/
def repeated_chars : Str → Bool
  | [] => false
  | c :: cs => (c != '\n' && 49 ≤ (cs.takeWhile (fun d => d = c)).length) || repeated_chars cs

def base64_value (c : Char) : Option ℕ :=
  if c.isUpper then some (c.toNat - 65)
  else if c.isLower then some (c.toNat - 71)
  else if c.isDigit then some (c.toNat + 4)
  else if c = '+' then some 62
  else if c = '/' then some 63
  else none

/-- `base64.b64decode(s, validate=True)`: groups of four, the last one perhaps padded. -/
def b64decode : Str → Option (List ℕ)
  | [] => some []
  | a :: b :: c :: d :: rest => do
    let x ← base64_value a
    let y ← base64_value b
    if d = '=' ∧ rest = [] then
      if c = '=' then pure [x * 4 + y / 16]
      else do
        let z ← base64_value c
        pure [x * 4 + y / 16, y % 16 * 16 + z / 4]
    else do
      let z ← base64_value c
      let w ← base64_value d
      let bytes ← b64decode rest
      pure ((x * 4 + y / 16) :: (y % 16 * 16 + z / 4) :: (z % 4 * 64 + w) :: bytes)
  | _ => none

/-- How many continuation bytes follow a first byte above ASCII, the bounds of the next one
and the bits of the code point so far. -/
def utf8_lead (b : ℕ) : Option (ℕ × ℕ × ℕ × ℕ) :=
  if 0xc2 ≤ b ∧ b ≤ 0xdf then some (1, 0x80, 0xbf, b - 0xc0)
  else if b = 0xe0 then some (2, 0xa0, 0xbf, 0)
  else if b = 0xed then some (2, 0x80, 0x9f, 0xd)
  else if 0xe1 ≤ b ∧ b ≤ 0xef then some (2, 0x80, 0xbf, b - 0xe0)
  else if b = 0xf0 then some (3, 0x90, 0xbf, 0)
  else if 0xf1 ≤ b ∧ b ≤ 0xf3 then some (3, 0x80, 0xbf, b - 0xf0)
  else if b = 0xf4 then some (3, 0x80, 0x8f, 4)
  else none

/-- `bytes.decode("utf-8", errors="strict")`, `owed` continuation bytes into a character. -/
def utf8_decode (owed lo hi bits : ℕ) : List ℕ → Option Str
  | [] => if owed = 0 then some [] else none
  | b :: bytes =>
    if owed = 0 then
      if b < 0x80 then (utf8_decode 0 0 0 0 bytes).map (Char.ofNat b :: ·)
      else
        match utf8_lead b with
        | some (owed, lo, hi, bits) => utf8_decode owed lo hi bits bytes
        | none => none
    else if lo ≤ b ∧ b ≤ hi then
      if owed = 1 then
        (utf8_decode 0 0 0 0 bytes).map (Char.ofNat (bits * 64 + (b - 0x80)) :: ·)
      else utf8_decode (owed - 1) 0x80 0xbf (bits * 64 + (b - 0x80)) bytes
    else none

def try_decode_base64 (blob : Str) : Option Str :=
  (b64decode (blob ++ List.replicate ((4 - blob.length % 4) % 4) '=')).bind (utf8_decode 0 0 0 0)

def whole_word (marker : Str) : Rx := seqs [.boundary, lit marker, .boundary]

/-- Some marker stands in the text as a whole word. -/
def marked (py : Runtime) (text : Str) : Bool :=
  INJECTION_MARKERS.any (fun marker => (search py.word (whole_word marker) text).isSome)

def rejection (category : Str) : Exn :=
  .GuardrailBlockedError "blocked".toList "INPUT".toList [category]

/-- The blob decodes to a text that shows a marker. -/
def injects (py : Runtime) (nfkc : Str → Str) (blob : Str) : Bool :=
  match try_decode_base64 blob with
  | some decoded => marked py (lower py (nfkc decoded))
  | none => false

def check_base64_blobs (py : Runtime) (nfkc : Str → Str) (normalized : Str) : Except Exn Unit :=
  if (findall py.word BASE64_BLOB_RE normalized).any (injects py nfkc) then
    .error (rejection "scanner:base64_injection".toList)
  else .ok ()

def scan_internal (py : Runtime) (nfkc : Str → Str) (text : Str) : Except Exn Str :=
  if MAX_INPUT_LENGTH < text.length then .error (rejection "scanner:oversized".toList)
  else
    let normalized := normalize_text nfkc text
    if excessive_control normalized then .error (rejection "scanner:control_chars".toList)
    else if repeated_chars normalized then .error (rejection "scanner:repeated_chars".toList)
    else (check_base64_blobs py nfkc normalized).map (fun _ => normalized)

def scan (py : Runtime) (nfkc : Str → Str) (enabled : Bool) (text : Str) : Except Exn Str :=
  if !enabled then .ok text else scan_internal py nfkc text

end AigentSquad.InputScanner

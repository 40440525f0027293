import AigentSquad.Regex

/-!
# The redactor

`redact` replaces personal data and secrets by fixed texts, one pattern after
another.
-/

set_option autoImplicit false

namespace AigentSquad.Redactor
open AigentSquad.PyText AigentSquad.Regex

def upper_or_digit (c : Char) : Bool := c.isDigit || c.isUpper

/-- `\b[\w.+-]+@[\w-]+\.[\w.-]+\b` -/
def email (py : Runtime) : Rx :=
  seqs [.boundary, plus (.set (fun c => py.word c || oneOf ['.', '+', '-'] c)), lit ['@'],
    plus (.set (fun c => py.word c || c = '-')), lit ['.'],
    plus (.set (fun c => py.word c || oneOf ['.', '-'] c)), .boundary]

/-- A prefix and a body between word boundaries. -/
def token (before : Str) (ok : Char → Bool) (lo : Nat) (hi : Option Nat) : Rx :=
  seqs [.boundary, lit before, .rep (.set ok) lo hi, .boundary]

/-- `\bAKIA[0-9A-Z]{16}\b` -/
def akia : Rx := token "AKIA".toList upper_or_digit 16 (some 16)

/-- `\bASIA[0-9A-Z]{16}\b` -/
def asia : Rx := token "ASIA".toList upper_or_digit 16 (some 16)

/-- `\bghp_[A-Za-z0-9]{36}\b` -/
def github_pat : Rx := token "ghp_".toList Char.isAlphanum 36 (some 36)

/-- `\bglpat-[A-Za-z0-9_-]{20,}\b` -/
def gitlab_pat : Rx :=
  token "glpat-".toList (fun c => c.isAlphanum || oneOf ['_', '-'] c) 20 none

/-- `Bearer\s+[A-Za-z0-9_.\-]+`, `re.IGNORECASE` -/
def bearer : Rx :=
  seqs [litIgnoreCase "bearer".toList, plus (.set isspace),
    plus (.set (ignoreCase (fun c => c.isAlphanum || oneOf ['_', '.', '-'] c)))]

/-- `\bsk-[A-Za-z0-9]{20,}\b` -/
def openai_key : Rx := token "sk-".toList Char.isAlphanum 20 none

def PATTERNS (py : Runtime) : List (Rx × Str) :=
  [(email py, "<redacted:email>".toList),
    (akia, "<redacted:aws-key>".toList),
    (asia, "<redacted:aws-key>".toList),
    (github_pat, "<redacted:github-pat>".toList),
    (gitlab_pat, "<redacted:gitlab-pat>".toList),
    (bearer, "Bearer <redacted:token>".toList),
    (openai_key, "<redacted:openai-key>".toList)]

def redact (py : Runtime) (text : Str) : Str :=
  (PATTERNS py).foldl (fun t p => sub py.word p.1 p.2 t) text

end AigentSquad.Redactor

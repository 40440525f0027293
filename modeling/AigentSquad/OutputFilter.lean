import AigentSquad.Effects
import AigentSquad.Regex

/-!
# The output filter

`OutputFilter.scan` refuses a response in which a secret or personal datum is
found. The digest and the audit log are left out.
-/

set_option autoImplicit false

namespace AigentSquad.OutputFilter
open AigentSquad.PyText AigentSquad.Regex AigentSquad.Effects

def MIN_RESPONSE_LENGTH : Nat := 10

def spaces : Rx := star (.set isspace)

def some_spaces : Rx := plus (.set isspace)

def chars (cs : Str) : Rx := .set (oneOf cs)

def optional (cs : Str) : Rx := opt (chars cs)

def words (w : Str) (ws : List Str) : Rx := alts (lit w) (ws.map lit)

def aws_access_key : Rx :=
  .seq (words "AKIA".toList ["ASIA".toList]) (times (.set (fun c => c.isDigit || c.isUpper)) 16)

def aws_secret_key : Rx :=
  seqs [alts (seqs [litIgnoreCase "secret".toList, optional ['_', '-'],
      litIgnoreCase "access".toList, optional ['_', '-'], litIgnoreCase "key".toList])
      [seqs [litIgnoreCase "aws".toList, optional ['_', '-'], litIgnoreCase "secret".toList],
        litIgnoreCase "secretkey".toList],
    optional ['\'', '"'], spaces, chars [':', '='], spaces, optional ['\'', '"'],
    times (.set (ignoreCase (fun c => c.isAlphanum || oneOf ['/', '+'] c))) 40]

def private_key : Rx :=
  seqs [lit "-----BEGIN".toList, some_spaces,
    opt (alts (.seq (lit "RSA".toList) some_spaces) (["EC".toList, "DSA".toList,
      "OPENSSH".toList].map (fun w => .seq (lit w) some_spaces))),
    lit "PRIVATE".toList, some_spaces, lit "KEY-----".toList]

def generic_secret : Rx :=
  seqs [alts (seqs [litIgnoreCase "api".toList, optional ['_', '-'], litIgnoreCase "key".toList])
      [seqs [litIgnoreCase "secret".toList, optional ['_', '-'], litIgnoreCase "key".toList],
        seqs [litIgnoreCase "auth".toList, optional ['_', '-'], litIgnoreCase "token".toList],
        litIgnoreCase "password".toList],
    spaces, chars [':', '='], spaces, optional ['\'', '"'],
    .rep (.set (ignoreCase (fun c => c.isAlphanum || oneOf ['/', '+', '=', '_', '-'] c))) 20 none,
    optional ['\'', '"']]

def email : Rx :=
  seqs [plus (.set (fun c => c.isAlphanum || oneOf ['.', '_', '%', '+', '-'] c)), lit "@".toList,
    plus (.set (fun c => c.isAlphanum || oneOf ['.', '-'] c)), lit ".".toList,
    .rep (.set Char.isAlpha) 2 none]

def cpf (py : Runtime) : Rx :=
  seqs [.boundary, times (.set (digit py)) 3, opt (.set (fun c => c = '.' || isspace c)),
    times (.set (digit py)) 3, opt (.set (fun c => c = '.' || isspace c)),
    times (.set (digit py)) 3, opt (.set (fun c => oneOf ['.', '-'] c || isspace c)),
    times (.set (digit py)) 2, .boundary]

def credit_card (py : Runtime) : Rx :=
  seqs [.boundary, .rep (.seq (.set (digit py)) (optional [' ', '-'])) 13 (some 19), .boundary]

def github_token : Rx :=
  seqs [words "ghp".toList ["gho".toList, "ghu".toList, "ghs".toList, "ghr".toList],
    lit "_".toList, .rep (.set (fun c => c.isAlphanum || c = '_')) 36 none]

def gitlab_token : Rx :=
  .seq (lit "glpat-".toList) (.rep (.set (fun c => c.isAlphanum || oneOf ['-', '_'] c)) 20 none)

/-- `_PATTERNS` -/
def PATTERNS (py : Runtime) : List (Str × Rx) :=
  [("aws_access_key".toList, aws_access_key), ("aws_secret_key".toList, aws_secret_key),
    ("private_key".toList, private_key), ("generic_secret".toList, generic_secret),
    ("email".toList, email), ("cpf".toList, cpf py), ("credit_card".toList, credit_card py),
    ("github_token".toList, github_token), ("gitlab_token".toList, gitlab_token)]

/-- Every second digit doubled, nine taken off where that has two digits. -/
def luhn_sum (parity : Nat) : Nat → List Nat → Nat
  | _, [] => 0
  | i, d :: ds =>
    let doubled := if i % 2 = parity then (if 9 < 2 * d then 2 * d - 9 else 2 * d) else d
    doubled + luhn_sum parity (i + 1) ds

def luhn_valid (py : Runtime) (candidate : Str) : Bool :=
  let digits := candidate.filterMap py.decimal
  if 13 ≤ digits.length ∧ digits.length ≤ 19 then
    luhn_sum (digits.length % 2) 0 digits % 10 = 0
  else false

/-- One pattern of `_find_leaks`. -/
def leak (py : Runtime) (text : Str) (p : Str × Rx) : Option (Str × Str) :=
  match search py.word p.2 text with
  | none => none
  | some m =>
    if p.1 = "credit_card".toList && !luhn_valid py m then none else some (p.1, m)

def find_leaks (py : Runtime) (text : Str) : List (Str × Str) :=
  (PATTERNS py).filterMap (leak py text)

def scan (py : Runtime) (enabled : Bool) (response : Str) : Except Exn Unit :=
  if !enabled then .ok ()
  else if response.length < MIN_RESPONSE_LENGTH then .ok ()
  else if !(find_leaks py response).isEmpty then
    .error (.GuardrailBlockedError "blocked".toList "OUTPUT".toList
      ((find_leaks py response).map (fun d => "leak:".toList ++ d.1)))
  else .ok ()

end AigentSquad.OutputFilter

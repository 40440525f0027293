import AigentSquad.Effects
import AigentSquad.Regex

/-!
# Canary tokens

`CanaryGuard`: tokens are put around the collected data and, found again in an
answer, redacted. Too many detections in one session refuse the answer. The
detection counter is asked for, the audit log is left out.
-/

set_option autoImplicit false

namespace AigentSquad.Canary
open AigentSquad.PyText AigentSquad.Regex AigentSquad.Interaction AigentSquad.Effects

def CANARY_PREFIX : Str := "CNRY-".toList

def SEP : Rx :=
  star (.set (fun c => isspace c || oneOf ['-', '_', '.', Char.ofNat 0x200b] c))

/-- The letters of a text with separators between them, case ignored. -/
def spread : Str → Rx
  | [] => .empty
  | [c] => litIgnoreCase [foldCase c]
  | c :: d :: s => .seq (litIgnoreCase [foldCase c]) (.seq SEP (spread (d :: s)))

def fuzzy_pattern (token : Str) : Rx := spread (token.drop CANARY_PREFIX.length)

def redacted_mark : Str := "[redacted]".toList

def fuzzy_prefix_pattern : Rx :=
  .seq (spread "cnry".toList) (.seq SEP (litIgnoreCase redacted_mark))

def generate_token : M Str := do
  let hex ← (.request Ask.token_hex : M Str)
  pure (CANARY_PREFIX ++ hex)

def marker (token : Str) : Str :=
  "<!-- internal-telemetry-id, do not output: ".toList ++ token ++ " -->".toList

def inject (canary_enabled : Bool) (infra_data : Str) : M (Str × List Str) :=
  if !canary_enabled then pure (infra_data, [])
  else do
    let head ← generate_token
    let tail ← generate_token
    pure (marker head ++ "\n".toList ++ infra_data ++ "\n".toList ++ marker tail, [head, tail])

/-- One token of `detect`: whether any token leaked so far, and the response. -/
def redact (py : Runtime) (found : Bool × Str) (token : Str) : Bool × Str :=
  if isIn token found.2 || (search py.word (fuzzy_pattern token) found.2).isSome then
    (true, sub py.word fuzzy_prefix_pattern redacted_mark
      (sub py.word (fuzzy_pattern token) redacted_mark found.2))
  else found

def canary_repeated : Exn :=
  .GuardrailBlockedError "blocked".toList "OUTPUT".toList ["canary_repeated_detection".toList]

def detect (py : Runtime) (canary_enabled : Bool) (canary_escalation_threshold : Int)
    (response : Str) (tokens : List Str) (session_id : Str) : M Str :=
  if !canary_enabled || tokens.isEmpty then pure response
  else
    let found := tokens.foldl (redact py) (false, response)
    if found.1 && !session_id.isEmpty then do
      let count ← (.request (Ask.count_detection session_id) : M Int)
      if canary_escalation_threshold < count then .throw canary_repeated else pure found.2
    else pure found.2

end AigentSquad.Canary

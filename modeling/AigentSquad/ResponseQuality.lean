import AigentSquad.Effects
import AigentSquad.Regex

/-!
# The response quality guard

Structural defects and ungrounded resource ids refuse a response, ungrounded
dollar figures lower its confidence. Metrics and the audit log are left out.
-/

set_option autoImplicit false

namespace AigentSquad.ResponseQuality
open AigentSquad.PyText AigentSquad.Regex AigentSquad.Effects

def MAX_UNVERIFIED_CLAIMS : Nat := 20

def MIN_RESPONSE_LENGTH : Nat := 10

def tool_scaffolding : Rx :=
  seqs [lit "<".toList, opt (lit "/".toList),
    alts (litIgnoreCase "use_mcp_tool".toList) [litIgnoreCase "tool_call".toList,
      litIgnoreCase "function_calls".toList, litIgnoreCase "invoke".toList], .boundary]

def raw_adapter_error (py : Runtime) : Rx :=
  seqs [lit "[".toList,
    plus (.set (ignoreCase (fun c => py.word c || oneOf [':', '.', '-'] c))), lit "]".toList,
    star (.set isspace), litIgnoreCase "error:".toList]

def raw_traceback : Rx := lit "Traceback (most recent call last):".toList

def raw_botocore_exception (py : Runtime) : Rx :=
  .seq (lit "botocore.exceptions.".toList) (plus (.set py.word))

def raw_boto3_error_string (py : Runtime) : Rx :=
  seqs [lit "An error occurred (".toList, plus (.set py.word),
    alts (lit "Exception".toList) [lit "Error".toList], lit ") when calling".toList]

def raw_taskgroup_exception : Rx := lit "unhandled errors in a TaskGroup".toList

/-- `_PATTERNS` -/
def PATTERNS (py : Runtime) : List (Str × Rx) :=
  [("tool_scaffolding".toList, tool_scaffolding),
    ("raw_adapter_error".toList, raw_adapter_error py),
    ("raw_traceback".toList, raw_traceback),
    ("raw_botocore_exception".toList, raw_botocore_exception py),
    ("raw_boto3_error_string".toList, raw_boto3_error_string py),
    ("raw_taskgroup_exception".toList, raw_taskgroup_exception)]

def hexDigit (c : Char) : Bool := c.isDigit || ('a' ≤ c && c ≤ 'f')

/-- a letter of `a-z`, a digit or a dash -/
def slugChar (c : Char) : Bool := c.isLower || c.isDigit || c = '-'

def resource_id : Rx :=
  seqs [.boundary,
    alts (litIgnoreCase "i".toList) (["vol", "sg", "snap", "subnet", "vpc", "ami", "eni", "nat",
      "igw", "rtb", "acl", "vpce"].map (fun s => litIgnoreCase s.toList)),
    lit "-".toList, .rep (.set (ignoreCase hexDigit)) 8 (some 17), .boundary]

def arn (py : Runtime) : Rx :=
  seqs [litIgnoreCase "arn:aws:".toList, plus (.set (ignoreCase slugChar)), lit ":".toList,
    star (.set (ignoreCase slugChar)), lit ":".toList, times (.set (digit py)) 12, lit ":".toList,
    plus (.set (ignoreCase (fun c => py.word c || oneOf ['-', '/', ':', '.', '*'] c)))]

def RESOURCE_ID_PATTERN (py : Runtime) : Rx := .alt resource_id (arn py)

def NUMERIC_CLAIM_PATTERN (py : Runtime) : Rx :=
  seqs [lit "$".toList, .rep (.set (digit py)) 1 (some 3),
    star (.seq (lit ",".toList) (times (.set (digit py)) 3)), lit ".".toList,
    times (.set (digit py)) 2, .boundary]

def find_ungrounded_resource_ids (py : Runtime) (response infra_data : Str) : List Str :=
  (findall py.word (RESOURCE_ID_PATTERN py) response).filter
    (fun m => !isIn (lower py m) (lower py infra_data))

def check_numeric_groundedness (py : Runtime) (response infra_data : Str) : List Str :=
  (findall py.word (NUMERIC_CLAIM_PATTERN py) response).filter (fun claim => !isIn claim infra_data)

def find_defects (py : Runtime) (text : Str) : List (Str × Str) :=
  (PATTERNS py).filterMap (fun p => (search py.word p.2 text).map (fun m => (p.1, m)))

def distinct : List Str → List Str → List Str
  | _, [] => []
  | seen, item :: items =>
    if strip item ∈ seen then distinct seen items
    else strip item :: distinct (strip item :: seen) items

def assemble_assessment (ungrounded_numerics : List Str) : QualityAssessment :=
  let claims := distinct [] ungrounded_numerics
  ⟨if claims.length = 0 then "high".toList
    else if claims.length ≤ 2 then "medium".toList else "low".toList,
    claims.take MAX_UNVERIFIED_CLAIMS⟩

def ungrounded_category : Str := "quality:ungrounded_resource_id".toList

/-- The categories `scan` refuses a response for. -/
def blocking_categories (py : Runtime) (response infra_data : Str) : List Str :=
  (find_defects py response).map (fun d => "quality:".toList ++ d.1) ++
    if !infra_data.isEmpty && !(find_ungrounded_resource_ids py response infra_data).isEmpty then
      [ungrounded_category]
    else []

def scan (py : Runtime) (enabled : Bool) (response infra_data : Str) :
    Except Exn (Option QualityAssessment) :=
  if !enabled then .ok none
  else if response.length < MIN_RESPONSE_LENGTH then .ok none
  else if !(blocking_categories py response infra_data).isEmpty then
    .error (.GuardrailBlockedError "blocked".toList "OUTPUT".toList
      (blocking_categories py response infra_data))
  else if infra_data.isEmpty then .ok none
  else .ok (some (assemble_assessment (check_numeric_groundedness py response infra_data)))

end AigentSquad.ResponseQuality

import AigentSquad.AuditAgreement
import AigentSquad.Dict
import AigentSquad.PyRepr

/-!
# Running the audit

`mcp_rbac_audit.py` from its config file to its exit code: the accounts it reads
off a file in JSON or the simple YAML of its docstring, the commands it gives to
kubectl for each of them, and what the verdicts come to.
-/

set_option autoImplicit false

namespace AigentSquad.AuditRun
open AigentSquad.PyText AigentSquad.PyJson AigentSquad.RbacAudit AigentSquad.RbacParsing
open AigentSquad.AuditFormats AigentSquad.AuditAgreement

/-! ## The config file -/

/-- `s.strip(c)` for one character -/
def strip_char (c : Char) (s : Str) : Str :=
  (((s.dropWhile (· = c)).reverse).dropWhile (· = c)).reverse

def unquoted (s : Str) : Str := strip_char '\'' (strip_char '"' s)

/-- `key, val = text.split(":", 1)`, for a text with a colon -/
def key_value (text : Str) : Str × Str :=
  (strip (text.takeWhile (· ≠ ':')), unquoted (strip (text.dropWhile (· ≠ ':')).tail))

/-- `service_accounts` and `current_item` -/
structure Reading where
  service_accounts : List (List (Str × Json))
  current_item : Option (List (Str × Json))

/-- `d[key] = val` -/
def assign (d : List (Str × Json)) (entry : Str × Str) : List (Str × Json) :=
  Dict.put d entry.1 (.str entry.2)

def Reading.flushed (r : Reading) : List (List (Str × Json)) :=
  r.service_accounts ++ r.current_item.toList

/-- The loop body of `_parse_simple_yaml`, on a line. -/
def Reading.line (r : Reading) (line : Str) : Reading :=
  let stripped := strip line
  if stripped.isEmpty || startswith stripped ['#'] then r
  else if startswith stripped "- ".toList then
    let item_content := strip (stripped.drop 2)
    { service_accounts := r.flushed
      current_item := some
        (if ':' ∈ item_content then assign [] (key_value item_content) else []) }
  else
    match r.current_item with
    | some item =>
      if ':' ∈ stripped then { r with current_item := some (assign item (key_value stripped)) }
      else r
    | none => r

def parse_simple_yaml (content : Str) : Json :=
  .obj [("service_accounts".toList,
    .arr (((splitlines content).foldl Reading.line ⟨[], none⟩).flushed.map Json.obj))]

/-- `load_config` on what the file holds, none where it raises -/
def load_config (py : Runtime) (content : Str) : Option Json :=
  let accounts : Json → Json
    | .obj data => (Json.get data "service_accounts".toList).getD (.arr [])
    | _ => .arr []
  match loads py content with
  | .ok data => some (accounts data)
  | .error .JSONDecodeError => some (accounts (parse_simple_yaml content))
  | .error .ValueError => none

/-- An account of the config file. -/
structure Target where
  sa_name : Str
  sa_ns : Str
  ctx : Option Str

def Target.entries (t : Target) : List (Str × Str) :=
  [("name".toList, t.sa_name), ("namespace".toList, t.sa_ns)] ++
    (t.ctx.map (fun c => ("context".toList, c))).toList

def Target.json (t : Target) : Json := .obj (t.entries.map (fun e => (e.1, .str e.2)))

/-- `key: value` -/
def pair (key v : Str) : Str := key ++ ": ".toList ++ v

/-- The lines of an account, as the docstring lays them out. -/
def Target.lines (t : Target) : List Str :=
  ("  - ".toList ++ pair "name".toList t.sa_name) ::
    ("    ".toList ++ pair "namespace".toList t.sa_ns) ::
    (t.ctx.map (fun c => "    ".toList ++ pair "context".toList c)).toList

def config_lines (ts : List Target) : List Str :=
  "service_accounts:".toList :: ts.flatMap Target.lines

def config_yaml (ts : List Target) : Str := (config_lines ts).flatMap (· ++ ['\n'])

def config_json (ts : List Target) : Str :=
  dumps true (.obj [("service_accounts".toList, .arr (ts.map Target.json))])

/-- A value that needs no quotes in YAML, and has none. -/
structure Scalar (v : Str) : Prop where
  head : ∃ c ∈ v.head?, isspace c = false
  last : ∀ c ∈ v.getLast?, isspace c = false
  unquoted : unquoted v = v
  unbroken : ∀ c ∈ v, isLineBreak c = false

def Target.Scalars (t : Target) : Prop := ∀ e ∈ t.entries, Scalar e.2

theorem splitlines_lines (ls : List Str) (h : ∀ l ∈ ls, ∀ c ∈ l, isLineBreak c = false) :
    splitlines (ls.flatMap (· ++ ['\n'])) = ls := by
  induction ls with
  | nil => rfl
  | cons l ls ih =>
    have hrest := ih (fun m hm => h m (List.mem_cons_of_mem l hm))
    have hbreak : isLineBreak '\n' = true := by decide
    rw [splitlines] at hrest ⊢
    rw [List.flatMap_cons, List.append_assoc, linesFrom_append l _ []
      (h l List.mem_cons_self), List.append_nil, List.singleton_append, linesFrom]
    rw [if_neg (by decide), if_pos hbreak, List.reverse_reverse]
    exact congrArg (l :: ·) hrest

structure Key (key : Str) : Prop where
  begins : ∃ c ∈ key.head?, c ≠ '#' ∧ c ≠ '-'
  plain : ∀ c ∈ key, isspace c = false ∧ c ≠ ':' ∧ isLineBreak c = false

theorem keys : Key "name".toList ∧ Key "namespace".toList ∧ Key "context".toList :=
  ⟨⟨⟨'n', rfl, by decide⟩, by decide⟩, ⟨⟨'n', rfl, by decide⟩, by decide⟩,
    ⟨⟨'c', rfl, by decide⟩, by decide⟩⟩

theorem pair_head {key : Str} (hkey : Key key) (v : Str) :
    ∃ c rest, pair key v = c :: rest ∧ c ≠ '#' ∧ c ≠ '-' ∧ isspace c = false := by
  obtain ⟨c, hc, hhash, hdash⟩ := hkey.begins
  obtain ⟨rest, rfl⟩ := List.head?_eq_some_iff.mp hc
  exact ⟨c, rest ++ ": ".toList ++ v, rfl, hhash, hdash, (hkey.plain c List.mem_cons_self).1⟩

theorem pair_last (key : Str) {v : Str} (hv : Scalar v) :
    ∀ c ∈ (pair key v).getLast?, isspace c = false := by
  have hne : v ≠ [] := by
    rintro rfl
    obtain ⟨c, hc, -⟩ := hv.head
    cases hc
  rw [pair, List.getLast?_append_of_ne_nil _ hne]
  exact hv.last

theorem colon_pair (key v : Str) : ':' ∈ pair key v := by
  rw [pair, List.append_assoc]
  exact List.mem_append_right _ List.mem_cons_self

section Line
variable {key v : Str} (hkey : Key key) (hv : Scalar v)
include hkey hv

/-- The blanks before a pair, and a dash, are stripped off or kept with it. -/
theorem strip_pair (blank mark : Str) (hblank : ∀ c ∈ blank, isspace c = true)
    (hmark : ∀ c ∈ mark.head?, isspace c = false) :
    strip (blank ++ (mark ++ pair key v)) = mark ++ pair key v := by
  obtain ⟨c, rest, hpair, _, _, hc⟩ := pair_head hkey v
  have hself : strip (mark ++ pair key v) = mark ++ pair key v := by
    refine (strip_eq_self_iff _).mpr ⟨?_, ?_⟩
    · cases mark with
      | nil =>
        rw [List.nil_append, hpair]
        intro d hd
        cases hd
        exact hc
      | cons d ds => exact hmark
    · rw [List.getLast?_append_of_ne_nil _ (by rw [hpair]; exact List.cons_ne_nil c rest)]
      exact pair_last key hv
  rw [strip, lstrip, List.dropWhile_append_of_pos hblank]
  exact hself

theorem key_value_pair : key_value (pair key v) = (key, v) := by
  have hstop : ∀ c ∈ key, decide (c ≠ ':') = true :=
    fun c hc => decide_eq_true (hkey.plain c hc).2.1
  have htext : pair key v = key ++ ':' :: ' ' :: v := by
    rw [pair, List.append_assoc]
    rfl
  have hkey_self : strip key = key :=
    (strip_eq_self_iff _).mpr ⟨fun c hc => (hkey.plain c (List.mem_of_mem_head? hc)).1,
      fun c hc => (hkey.plain c (List.mem_of_getLast? hc)).1⟩
  have hv_self : strip (' ' :: v) = v := by
    have hself : strip v = v := by
      refine (strip_eq_self_iff _).mpr ⟨?_, hv.last⟩
      obtain ⟨c, hc, hspace⟩ := hv.head
      intro d hd
      cases (Option.mem_unique hc hd)
      exact hspace
    rw [strip, lstrip, List.dropWhile_cons_of_pos (by decide)]
    exact hself
  rw [key_value, htext, List.takeWhile_append_of_pos hstop, List.dropWhile_append_of_pos hstop,
    List.takeWhile_cons_of_neg (by decide), List.dropWhile_cons_of_neg (by decide),
    List.append_nil, List.tail_cons, hkey_self, hv_self, hv.unquoted]

/-- A line that begins an account. -/
theorem line_item (r : Reading) :
    r.line ("  - ".toList ++ pair key v) = ⟨r.flushed, some [(key, .str v)]⟩ := by
  have hstrip : strip ("  - ".toList ++ pair key v) = "- ".toList ++ pair key v :=
    strip_pair hkey hv "  ".toList "- ".toList (by decide)
      (fun _ hc => by cases hc; rfl)
  have hcontent : strip (("- ".toList ++ pair key v).drop 2) = pair key v :=
    strip_pair hkey hv [] [] nofun nofun
  unfold Reading.line
  dsimp only
  rw [hstrip, hcontent, if_neg (by simp [startswith]), if_pos (by simp [startswith]),
    if_pos (colon_pair key v), key_value_pair hkey hv]
  rfl

/-- A line that goes on with it. -/
theorem line_entry (accounts : List (List (Str × Json))) (item : List (Str × Json)) :
    Reading.line ⟨accounts, some item⟩ ("    ".toList ++ pair key v) =
      ⟨accounts, some (assign item (key, v))⟩ := by
  have hstrip : strip ("    ".toList ++ pair key v) = pair key v :=
    strip_pair hkey hv "    ".toList [] (by decide) nofun
  obtain ⟨c, rest, hpair, hhash, hdash, _⟩ := pair_head hkey v
  unfold Reading.line
  dsimp only
  rw [hstrip, if_neg (by rw [hpair]; simp [startswith, Ne.symm hhash]),
    if_neg (by rw [hpair]; simp [startswith, Ne.symm hdash]), if_pos (colon_pair key v),
    key_value_pair hkey hv]

end Line

def Target.pairs (t : Target) : List (Str × Json) := t.entries.map (fun e => (e.1, .str e.2))

theorem target_lines (t : Target) (ht : t.Scalars) (r : Reading) :
    t.lines.foldl Reading.line r = ⟨r.flushed, some t.pairs⟩ := by
  obtain ⟨hname, hnamespace, hcontext⟩ := keys
  have hfirst := line_item hname (ht ("name".toList, t.sa_name) (by simp [Target.entries])) r
  have hsecond := line_entry hnamespace
    (ht ("namespace".toList, t.sa_ns) (by simp [Target.entries])) r.flushed
    [("name".toList, .str t.sa_name)]
  obtain ⟨sa_name, sa_ns, ctx⟩ := t
  cases ctx with
  | none =>
    rw [Target.lines, List.foldl_cons, hfirst, List.foldl_cons, hsecond]
    rfl
  | some c =>
    have hthird := line_entry hcontext (ht ("context".toList, c) (by simp [Target.entries]))
      r.flushed (assign [("name".toList, .str sa_name)] ("namespace".toList, sa_ns))
    rw [Target.lines, List.foldl_cons, hfirst, List.foldl_cons, hsecond, Option.map_some,
      Option.toList_some, List.foldl_cons, hthird]
    rfl

theorem targets_lines (ts : List Target) (hts : ∀ t ∈ ts, t.Scalars) (r : Reading) :
    ((ts.flatMap Target.lines).foldl Reading.line r).flushed =
      r.flushed ++ ts.map Target.pairs := by
  induction ts generalizing r with
  | nil => exact (List.append_nil _).symm
  | cons t ts ih =>
    rw [List.flatMap_cons, List.foldl_append, target_lines t (hts t List.mem_cons_self),
      ih (fun u hu => hts u (List.mem_cons_of_mem t hu))]
    simp [Reading.flushed]

theorem config_unbroken (ts : List Target) (hts : ∀ t ∈ ts, t.Scalars) :
    ∀ l ∈ config_lines ts, ∀ c ∈ l, isLineBreak c = false := by
  have hpair : ∀ (front key v : Str), (∀ c ∈ front, isLineBreak c = false) → Key key → Scalar v →
      ∀ c ∈ front ++ pair key v, isLineBreak c = false := by
    intro front key v hfront hkey hv
    have hcolon : ∀ c ∈ ": ".toList, isLineBreak c = false := by decide
    rw [pair]
    exact List.forall_mem_append.mpr ⟨hfront, List.forall_mem_append.mpr
      ⟨List.forall_mem_append.mpr ⟨fun c hc => (hkey.plain c hc).2.2, hcolon⟩, hv.unbroken⟩⟩
  obtain ⟨hname, hnamespace, hcontext⟩ := keys
  refine List.forall_mem_cons.mpr ⟨by decide, ?_⟩
  intro l hl
  obtain ⟨t, ht, hline⟩ := List.mem_flatMap.mp hl
  have hscalar := hts t ht
  rcases List.mem_cons.mp hline with rfl | hline
  · exact hpair _ _ _ (by decide) hname (hscalar _ List.mem_cons_self)
  · rcases List.mem_cons.mp hline with rfl | hline
    · exact hpair _ _ _ (by decide) hnamespace
        (hscalar _ (List.mem_cons_of_mem _ List.mem_cons_self))
    · obtain ⟨c, hc, rfl⟩ := Option.map_eq_some_iff.mp (Option.mem_toList.mp hline)
      exact hpair _ _ _ (by decide) hcontext
        (hscalar ("context".toList, c) (by simp [Target.entries, hc]))

def config (ts : List Target) : Json :=
  .obj [("service_accounts".toList, .arr (ts.map Target.json))]

theorem parse_simple_yaml_config (ts : List Target) (hts : ∀ t ∈ ts, t.Scalars) :
    parse_simple_yaml (config_yaml ts) = config ts := by
  have hfirst : Reading.line ⟨[], none⟩ "service_accounts:".toList = ⟨[], none⟩ := by rfl
  have hflushed : (Reading.mk [] none).flushed = [] := rfl
  rw [parse_simple_yaml, config_yaml, splitlines_lines _ (config_unbroken ts hts), config_lines,
    List.foldl_cons, hfirst, targets_lines ts hts, hflushed, List.nil_append, List.map_map]
  rfl

theorem loads_yaml (py : Runtime) (ts : List Target) :
    loads py (config_yaml ts) = .error .JSONDecodeError := by
  obtain ⟨rest, hrest⟩ : ∃ rest, config_yaml ts = 's' :: rest := ⟨_, rfl⟩
  have hskip : skipWhitespace ('s' :: rest) = 's' :: rest := by simp [skipWhitespace]
  have hno : NoValue 's' := ⟨by decide, by decide⟩
  rw [hrest, loads, if_neg (by simp), hskip, scan_no_value py 's' hno]

theorem textual_targets (ts : List Target) : TextualItems (ts.map Target.json) := by
  induction ts with
  | nil => trivial
  | cons t ts ih =>
    refine ⟨?_, ih⟩
    obtain ⟨sa_name, sa_ns, ctx⟩ := t
    cases ctx with
    | none => exact ⟨of_decide_eq_true (by rfl), trivial, trivial, trivial⟩
    | some c => exact ⟨of_decide_eq_true (by rfl), trivial, trivial, trivial, trivial⟩

theorem load_config_json (py : Runtime) (ts : List Target) :
    load_config py (config_json ts) = some (.arr (ts.map Target.json)) := by
  have haccounts : Json.get [("service_accounts".toList, Json.arr (ts.map Target.json))]
      "service_accounts".toList = some (.arr (ts.map Target.json)) := get_cons_same _ _ _
  have htextual : Textual (config ts) :=
    ⟨of_decide_eq_true (by rfl), textual_targets ts, trivial⟩
  rw [load_config, config_json, show Json.obj [("service_accounts".toList,
    .arr (ts.map Target.json))] = config ts from rfl, loads_dumps py true _ htextual]
  dsimp only [config]
  rw [haccounts]
  rfl

theorem load_config_yaml (py : Runtime) (ts : List Target) (hts : ∀ t ∈ ts, t.Scalars) :
    load_config py (config_yaml ts) = some (.arr (ts.map Target.json)) := by
  have haccounts : Json.get [("service_accounts".toList, Json.arr (ts.map Target.json))]
      "service_accounts".toList = some (.arr (ts.map Target.json)) := get_cons_same _ _ _
  rw [load_config, loads_yaml, parse_simple_yaml_config ts hts]
  dsimp only [config]
  rw [haccounts]
  rfl

/-- A file in either format gives the accounts it was written for. -/
theorem config_read_back (py : Runtime) (ts : List Target) (hts : ∀ t ∈ ts, t.Scalars) :
    load_config py (config_yaml ts) = some (.arr (ts.map Target.json)) ∧
      load_config py (config_yaml ts) = load_config py (config_json ts) := by
  rw [load_config_json, load_config_yaml py ts hts]
  exact ⟨rfl, rfl⟩

/-- Two accounts of one file. -/
def kube_mcp : Target := ⟨"kube-mcp".toList, "mcp-servers".toList, none⟩

def vm_mcp : Target := ⟨"vm-mcp".toList, "mcp-servers".toList, some "prod".toList⟩

theorem two_scalars : ∀ t ∈ [kube_mcp, vm_mcp], t.Scalars := by
  have hscalar : ∀ v ∈ ["kube-mcp".toList, "vm-mcp".toList, "mcp-servers".toList,
      "prod".toList], Scalar v := by
    intro v hv
    simp only [List.mem_cons, List.not_mem_nil, or_false] at hv
    rcases hv with rfl | rfl | rfl | rfl <;>
      exact ⟨⟨_, rfl, rfl⟩, fun _ hc => by cases hc; rfl, by decide, by decide⟩
  intro t ht e he
  refine hscalar e.2 ?_
  revert t e
  decide

theorem config_read_back_two :
    load_config asciiRuntime (config_yaml [kube_mcp, vm_mcp]) =
        some (.arr [kube_mcp.json, vm_mcp.json]) ∧
      load_config asciiRuntime (config_yaml [kube_mcp, vm_mcp]) =
        load_config asciiRuntime (config_json [kube_mcp, vm_mcp]) :=
  config_read_back asciiRuntime [kube_mcp, vm_mcp] two_scalars

/-! ## The commands -/

/-- A command that ended. -/
structure Ran where
  returncode : Int
  stdout : Str
deriving DecidableEq

structure Kubectl where
  /-- whether it is in the path -/
  found : Bool
  /-- what a command gives, none where it takes too long or cannot be started -/
  run : List Str → Option Ran

/-- How the script ends before its time. -/
inductive Stop where
  | exit (code : ℕ)
  | raised
deriving DecidableEq

section Run
variable (py : Runtime) (kubectl : Kubectl)

def base_cmd (serviceaccount sa_ns context : Json) : List Str :=
  ["kubectl".toList, "auth".toList, "can-i".toList, "--list".toList,
    "--as=system:serviceaccount:".toList ++ PyRepr.str py sa_ns ++
      ':' :: PyRepr.str py serviceaccount] ++
    (if context.truthy then ["--context=".toList ++ PyRepr.str py context] else [])

def JSON_OUTPUT : List Str := ["-o".toList, "json".toList]

def is_object (r : Ran) : Bool := r.returncode = 0 && startswith (strip r.stdout) ['\x7b']

def read_table (cmd : List Str) : Except Stop (List RBACRule) :=
  match kubectl.run cmd with
  | none => .error .raised
  | some r =>
    if r.returncode = 0 then .ok (parse_table_output py r.stdout) else .error (.exit 2)

/-- A review whose fields are no lists of texts counts as one that raises. -/
def run_kubectl_can_i (cmd : List Str) : Except Stop (List RBACRule) :=
  if !kubectl.found then .error (.exit 2)
  else
    match kubectl.run (cmd ++ JSON_OUTPUT) with
    | none => .error .raised
    | some r =>
      if is_object r then
        match loads py r.stdout with
        | .error _ => read_table py kubectl cmd
        | .ok _ =>
          match parse_json_output py r.stdout with
          | some rules => .ok rules
          | none => .error .raised
      else read_table py kubectl cmd

structure Args where
  serviceaccount : Str
  sa_ns : Str
  context : Str
  config : Str

/-- `args.context or target.get("context")` -/
def context_of (args : Args) (target : List (Str × Json)) : Json :=
  if args.context.isEmpty then (Json.get target "context".toList).getD .null
  else .str args.context

/-- One turn of the loop, with whether the account passes. -/
def audit_target (args : Args) : Json → Except Stop Bool
  | .obj target =>
    match Json.get target "name".toList, Json.get target "namespace".toList with
    | some sa_name, some sa_ns =>
      (run_kubectl_can_i py kubectl (base_cmd py sa_name sa_ns (context_of args target))).map
        (fun rules => (audit_rules py rules).isEmpty)
    | _, _ => .error .raised
  | _ => .error .raised

/-- `all_pass` -/
def audit_targets (args : Args) : List Json → Except Stop Bool
  | [] => .ok true
  | target :: targets =>
    match audit_target py kubectl args target with
    | .error stop => .error stop
    | .ok pass => (audit_targets args targets).map (pass && ·)

/-- The accounts to audit; `file` gives what a file holds, and an option that is not
given is empty. -/
def targets_of (file : Str → Option Str) (args : Args) : Except Stop Json :=
  if !args.config.isEmpty then
    match file args.config with
    | none => .error (.exit 2)
    | some content =>
      match load_config py content with
      | none => .error .raised
      | some targets => if targets.truthy then .ok targets else .error (.exit 2)
  else if !args.serviceaccount.isEmpty && !args.sa_ns.isEmpty then
    .ok (.arr [.obj [("name".toList, .str args.serviceaccount),
      ("namespace".toList, .str args.sa_ns)]])
  else .error (.exit 2)

def main (file : Str → Option Str) (args : Args) : Stop :=
  match targets_of py file args with
  | .error stop => stop
  | .ok targets =>
    match elements targets with
    | none => .raised
    | some targets =>
      match audit_targets py kubectl args targets with
      | .error stop => stop
      | .ok all_pass => .exit (if all_pass then 0 else 1)

/-! ## The verdict -/

variable (w : Widths)

/-- How kubectl lists the rules of an account: in JSON or as a table, where it does. -/
structure Lists (cmd : List Str) (rules : List ResourceRule) : Prop where
  json : ∃ r, kubectl.run (cmd ++ JSON_OUTPUT) = some r ∧
    (is_object r = true → JsonRendering py rules r.stdout)
  table : ∃ r, kubectl.run cmd = some r ∧ (r.returncode = 0 → r.stdout = table w rules)

/-- The rules are listed in one format at least. -/
def Answered (cmd : List Str) : Prop :=
  kubectl.found = true ∧
    ((∃ r, kubectl.run (cmd ++ JSON_OUTPUT) = some r ∧ is_object r = true) ∨
      ∃ r, kubectl.run cmd = some r ∧ r.returncode = 0)

def ReadOnlyRules (rules : List ResourceRule) : Prop := ∀ rule ∈ rules, ¬ Mutates py rule

variable {py kubectl w}

theorem json_passes_iff (rules : List ResourceRule) :
    audit_rules py (rules.map read_rule) = [] ↔ ReadOnlyRules py rules := by
  rw [← not_iff_not, ← ne_eq, json_fails_iff]
  simp [ReadOnlyRules]

theorem table_passes_iff (rules : List ResourceRule) (hplain : ∀ rule ∈ rules, Plain rule) :
    audit_rules py (parse_table_output py (table w rules)) = [] ↔ ReadOnlyRules py rules := by
  rw [← not_iff_not, ← ne_eq, table_fails_iff]
  simp only [ReadOnlyRules, not_forall, not_not, exists_prop]
  exact exists_congr fun rule => and_congr_right fun hrule => plain_shown (hplain rule hrule)

/-- What comes back for an account, whichever format kubectl knows. -/
theorem run_kubectl_cases (cmd : List Str) (rules : List ResourceRule)
    (hplain : ∀ rule ∈ rules, Plain rule) (h : Lists py kubectl w cmd rules) :
    (¬ Answered kubectl cmd ∧ run_kubectl_can_i py kubectl cmd = .error (.exit 2)) ∨
      (Answered kubectl cmd ∧ ∃ read, run_kubectl_can_i py kubectl cmd = .ok read ∧
        (audit_rules py read = [] ↔ ReadOnlyRules py rules)) := by
  obtain ⟨r, hjson, hrendering⟩ := h.json
  obtain ⟨t, htable, hrows⟩ := h.table
  cases hfound : kubectl.found with
  | false =>
    refine .inl ⟨fun hanswered => ?_, by rw [run_kubectl_can_i, hfound]; rfl⟩
    rw [hanswered.1] at hfound
    cases hfound
  | true =>
    rw [run_kubectl_can_i, hfound, hjson]
    dsimp only [Bool.not_true, Bool.false_eq_true, if_false]
    by_cases hobject : is_object r = true
    · have hread := parse_json_rendering (hrendering hobject)
      obtain ⟨review, hloads, _⟩ := hrendering hobject
      rw [if_pos hobject, hloads]
      dsimp only
      rw [hread]
      exact .inr ⟨⟨hfound, .inl ⟨r, hjson, hobject⟩⟩, _, rfl, json_passes_iff rules⟩
    · rw [if_neg hobject, read_table, htable]
      dsimp only
      by_cases hzero : t.returncode = 0
      · rw [if_pos hzero, hrows hzero]
        exact .inr ⟨⟨hfound, .inr ⟨t, htable, hzero⟩⟩, _, rfl, table_passes_iff rules hplain⟩
      · rw [if_neg hzero]
        refine .inl ⟨?_, rfl⟩
        rintro ⟨_, ⟨r', hr', hobject'⟩ | ⟨t', ht', hzero'⟩⟩
        · rw [hjson, Option.some.injEq] at hr'
          exact hobject (hr' ▸ hobject')
        · rw [htable, Option.some.injEq] at ht'
          exact hzero (ht' ▸ hzero')

variable (py) in
def Target.cmd (t : Target) (args : Args) : List Str :=
  base_cmd py (.str t.sa_name) (.str t.sa_ns) (context_of args t.pairs)

theorem target_members (t : Target) :
    Json.get t.pairs "name".toList = some (.str t.sa_name) ∧
      Json.get t.pairs "namespace".toList = some (.str t.sa_ns) :=
  have hne : "name".toList ≠ "namespace".toList := by decide
  ⟨get_cons_same _ _ _, (get_cons_other hne _ _).trans (get_cons_same _ _ _)⟩

theorem audit_target_json (args : Args) (t : Target) :
    audit_target py kubectl args t.json =
      (run_kubectl_can_i py kubectl (t.cmd py args)).map
        (fun rules => (audit_rules py rules).isEmpty) := by
  obtain ⟨hname, hnamespace⟩ := target_members t
  rw [show t.json = .obj t.pairs from rfl, audit_target, hname, hnamespace]
  rfl

/-- The loop over the accounts: the first one without an answer ends it. -/
theorem audit_targets_cases (args : Args) (rules : Target → List ResourceRule) (ts : List Target)
    (hplain : ∀ t ∈ ts, ∀ rule ∈ rules t, Plain rule)
    (h : ∀ t ∈ ts, Lists py kubectl w (t.cmd py args) (rules t)) :
    ((∃ t ∈ ts, ¬ Answered kubectl (t.cmd py args)) ∧
        audit_targets py kubectl args (ts.map Target.json) = .error (.exit 2)) ∨
      ((∀ t ∈ ts, Answered kubectl (t.cmd py args)) ∧
        ∃ pass, audit_targets py kubectl args (ts.map Target.json) = .ok pass ∧
          (pass = true ↔ ∀ t ∈ ts, ReadOnlyRules py (rules t))) := by
  induction ts with
  | nil => exact .inr ⟨by simp, true, rfl, by simp⟩
  | cons t ts ih =>
    rw [List.map_cons, audit_targets, audit_target_json]
    rcases run_kubectl_cases (t.cmd py args) (rules t) (hplain t List.mem_cons_self)
      (h t List.mem_cons_self) with ⟨hsilent, hrun⟩ | ⟨hanswered, read, hrun, hpasses⟩
    · rw [hrun]
      exact .inl ⟨⟨t, List.mem_cons_self, hsilent⟩, rfl⟩
    · rw [hrun]
      dsimp only [Except.map]
      rcases ih (fun u hu => hplain u (List.mem_cons_of_mem t hu))
        (fun u hu => h u (List.mem_cons_of_mem t hu)) with
        ⟨⟨u, hu, hsilent⟩, hrest⟩ | ⟨hall, pass, hrest, hpass⟩
      · rw [hrest]
        exact .inl ⟨⟨u, List.mem_cons_of_mem t hu, hsilent⟩, rfl⟩
      · rw [hrest]
        refine .inr ⟨List.forall_mem_cons.mpr ⟨hanswered, hall⟩, _, rfl, ?_⟩
        rw [Bool.and_eq_true, List.isEmpty_iff, hpasses, hpass, List.forall_mem_cons]

/-- How the accounts are given: by a file in either format, or one by options. -/
inductive Given (py : Runtime) (file : Str → Option Str) (args : Args) : List Target → Prop
  | yaml (ts : List Target) (hts : ∀ t ∈ ts, t.Scalars) (hpath : args.config ≠ [])
      (hfile : file args.config = some (config_yaml ts)) : Given py file args ts
  | json (ts : List Target) (hpath : args.config ≠ [])
      (hfile : file args.config = some (config_json ts)) : Given py file args ts
  | options (hpath : args.config = []) (hname : args.serviceaccount ≠ [])
      (hnamespace : args.sa_ns ≠ []) :
      Given py file args [⟨args.serviceaccount, args.sa_ns, none⟩]

theorem given_targets {file : Str → Option Str} {args : Args} {ts : List Target} (hne : ts ≠ [])
    (h : Given py file args ts) :
    targets_of py file args = .ok (.arr (ts.map Target.json)) := by
  have htruthy : (Json.arr (ts.map Target.json)).truthy = true := by
    obtain ⟨t, rest, rfl⟩ := List.exists_cons_of_ne_nil hne
    rfl
  have hgiven : ∀ s : Str, s ≠ [] → (!s.isEmpty) = true := by
    intro s hs
    simpa [List.isEmpty_iff] using hs
  cases h with
  | yaml _ hts hpath hfile =>
    rw [targets_of, if_pos (hgiven _ hpath), hfile]
    dsimp only
    rw [load_config_yaml py ts hts]
    dsimp only
    rw [if_pos htruthy]
  | json _ hpath hfile =>
    rw [targets_of, if_pos (hgiven _ hpath), hfile]
    dsimp only
    rw [load_config_json]
    dsimp only
    rw [if_pos htruthy]
  | options hpath hname hnamespace =>
    rw [targets_of, if_neg (by simp [hpath]),
      if_pos (by rw [hgiven _ hname, hgiven _ hnamespace]; rfl)]
    rfl

variable (py kubectl w)

end Run

def from_file : Args := ⟨[], [], [], "mcp-servers.yaml".toList⟩

def pod_reader : ResourceRule where
  verbs := ["get".toList, "list".toList]
  apiGroups := ["".toList]
  resources := ["pods".toList]
  resourceNames := []

/-- The rules of the first account come in JSON, those of the second as a table. -/
def cluster : Kubectl where
  found := true
  run := fun cmd =>
    if cmd = kube_mcp.cmd asciiRuntime from_file ++ JSON_OUTPUT then
      some ⟨0, dumps false (.obj (review_json [pod_reader]))⟩
    else if cmd = vm_mcp.cmd asciiRuntime from_file then some ⟨0, table fitted [scaler]⟩
    else some ⟨1, []⟩

def cluster_rules (t : Target) : List ResourceRule :=
  if t.sa_name = kube_mcp.sa_name then [pod_reader] else [scaler]

theorem cluster_plain : ∀ t ∈ [kube_mcp, vm_mcp], ∀ rule ∈ cluster_rules t, Plain rule := by
  have hpods : Plain pod_reader :=
    ⟨by decide, fun r hr => ⟨'p', by cases List.mem_singleton.mp hr; exact ⟨rfl, by decide⟩⟩,
      by decide, by decide⟩
  have hscaler : Plain scaler :=
    ⟨by decide, fun r hr => ⟨'d', by cases List.mem_singleton.mp hr; exact ⟨rfl, by decide⟩⟩,
      by decide, by decide⟩
  intro t _ rule hrule
  unfold cluster_rules at hrule
  split at hrule
  · exact List.mem_singleton.mp hrule ▸ hpods
  · exact List.mem_singleton.mp hrule ▸ hscaler

theorem cluster_json :
    cluster.run (kube_mcp.cmd asciiRuntime from_file ++ JSON_OUTPUT) =
      some ⟨0, dumps false (.obj (review_json [pod_reader]))⟩ := by
  unfold cluster
  dsimp only
  rw [if_pos rfl]

theorem cluster_lists : ∀ t ∈ [kube_mcp, vm_mcp],
    Lists asciiRuntime cluster fitted (t.cmd asciiRuntime from_file) (cluster_rules t) := by
  intro t ht
  simp only [List.mem_cons, List.not_mem_nil, or_false] at ht
  rcases ht with rfl | rfl
  · refine ⟨⟨_, cluster_json, fun _ => review_rendering asciiRuntime [pod_reader]⟩, ⟨1, []⟩, ?_, ?_⟩
    · decide +kernel
    · exact fun h => absurd h (by decide)
  · refine ⟨⟨⟨1, []⟩, by decide +kernel, fun h => absurd h (by decide)⟩,
      ⟨0, table fitted [scaler]⟩, by decide +kernel, fun _ => rfl⟩

end AigentSquad.AuditRun

import AigentSquad.Dict
import AigentSquad.PyText

/-!
# Who the gateway lets in

`require_edge_auth` and the credential map it reads. A pair of the map is split
at its first equals sign, so a key that holds one is cut there, and what stands
before it is a credential of its own.
-/

set_option autoImplicit false

namespace AigentSquad.EdgeAuth
open AigentSquad.PyText AigentSquad.Dict

/-- One pair of the map, when it has a key and an agent. -/
def parse_pair (pair : Str) : Option (Str × Str) :=
  let pair := strip pair
  if '=' ∈ pair then
    let k := strip (pair.takeWhile (fun c => c ≠ '='))
    let v := strip ((pair.dropWhile (fun c => c ≠ '=')).drop 1)
    if k.isEmpty || v.isEmpty then none else some (k, v)
  else none

/-- `_parse_key_agent_map` of the text of `GATEWAY_KEY_AGENT_MAP` -/
def parse_key_agent_map (raw : Str) : Entries Str Str :=
  update [] ((raw.splitOn ',').filterMap parse_pair)

structure AuthResult where
  consumer_default_agent : Option Str
deriving DecidableEq

/-- The variables that hold credentials, empty when unset. -/
structure Environ where
  INTERNAL_API_TOKEN : Str
  GATEWAY_API_KEYS : Str
  GATEWAY_KEY_AGENT_MAP : Str

def Environ.api_keys (env : Environ) : List Str :=
  ((env.GATEWAY_API_KEYS.splitOn ',').map strip).filter (fun k => !k.isEmpty)

def extract_bearer (py : Runtime) (authorization : Str) : Str :=
  let stripped := strip authorization
  if startswith (lower py stripped) "bearer ".toList then strip (stripped.drop 7) else []

def resolve_default_agent (env : Environ) (matched_key : Str) : Option Str :=
  get (parse_key_agent_map env.GATEWAY_KEY_AGENT_MAP) matched_key

/-- A key of the allowlist or of the map. -/
def accept_key (env : Environ) (key : Str) : Option AuthResult :=
  if key ∈ env.api_keys then some ⟨resolve_default_agent env key⟩
  else (resolve_default_agent env key).map (fun agent => ⟨some agent⟩)

def isToken (env : Environ) (credential : Str) : Bool :=
  !env.INTERNAL_API_TOKEN.isEmpty && credential = env.INTERNAL_API_TOKEN

structure Headers where
  x_internal_token : Str
  x_api_key : Option Str
  authorization : Str

def accept_api_key (env : Environ) (x_api_key : Option Str) : Option AuthResult :=
  match x_api_key with
  | none => none
  | some key => if key.isEmpty then none else accept_key env key

def accept_bearer (env : Environ) (bearer : Str) : Option AuthResult :=
  if bearer.isEmpty then none
  else if isToken env bearer then some ⟨none⟩
  else accept_key env bearer

/-- `none` is the 401. -/
def require_edge_auth (py : Runtime) (env : Environ) (h : Headers) : Option AuthResult :=
  if isToken env h.x_internal_token then some ⟨none⟩
  else (accept_api_key env h.x_api_key).or (accept_bearer env (extract_bearer py h.authorization))

/-! ## The map that is read -/

/-- What a pair of a map that is read looks like. -/
structure Clean (e : Str × Str) : Prop where
  key : e.1 ≠ []
  whole_key : '=' ∉ e.1
  agent : e.2 ≠ []
  bare_agent : strip e.2 = e.2

theorem parse_pair_clean (pair : Str) (e : Str × Str) (h : parse_pair pair = some e) : Clean e := by
  unfold parse_pair at h
  extract_lets pair k v at h
  split at h
  · split at h
    · cases h
    · next hempty =>
      cases h
      simp only [Bool.or_eq_true, List.isEmpty_iff, not_or] at hempty
      refine ⟨hempty.1, fun hmem => ?_, hempty.2, strip_strip _⟩
      have hkey := List.all_takeWhile (p := fun c => decide (c ≠ '=')) (l := pair)
      rw [List.all_eq_true] at hkey
      exact absurd rfl (of_decide_eq_true (hkey '=' (mem_of_mem_strip _ _ hmem)))
  · cases h

theorem mem_put (d : Entries Str Str) (k v : Str) (e : Str × Str) (h : e ∈ put d k v) :
    e = (k, v) ∨ e ∈ d := by
  unfold put at h
  split at h
  · obtain ⟨f, hf, rfl⟩ := List.mem_map.mp h
    split
    · exact .inl rfl
    · exact .inr hf
  · rcases List.mem_append.mp h with h | h
    · exact .inr h
    · exact .inl (List.mem_singleton.mp h)

theorem mem_update (d e : Entries Str Str) (x : Str × Str) (h : x ∈ update d e) :
    x ∈ d ∨ x ∈ e := by
  induction e generalizing d with
  | nil => exact .inl h
  | cons kv e ih =>
    rcases ih (put d kv.1 kv.2) h with h | h
    · rcases mem_put d kv.1 kv.2 x h with rfl | h
      · exact .inr List.mem_cons_self
      · exact .inl h
    · exact .inr (List.mem_cons_of_mem _ h)

theorem parse_clean (raw : Str) : ∀ e ∈ parse_key_agent_map raw, Clean e := by
  intro e he
  rcases mem_update _ _ e he with h | h
  · cases h
  · obtain ⟨pair, _, hpair⟩ := List.mem_filterMap.mp h
    exact parse_pair_clean pair e hpair

theorem update_distinct (d e : Entries Str Str) (h : ((d ++ e).map Prod.fst).Nodup) :
    update d e = d ++ e := by
  induction e generalizing d with
  | nil => simp [update]
  | cons kv e ih =>
    have hnew : has d kv.1 = false := by
      rw [List.map_append, List.map_cons] at h
      have hnot := (List.nodup_middle.mp h)
      simp only [List.nodup_cons, List.mem_append, not_or] at hnot
      rw [has, List.any_eq_false]
      intro f hf heq
      exact hnot.1.1 (of_decide_eq_true heq ▸ List.mem_map_of_mem hf)
    have hput : put d kv.1 kv.2 = d ++ [kv] := by
      simp [put, hnew]
    rw [update, List.foldl_cons, hput]
    have hrest := ih (d ++ [kv]) (by simpa using h)
    rwa [List.append_assoc] at hrest

/-! ## The map that was meant -/

def pair_text (e : Str × Str) : Str := e.1 ++ '=' :: e.2

/-- The value of the variable for an assignment. -/
def map_text (assignment : Entries Str Str) : Str := join [','] (assignment.map pair_text)

/-- An assignment of agent names to keys. -/
structure Assignment (m : Entries Str Str) : Prop where
  distinct : (m.map Prod.fst).Nodup
  keys : ∀ e ∈ m, ',' ∉ e.1 ∧ strip e.1 = e.1
  agents : ∀ e ∈ m, '=' ∉ e.2 ∧ ',' ∉ e.2

theorem split_map_text (m : Entries Str Str) (h : Assignment m) (hne : m ≠ []) :
    (map_text m).splitOn ',' = m.map pair_text := by
  rw [map_text, join_eq_intercalate]
  refine List.splitOn_intercalate ',' ?_ (by simpa using hne)
  intro l hl
  obtain ⟨e, he, rfl⟩ := List.mem_map.mp hl
  simp [pair_text, (h.keys e he).1, (h.agents e he).2]

theorem parse_pair_text (e : Str × Str) (hkey : strip e.1 = e.1) (h : Clean e) :
    parse_pair (pair_text e) = some e := by
  obtain ⟨k, v⟩ := e
  have hfirst := ((strip_eq_self_iff k).mp hkey).1
  have hlast := ((strip_eq_self_iff v).mp h.bare_agent).2
  have hstrip : strip (pair_text (k, v)) = pair_text (k, v) := by
    rw [strip_eq_self_iff]
    constructor
    · intro c hc
      obtain ⟨d, ds, rfl⟩ := List.exists_cons_of_ne_nil h.key
      exact hfirst c hc
    · intro c hc
      have hv : v ≠ [] := h.agent
      rw [pair_text, List.getLast?_append, List.getLast?_cons_of_ne_nil hv] at hc
      rw [List.getLast?_eq_some_getLast hv, Option.some_or] at hc
      exact hlast c (by rwa [List.getLast?_eq_some_getLast hv])
  have hall : ∀ c ∈ k, decide (c ≠ '=') = true := by
    intro c hc
    exact decide_eq_true (fun heq => h.whole_key (heq ▸ hc))
  have htake : (pair_text (k, v)).takeWhile (fun c => c ≠ '=') = k := by
    rw [pair_text, List.takeWhile_append_of_pos hall]
    simp
  have hdrop : (pair_text (k, v)).dropWhile (fun c => c ≠ '=') = '=' :: v := by
    rw [pair_text, List.dropWhile_append_of_pos hall]
    simp
  have hmem : '=' ∈ pair_text (k, v) := by simp [pair_text]
  have hk : k ≠ [] := h.key
  have hv : v ≠ [] := h.agent
  have hbare : strip v = v := h.bare_agent
  simp only [parse_pair, hstrip, hmem, if_true, htake, hdrop, List.drop_one, List.tail_cons, hkey,
    hbare]
  simp [hk, hv]

theorem parse_map_text (m : Entries Str Str) (h : Assignment m) (hclean : ∀ e ∈ m, Clean e) :
    parse_key_agent_map (map_text m) = m := by
  by_cases hne : m = []
  · subst hne
    rfl
  · have hpairs : (m.map pair_text).filterMap parse_pair = m := by
      rw [List.filterMap_map]
      have hsome : ∀ e ∈ m, (parse_pair ∘ pair_text) e = some e := fun e he =>
        parse_pair_text e (h.keys e he).2 (hclean e he)
      rw [List.filterMap_congr hsome, List.filterMap_some]
    rw [parse_key_agent_map, split_map_text m h hne, hpairs,
      update_distinct [] m (by simpa using h.distinct), List.nil_append]

theorem parse_map_text_iff (m : Entries Str Str) (h : Assignment m) :
    parse_key_agent_map (map_text m) = m ↔ ∀ e ∈ m, Clean e :=
  ⟨fun heq => heq ▸ parse_clean (map_text m), parse_map_text m h⟩

/-! ## What is accepted -/

/-- The token, an API key or a key of the map. -/
def Configured (env : Environ) (m : Entries Str Str) (credential : Str) : Prop :=
  isToken env credential = true ∨ credential ∈ env.api_keys ∨ credential ∈ m.map Prod.fst

/-- A header presents a credential that is configured for it. -/
inductive LetIn (py : Runtime) (env : Environ) (m : Entries Str Str) (h : Headers) : Prop
  | internal_token (htoken : isToken env h.x_internal_token = true)
  | api_key (key : Str) (hkey : h.x_api_key = some key)
      (hmem : key ∈ env.api_keys ∨ key ∈ m.map Prod.fst)
  | bearer (hbearer : Configured env m (extract_bearer py h.authorization))

theorem resolve_isSome (env : Environ) (key : Str) :
    (resolve_default_agent env key).isSome = true ↔
      key ∈ (parse_key_agent_map env.GATEWAY_KEY_AGENT_MAP).map Prod.fst := by
  rw [Option.isSome_iff_exists, resolve_default_agent, ← has_iff_get, has, List.any_eq_true]
  simp

theorem accept_key_isSome (env : Environ) (key : Str) :
    (accept_key env key).isSome = true ↔
      key ∈ env.api_keys ∨ key ∈ (parse_key_agent_map env.GATEWAY_KEY_AGENT_MAP).map Prod.fst := by
  rw [← resolve_isSome, accept_key]
  by_cases hkey : key ∈ env.api_keys
  · simp [hkey]
  · simp [hkey]

theorem accepted_ne_nil (env : Environ) (key : Str)
    (h : key ∈ env.api_keys ∨ key ∈ (parse_key_agent_map env.GATEWAY_KEY_AGENT_MAP).map Prod.fst) :
    key ≠ [] := by
  rcases h with h | h
  · have hkey := (List.mem_filter.mp h).2
    simpa using hkey
  · obtain ⟨e, he, rfl⟩ := List.mem_map.mp h
    exact (parse_clean _ e he).key

theorem accept_api_key_isSome (env : Environ) (x_api_key : Option Str) :
    (accept_api_key env x_api_key).isSome = true ↔ ∃ key, x_api_key = some key ∧
      (key ∈ env.api_keys ∨
        key ∈ (parse_key_agent_map env.GATEWAY_KEY_AGENT_MAP).map Prod.fst) := by
  cases x_api_key with
  | none => simp [accept_api_key]
  | some key =>
    simp only [accept_api_key, Option.some.injEq, exists_eq_left', ← accept_key_isSome]
    by_cases hkey : key = []
    · have hnot : ¬ (accept_key env key).isSome = true := fun h =>
        accepted_ne_nil env key ((accept_key_isSome env key).mp h) hkey
      simp [hkey, hkey ▸ hnot]
    · simp [hkey]

theorem accept_bearer_isSome (env : Environ) (bearer : Str) :
    (accept_bearer env bearer).isSome = true ↔
      Configured env (parse_key_agent_map env.GATEWAY_KEY_AGENT_MAP) bearer := by
  rw [accept_bearer, Configured, ← accept_key_isSome]
  by_cases hempty : bearer = []
  · have htoken : isToken env [] = false := by
      cases h : env.INTERNAL_API_TOKEN <;> simp [isToken, h]
    have hnot : ¬ (accept_key env []).isSome = true := fun h =>
      accepted_ne_nil env [] ((accept_key_isSome env []).mp h) rfl
    simp [hempty, htoken, hnot]
  · cases htoken : isToken env bearer <;> simp [hempty]

/-- A request is let in exactly by a credential of the environment. -/
theorem let_in_iff (py : Runtime) (env : Environ) (h : Headers) :
    (require_edge_auth py env h).isSome = true ↔
      LetIn py env (parse_key_agent_map env.GATEWAY_KEY_AGENT_MAP) h := by
  unfold require_edge_auth
  cases htoken : isToken env h.x_internal_token with
  | true =>
    rw [if_pos rfl]
    exact iff_of_true rfl (.internal_token htoken)
  | false =>
    rw [if_neg (by simp), Option.isSome_or, Bool.or_eq_true, accept_api_key_isSome,
      accept_bearer_isSome]
    constructor
    · rintro (⟨key, hkey, hmem⟩ | hbearer)
      · exact .api_key key hkey hmem
      · exact .bearer hbearer
    · rintro (hinternal | ⟨key, hkey, hmem⟩ | hbearer)
      · rw [htoken] at hinternal
        cases hinternal
      · exact .inl ⟨key, hkey, hmem⟩
      · exact .inr hbearer

/-- The map is read as it was meant and lets nobody else in, exactly when its
keys and agents are such that a pair can be split at its first equals sign. -/
theorem credential_map_iff (py : Runtime) (token api_keys : Str) (m : Entries Str Str)
    (hm : Assignment m) :
    (parse_key_agent_map (map_text m) = m ∧
        ∀ h, (require_edge_auth py ⟨token, api_keys, map_text m⟩ h).isSome = true →
          LetIn py ⟨token, api_keys, map_text m⟩ m h) ↔
      ∀ e ∈ m, Clean e := by
  rw [← parse_map_text_iff m hm]
  refine and_iff_left_of_imp (fun hparse h haccepted => ?_)
  have hlet := (let_in_iff py ⟨token, api_keys, map_text m⟩ h).mp haccepted
  rwa [hparse] at hlet

def twoTeams : Entries Str Str :=
  [("k1".toList, "finops".toList), ("k2".toList, "kubernetes".toList)]

theorem two_teams_read_back :
    parse_key_agent_map (map_text twoTeams) = twoTeams ∧
      ∀ h, (require_edge_auth asciiRuntime ⟨"t".toList, [], map_text twoTeams⟩ h).isSome = true →
        LetIn asciiRuntime ⟨"t".toList, [], map_text twoTeams⟩ twoTeams h :=
  (credential_map_iff asciiRuntime "t".toList [] twoTeams
    ⟨by decide, by decide, by decide⟩).mpr
    (List.forall_mem_cons.mpr ⟨⟨by decide, by decide, by decide, by decide⟩,
      List.forall_mem_cons.mpr ⟨⟨by decide, by decide, by decide, by decide⟩,
        List.forall_mem_nil _⟩⟩)

def paddedKey : Entries Str Str := [("c2VjcmV0=".toList, "finops".toList)]

/-- The key is cut at its padding, and what is left of it lets a request in. -/
theorem padded_key_is_cut :
    Assignment paddedKey ∧
      (require_edge_auth asciiRuntime ⟨[], [], map_text paddedKey⟩
        ⟨[], some "c2VjcmV0".toList, []⟩).isSome = true ∧
      ¬ (parse_key_agent_map (map_text paddedKey) = paddedKey ∧
        ∀ h, (require_edge_auth asciiRuntime ⟨[], [], map_text paddedKey⟩ h).isSome = true →
          LetIn asciiRuntime ⟨[], [], map_text paddedKey⟩ paddedKey h) := by
  refine ⟨⟨by decide, by decide, by decide⟩, by decide, ?_⟩
  rintro ⟨hparse, -⟩
  exact absurd hparse (by decide)

end AigentSquad.EdgeAuth

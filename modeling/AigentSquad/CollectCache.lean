import Mathlib.Data.List.Sort
import AigentSquad.Dict
import AigentSquad.ExpiringStore
import AigentSquad.JsonRoundTrip
import AigentSquad.PyRepr
import AigentSquad.RemoteStore
import AigentSquad.Sha256
import AigentSquad.Transition

/-!
# The collection cache

`DatasourceAdapter.collect` over Redis, its calls overlapping where each awaits its
`_collect`. A cached text goes to every adapter whose identity and query give the
same key, so the cache is transparent as far as the identities tell apart the
adapters that collect differently.
-/

set_option autoImplicit false

namespace AigentSquad.CollectCache
open AigentSquad.PyText AigentSquad.PyJson AigentSquad.Dict AigentSquad.Transition
open AigentSquad.RemoteStore (Reply)
open AigentSquad.ExpiringStore (Store write)

/-- An adapter of each kind, with all that its `_collect` reads. -/
inductive Config where
  | boto3 (services : List Str)
  | kubernetes
  | http (name url : Str) (headers : Entries Str Str)
  | athena (database table workgroup : Str)
  | mcp (name url : Str) (tools : List Str) (headers tool_arguments : Entries Str Str)
      (inject_query_as transport : Str)

structure Adapter where
  config : Config
  cache_ttl : Int
  cache_namespace : Str

/-- `<=` of texts -/
def textLe : Str → Str → Bool
  | [], _ => true
  | _ :: _, [] => false
  | c :: cs, d :: ds => decide (c.toNat < d.toNat) || (c = d && textLe cs ds)

def sorted (xs : List Str) : List Str := xs.insertionSort (fun a b => textLe a b = true)

/-- `_cache_id` -/
def cache_id : Config → Str
  | .boto3 services => "boto3:".toList ++ join [','] (sorted services)
  | .kubernetes => "KubernetesAdapter".toList
  | .http name url _ => "http:".toList ++ (name ++ ':' :: url)
  | .athena database table _ => "athena:".toList ++ (database ++ '.' :: table)
  | .mcp _ url tools _ _ _ _ => "mcp:".toList ++ (url ++ ':' :: join [','] (sorted tools))

/-- The text that is hashed. -/
def cache_text (config : Config) (query : Str) : Str := cache_id config ++ '|' :: query

def cache_key (config : Config) (query : Str) : Str := Sha256.hexdigest (cache_text config query)

def full_key (cache_namespace key : Str) : Str := cache_namespace ++ ':' :: key

/-- A text and what it was collected or asked for. -/
structure Record where
  config : Config
  query : Str
  text : Str

structure State where
  now : ℚ
  redis : Store Str Str ℚ
  /-- the calls that wait for their `_collect` -/
  waiting : List (Adapter × Str)
  /-- the runs of `_collect`, the last one first -/
  collected : List Record
  /-- the answers of `collect`, the last one first -/
  served : List Record

def start (now : ℚ) : State := ⟨now, fun _ => none, [], [], []⟩

/-- `cache.get`, fail-open -/
def cache_get (py : Runtime) (s : State) (k : Str) (reply : Reply) : Option Json :=
  if reply = .ok then (ExpiringStore.get s.redis s.now k).bind (fun v => (loads py v).toOption)
  else none

def cache_set (s : State) (k text : Str) (ttl : Int) (reply : Reply) : Store Str Str ℚ :=
  if reply.applied then write s.redis k (dumps true (.str text)) (s.now + ttl) else s.redis

/-- A cached value, unless there is none or it is `None`. -/
def hit (py : Runtime) (s : State) (a : Adapter) (query : Str) (reply : Reply) : Option Str :=
  match cache_get py s (full_key a.cache_namespace (cache_key a.config query)) reply with
  | none => none
  | some .null => none
  | some v => some (PyRepr.str py v)

/-- `collect` as far as the `await` of its `_collect` -/
def collect_called (py : Runtime) (s : State) (a : Adapter) (query : Str) (read : Reply) : State :=
  if a.cache_ttl ≤ 0 then { s with waiting := (a, query) :: s.waiting }
  else
    match hit py s a query read with
    | some cached => { s with served := ⟨a.config, query, cached⟩ :: s.served }
    | none => { s with waiting := (a, query) :: s.waiting }

/-- The rest of `collect`, with what `_collect` gives. -/
def collect_resumed (s : State) (a : Adapter) (query text : Str) (wrote : Reply) : State :=
  let fresh := Record.mk a.config query text
  { s with
    redis :=
      if a.cache_ttl ≤ 0 then s.redis
      else cache_set s (full_key a.cache_namespace (cache_key a.config query)) text a.cache_ttl wrote
    collected := fresh :: s.collected
    served := fresh :: s.served }

inductive Label where
  /-- a call of `collect`, and how Redis answers the read -/
  | called (a : Adapter) (query : Str) (read : Reply)
  /-- the `_collect` of a waiting call gives its text; how Redis answers the write -/
  | resumed (i : Nat) (text : Str) (wrote : Reply)
  | evict (key : Str)
  | elapse (d : ℚ≥0)

def step (py : Runtime) (s : State) : Label → Option State
  | .called a query read => some (collect_called py s a query read)
  | .resumed i text wrote => (s.waiting[i]?).map (fun c =>
      { collect_resumed s c.1 c.2 text wrote with waiting := s.waiting.eraseIdx i })
  | .evict key => some { s with redis := Function.update s.redis key none }
  | .elapse d => some { s with now := s.now + d }

/-! ## Transparency -/

/-- Adapters that collect alike: services, tools and mappings count up to order. -/
inductive Alike : Config → Config → Prop
  | boto3 {s t : List Str} (h : s.Perm t) : Alike (.boto3 s) (.boto3 t)
  | kubernetes : Alike .kubernetes .kubernetes
  | http (name url : Str) {h k : Entries Str Str} (hh : h.Perm k) :
      Alike (.http name url h) (.http name url k)
  | athena (database table workgroup : Str) :
      Alike (.athena database table workgroup) (.athena database table workgroup)
  | mcp (name url : Str) {s t : List Str} {h k a b : Entries Str Str}
      (inject_query_as transport : Str) (hs : s.Perm t) (hh : h.Perm k) (ha : a.Perm b) :
      Alike (.mcp name url s h a inject_query_as transport)
        (.mcp name url t k b inject_query_as transport)

theorem Alike.refl (c : Config) : Alike c c := by
  cases c with
  | boto3 services => exact .boto3 (.refl _)
  | kubernetes => exact .kubernetes
  | http name url headers => exact .http name url (.refl _)
  | athena database table workgroup => exact .athena database table workgroup
  | mcp name url tools headers arguments inject transport =>
    exact .mcp name url inject transport (.refl _) (.refl _) (.refl _)

/-- Every answer was collected for its query by an adapter that collects like the one asked. -/
def Transparent (s : State) : Prop :=
  ∀ r ∈ s.served, ∃ c ∈ s.collected, c.query = r.query ∧ c.text = r.text ∧ Alike c.config r.config

/-- The calls that may be made. -/
abbrev Calls := Set (Adapter × Str)

def Label.Among (calls : Calls) : Label → Prop
  | .called a query _ => (a, query) ∈ calls
  | _ => True

/-- Calls with the same hashed text have the same query and adapters that collect alike. -/
def Separated (calls : Calls) : Prop :=
  ∀ c ∈ calls, ∀ d ∈ calls, cache_text c.1.config c.2 = cache_text d.1.config d.2 →
    c.2 = d.2 ∧ Alike c.1.config d.1.config

/-- The calls share a namespace where they are cached, and their digests tell
their texts apart. -/
structure Shared (cache_namespace : Str) (calls : Calls) : Prop where
  within : ∀ c ∈ calls, c.1.cache_namespace = cache_namespace
  cached : ∀ c ∈ calls, 0 < c.1.cache_ttl
  digests : ∀ c ∈ calls, ∀ d ∈ calls, cache_key c.1.config c.2 = cache_key d.1.config d.2 →
    cache_text c.1.config c.2 = cache_text d.1.config d.2

/-- Every entry is a text collected for a call with its key. -/
def Recorded (calls : Calls) (s : State) : Prop :=
  ∀ k e, s.redis k = some e → ∃ c ∈ calls, ∃ text,
    k = full_key c.1.cache_namespace (cache_key c.1.config c.2) ∧
      e.value = dumps true (.str text) ∧ ⟨c.1.config, c.2, text⟩ ∈ s.collected

theorem start_recorded (calls : Calls) (now : ℚ) : Recorded calls (start now) := by
  intro k e h
  cases h

theorem loads_text (py : Runtime) (text : Str) :
    loads py (dumps true (.str text)) = .ok (.str text) :=
  loads_dumps py true (.str text) trivial

/-- A hit is a text collected for a call with the same key. -/
theorem hit_recorded (py : Runtime) (calls : Calls) (s : State) (a : Adapter) (query cached : Str)
    (reply : Reply) (hs : Recorded calls s) (h : hit py s a query reply = some cached) :
    ∃ c ∈ calls, full_key a.cache_namespace (cache_key a.config query) =
        full_key c.1.cache_namespace (cache_key c.1.config c.2) ∧
      ⟨c.1.config, c.2, cached⟩ ∈ s.collected := by
  unfold hit cache_get at h
  by_cases hreply : reply = .ok
  · rw [if_pos hreply] at h
    cases hget : ExpiringStore.get s.redis s.now
        (full_key a.cache_namespace (cache_key a.config query)) with
    | none =>
      rw [hget] at h
      cases h
    | some v =>
      obtain ⟨d, hentry, _⟩ := (ExpiringStore.get_eq_some _ _ _ _).mp hget
      obtain ⟨c, hc, text, hkey, hvalue, hmem⟩ := hs _ _ hentry
      change v = _ at hvalue
      rw [hget, hvalue, Option.bind_some, loads_text] at h
      cases h
      exact ⟨c, hc, hkey, hmem⟩
  · rw [if_neg hreply] at h
    cases h

theorem resumed_recorded (calls : Calls) (s : State) (a : Adapter) (query text : Str)
    (wrote : Reply) (hcall : (a, query) ∈ calls) (hs : Recorded calls s) :
    Recorded calls (collect_resumed s a query text wrote) := by
  have hgrow : ∀ k e, s.redis k = some e → ∃ c ∈ calls, ∃ t,
      k = full_key c.1.cache_namespace (cache_key c.1.config c.2) ∧ e.value = dumps true (.str t) ∧
        ⟨c.1.config, c.2, t⟩ ∈ Record.mk a.config query text :: s.collected := by
    intro k e hk
    obtain ⟨c, hc, t, hkey, hvalue, hmem⟩ := hs k e hk
    exact ⟨c, hc, t, hkey, hvalue, List.mem_cons_of_mem _ hmem⟩
  intro k e hk
  simp only [collect_resumed] at hk
  split at hk
  · exact hgrow k e hk
  · by_cases happlied : wrote.applied = true
    · simp only [cache_set, if_pos happlied] at hk
      by_cases hsame : k = full_key a.cache_namespace (cache_key a.config query)
      · subst hsame
        rw [ExpiringStore.write_same, Option.some.injEq] at hk
        subst hk
        exact ⟨(a, query), hcall, text, rfl, rfl, List.mem_cons_self⟩
      · rw [ExpiringStore.write_other _ _ _ _ _ hsame] at hk
        exact hgrow k e hk
    · simp only [cache_set, if_neg happlied] at hk
      exact hgrow k e hk

/-- What a call does: it waits, or is served a hit. -/
theorem called_cases (py : Runtime) (s : State) (a : Adapter) (query : Str) (read : Reply) :
    collect_called py s a query read = { s with waiting := (a, query) :: s.waiting } ∨
      ∃ cached, hit py s a query read = some cached ∧
        collect_called py s a query read =
          { s with served := ⟨a.config, query, cached⟩ :: s.served } := by
  unfold collect_called
  split
  · exact .inl rfl
  · split
    · next cached hhit => exact .inr ⟨cached, hhit, rfl⟩
    · exact .inl rfl

/-- The entries are recorded, and only calls wait. -/
structure Invariant (calls : Calls) (s : State) : Prop where
  recorded : Recorded calls s
  waiting : ∀ c ∈ s.waiting, c ∈ calls

theorem start_invariant (calls : Calls) (now : ℚ) : Invariant calls (start now) where
  recorded := start_recorded calls now
  waiting := by
    intro c hc
    cases hc

theorem step_invariant (py : Runtime) (calls : Calls) (s : State) (l : Label) (t : State)
    (hstep : step py s l = some t) (hl : l.Among calls) (hs : Invariant calls s) :
    Invariant calls t := by
  cases l with
  | called a query read =>
    cases hstep
    obtain hwaits | ⟨cached, -, hserved⟩ := called_cases py s a query read
    · rw [hwaits]
      exact ⟨hs.recorded, List.forall_mem_cons.mpr ⟨hl, hs.waiting⟩⟩
    · rw [hserved]
      exact ⟨hs.recorded, hs.waiting⟩
  | resumed i text wrote =>
    obtain ⟨c, hc, rfl⟩ := Option.map_eq_some_iff.mp hstep
    have hcall : c ∈ calls := hs.waiting c (List.mem_of_getElem? hc)
    constructor
    · exact resumed_recorded calls s c.1 c.2 text wrote hcall hs.recorded
    · exact fun d hd => hs.waiting d (List.mem_of_mem_eraseIdx hd)
  | evict key =>
    cases hstep
    refine ⟨fun k e hk => ?_, hs.waiting⟩
    by_cases hkey : k = key
    · simp [hkey] at hk
    · exact hs.recorded k e (by simpa [hkey] using hk)
  | elapse d =>
    cases hstep
    exact ⟨hs.recorded, hs.waiting⟩

theorem called_transparent (py : Runtime) (cache_namespace : Str) (calls : Calls) (s : State)
    (a : Adapter) (query : Str) (read : Reply) (hshared : Shared cache_namespace calls)
    (hsep : Separated calls) (hcall : (a, query) ∈ calls) (hrec : Recorded calls s)
    (hs : Transparent s) : Transparent (collect_called py s a query read) := by
  obtain hwaits | ⟨cached, hhit, hserved⟩ := called_cases py s a query read
  · rw [hwaits]
    exact hs
  · rw [hserved]
    intro r hr
    rcases List.mem_cons.mp hr with rfl | hr
    · obtain ⟨c, hc, hkey, hmem⟩ := hit_recorded py calls s a query cached read hrec hhit
      have hdigest : cache_key c.1.config c.2 = cache_key a.config query := by
        rw [hshared.within c hc, hshared.within _ hcall] at hkey
        exact ((List.cons.inj (List.append_cancel_left hkey)).2).symm
      obtain ⟨hquery, hconfig⟩ := hsep c hc _ hcall (hshared.digests c hc _ hcall hdigest)
      exact ⟨_, hmem, hquery, rfl, hconfig⟩
    · exact hs r hr

theorem resumed_transparent (s : State) (a : Adapter) (query text : Str) (wrote : Reply)
    (hs : Transparent s) : Transparent (collect_resumed s a query text wrote) := by
  intro r hr
  rcases List.mem_cons.mp hr with rfl | hr
  · exact ⟨_, List.mem_cons_self, rfl, rfl, Alike.refl _⟩
  · obtain ⟨c, hc, hsame⟩ := hs r hr
    exact ⟨c, List.mem_cons_of_mem _ hc, hsame⟩

theorem step_transparent (py : Runtime) (cache_namespace : Str) (calls : Calls)
    (hshared : Shared cache_namespace calls) (hsep : Separated calls) (s : State) (l : Label)
    (t : State) (hstep : step py s l = some t) (hl : l.Among calls)
    (hs : Invariant calls s ∧ Transparent s) : Invariant calls t ∧ Transparent t := by
  refine ⟨step_invariant py calls s l t hstep hl hs.1, ?_⟩
  cases l with
  | called a query read =>
    cases hstep
    exact called_transparent py cache_namespace calls s a query read hshared hsep hl
      hs.1.recorded hs.2
  | resumed i text wrote =>
    obtain ⟨c, -, rfl⟩ := Option.map_eq_some_iff.mp hstep
    exact resumed_transparent s c.1 c.2 text wrote hs.2
  | evict key =>
    cases hstep
    exact hs.2
  | elapse d =>
    cases hstep
    exact hs.2

/-- Two calls one after the other, with Redis up. -/
def twice (c d : Adapter × Str) : List Label :=
  [.called c.1 c.2 .ok, .resumed 0 "first".toList .ok, .called d.1 d.2 .ok]

/-- The second of two calls with one key gets the text of the first. -/
theorem twice_served (py : Runtime) (now : ℚ) (c d : Adapter × Str) (hc : 0 < c.1.cache_ttl)
    (hd : 0 < d.1.cache_ttl) (hkey : full_key d.1.cache_namespace (cache_key d.1.config d.2) =
      full_key c.1.cache_namespace (cache_key c.1.config c.2)) :
    ∃ s, exec (step py) (start now) (twice c d) = some s ∧
      s.collected = [⟨c.1.config, c.2, "first".toList⟩] ∧
      ⟨d.1.config, d.2, "first".toList⟩ ∈ s.served := by
  have hmiss : hit py (start now) c.1 c.2 .ok = none := rfl
  have hcalled : collect_called py (start now) c.1 c.2 .ok =
      { start now with waiting := [c] } := by
    rw [collect_called, if_neg (by omega), hmiss]
    rfl
  have hresumed : collect_resumed { start now with waiting := [c] } c.1 c.2 "first".toList .ok =
      ⟨now, cache_set (start now) (full_key c.1.cache_namespace (cache_key c.1.config c.2))
          "first".toList c.1.cache_ttl .ok, [c],
        [⟨c.1.config, c.2, "first".toList⟩], [⟨c.1.config, c.2, "first".toList⟩]⟩ := by
    simp only [collect_resumed, if_neg (show ¬ c.1.cache_ttl ≤ 0 by omega)]
    rfl
  generalize hs : { collect_resumed { start now with waiting := [c] } c.1 c.2 "first".toList .ok
    with waiting := [] } = s
  rw [hresumed] at hs
  have hhit : hit py s d.1 d.2 .ok = some "first".toList := by
    have hlive : now ≤ now + c.1.cache_ttl := by
      have hpos : (0 : ℚ) < c.1.cache_ttl := by exact_mod_cast hc
      exact le_add_of_nonneg_right hpos.le
    have hget : ExpiringStore.get s.redis s.now
        (full_key d.1.cache_namespace (cache_key d.1.config d.2)) =
        some (dumps true (.str "first".toList)) := by
      rw [hkey, ← hs]
      exact ExpiringStore.get_write_same _ _ _ _ _ hlive
    rw [hit, cache_get, if_pos rfl, hget, Option.bind_some, loads_text]
    rfl
  have hsecond : collect_called py s d.1 d.2 .ok =
      { s with served := ⟨d.1.config, d.2, "first".toList⟩ :: s.served } := by
    rw [collect_called, if_neg (by omega), hhit]
  refine ⟨{ s with served := ⟨d.1.config, d.2, "first".toList⟩ :: s.served }, ?_, ?_, ?_⟩
  · have hfirst : step py { start now with waiting := [c] } (.resumed 0 "first".toList .ok) =
        some s := by
      rw [← hs, ← hresumed]
      rfl
    rw [twice, exec_cons, step, hcalled, Option.bind_some, exec_cons, hfirst, Option.bind_some,
      exec_cons, step, hsecond, Option.bind_some, exec_nil]
  · rw [← hs]
  · exact List.mem_cons_self

/-- The cache is transparent in all runs of some calls exactly when calls of one
hashed text may share their answers. -/
theorem transparent_iff (py : Runtime) (cache_namespace : Str) (calls : Calls)
    (hshared : Shared cache_namespace calls) :
    (∀ now ls s, Along (step py) (fun _ l => l.Among calls) (start now) ls →
        exec (step py) (start now) ls = some s → Transparent s) ↔ Separated calls := by
  constructor
  · intro h c hc d hd htext
    have hkey : full_key d.1.cache_namespace (cache_key d.1.config d.2) =
        full_key c.1.cache_namespace (cache_key c.1.config c.2) := by
      rw [hshared.within c hc, hshared.within d hd, cache_key, cache_key, htext]
    obtain ⟨s, hexec, hcollected, hserved⟩ :=
      twice_served py 0 c d (hshared.cached c hc) (hshared.cached d hd) hkey
    have halong : Along (step py) (fun _ l => l.Among calls) (start 0) (twice c d) := by
      refine along_of_mem _ _ (fun _ l hl => ?_)
      simp only [twice, List.mem_cons, List.not_mem_nil, or_false] at hl
      rcases hl with rfl | rfl | rfl
      · exact hc
      · trivial
      · exact hd
    obtain ⟨r, hr, hquery, _, halike⟩ := h 0 _ s halong hexec _ hserved
    rw [hcollected, List.mem_singleton] at hr
    subst hr
    exact ⟨hquery, halike⟩
  · intro hsep now ls s halong hexec
    have hstart : Invariant calls (start now) ∧ Transparent (start now) :=
      ⟨start_invariant calls now, fun r hr => by cases hr⟩
    exact (exec_invariant (step_transparent py cache_namespace calls hshared hsep) hstart halong
      hexec).2

/-! ## Which identities tell apart -/

theorem cut_unique (c : Char) (a b x y : Str) (ha : c ∉ a) (hx : c ∉ x)
    (h : a ++ c :: b = x ++ c :: y) : a = x ∧ b = y := by
  induction a generalizing x with
  | nil =>
    cases x with
    | nil => exact ⟨rfl, (List.cons.inj h).2⟩
    | cons d x =>
      obtain ⟨rfl, -⟩ := List.cons.inj h
      exact absurd List.mem_cons_self hx
  | cons d a ih =>
    cases x with
    | nil =>
      obtain ⟨rfl, -⟩ := List.cons.inj h
      exact absurd List.mem_cons_self ha
    | cons e x =>
      obtain ⟨rfl, htail⟩ := List.cons.inj h
      obtain ⟨rfl, rfl⟩ := ih x (fun hmem => ha (List.mem_cons_of_mem _ hmem))
        (fun hmem => hx (List.mem_cons_of_mem _ hmem)) htail
      exact ⟨rfl, rfl⟩

/-- What an identity names: the list of the services or the tools up to order,
and no headers, workgroup, arguments or transport. -/
inductive SameNames : Config → Config → Prop
  | boto3 {s t : List Str} (h : sorted s = sorted t) : SameNames (.boto3 s) (.boto3 t)
  | kubernetes : SameNames .kubernetes .kubernetes
  | http (name url : Str) (h k : Entries Str Str) : SameNames (.http name url h) (.http name url k)
  | athena (database table v w : Str) :
      SameNames (.athena database table v) (.athena database table w)
  | mcp (n m url : Str) {s t : List Str} (hs : sorted s = sorted t) (h k a b : Entries Str Str)
      (i j u v : Str) : SameNames (.mcp n url s h a i u) (.mcp m url t k b j v)

/-- Names in which the separators do not occur. -/
def Plain : Config → Prop
  | .boto3 services => ∀ s ∈ services, s ≠ [] ∧ ',' ∉ s ∧ '|' ∉ s
  | .kubernetes => True
  | .http name url _ => ':' ∉ name ∧ '|' ∉ name ∧ '|' ∉ url
  | .athena database table _ => '.' ∉ database ∧ '|' ∉ database ∧ '|' ∉ table
  | .mcp _ url tools _ _ _ _ =>
    '|' ∉ url ∧ ∀ s ∈ tools, s ≠ [] ∧ ',' ∉ s ∧ ':' ∉ s ∧ '|' ∉ s

theorem mem_sorted (xs : List Str) (s : Str) : s ∈ sorted xs ↔ s ∈ xs := List.mem_insertionSort _

theorem join_free (c : Char) (hc : c ≠ ',') (xs : List Str) (h : ∀ s ∈ xs, c ∉ s) :
    c ∉ join [','] xs := by
  induction xs with
  | nil => simp
  | cons x xs ih =>
    have hx := h x List.mem_cons_self
    by_cases hxs : xs = []
    · simpa [hxs] using hx
    · rw [join_cons _ _ _ hxs]
      simp [hx, hc, ih (fun s hs => h s (List.mem_cons_of_mem _ hs))]

/-- Words without a comma, none of them empty, are read back from their list. -/
theorem join_injective (xs ys : List Str) (hx : ∀ s ∈ xs, s ≠ [] ∧ ',' ∉ s)
    (hy : ∀ s ∈ ys, s ≠ [] ∧ ',' ∉ s) (h : join [','] xs = join [','] ys) : xs = ys := by
  have hempty : ∀ zs : List Str, (∀ s ∈ zs, s ≠ [] ∧ ',' ∉ s) → join [','] zs = [] → zs = [] := by
    intro zs hz hnil
    cases zs with
    | nil => rfl
    | cons z zs =>
      have hne := (hz z List.mem_cons_self).1
      by_cases hzs : zs = []
      · simp [hzs, hne] at hnil
      · simp [join_cons _ _ _ hzs] at hnil
  by_cases hxs : xs = []
  · subst hxs
    exact (hempty ys hy h.symm).symm
  · by_cases hys : ys = []
    · subst hys
      exact hempty xs hx h
    · rw [join_eq_intercalate, join_eq_intercalate] at h
      rw [← List.splitOn_intercalate ',' (fun l hl => (hx l hl).2) hxs, h,
        List.splitOn_intercalate ',' (fun l hl => (hy l hl).2) hys]

theorem free_append (c : Char) (a b : Str) (ha : c ∉ a) (hb : c ∉ b) : c ∉ a ++ b :=
  fun h => (List.mem_append.mp h).elim ha hb

theorem free_around (c d : Char) (a b : Str) (ha : c ∉ a) (hd : c ≠ d) (hb : c ∉ b) :
    c ∉ a ++ d :: b :=
  free_append c a _ ha (fun h => (List.mem_cons.mp h).elim hd hb)

theorem id_free (c : Config) (h : Plain c) : '|' ∉ cache_id c := by
  cases c with
  | boto3 services =>
    exact free_append _ _ _ (by decide) (join_free '|' (by decide) (sorted services)
      (fun s hs => (h s ((mem_sorted _ _).mp hs)).2.2))
  | kubernetes => decide
  | http name url headers =>
    exact free_append _ _ _ (by decide) (free_around _ _ _ _ h.2.1 (by decide) h.2.2)
  | athena database table workgroup =>
    exact free_append _ _ _ (by decide) (free_around _ _ _ _ h.2.1 (by decide) h.2.2)
  | mcp name url tools headers arguments inject transport =>
    exact free_append _ _ _ (by decide) (free_around _ _ _ _ h.1 (by decide)
      (join_free '|' (by decide) (sorted tools)
        (fun s hs => (h.2 s ((mem_sorted _ _).mp hs)).2.2.2)))

theorem same_list (xs ys : List Str) (hx : ∀ s ∈ xs, s ≠ [] ∧ ',' ∉ s)
    (hy : ∀ s ∈ ys, s ≠ [] ∧ ',' ∉ s) (h : join [','] (sorted xs) = join [','] (sorted ys)) :
    sorted xs = sorted ys :=
  join_injective _ _ (fun s hs => hx s ((mem_sorted _ _).mp hs))
    (fun s hs => hy s ((mem_sorted _ _).mp hs)) h

/-- The last colon of an MCP identity stands behind the URL. -/
theorem cut_last (a b x y : Str) (hb : ':' ∉ b) (hy : ':' ∉ y) (h : a ++ ':' :: b = x ++ ':' :: y) :
    a = x ∧ b = y := by
  have hrev := congrArg List.reverse h
  simp only [List.reverse_append, List.reverse_cons, List.append_assoc, List.singleton_append]
    at hrev
  obtain ⟨htail, hhead⟩ := cut_unique ':' _ _ _ _ (by simpa using hb) (by simpa using hy) hrev
  exact ⟨List.reverse_injective hhead, List.reverse_injective htail⟩

/-- The letter an identity starts with. -/
def initial : Config → Char
  | .boto3 _ => 'b'
  | .kubernetes => 'K'
  | .http _ _ _ => 'h'
  | .athena _ _ _ => 'a'
  | .mcp _ _ _ _ _ _ _ => 'm'

theorem id_initial (c : Config) : (cache_id c).head? = some (initial c) := by
  cases c <;> rfl

theorem same_names_of_id (c d : Config) (hc : Plain c) (hd : Plain d)
    (h : cache_id c = cache_id d) : SameNames c d := by
  have hinitial : initial c = initial d := by
    have hhead := id_initial c
    rw [h, id_initial d] at hhead
    exact (Option.some.inj hhead).symm
  cases c <;> cases d <;> try (simp only [initial, Char.reduceEq] at hinitial; done)
  case boto3.boto3 s t =>
    exact .boto3 (same_list s t (fun x hx => ⟨(hc x hx).1, (hc x hx).2.1⟩)
      (fun x hx => ⟨(hd x hx).1, (hd x hx).2.1⟩) (List.append_cancel_left h))
  case kubernetes.kubernetes => exact .kubernetes
  case http.http name url headers n u k =>
    obtain ⟨rfl, rfl⟩ := cut_unique ':' _ _ _ _ hc.1 hd.1 (List.append_cancel_left h)
    exact .http _ _ _ _
  case athena.athena database table workgroup e t w =>
    obtain ⟨rfl, rfl⟩ := cut_unique '.' _ _ _ _ hc.1 hd.1 (List.append_cancel_left h)
    exact .athena _ _ _ _
  case mcp.mcp name url tools headers arguments inject transport n u t k b j v =>
    obtain ⟨rfl, hjoin⟩ := cut_last _ _ _ _
      (join_free ':' (by decide) _ (fun s hs => (hc.2 s ((mem_sorted _ _).mp hs)).2.2.1))
      (join_free ':' (by decide) _ (fun s hs => (hd.2 s ((mem_sorted _ _).mp hs)).2.2.1))
      (List.append_cancel_left h)
    exact .mcp _ _ _ (same_list tools t (fun x hx => ⟨(hc.2 x hx).1, (hc.2 x hx).2.1⟩)
      (fun x hx => ⟨(hd.2 x hx).1, (hd.2 x hx).2.1⟩) hjoin) _ _ _ _ _ _ _ _

theorem SameNames.id {c d : Config} (h : SameNames c d) : cache_id c = cache_id d := by
  cases h with
  | boto3 h => exact congrArg (fun xs => "boto3:".toList ++ join [','] xs) h
  | kubernetes => rfl
  | http name url h k => rfl
  | athena database table v w => rfl
  | mcp n m url hs h k a b i j u v =>
    exact congrArg (fun xs => "mcp:".toList ++ (url ++ ':' :: join [','] xs)) hs

/-- Where no name holds a separator, the hashed texts tell apart the queries and
what the identities name. -/
theorem cache_text_eq_iff (c d : Config) (query other : Str) (hc : Plain c) (hd : Plain d) :
    cache_text c query = cache_text d other ↔ query = other ∧ SameNames c d := by
  constructor
  · intro h
    obtain ⟨hid, hquery⟩ := cut_unique '|' _ _ _ _ (id_free c hc) (id_free d hd) h
    exact ⟨hquery, same_names_of_id c d hc hd hid⟩
  · rintro ⟨rfl, h⟩
    rw [cache_text, cache_text, h.id]

/-- The cache is then transparent exactly when adapters with the same names
collect alike. -/
theorem separated_iff (calls : Calls) (h : ∀ c ∈ calls, Plain c.1.config) :
    Separated calls ↔ ∀ c ∈ calls, ∀ d ∈ calls, c.2 = d.2 → SameNames c.1.config d.1.config →
      Alike c.1.config d.1.config := by
  constructor
  · intro hsep c hc d hd hquery hnames
    exact (hsep c hc d hd ((cache_text_eq_iff _ _ _ _ (h c hc) (h d hd)).mpr
      ⟨hquery, hnames⟩)).2
  · intro hnames c hc d hd htext
    obtain ⟨hquery, hsame⟩ := (cache_text_eq_iff _ _ _ _ (h c hc) (h d hd)).mp htext
    exact ⟨hquery, hnames c hc d hd hquery hsame⟩

/-! ## Two adapters of one cache -/

def loki (tenant : String) : Adapter where
  config := .http "loki".toList "http://loki/query".toList [("X-Scope-OrgID".toList, tenant.toList)]
  cache_ttl := 300
  cache_namespace := "observability".toList

def metrics : Adapter where
  config := .http "metrics".toList "http://metrics/query".toList []
  cache_ttl := 300
  cache_namespace := "observability".toList

/-- Adapters of one cache that share no name. -/
def apart : Calls := {c | (c.1 = loki "a" ∨ c.1 = metrics) ∧ c.2 = "errors".toList}

theorem apart_shared : Shared "observability".toList apart := by
  have hdigest : cache_key (loki "a").config "errors".toList ≠
      cache_key metrics.config "errors".toList := by
    decide +kernel
  constructor
  · rintro c ⟨hc | hc, _⟩ <;> rw [hc] <;> rfl
  · rintro c ⟨hc | hc, _⟩ <;> rw [hc] <;> decide
  · rintro c ⟨hc, hcq⟩ d ⟨hd, hdq⟩ hkey
    rw [hcq, hdq] at hkey ⊢
    rcases hc with hc | hc <;> rcases hd with hd | hd <;> rw [hc, hd] at hkey ⊢
    · exact absurd hkey hdigest
    · exact absurd hkey.symm hdigest

theorem apart_separated : Separated apart := by
  rintro c ⟨hc, hcq⟩ d ⟨hd, hdq⟩ htext
  have hother : cache_text (loki "a").config "errors".toList ≠
      cache_text metrics.config "errors".toList := by
    decide
  refine ⟨hcq.trans hdq.symm, ?_⟩
  rw [hcq, hdq] at htext
  rcases hc with hc | hc <;> rcases hd with hd | hd <;> rw [hc, hd] at htext ⊢
  · exact Alike.refl _
  · exact absurd htext hother
  · exact absurd htext.symm hother
  · exact Alike.refl _

theorem apart_transparent :
    Shared "observability".toList apart ∧
      ∀ now ls s, Along (step asciiRuntime) (fun _ l => l.Among apart) (start now) ls →
        exec (step asciiRuntime) (start now) ls = some s → Transparent s :=
  ⟨apart_shared,
    (transparent_iff asciiRuntime "observability".toList apart apart_shared).mpr apart_separated⟩

/-- Two tenants of one endpoint. -/
def tenants : Calls := {c | (c.1 = loki "a" ∨ c.1 = loki "b") ∧ c.2 = "errors".toList}

/-- One tenant is served what was collected for the other. -/
theorem tenant_served_other :
    Shared "observability".toList tenants ∧
      ¬ ∀ now ls s, Along (step asciiRuntime) (fun _ l => l.Among tenants) (start now) ls →
        exec (step asciiRuntime) (start now) ls = some s → Transparent s := by
  have hshared : Shared "observability".toList tenants := by
    constructor
    · rintro c ⟨hc | hc, _⟩ <;> rw [hc] <;> rfl
    · rintro c ⟨hc | hc, _⟩ <;> rw [hc] <;> decide
    · rintro c ⟨hc, hcq⟩ d ⟨hd, hdq⟩ _
      rw [hcq, hdq]
      rcases hc with hc | hc <;> rcases hd with hd | hd <;> rw [hc, hd] <;> rfl
  refine ⟨hshared, fun h => ?_⟩
  obtain ⟨s, hexec, hcollected, hserved⟩ := twice_served asciiRuntime 0
    (loki "a", "errors".toList) (loki "b", "errors".toList) (by decide) (by decide) rfl
  have halong : Along (step asciiRuntime) (fun _ l => l.Among tenants) (start 0)
      (twice (loki "a", "errors".toList) (loki "b", "errors".toList)) := by
    refine along_of_mem _ _ (fun _ l hl => ?_)
    simp only [twice, List.mem_cons, List.not_mem_nil, or_false] at hl
    rcases hl with rfl | rfl | rfl
    · exact ⟨.inl rfl, rfl⟩
    · trivial
    · exact ⟨.inr rfl, rfl⟩
  obtain ⟨r, hr, _, _, halike⟩ := h 0 _ s halong hexec _ hserved
  rw [hcollected, List.mem_singleton] at hr
  subst hr
  have hperm : ([("X-Scope-OrgID".toList, "a".toList)] : Entries Str Str).Perm
      [("X-Scope-OrgID".toList, "b".toList)] := by
    cases halike with
    | http _ _ hh => exact hh
  exact absurd (List.singleton_perm_singleton.mp hperm) (by decide)

end AigentSquad.CollectCache

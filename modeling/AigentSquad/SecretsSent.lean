import AigentSquad.Distillation
import AigentSquad.JsonStrings
import AigentSquad.KeyRemoval
import Mathlib.Data.List.DropRight

/-!
# Secrets in what the models are sent

Both models of a distillation are sent the result as JSON, redacted after it was
encoded; the second is also sent the drafts as JSON. An escape that ends in a
letter or a digit takes away the word boundary before a key.
-/

set_option autoImplicit false

namespace AigentSquad.SecretsSent
open AigentSquad.PyText AigentSquad.PyJson AigentSquad.Regex AigentSquad.Substitution
open AigentSquad.Provenance AigentSquad.Investigation AigentSquad.EvidenceExchange
open AigentSquad.RunInvestigation AigentSquad.Redactor AigentSquad.SecretTexts
open AigentSquad.BearerReplacement AigentSquad.KeyRemoval AigentSquad.JsonStrings
open AigentSquad.Distillation

/-! ## The messages -/

/-- `e.__dict__` -/
def item_dict (e : Item) : Json :=
  .obj [("source_agent".toList, .str e.source_agent),
    ("signal_type".toList, e.signal_type),
    ("timestamp".toList, e.timestamp),
    ("strength".toList, e.strength),
    ("summary".toList, e.summary),
    ("is_causal_candidate".toList, .bool e.is_causal_candidate),
    ("signal_id".toList, .str e.signal_id),
    ("signal_subtype".toList, .str e.signal_subtype),
    ("causal_layer".toList, .str e.causal_layer),
    ("fault_domain".toList, .str e.fault_domain),
    ("timestamp_precision".toList, .str e.timestamp_precision),
    ("raw_query".toList, .str e.raw_query),
    ("derivation_source".toList, optional_text e.derivation_source),
    ("is_recurring".toList, .bool e.is_recurring),
    ("first_occurrence".toList, optional_text e.first_occurrence),
    ("contradicts_hypothesis".toList, .bool e.contradicts_hypothesis),
    ("contradiction_explained".toList, .bool e.contradiction_explained),
    ("trace_id".toList, optional_text e.trace_id),
    ("id".toList, .str e.id)]

def level_name : Level → Str
  | .LOW => "LOW".toList
  | .MEDIUM => "MEDIUM".toList
  | .HIGH => "HIGH".toList

def track_name : Track → Str
  | .A => "A".toList
  | .B => "B".toList
  | .INSUFFICIENT => "INSUFFICIENT".toList

/-- `RCAResult.to_dict` -/
def to_dict (rca : RCAResult) : Json :=
  .obj [("hypothesis".toList, rca.hypothesis),
    ("confidence".toList, .str rca.confidence.name),
    ("evidence".toList, .arr (rca.evidence.map item_dict)),
    ("timeline".toList, .arr (rca.timeline.map item_dict)),
    ("contradicting".toList, .arr (rca.contradicting.map item_dict)),
    ("prevention".toList, rca.prevention),
    ("confidence_level".toList, .str (level_name rca.confidence_level)),
    ("confidence_track".toList, .str (track_name rca.confidence_track)),
    ("independent_signal_count".toList, .int rca.independent_signal_count),
    ("temporal_violations".toList, .arr (rca.temporal_violations.map .str))]

/-- `d.__dict__`; `float_print` is how `json` prints a float. -/
def delta_dict (float_print : PyFloat → Str) (d : KbDelta) : Json :=
  .obj [("action".toList, d.action),
    ("type".toList, d.type),
    ("title".toList, d.title),
    ("content".toList, d.content),
    ("tags".toList, d.tags),
    ("service_name".toList, d.service_name),
    ("confidence".toList, .float (float_print d.confidence)),
    ("supersedes_id".toList, .null),
    ("reasoning".toList, d.reasoning)]

def drafts_list (float_print : PyFloat → Str) (drafts : List KbDelta) : Json :=
  .arr (drafts.map (delta_dict float_print))

def rca_text (py : Runtime) (rca : RCAResult) : Str := redact py (dumps true (to_dict rca))

/-- What `extract_deltas` sends. -/
def extractor_msg (py : Runtime) (rca : RCAResult) : Str :=
  "RCA result:\n".toList ++ (rca_text py rca ++
    "\n\nExtract reusable knowledge items as JSON.".toList)

/-- What stands before the result in the message of `enrich_deltas`. -/
def enricher_front (float_print : PyFloat → Str) (drafts : List KbDelta) : Str :=
  "Drafts:\n".toList ++ (dumps true (drafts_list float_print drafts) ++
    "\n\nOriginal RCA:\n".toList)

/-- What `enrich_deltas` sends. -/
def enricher_msg (py : Runtime) (float_print : PyFloat → Str) (rca : RCAResult)
    (drafts : List KbDelta) : Str :=
  enricher_front float_print drafts ++ (rca_text py rca ++ "\n\nReturn refined deltas.".toList)

/-! ## The secrets of a document -/

def SECRETS : List Rx := [akia, asia, github_pat, gitlab_pat, openai_key]

/-- Where the encoding has the character at `k` of a string quoted behind `a`. -/
def encoded_at (a f : Str) (k : ℕ) : ℕ := a.length + 1 + ((f.take k).flatMap (escape true)).length

/-- At `i` in the encoding of `j` stands the match `w` of a secret in a string of `j`. -/
structure SecretAt (py : Runtime) (j : Json) (w : Str) (i : ℕ) : Prop where
  found : ∃ f ∈ strings j, ∃ r ∈ SECRETS, ∃ k ≤ f.length,
    matchAt py.word r (point f k) = some w ∧
      ∃ a b, dumps true j = a ++ (quote true f ++ b) ∧ i = encoded_at a f k

/-- The redacted text at `j` was kept from `i`, and `w` still stands there in the
message, whose redacted part begins at `start`. -/
def Shown (py : Runtime) (text msg : Str) (start : ℕ) (w : Str) (i : ℕ) : Prop :=
  ∃ j, (origins py.word (PATTERNS py) text)[j]? = some (some i) ∧ w <+: msg.drop (start + j)

/-- No secret of a string stands in a message at the place of that string. -/
structure NoSecretSent (py : Runtime) (float_print : PyFloat → Str) (rca : RCAResult)
    (drafts : List KbDelta) : Prop where
  extractor : ∀ w i, SecretAt py (to_dict rca) w i →
    ¬ Shown py (dumps true (to_dict rca)) (extractor_msg py rca) "RCA result:\n".toList.length w i
  enricher : ∀ w i, SecretAt py (to_dict rca) w i →
    ¬ Shown py (dumps true (to_dict rca)) (enricher_msg py float_print rca drafts)
      (enricher_front float_print drafts).length w i
  drafts : ∀ w i, SecretAt py (drafts_list float_print drafts) w i →
    ¬ w <+: (enricher_msg py float_print rca drafts).drop ("Drafts:\n".toList.length + i)

/-- A key without the hyphens it ends in. -/
def core (w : Str) : Str := w.rdropWhile (fun c => c == '-')

/-- Every secret in a string of `j` stands at its start or behind a printable ASCII
character, and a token that ends in hyphens is long enough without them. -/
def KeepsBoundaries (py : Runtime) (j : Json) : Prop :=
  ∀ f ∈ strings j, ∀ r ∈ SECRETS, ∀ k ≤ f.length, ∀ w ∈ matchAt py.word r (point f k),
    (∀ c ∈ (point f k).before.head?, ' ' ≤ c ∧ c ≤ '~') ∧
      (w.getLast? = some '-' → "glpat-".toList.length + 20 ≤ (core w).length)

def NoSecret (py : Runtime) (j : Json) : Prop :=
  ∀ f ∈ strings j, ∀ r ∈ SECRETS, search py.word r f = none

-- the characters before a point are decided one by one, not over all characters there are
instance (py : Runtime) (j : Json) : Decidable (KeepsBoundaries py j) :=
  letI (f : Str) (k : ℕ) : Decidable (∀ c ∈ (point f k).before.head?, ' ' ≤ c ∧ c ≤ '~') :=
    Option.decidableForallMem (point f k).before.head?
  inferInstanceAs (Decidable (∀ f ∈ strings j, ∀ r ∈ SECRETS, ∀ k ≤ f.length,
    ∀ w ∈ matchAt py.word r (point f k),
      (∀ c ∈ (point f k).before.head?, ' ' ≤ c ∧ c ≤ '~') ∧
        (w.getLast? = some '-' → "glpat-".toList.length + 20 ≤ (core w).length)))

instance (py : Runtime) (j : Json) : Decidable (NoSecret py j) :=
  inferInstanceAs (Decidable (∀ f ∈ strings j, ∀ r ∈ SECRETS, search py.word r f = none))

/-! ## A secret in the encoding -/

/-- A secret pattern; where its body takes hyphens, the shortest match has 26 characters. -/
structure SecretPattern (py : Runtime) (before : Str) (ok : Char → Bool) (lo : ℕ)
    (hi : Option ℕ) (repl : Str) : Prop where
  pattern : KeyPattern before ok lo hi repl
  turn : Turn py (token before ok lo hi, repl) (PATTERNS py)
  body : 0 < lo
  hyphen : ok '-' = true → before.length + lo ≤ 26

def IsSecret (py : Runtime) (r : Rx) : Prop :=
  ∃ before ok lo hi repl, r = token before ok lo hi ∧ SecretPattern py before ok lo hi repl

theorem isSecret_of_mem (py : Runtime) : ∀ r ∈ SECRETS, IsSecret py r := by
  have hearly : ∀ (x : Rx × Str) (n : ℕ), n ≤ 4 → (PATTERNS py)[n]? = some x →
      Turn py x (PATTERNS py) := by
    intro x n hn hx
    refine ⟨(PATTERNS py).take n, (PATTERNS py).drop (n + 1), ?_, .inl ?_⟩
    · obtain ⟨hlen, hget⟩ := List.getElem?_eq_some_iff.mp hx
      rw [← hget, ← List.drop_eq_getElem_cons hlen, List.take_append_drop]
    · intro y hy
      have hy4 : y ∈ (PATTERNS py).take 4 := (List.take_subset_take_left _ hn) hy
      simp only [PATTERNS, List.take_succ_cons, List.take_zero, List.mem_cons, List.not_mem_nil,
        or_false] at hy4
      rcases hy4 with rfl | rfl | rfl | rfl
      · exact email_marker
      · exact (aws_pattern "AKIA".toList (.inl rfl)).marker
      · exact (aws_pattern "ASIA".toList (.inr rfl)).marker
      · exact github_pattern.marker
  intro r hr
  simp only [SECRETS, List.mem_cons, List.not_mem_nil, or_false] at hr
  rcases hr with rfl | rfl | rfl | rfl | rfl
  · exact ⟨_, _, _, _, _, rfl, aws_pattern "AKIA".toList (.inl rfl),
      hearly _ 1 (by decide) rfl, by decide, by decide⟩
  · exact ⟨_, _, _, _, _, rfl, aws_pattern "ASIA".toList (.inr rfl),
      hearly _ 2 (by decide) rfl, by decide, by decide⟩
  · exact ⟨_, _, _, _, _, rfl, github_pattern, hearly _ 3 (by decide) rfl, by decide,
      by decide⟩
  · exact ⟨_, _, _, _, _, rfl, gitlab_pattern, hearly _ 4 (by decide) rfl, by decide,
      by decide⟩
  · exact ⟨_, _, _, _, _, rfl, openai_pattern, ⟨(PATTERNS py).take 6, [], rfl,
      .inr (by simp)⟩, by decide, by decide⟩

theorem match_key (py : Runtime) {before : Str} {ok : Char → Bool} {lo : ℕ} {hi : Option ℕ}
    {repl : Str} (hpattern : KeyPattern before ok lo hi repl) (p : Pos) (w : Str)
    (h : matchAt py.word (token before ok lo hi) p = some w) :
    ∃ q, Reads p w q ∧ KeyText before ok lo hi w ∧ atBoundary py.word p = true ∧
      atBoundary py.word q = true := by
  obtain ⟨q, hq, hread⟩ := matchAt_end py.word _ p w h
  obtain ⟨v, hv, hread', hbounds⟩ :=
    ((hpattern.describes py.word).ends_iff p q).mp (List.mem_of_mem_head? hq)
  have hsame : v = w := List.append_cancel_right (hread'.after.symm.trans hread.after)
  rw [hsame] at hv
  exact ⟨q, hread, hv, hbounds rfl⟩

theorem keyLike_of_text {before : Str} {ok : Char → Bool} {lo : ℕ} {hi : Option ℕ} {repl : Str}
    (hpattern : KeyPattern before ok lo hi repl) {w : Str} (hw : KeyText before ok lo hi w)
    (hlast : w.getLast? ≠ some '-') : KeyLike w := by
  obtain ⟨hchars, hlong⟩ := key_chars hpattern.key hw
  refine ⟨hchars, hlong, ?_, hlast⟩
  obtain ⟨c, rest, hbefore, halpha, _⟩ := hpattern.safe.head
  obtain ⟨body, rfl, _⟩ := hw
  rw [hbefore]
  exact halpha

/-! ### The hyphens a token ends in -/

theorem core_isPrefix (w : Str) : core w <+: w := List.rdropWhile_prefix _ w

theorem core_last (w : Str) : (core w).getLast? ≠ some '-' := by
  intro h
  have hne : core w ≠ [] := by
    intro hnil
    rw [hnil] at h
    cases h
  rw [List.getLast?_eq_some_getLast hne, Option.some.injEq] at h
  exact List.rdropWhile_last_not (fun c => c == '-') w hne (by rw [beq_iff_eq]; exact h)

theorem core_eq_self (w : Str) (h : w.getLast? ≠ some '-') : core w = w := by
  apply List.rdropWhile_eq_self_iff.mpr
  intro hne hlast
  rw [beq_iff_eq] at hlast
  exact h (by rw [List.getLast?_eq_some_getLast hne, hlast])

/-- Behind the core a token goes on with a hyphen, or the core is all of it. -/
theorem core_next (w : Str) :
    core w = w ∨ ∃ rest, w = core w ++ '-' :: rest := by
  have hsplit : core w ++ w.rtakeWhile (fun c => c == '-') = w :=
    List.rdropWhile_append_rtakeWhile
  cases hrest : w.rtakeWhile (fun c => c == '-') with
  | nil =>
    rw [hrest, List.append_nil] at hsplit
    exact .inl hsplit
  | cons c rest =>
    have hmem : c ∈ w.rtakeWhile (fun c => c == '-') := hrest ▸ List.mem_cons_self
    have hc : c = '-' := by simpa using List.mem_rtakeWhile_imp hmem
    rw [hrest, hc] at hsplit
    exact .inr ⟨rest, hsplit.symm⟩

theorem key_of_front {before : Str} {ok : Char → Bool} {lo : ℕ} {hi : Option ℕ} {w v : Str}
    (hw : KeyText before ok lo hi w) (hv : v <+: w) (hlong : before.length + lo ≤ v.length) :
    KeyText before ok lo hi v := by
  obtain ⟨body, rfl, _, hhi, hall⟩ := hw
  obtain ⟨rest, hrest⟩ := hv
  rcases List.append_eq_append_iff.mp hrest with ⟨t, hbefore, _⟩ | ⟨t, rfl, rfl⟩
  · -- the prefix would end inside the fixed part
    have hlen := congrArg List.length hbefore
    rw [List.length_append] at hlen
    have hnil : t = [] := List.length_eq_zero_iff.mp (by omega)
    have hlo : lo = 0 := by
      rw [hnil, List.length_nil] at hlen
      omega
    refine ⟨[], ?_, Nat.le_of_eq hlo, fun h _ => Nat.zero_le h, List.forall_mem_nil _⟩
    rw [hbefore, hnil, List.append_nil, List.append_nil]
  · rw [List.length_append] at hlong
    refine ⟨t, rfl, Nat.le_of_add_le_add_left hlong, ?_, ?_⟩
    · intro h hh
      have hmost := hhi h hh
      rw [List.length_append] at hmost
      omega
    · exact fun c hc => hall c (List.mem_append_left rest hc)

/-- The core of a secret is a match of its pattern. -/
theorem core_key (py : Runtime) {before : Str} {ok : Char → Bool} {lo : ℕ} {hi : Option ℕ}
    {repl : Str} (hsecret : SecretPattern py before ok lo hi repl) {w : Str}
    (hw : KeyText before ok lo hi w)
    (hlong : w.getLast? = some '-' → "glpat-".toList.length + 20 ≤ (core w).length) :
    KeyText before ok lo hi (core w) := by
  by_cases hlast : w.getLast? = some '-'
  · have hhyphen : ok '-' = true := by
      obtain ⟨body, rfl, hlo, _, hall⟩ := hw
      have hne : body ≠ [] := List.length_pos_iff.mp (Nat.lt_of_lt_of_le hsecret.body hlo)
      rw [List.getLast?_append_of_ne_nil _ hne] at hlast
      exact hall '-' (List.mem_of_getLast? hlast)
    exact key_of_front hw (core_isPrefix w) (Nat.le_trans (hsecret.hyphen hhyphen) (hlong hlast))
  · rw [core_eq_self w hlast]
    exact hw

theorem escape_key (c : Char) (hc : key_char c = true) : escape true c = [c] := by
  have table : ∀ n : Fin 128, key_char (Char.ofNat n) = true →
      escape true (Char.ofNat n) = [Char.ofNat n] := by decide
  have hrow := table ⟨c.toNat, of_decide_eq_true (ascii_of_key c hc)⟩
  rw [Char.ofNat_toNat] at hrow
  exact hrow hc

theorem encode_key (w : Str) (hw : ∀ c ∈ w, key_char c = true) :
    w.flatMap (escape true) = w := by
  induction w with
  | nil => rfl
  | cons c w ih =>
    obtain ⟨hc, hw⟩ := List.forall_mem_cons.mp hw
    rw [List.flatMap_cons, escape_key c hc, ih hw, List.singleton_append]

/-- The point of the encoding that stands for the point of the string at `k`. -/
theorem point_encoded (a b f : Str) (k : ℕ) :
    point (a ++ (quote true f ++ b)) (encoded_at a f k) =
      ⟨(a ++ '"' :: (f.take k).flatMap (escape true)).reverse,
        (f.drop k).flatMap (escape true) ++ '"' :: b⟩ := by
  have hsplit : a ++ (quote true f ++ b) = (a ++ '"' :: (f.take k).flatMap (escape true)) ++
      ((f.drop k).flatMap (escape true) ++ '"' :: b) := by
    rw [quote, ← List.take_append_drop k f, List.flatMap_append]
    simp
  have hlen : encoded_at a f k = (a ++ '"' :: (f.take k).flatMap (escape true)).length := by
    rw [encoded_at, List.length_append, List.length_cons]
    omega
  rw [hsplit, hlen, point_append]

/-- An escape begins with the character itself or with a backslash. -/
theorem escape_head (c : Char) :
    (escape true c).head? = some c ∨ (escape true c).head? = some '\\' := by
  have hunicode : (unicodeEscape c.toNat).head? = some '\\' := by
    unfold unicodeEscape
    split <;> rfl
  unfold escape
  repeat' split
  all_goals first
    | exact .inr rfl
    | exact .inr hunicode
    | exact .inl rfl

/-- The escape of a printable character ends with it. -/
theorem escape_last (c : Char) (hc : ' ' ≤ c ∧ c ≤ '~') : (escape true c).getLast? = some c := by
  have table : ∀ n : Fin 128, (' ' ≤ Char.ofNat n ∧ Char.ofNat n ≤ '~') →
      (escape true (Char.ofNat n)).getLast? = some (Char.ofNat n) := by decide
  have hval : c.toNat = c.val.toNat := rfl
  have htilde : '~'.val.toNat = 126 := rfl
  have hle := hc.2
  rw [Char.le_def, UInt32.le_iff_toNat_le] at hle
  have hrow := table ⟨c.toNat, by omega⟩
  rw [Char.ofNat_toNat] at hrow
  exact hrow hc

/-- The escape of any other character ends with a letter or a digit. -/
theorem escape_last_word (c : Char) (hc : ¬ (' ' ≤ c ∧ c ≤ '~')) :
    (escape true c).getLast?.any key_char = true ∧ (escape true c).getLast? ≠ some '-' := by
  have hhex : ∀ n, n < 0x10000 → (hex4 n).getLast? = some (Nat.digitChar (n % 16)) := by
    intro n hn
    rw [hex4_eq n hn]
    rfl
  have hdigit : ∀ k < 16, key_char (Nat.digitChar k) = true ∧ Nat.digitChar k ≠ '-' := by decide
  have hlast : ∀ (u : Str) (n : ℕ), n < 0x10000 →
      (u ++ hex4 n).getLast?.any key_char = true ∧ (u ++ hex4 n).getLast? ≠ some '-' := by
    intro u n hn
    obtain ⟨hkey, hne⟩ := hdigit (n % 16) (Nat.mod_lt n (by decide))
    rw [List.getLast?_append, hhex n hn, Option.some_or, Option.any_some]
    exact ⟨hkey, fun h => hne (Option.some.inj h)⟩
  have hunicode : (unicodeEscape c.toNat).getLast?.any key_char = true ∧
      (unicodeEscape c.toNat).getLast? ≠ some '-' := by
    unfold unicodeEscape
    split
    · exact hlast _ _ (by assumption)
    · exact hlast _ _ (by omega)
  have hval : c.toNat = c.val.toNat := rfl
  have hspace : ' '.val.toNat = 32 := rfl
  have htilde : '~'.val.toNat = 126 := rfl
  rw [Char.le_def, Char.le_def, UInt32.le_iff_toNat_le, UInt32.le_iff_toNat_le] at hc
  have hquote : c ≠ '"' := by
    rintro rfl
    exact hc (by decide)
  have hslash : c ≠ '\\' := by
    rintro rfl
    exact hc (by decide)
  have hplain : (decide (c.toNat < 0x20) || (true && decide (0x7e < c.toNat))) = true := by
    rw [Bool.true_and, Bool.or_eq_true, decide_eq_true_eq, decide_eq_true_eq]
    omega
  unfold escape
  rw [if_neg hquote, if_neg hslash, if_pos hplain]
  repeat' split
  all_goals first
    | exact hunicode
    | decide

/-- Behind a character that is escaped that way the pattern of a secret no longer
matches in the encoding. -/
theorem boundary_lost (py : Runtime) (r : Rx) (hr : r ∈ SECRETS) (a b f w : Str) (k : ℕ) (c : Char)
    (hmatch : matchAt py.word r (point f k) = some w)
    (hbefore : (point f k).before.head? = some c) (hc : ¬ (' ' ≤ c ∧ c ≤ '~')) :
    matchAt py.word r (point (a ++ (quote true f ++ b)) (encoded_at a f k)) = none := by
  obtain ⟨before, ok, lo, hi, repl, rfl, ⟨hpattern, _⟩⟩ := isSecret_of_mem py r hr
  obtain ⟨q, hread, hkey, _⟩ := match_key py hpattern (point f k) w hmatch
  obtain ⟨d, rest, hd, halpha, _⟩ := hpattern.safe.head
  obtain ⟨body, hbody, _⟩ := hkey
  have hafter : f.drop k = d :: (rest ++ body ++ q.after) := by
    rw [show f.drop k = w ++ q.after from hread.after, hbody, hd]
    rfl
  rw [matchAt_eq_none, List.eq_nil_iff_forall_not_mem]
  intro q' hq'
  obtain ⟨_, _, _, hbounds⟩ := ((hpattern.describes py.word).ends_iff _ q').mp hq'
  have hstart := (hbounds rfl).1
  obtain ⟨hlast, hne⟩ := escape_last_word c hc
  obtain ⟨t, ht⟩ : ∃ t, f.take k = t ++ [c] := by
    rw [point, List.head?_reverse] at hbefore
    exact List.getLast?_eq_some_iff.mp hbefore
  have hword : ((escape true c).getLast?).any py.word = true := by
    cases hget : (escape true c).getLast? with
    | none =>
      rw [hget] at hlast
      cases hlast
    | some e =>
      rw [hget] at hlast hne
      exact word_of_key py e hlast (fun he => hne (congrArg some he))
  rw [point_encoded, atBoundary, hafter, List.flatMap_cons, escape_key d (key_of_alpha d halpha),
    List.head?_reverse, ht, List.flatMap_append, List.flatMap_singleton, ← List.cons_append,
    ← List.append_assoc, List.getLast?_append_of_ne_nil _ (escape_ne_nil true c), hword] at hstart
  simp [alpha_word py d halpha] at hstart

/-- A match whose boundaries are kept stands between no word characters in the encoding. -/
theorem free_encoded (py : Runtime) (a b f w : Str) (k : ℕ) (q : Pos) (hw : KeyLike w)
    (hread : Reads (point f k) w q) (hstart : atBoundary py.word (point f k) = true)
    (hend : atBoundary py.word q = true)
    (hprintable : ∀ c ∈ (point f k).before.head?, ' ' ≤ c ∧ c ≤ '~') :
    ∃ q', Reads (point (a ++ (quote true f ++ b)) (encoded_at a f k)) w q' ∧
      Free py.word (point (a ++ (quote true f ++ b)) (encoded_at a f k)) q' := by
  obtain ⟨hfirst, hlast⟩ := head_of_reads hread hw.ne_nil
  rw [atBoundary, hfirst, word_of_any_alpha py _ hw.first] at hstart
  rw [atBoundary, hlast, hw.last_word py] at hend
  have hafter : f.drop k = w ++ q.after := hread.after
  rw [point_encoded, hafter, List.flatMap_append, encode_key w hw.chars, List.append_assoc]
  refine ⟨⟨w.reverse ++ _, q.after.flatMap (escape true) ++ '"' :: b⟩, ⟨rfl, rfl⟩, ?_, ?_⟩
  · rw [List.head?_reverse]
    rcases List.eq_nil_or_concat (f.take k) with hnil | ⟨t, c, hc⟩
    · rw [hnil, List.flatMap_nil, List.getLast?_append_of_ne_nil _ (List.cons_ne_nil _ _)]
      exact no_word py '"' (by decide)
    · have hbefore : (point f k).before.head? = some c := by
        rw [point, hc]
        simp
      rw [hbefore, Option.any_some] at hstart
      rw [hc, List.concat_eq_append, List.flatMap_append, List.flatMap_singleton,
        ← List.cons_append,
        ← List.append_assoc, List.getLast?_append_of_ne_nil _ (escape_ne_nil true c),
        escape_last c (hprintable c hbefore)]
      simpa using hstart
  · cases hrest : q.after with
    | nil => exact no_word py '"' (by decide)
    | cons c rest =>
      rw [hrest, List.head?_cons, Option.any_some] at hend
      rw [List.flatMap_cons, List.append_assoc,
        List.head?_append_of_ne_nil _ (escape_ne_nil true c)]
      rcases escape_head c with hhead | hhead
      · rw [hhead]
        simpa using hend
      · rw [hhead]
        exact no_word py '\\' (by decide)

/-- The core of a match ends at a boundary as well. -/
theorem core_reads (py : Runtime) (p q : Pos) (w : Str) (hcore : KeyLike (core w))
    (hread : Reads p w q) (hend : atBoundary py.word q = true) :
    ∃ q', Reads p (core w) q' ∧ atBoundary py.word q' = true := by
  rcases core_next w with hsame | ⟨rest, hrest⟩
  · rw [hsame]
    exact ⟨q, hread, hend⟩
  · rw [hrest] at hread
    obtain ⟨m, hm, hafter⟩ := (reads_append p q (core w) ('-' :: rest)).mp hread
    refine ⟨m, hm, ?_⟩
    have hnext : m.after.head? = some '-' := by
      rw [hafter.after]
      rfl
    have hhyphen : py.word '-' = false := by
      rw [py.word_ascii '-' (by decide)]
      decide
    rw [atBoundary, (head_of_reads hm hcore.ne_nil).2, hcore.last_word py, hnext,
      Option.any_some, hhyphen]
    rfl

/-- A secret whose boundaries are kept in the encoding is gone from the redacted text. -/
theorem secret_removed (py : Runtime) (doc : Json) (h : KeepsBoundaries py doc) (w : Str) (i j : ℕ)
    (hsecret : SecretAt py doc w i)
    (hkept : (origins py.word (PATTERNS py) (dumps true doc))[j]? = some (some i)) :
    ¬ w <+: (redact py (dumps true doc)).drop j := by
  obtain ⟨f, hf, r, hr, k, hk, hmatch, a, b, hdumps, rfl⟩ := hsecret.found
  obtain ⟨before, ok, lo, hi, repl, rfl, hpattern⟩ := isSecret_of_mem py r hr
  obtain ⟨hprintable, hlong⟩ := h f hf _ hr k hk w hmatch
  obtain ⟨q, hread, hkey, hstart, hend⟩ := match_key py hpattern.pattern (point f k) w hmatch
  have hcore := core_key py hpattern hkey hlong
  have hlike := keyLike_of_text hpattern.pattern hcore (core_last w)
  obtain ⟨m, hreads, hbound⟩ := core_reads py (point f k) q w hlike hread hend
  obtain ⟨q', hread', hfree⟩ :=
    free_encoded py a b f (core w) k m hlike hreads hstart hbound hprintable
  have hkinds := kind_of_pattern py
  have hlasts : ∀ x ∈ PATTERNS py, x.2.getLast? = some '>' := by
    intro x hx
    cases hkinds x hx with
    | email repl hrepl => exact hrepl.last
    | key before ok lo hi repl hkey => exact hkey.marker.last
    | bearer => rfl
  have hpass := origins_passes py.word '>' (PATTERNS py) hlasts _ _ j hkept
  intro hprefix
  obtain ⟨rest, hrest⟩ := (core_isPrefix w).trans hprefix
  rw [← hdumps] at hread' hfree
  have hshown : Reads (point (redact py (dumps true doc)) j) (core w)
      ⟨(core w).reverse ++ (point (redact py (dumps true doc)) j).before, rest⟩ :=
    ⟨rfl, hrest.symm⟩
  exact passes_no_key py hpattern.pattern (PATTERNS py) hkinds hpattern.turn hcore hlike hread'
    hfree hpass hshown

theorem prefix_of_append (w s t : Str) (c : Char) (hc : c ∉ w) (h : w <+: s ++ c :: t) :
    w <+: s := by
  obtain ⟨u, hu⟩ := h
  rcases List.append_eq_append_iff.mp hu with ⟨v, hs, _⟩ | ⟨v, hw, hv⟩
  · exact ⟨v, hs.symm⟩
  · cases v with
    | nil =>
      rw [hw, List.append_nil]
    | cons d v =>
      rw [List.cons_append, List.cons.injEq] at hv
      rw [hw, ← hv.1] at hc
      exact absurd (List.mem_append_right s List.mem_cons_self) hc

/-- What is shown in a message is shown in the redacted part of it. -/
theorem not_shown (py : Runtime) (doc : Json) (h : KeepsBoundaries py doc)
    (front tail : Str) (w : Str) (i : ℕ) (hsecret : SecretAt py doc w i) :
    ¬ Shown py (dumps true doc)
      (front ++ (redact py (dumps true doc) ++ '\n' :: tail)) front.length w i := by
  rintro ⟨j, hkept, hprefix⟩
  have hlen : j ≤ (redact py (dumps true doc)).length := by
    obtain ⟨hless, _⟩ := List.getElem?_eq_some_iff.mp hkept
    rw [length_origins] at hless
    exact Nat.le_of_lt hless
  rw [List.drop_length_add_append, List.drop_append_of_le_length hlen] at hprefix
  have hline : '\n' ∉ w := by
    obtain ⟨f, _, r, hr, k, _, hmatch, _⟩ := hsecret.found
    obtain ⟨before, ok, lo, hi, repl, rfl, ⟨hpattern, _⟩⟩ := isSecret_of_mem py r hr
    obtain ⟨_, _, hkey, _⟩ := match_key py hpattern _ w hmatch
    intro hmem
    exact absurd ((key_chars hpattern.key hkey).1 '\n' hmem) (by decide)
  exact secret_removed py doc h w i j hsecret hkept (prefix_of_append w _ _ '\n' hline hprefix)

/-- The drafts are sent as they are. -/
theorem drafts_shown_iff (py : Runtime) (doc : Json) (front tail : Str) :
    (∀ w i, SecretAt py doc w i →
        ¬ w <+: (front ++ (dumps true doc ++ tail)).drop (front.length + i)) ↔
      NoSecret py doc := by
  constructor
  · intro h f hf r hr
    rw [search_eq_none]
    rintro ⟨p, q, rfl, hq⟩
    obtain ⟨before, ok, lo, hi, repl, rfl, ⟨hpattern, _⟩⟩ := isSecret_of_mem py r hr
    obtain ⟨q', c, m, hmatch, _⟩ := describes_taken py.word (hpattern.describes py.word) hq
    obtain ⟨a, b, hdumps⟩ := strings_quoted true doc (text p) hf
    have hk : p.before.length ≤ (text p).length := by
      rw [text, List.length_append, List.length_reverse]
      exact Nat.le_add_right _ _
    rw [← point_of_text p] at hmatch
    refine h (c :: m) (encoded_at a (text p) p.before.length)
      ⟨text p, hf, _, hr, p.before.length, hk, hmatch, a, b, hdumps, rfl⟩ ?_
    obtain ⟨q, hread, hkey, _⟩ := match_key py hpattern _ _ hmatch
    have hafter : (text p).drop p.before.length = (c :: m) ++ q.after := hread.after
    have hpoint := congrArg Pos.after (point_encoded a b (text p) p.before.length)
    rw [hafter, List.flatMap_append, encode_key _ (key_chars hpattern.key hkey).1,
      ← hdumps] at hpoint
    have hdrop : (dumps true doc).drop (encoded_at a (text p) p.before.length) = _ := hpoint
    have hlen : encoded_at a (text p) p.before.length ≤ (dumps true doc).length := by
      by_contra hmore
      rw [List.drop_eq_nil_of_le (by omega)] at hdrop
      cases hdrop
    rw [List.drop_length_add_append, List.drop_append_of_le_length hlen, hdrop, List.append_assoc,
      List.append_assoc]
    exact List.prefix_append _ _
  · intro h w i hsecret
    obtain ⟨f, hf, r, hr, k, _, hmatch, _⟩ := hsecret.found
    obtain ⟨q, hq, _⟩ := matchAt_end py.word r (point f k) w hmatch
    have hnone := (search_eq_none py.word r f).mp (h f hf r hr)
    have hoccurs : Occurs py.word r f :=
      ⟨point f k, q, text_point f k, List.mem_of_mem_head? hq⟩
    exact absurd hoccurs hnone

theorem enricher_msg_eq (py : Runtime) (float_print : PyFloat → Str) (rca : RCAResult)
    (drafts : List KbDelta) :
    enricher_msg py float_print rca drafts = "Drafts:\n".toList ++
      (dumps true (drafts_list float_print drafts) ++ ("\n\nOriginal RCA:\n".toList ++
        (rca_text py rca ++ "\n\nReturn refined deltas.".toList))) := by
  have hassoc : ∀ a b c d : Str, (a ++ (b ++ c)) ++ d = a ++ (b ++ (c ++ d)) := by
    intro a b c d
    rw [List.append_assoc, List.append_assoc]
  exact hassoc _ _ _ _

/-- For a result whose secrets keep their boundaries in the encoding, the models
are sent no secret exactly if the drafts hold none. -/
theorem no_secret_sent_iff (py : Runtime) (float_print : PyFloat → Str) (rca : RCAResult)
    (drafts : List KbDelta) (h : KeepsBoundaries py (to_dict rca)) :
    NoSecretSent py float_print rca drafts ↔ NoSecret py (drafts_list float_print drafts) := by
  have hdrafts := drafts_shown_iff py (drafts_list float_print drafts) "Drafts:\n".toList
    ("\n\nOriginal RCA:\n".toList ++ (rca_text py rca ++ "\n\nReturn refined deltas.".toList))
  rw [← enricher_msg_eq] at hdrafts
  rw [← hdrafts]
  constructor
  · exact fun hsent => hsent.drafts
  · intro hclean
    exact ⟨not_shown py (to_dict rca) h "RCA result:\n".toList _,
      not_shown py (to_dict rca) h (enricher_front float_print drafts) _, hclean⟩

/-- A result whose hypothesis is a key behind the given text. -/
def keyResult (front : String) : RCAResult where
  hypothesis := .str (front ++ "AKIA0123456789ABCDEF").toList
  confidence := .alta
  evidence := []
  timeline := []
  contradicting := []
  prevention := .arr []
  confidence_level := .HIGH
  confidence_track := .A
  independent_signal_count := 0
  temporal_violations := []

theorem key_behind_blank_removed :
    NoSecretSent asciiRuntime (fun _ => "0.9".toList) (keyResult "key ") [] :=
  (no_secret_sent_iff asciiRuntime (fun _ => "0.9".toList) (keyResult "key ") []
    (by decide +kernel)).mpr (by decide +kernel)

theorem key_behind_newline_sent :
    ¬ NoSecretSent asciiRuntime (fun _ => "0.9".toList) (keyResult "\n") [] := by
  intro h
  have hnone : ∀ p ∈ PATTERNS asciiRuntime,
      search asciiRuntime.word p.1 (dumps true (to_dict (keyResult "\n"))) = none := by
    decide +kernel
  obtain ⟨hsame, hkept⟩ := subs_of_no_match asciiRuntime.word (PATTERNS asciiRuntime)
    (dumps true (to_dict (keyResult "\n"))) hnone
  have hsecret : SecretAt asciiRuntime (to_dict (keyResult "\n"))
      "AKIA0123456789ABCDEF".toList 18 :=
    ⟨"\nAKIA0123456789ABCDEF".toList, by decide, akia, List.mem_cons_self, 1, by decide,
      by rfl, "\x7b\"hypothesis\": ".toList,
      (dumps true (to_dict (keyResult "\n"))).drop 39, by rfl, by decide⟩
  have hmsg : extractor_msg asciiRuntime (keyResult "\n") = "RCA result:\n".toList ++
      (dumps true (to_dict (keyResult "\n")) ++
        "\n\nExtract reusable knowledge items as JSON.".toList) :=
    congrArg (fun t => "RCA result:\n".toList ++
      (t ++ "\n\nExtract reusable knowledge items as JSON.".toList)) hsame
  have hshown : "AKIA0123456789ABCDEF".toList <+: ("RCA result:\n".toList ++
      (dumps true (to_dict (keyResult "\n")) ++
        "\n\nExtract reusable knowledge items as JSON.".toList)).drop
          ("RCA result:\n".toList.length + 18) := by
    decide +kernel
  refine h.extractor _ 18 hsecret ⟨18, hkept 18 (by decide +kernel), ?_⟩
  rewrite [hmsg]
  exact hshown

end AigentSquad.SecretsSent

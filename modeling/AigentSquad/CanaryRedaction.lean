import AigentSquad.Canary
import AigentSquad.Dict
import AigentSquad.Substitution

/-!
# What canary redaction leaves

The texts of the fuzzy pattern of a token hold a run of 32 hexadecimal digits that
no replacement completes. So no pass of `detect` brings back a token, and the
detection counter is all that decides between a redacted answer and a refusal.
-/

set_option autoImplicit false

namespace AigentSquad.CanaryRedaction
open AigentSquad.PyText AigentSquad.Regex AigentSquad.Substitution AigentSquad.Dict
open AigentSquad.Interaction AigentSquad.Effects AigentSquad.Canary

/-! ## Texts with separators between their letters -/

/-- The letters of `s` in their order, anything of `sep` between two of them. -/
def Spread (letter : Char → Char → Prop) (sep : Char → Prop) : Str → Str → Prop
  | [], w => w = []
  | [c], w => ∃ d, w = [d] ∧ letter c d
  | c :: d :: s, w => ∃ x gap u, w = x :: (gap ++ u) ∧ letter c x ∧ (∀ y ∈ gap, sep y) ∧
      Spread letter sep (d :: s) u

section Spread
variable {letter : Char → Char → Prop} {sep : Char → Prop}

theorem spread_length (s w : Str) (h : Spread letter sep s w) : s.length ≤ w.length := by
  induction s using spread.induct generalizing w with
  | case1 => exact Nat.zero_le _
  | case2 c =>
    obtain ⟨d, rfl, _⟩ := h
    exact Nat.le_refl _
  | case3 c d s ih =>
    obtain ⟨x, gap, u, rfl, _, _, hu⟩ := h
    have hlen := ih u hu
    rw [List.length_cons] at hlen ⊢
    rw [List.length_cons, List.length_cons, List.length_append]
    omega

theorem spread_chars (s w : Str) (h : Spread letter sep s w) :
    ∀ y ∈ w, (∃ c ∈ s, letter c y) ∨ sep y := by
  induction s using spread.induct generalizing w with
  | case1 =>
    obtain rfl := h
    exact fun _ hy => nomatch hy
  | case2 c =>
    obtain ⟨d, rfl, hd⟩ := h
    intro y hy
    rw [List.mem_singleton.mp hy]
    exact .inl ⟨c, List.mem_singleton_self c, hd⟩
  | case3 c d s ih =>
    obtain ⟨x, gap, u, rfl, hx, hgap, hu⟩ := h
    intro y hy
    rcases List.mem_cons.mp hy with rfl | hy
    · exact .inl ⟨c, List.mem_cons_self, hx⟩
    · rcases List.mem_append.mp hy with hy | hy
      · exact .inr (hgap y hy)
      · rcases ih u hu y hy with ⟨e, he, hletter⟩ | hsep
        · exact .inl ⟨e, List.mem_cons_of_mem c he, hletter⟩
        · exact .inr hsep

theorem spread_self (hself : ∀ c, letter c c) (s : Str) : Spread letter sep s s := by
  induction s using spread.induct with
  | case1 => rfl
  | case2 c => exact ⟨c, rfl, hself c⟩
  | case3 c d s ih => exact ⟨c, [], d :: s, rfl, hself c, (fun _ hy => nomatch hy), ih⟩

end Spread

/-! ## The patterns -/

/-- A separator of the fuzzy pattern. -/
def sep_char (c : Char) : Bool := isspace c || oneOf ['-', '_', '.', Char.ofNat 0x200b] c

/-- The same letter, case ignored. -/
def SameLetter (c d : Char) : Prop := foldCase d = foldCase c

/-- What the fuzzy pattern of a token with these digits reads. -/
def FuzzyText (hex w : Str) : Prop := Spread SameLetter (sep_char · = true) hex w

def hex_digits : Str := "0123456789abcdefABCDEF".toList

/-- `CNRY-` and 32 hexadecimal digits. -/
def IsToken (token : Str) : Prop :=
  ∃ hex, token = CANARY_PREFIX ++ hex ∧ hex.length = 32 ∧ ∀ c ∈ hex, c ∈ hex_digits

section Patterns
variable (word : Char → Bool)

theorem mem_ends_letter (c : Char) (p q : Pos) :
    q ∈ ends word (litIgnoreCase [foldCase c]) p ↔ ∃ d, SameLetter c d ∧ Reads p [d] q := by
  rw [mem_ends_litIgnoreCase]
  constructor
  · rintro ⟨b, hb, hread⟩
    obtain ⟨d, rfl, hd⟩ := List.map_eq_singleton_iff.mp hb
    exact ⟨d, hd, hread⟩
  · rintro ⟨d, hd, hread⟩
    exact ⟨[d], by rw [List.map_singleton, hd], hread⟩

theorem mem_ends_sep (p q : Pos) :
    q ∈ ends word SEP p ↔ ∃ gap : Str, Reads p gap q ∧ ∀ c ∈ gap, sep_char c = true := by
  rw [show SEP = .rep (.set sep_char) 0 none from rfl,
    mem_ends_rep_set word sep_char 0 none (fun _ h => nomatch h)]
  constructor
  · rintro ⟨gap, hread, _, _, hall⟩
    exact ⟨gap, hread, hall⟩
  · rintro ⟨gap, hread, hall⟩
    exact ⟨gap, hread, Nat.zero_le _, (fun _ h => nomatch h), hall⟩

theorem mem_ends_spread (s : Str) (p q : Pos) :
    q ∈ ends word (spread s) p ↔ ∃ w, FuzzyText s w ∧ Reads p w q := by
  induction s using spread.induct generalizing p with
  | case1 =>
    rw [spread, mem_ends_empty]
    constructor
    · rintro rfl
      exact ⟨[], rfl, .refl q⟩
    · rintro ⟨w, rfl, hread⟩
      exact (reads_nil p q).mp hread
  | case2 c =>
    rw [spread, mem_ends_letter]
    constructor
    · rintro ⟨d, hd, hread⟩
      exact ⟨[d], ⟨d, rfl, hd⟩, hread⟩
    · rintro ⟨_, ⟨d, rfl, hd⟩, hread⟩
      exact ⟨d, hd, hread⟩
  | case3 c d s ih =>
    simp only [spread, mem_ends_seq, mem_ends_letter, mem_ends_sep, ih]
    constructor
    · rintro ⟨m₁, ⟨x, hx, h₁⟩, m₂, ⟨gap, h₂, hgap⟩, u, hu, h₃⟩
      exact ⟨x :: (gap ++ u), ⟨x, gap, u, rfl, hx, hgap, hu⟩, h₁.trans (h₂.trans h₃)⟩
    · rintro ⟨_, ⟨x, gap, u, rfl, hx, hgap, hu⟩, hread⟩
      obtain ⟨m₁, h₁, hread⟩ := (reads_append p q [x] _).mp hread
      obtain ⟨m₂, h₂, h₃⟩ := (reads_append m₁ q gap u).mp hread
      exact ⟨m₁, ⟨x, hx, h₁⟩, m₂, ⟨gap, h₂, hgap⟩, u, hu, h₃⟩

theorem fuzzy_describes (hex : Str) (hlen : hex.length = 32) :
    Describes word (fuzzy_pattern (CANARY_PREFIX ++ hex)) false (FuzzyText hex) where
  ends_iff := by
    intro p q
    rw [fuzzy_pattern, List.drop_left, mem_ends_spread]
    constructor
    · rintro ⟨w, hw, hread⟩
      exact ⟨w, hw, hread, fun h => nomatch h⟩
    · rintro ⟨w, hw, hread, _⟩
      exact ⟨w, hw, hread⟩
  nonempty := by
    intro h
    have hshort := spread_length hex [] h
    rw [hlen] at hshort
    exact absurd hshort (by decide)

/-- What the prefix pattern reads. -/
def PrefixText (w : Str) : Prop :=
  ∃ letters gap mark, w = letters ++ (gap ++ mark) ∧ FuzzyText "cnry".toList letters ∧
    (∀ c ∈ gap, sep_char c = true) ∧ mark.map foldCase = redacted_mark

theorem prefix_describes : Describes word fuzzy_prefix_pattern false PrefixText where
  ends_iff := by
    intro p q
    simp only [fuzzy_prefix_pattern, mem_ends_seq, mem_ends_spread, mem_ends_sep,
      mem_ends_litIgnoreCase]
    constructor
    · rintro ⟨m₁, ⟨letters, hletters, h₁⟩, m₂, ⟨gap, h₂, hgap⟩, mark, hmark, h₃⟩
      exact ⟨_, ⟨letters, gap, mark, rfl, hletters, hgap, hmark⟩, h₁.trans (h₂.trans h₃),
        fun h => nomatch h⟩
    · rintro ⟨_, ⟨letters, gap, mark, rfl, hletters, hgap, hmark⟩, hread, _⟩
      obtain ⟨m₁, h₁, hread⟩ := (reads_append p q letters _).mp hread
      obtain ⟨m₂, h₂, h₃⟩ := (reads_append m₁ q gap mark).mp hread
      exact ⟨m₁, ⟨letters, hletters, h₁⟩, m₂, ⟨gap, h₂, hgap⟩, mark, hmark, h₃⟩
  nonempty := by
    rintro ⟨letters, gap, mark, hnil, _, _, hmark⟩
    have hmark_nil : mark = [] := (List.append_eq_nil_iff.mp
      (List.append_eq_nil_iff.mp hnil.symm).2).2
    rw [hmark_nil] at hmark
    exact absurd hmark (by decide)

/-- The texts of a token stand clear of the replacement. -/
theorem fuzzy_avoids (hex : Str) (hlen : hex.length = 32) (hhex : ∀ c ∈ hex, c ∈ hex_digits)
    (w : Str) (h : FuzzyText hex w) : '[' ∉ w ∧ ']' ∉ w ∧ ¬ w <:+: redacted_mark := by
  have houtside : ∀ d, sep_char d = false → (∀ c ∈ hex_digits, foldCase d ≠ foldCase c) →
      d ∉ w := by
    intro d hsep hletter hmem
    rcases spread_chars hex w h d hmem with ⟨c, hc, hsame⟩ | hd
    · exact hletter c (hhex c hc) hsame
    · rw [hd] at hsep
      cases hsep
  refine ⟨houtside '[' (by decide) (by decide), houtside ']' (by decide) (by decide), ?_⟩
  intro hin
  have hlong := spread_length hex w h
  have hshort := hin.length_le
  rw [show redacted_mark.length = 10 from rfl] at hshort
  omega

end Patterns

/-! ## One token, all tokens -/

section Tokens
variable (py : Runtime)

/-- The response leaks the token. -/
def Leaks (token response : Str) : Prop := Occurs py.word (fuzzy_pattern token) response

/-- What one token leaves of a response that leaks it. -/
def cleaned (token response : Str) : Str :=
  sub py.word fuzzy_prefix_pattern redacted_mark
    (sub py.word (fuzzy_pattern token) redacted_mark response)

theorem mark_head : redacted_mark.head? = some '[' := rfl

theorem mark_last : redacted_mark.getLast? = some ']' := by decide

theorem leaks_of_verbatim {token response : Str} (ht : IsToken token)
    (h : isIn token response = true) : Leaks py token response := by
  obtain ⟨hex, rfl, hlen, _⟩ := ht
  obtain ⟨u, v, huv⟩ := (isIn_iff _ _).mp h
  have hread : Reads ⟨(u ++ CANARY_PREFIX).reverse, hex ++ v⟩ hex
      ⟨hex.reverse ++ (u ++ CANARY_PREFIX).reverse, v⟩ := ⟨rfl, rfl⟩
  refine ⟨_, _, ?_, ((fuzzy_describes py.word hex hlen).ends_iff _ _).mpr
    ⟨hex, spread_self (fun c => (rfl : SameLetter c c)) hex, hread, fun h => nomatch h⟩⟩
  rw [← huv]
  simp [text]

theorem search_leaks (token response : Str) :
    (search py.word (fuzzy_pattern token) response).isSome = true ↔ Leaks py token response := by
  rw [← Option.ne_none_iff_isSome, Ne, search_eq_none, not_not]
  rfl

theorem redact_leaking {token : Str} (found : Bool × Str) (h : Leaks py token found.2) :
    redact py found token = (true, cleaned py token found.2) := by
  have hsearch := (search_leaks py token found.2).mpr h
  rw [redact, hsearch, Bool.or_true, if_pos rfl]
  rfl

theorem redact_clean {token : Str} (ht : IsToken token) (found : Bool × Str)
    (h : ¬ Leaks py token found.2) : redact py found token = found := by
  have hsearch : (search py.word (fuzzy_pattern token) found.2).isSome = false := by
    rw [Bool.eq_false_iff, Ne, search_leaks]
    exact h
  have hverbatim : isIn token found.2 = false := by
    rw [Bool.eq_false_iff]
    exact fun hin => h (leaks_of_verbatim py ht hin)
  rw [redact, hsearch, hverbatim, Bool.or_self, if_neg Bool.false_ne_true]

/-- Redacting one token brings back no other. -/
theorem leaks_of_cleaned {token other : Str} (ht : IsToken token) (ho : IsToken other)
    (response : Str) (h : Leaks py other (cleaned py token response)) :
    Leaks py other response := by
  obtain ⟨hex, rfl, hlen, _⟩ := ht
  obtain ⟨hex', rfl, hlen', hhex'⟩ := ho
  have hx := fuzzy_describes py.word hex' hlen'
  have havoid := fuzzy_avoids hex' hlen' hhex'
  obtain ⟨p, q, hbetween, hq, _⟩ := occurs_of_sub py.word hx (prefix_describes py.word) id
    mark_head mark_last havoid _ h
  obtain ⟨p', q', hbefore, hq', _⟩ := occurs_of_sub py.word hx
    (fuzzy_describes py.word hex hlen) id mark_head mark_last havoid response ⟨p, q, hbetween, hq⟩
  exact ⟨p', q', hbefore, hq'⟩

/-- A redacted token is gone. -/
theorem cleaned_own {token : Str} (ht : IsToken token) (response : Str) :
    ¬ Leaks py token (cleaned py token response) := by
  obtain ⟨hex, rfl, hlen, hhex⟩ := ht
  have hx := fuzzy_describes py.word hex hlen
  have havoid := fuzzy_avoids hex hlen hhex
  intro h
  obtain ⟨p, q, hbetween, hq, _⟩ := occurs_of_sub py.word hx (prefix_describes py.word) id
    mark_head mark_last havoid _ h
  exact sub_own py.word hx mark_head mark_last havoid response ⟨p, q, hbetween, hq⟩

/-- The loop of `detect`: whether a token leaked, and the response it leaves. -/
def detected (tokens : List Str) (response : Str) : Bool × Str :=
  tokens.foldl (redact py) (false, response)

theorem redact_absent {token other : Str} (ht : IsToken token) (ho : IsToken other)
    (found : Bool × Str) (h : ¬ Leaks py other found.2) :
    ¬ Leaks py other (redact py found token).2 := by
  by_cases hleak : Leaks py token found.2
  · rw [redact_leaking py found hleak]
    exact fun hback => h (leaks_of_cleaned py ht ho found.2 hback)
  · rwa [redact_clean py ht found hleak]

theorem redact_own {token : Str} (ht : IsToken token) (found : Bool × Str) :
    ¬ Leaks py token (redact py found token).2 := by
  by_cases hleak : Leaks py token found.2
  · rw [redact_leaking py found hleak]
    exact cleaned_own py ht found.2
  · rwa [redact_clean py ht found hleak]

theorem fold_absent (tokens : List Str) (htokens : ∀ t ∈ tokens, IsToken t) (other : Str)
    (ho : IsToken other) (found : Bool × Str)
    (h : other ∈ tokens ∨ ¬ Leaks py other found.2) :
    ¬ Leaks py other (tokens.foldl (redact py) found).2 := by
  induction tokens generalizing found with
  | nil => exact h.resolve_left List.not_mem_nil
  | cons t tokens ih =>
    have ht := htokens t List.mem_cons_self
    refine ih (fun u hu => htokens u (List.mem_cons_of_mem t hu)) (redact py found t) ?_
    rcases h with hmem | habsent
    · rcases List.mem_cons.mp hmem with rfl | hmem
      · exact .inr (redact_own py ht found)
      · exact .inl hmem
    · exact .inr (redact_absent py ht ho found habsent)

/-- A found leak stays found. -/
theorem fold_found (tokens : List Str) (response : Str) :
    (tokens.foldl (redact py) (true, response)).1 = true := by
  induction tokens generalizing response with
  | nil => rfl
  | cons t tokens ih =>
    rw [List.foldl_cons]
    have hkept : ∃ rest, redact py (true, response) t = (true, rest) := by
      rw [redact]
      split
      · exact ⟨_, rfl⟩
      · exact ⟨_, rfl⟩
    obtain ⟨rest, hrest⟩ := hkept
    rw [hrest]
    exact ih rest

theorem fold_clean (tokens : List Str) (htokens : ∀ t ∈ tokens, IsToken t) (found : Bool × Str)
    (h : ∀ t ∈ tokens, ¬ Leaks py t found.2) : tokens.foldl (redact py) found = found := by
  induction tokens with
  | nil => rfl
  | cons t tokens ih =>
    rw [List.foldl_cons,
      redact_clean py (htokens t List.mem_cons_self) _ (h t List.mem_cons_self)]
    exact ih (fun u hu => htokens u (List.mem_cons_of_mem t hu))
      (fun u hu => h u (List.mem_cons_of_mem t hu))

theorem detected_leak (tokens : List Str) (htokens : ∀ t ∈ tokens, IsToken t) (response : Str) :
    (detected py tokens response).1 = true ↔ ∃ t ∈ tokens, Leaks py t response := by
  induction tokens with
  | nil => simp [detected]
  | cons t tokens ih =>
    rw [List.exists_mem_cons_iff, detected, List.foldl_cons]
    by_cases hleak : Leaks py t response
    · rw [redact_leaking py _ hleak]
      exact iff_of_true (fold_found py tokens _) (.inl hleak)
    · rw [redact_clean py (htokens t List.mem_cons_self) _ hleak, or_iff_right hleak]
      exact ih (fun u hu => htokens u (List.mem_cons_of_mem t hu))

end Tokens

/-! ## The detection counter -/

/-- `_detection_counts.get(session_id, 0)` -/
def detections (counts : Entries Str Int) (session_id : Str) : Int :=
  (get counts session_id).getD 0

/-- A program run against `_detection_counts`; `detect` asks for nothing else. -/
def serve {α : Type} : Entries Str Int → M α → Except Exn α × Entries Str Int
  | counts, .done r => (r, counts)
  | counts, .emit _ p => serve counts p
  | counts, .ask e k =>
    match e, k with
    | .count_detection session_id, k =>
      let count := detections counts session_id + 1
      serve (put counts session_id count) (k count)
    | e, k => serve counts (k (calm e))

/-- One call of `detect`. -/
structure Call where
  response : Str
  tokens : List Str
  session_id : Str

section Sessions
variable (py : Runtime) (threshold : Int)

/-- The call leaks some token of its own. -/
def Call.leaks (c : Call) : Bool :=
  c.tokens.any (fun t => (search py.word (fuzzy_pattern t) c.response).isSome)

def serve_call (counts : Entries Str Int) (c : Call) : Except Exn Str × Entries Str Int :=
  serve counts (detect py true threshold c.response c.tokens c.session_id)

/-- The calls of a process one after another, each beside what it gave. -/
def serve_all : Entries Str Int → List Call → List (Call × Except Exn Str)
  | _, [] => []
  | counts, c :: calls =>
    let out := serve_call py threshold counts c
    (c, out.1) :: serve_all out.2 calls

theorem call_leaks_iff (c : Call) :
    c.leaks py = true ↔ ∃ t ∈ c.tokens, Leaks py t c.response := by
  simp only [Call.leaks, List.any_eq_true, search_leaks]

theorem detect_eq (response : Str) (tokens : List Str) (session_id : Str) :
    detect py true threshold response tokens session_id =
      if (detected py tokens response).1 && !session_id.isEmpty then
        .ask (Ask.count_detection session_id) (fun count =>
          .done (if threshold < count then .error canary_repeated
            else .ok (detected py tokens response).2))
      else .done (.ok (detected py tokens response).2) := by
  unfold detect detected
  by_cases hempty : tokens.isEmpty = true
  · rw [if_pos (by simp [hempty]), List.isEmpty_iff.mp hempty]
    rfl
  · rw [if_neg (by simp [hempty])]
    generalize tokens.foldl (redact py) (false, response) = found
    by_cases hcount : (found.1 && !session_id.isEmpty) = true
    · simp only [hcount, if_true]
      change (Prog.request (Ask.count_detection session_id)).bind _ = _
      rw [Prog.bind_request]
      congr 1
      funext count
      split <;> rfl
    · simp only [hcount]
      rfl

/-- A call takes the counter of its session one further if it leaks, and is refused once
that passes the threshold. -/
theorem serve_call_eq (counts : Entries Str Int) (c : Call) (htokens : ∀ t ∈ c.tokens, IsToken t) :
    serve_call py threshold counts c =
      if c.leaks py && !c.session_id.isEmpty then
        (if threshold < detections counts c.session_id + 1 then .error canary_repeated
          else .ok (detected py c.tokens c.response).2,
          put counts c.session_id (detections counts c.session_id + 1))
      else (.ok (detected py c.tokens c.response).2, counts) := by
  have hleaks : (detected py c.tokens c.response).1 = c.leaks py := by
    rw [Bool.eq_iff_iff, detected_leak py c.tokens htokens, call_leaks_iff]
  rw [serve_call, detect_eq, hleaks]
  split
  · rfl
  · rfl

theorem detections_put (counts : Entries Str Int) (session_id : Str) (n : Int) :
    detections (put counts session_id n) session_id = n := by
  rw [detections, get_put_same, Option.getD_some]

theorem detections_put_other (counts : Entries Str Int) (session_id other : Str) (n : Int)
    (h : session_id ≠ other) : detections (put counts other n) session_id =
      detections counts session_id := by
  rw [detections, get_put_other _ _ _ _ h, detections]

/-- The call leaks in the session. -/
def Call.leaks_in (session_id : Str) (c : Call) : Bool :=
  c.leaks py && decide (c.session_id = session_id)

/-- What one call means for a session: its leak is counted and answered as the count says,
anything else leaves the count alone. -/
theorem serve_call_session (counts : Entries Str Int) (c : Call)
    (htokens : ∀ t ∈ c.tokens, IsToken t) (session_id : Str) (hne : session_id ≠ []) :
    if c.leaks_in py session_id then
      detections (serve_call py threshold counts c).2 session_id =
          detections counts session_id + 1 ∧
        (serve_call py threshold counts c).1 =
          if threshold < detections counts session_id + 1 then .error canary_repeated
          else .ok (detected py c.tokens c.response).2
    else
      detections (serve_call py threshold counts c).2 session_id =
        detections counts session_id := by
  rw [serve_call_eq py threshold counts c htokens, Call.leaks_in]
  by_cases hleaks : c.leaks py = true
  · by_cases hsession : c.session_id = session_id
    · subst hsession
      simp [hleaks, hne, detections_put]
    · have hother : session_id ≠ c.session_id := fun h => hsession h.symm
      rw [if_neg (by simp [hsession])]
      split
      · exact detections_put_other counts session_id c.session_id _ hother
      · rfl
  · rw [if_neg (by simp [hleaks]), if_neg (by simp [hleaks])]

theorem serve_call_out (counts : Entries Str Int) (c : Call) (out : Str)
    (h : (serve_call py threshold counts c).1 = .ok out) :
    out = (detected py c.tokens c.response).2 := by
  rw [serve_call, detect_eq] at h
  split at h
  · rw [serve, serve] at h
    split at h
    · cases h
    · exact (Except.ok.inj h).symm
  · exact (Except.ok.inj h).symm

/-- The leaks a session gets back. -/
def returned (session_id : Str) (x : Call × Except Exn Str) : Bool :=
  x.1.leaks_in py session_id && x.2.isOk

section Run
variable (session_id : Str) (hne : session_id ≠ [])
include hne

theorem returned_le (calls : List Call) (htokens : ∀ c ∈ calls, ∀ t ∈ c.tokens, IsToken t)
    (counts : Entries Str Int) :
    ((serve_all py threshold counts calls).countP (returned py session_id)) ≤
      (threshold - detections counts session_id).toNat := by
  induction calls generalizing counts with
  | nil => exact Nat.zero_le _
  | cons c calls ih =>
    have hrest := ih (fun d hd => htokens d (List.mem_cons_of_mem c hd))
      (serve_call py threshold counts c).2
    have hone := serve_call_session py threshold counts c (htokens c List.mem_cons_self)
      session_id hne
    rw [serve_all, List.countP_cons, returned]
    by_cases hleak : c.leaks_in py session_id = true
    · rw [if_pos hleak] at hone
      rw [hone.1] at hrest
      by_cases hover : threshold < detections counts session_id + 1
      · rw [hone.2, if_pos hover, if_neg (by simp [Except.isOk, Except.toBool])]
        omega
      · rw [hone.2, if_neg hover]
        split <;> omega
    · rw [if_neg hleak] at hone
      rw [hone] at hrest
      rw [if_neg (by simp [hleak])]
      omega

/-- The count of a session is the number of its leaks. -/
theorem detections_after (before : List Call) (htokens : ∀ c ∈ before, ∀ t ∈ c.tokens, IsToken t)
    (counts : Entries Str Int) :
    detections (before.foldl (fun counts c => (serve_call py threshold counts c).2) counts)
      session_id = detections counts session_id + before.countP (Call.leaks_in py session_id) := by
  induction before generalizing counts with
  | nil => simp
  | cons c before ih =>
    have hone := serve_call_session py threshold counts c (htokens c List.mem_cons_self)
      session_id hne
    rw [List.foldl_cons, ih (fun d hd => htokens d (List.mem_cons_of_mem c hd)), List.countP_cons]
    by_cases hleak : c.leaks_in py session_id = true
    · rw [if_pos hleak] at hone
      rw [hone.1, if_pos hleak]
      push_cast
      omega
    · rw [if_neg hleak] at hone
      rw [hone, if_neg hleak]
      omega

omit hne in
theorem serve_all_append (before calls : List Call) (counts : Entries Str Int) :
    serve_all py threshold counts (before ++ calls) = serve_all py threshold counts before ++
      serve_all py threshold
        (before.foldl (fun counts c => (serve_call py threshold counts c).2) counts) calls := by
  induction before generalizing counts with
  | nil => rfl
  | cons c before ih => rw [List.cons_append, serve_all, ih, serve_all, List.foldl_cons,
      List.cons_append]

omit hne in
theorem length_serve_all (calls : List Call) (counts : Entries Str Int) :
    (serve_all py threshold counts calls).length = calls.length := by
  induction calls generalizing counts with
  | nil => rfl
  | cons c calls ih => rw [serve_all, List.length_cons, ih, List.length_cons]

theorem further_leak_raises (before after : List Call) (c : Call)
    (htokens : ∀ d ∈ before ++ c :: after, ∀ t ∈ d.tokens, IsToken t)
    (counts : Entries Str Int) (hleak : c.leaks_in py session_id = true)
    (hmany : threshold ≤ detections counts session_id +
      before.countP (Call.leaks_in py session_id)) :
    (serve_all py threshold counts (before ++ c :: after))[before.length]? =
      some (c, .error canary_repeated) := by
  have hcount := detections_after py threshold session_id hne before
    (fun d hd => htokens d (List.mem_append_left _ hd)) counts
  rw [serve_all_append, List.getElem?_append_right (length_serve_all ..).le, length_serve_all,
    Nat.sub_self, serve_all, List.getElem?_cons_zero]
  generalize before.foldl (fun counts c => (serve_call py threshold counts c).2) counts = now
    at hcount ⊢
  have hone := serve_call_session py threshold now c (htokens c (by simp)) session_id hne
  rw [if_pos hleak] at hone
  rw [hone.2, if_pos (by omega)]

end Run

/-- Of what `detect` returns no token can be read; a response without a leak comes back as it
is; and a session gets back as many leaking responses as the threshold says, after which
each one raises. -/
theorem canary_redaction :
    (∀ (tokens : List Str), (∀ t ∈ tokens, IsToken t) →
      ∀ (response session_id out : Str) (counts : Entries Str Int),
        (serve counts (detect py true threshold response tokens session_id)).1 = .ok out →
        ∀ t ∈ tokens, ¬ Leaks py t out) ∧
    (∀ (tokens : List Str), (∀ t ∈ tokens, IsToken t) →
      ∀ (response session_id : Str) (counts : Entries Str Int),
        (∀ t ∈ tokens, ¬ Leaks py t response) →
        serve counts (detect py true threshold response tokens session_id) =
          (.ok response, counts)) ∧
    (∀ (calls : List Call), (∀ c ∈ calls, ∀ t ∈ c.tokens, IsToken t) →
      ∀ session_id : Str, session_id ≠ [] →
        (serve_all py threshold [] calls).countP (returned py session_id) ≤ threshold.toNat ∧
        ∀ before c after, calls = before ++ c :: after → c.leaks_in py session_id = true →
          threshold.toNat ≤ before.countP (Call.leaks_in py session_id) →
          (serve_all py threshold [] calls)[before.length]? =
            some (c, .error canary_repeated)) := by
  refine ⟨?_, ?_, ?_⟩
  · intro tokens htokens response session_id out counts h t ht
    obtain rfl := serve_call_out py threshold counts ⟨response, tokens, session_id⟩ out h
    exact fold_absent py tokens htokens t (htokens t ht) (false, response) (.inl ht)
  · intro tokens htokens response session_id counts h
    rw [detect_eq, detected, fold_clean py tokens htokens (false, response) h]
    rfl
  · intro calls htokens session_id hne
    constructor
    · have hle := returned_le py threshold session_id hne calls htokens []
      simpa [detections] using hle
    · rintro before c after rfl hleak hmany
      refine further_leak_raises py threshold session_id hne before after c htokens [] hleak ?_
      simp only [detections, get_nil, Option.getD_none]
      omega

end Sessions

/-! ## A session that leaks twice -/

def sampleToken : Str := "CNRY-00112233445566778899aabbccddeeff".toList

def sampleCall : Call :=
  ⟨"Session: 0011-2233-4455-6677-8899-AABB-CCDD-EEFF".toList, [sampleToken], "s1".toList⟩

theorem sampleToken_isToken : ∀ t ∈ sampleCall.tokens, IsToken t := by
  intro t ht
  rw [List.mem_singleton.mp ht]
  exact ⟨"00112233445566778899aabbccddeeff".toList, by decide, by decide, by decide⟩

set_option maxRecDepth 20000 in
theorem sampleCall_redacted_once :
    ¬ Leaks asciiRuntime sampleToken "Session: [redacted]".toList ∧
      serve [] (detect asciiRuntime true 1 "All is well.".toList sampleCall.tokens []) =
        (.ok "All is well.".toList, []) ∧
      (serve_all asciiRuntime 1 [] [sampleCall, sampleCall])[1]? =
        some (sampleCall, .error canary_repeated) := by
  have hall := canary_redaction asciiRuntime 1
  have hcalls : ∀ c ∈ [sampleCall, sampleCall], ∀ t ∈ c.tokens, IsToken t := by
    intro c hc
    rw [show c = sampleCall by simpa using hc]
    exact sampleToken_isToken
  refine ⟨?_, ?_, ?_⟩
  · exact hall.1 sampleCall.tokens sampleToken_isToken sampleCall.response "s1".toList _ []
      (by rfl) sampleToken List.mem_cons_self
  · refine hall.2.1 sampleCall.tokens sampleToken_isToken _ [] [] ?_
    intro t ht
    have hnone : (search asciiRuntime.word (fuzzy_pattern sampleToken)
        "All is well.".toList).isSome = false := by rfl
    rw [List.mem_singleton.mp ht, ← search_leaks, hnone]
    decide
  · exact (hall.2.2 [sampleCall, sampleCall] hcalls "s1".toList (by decide)).2 [sampleCall]
      sampleCall [] rfl (by rfl) (by rfl)

end AigentSquad.CanaryRedaction

import AigentSquad.FoundMatches
import AigentSquad.ResponseQuality

/-!
# Grounding by whole tokens

What the id pattern and the figure pattern of the quality guard find in a text,
and when a token that occurs in the evidence is one of the tokens found there.
-/

set_option autoImplicit false

namespace AigentSquad.TokenGrounding
open AigentSquad.PyText AigentSquad.Regex AigentSquad.Substitution AigentSquad.FoundMatches
open AigentSquad.ResponseQuality

section Figures
variable (py : Runtime)

/-! ## Dollar figures -/

def Digits (w : Str) : Prop := ∀ c ∈ w, digit py c = true

instance (w : Str) : Decidable (Digits py w) :=
  inferInstanceAs (Decidable (∀ c ∈ w, digit py c = true))

/-- A thousands separator and its three digits. -/
def Group (g : Str) : Prop := ∃ ds, g = ',' :: ds ∧ ds.length = 3 ∧ Digits py ds

/-- One to three digits, then groups. -/
def Grouped (whole : Str) : Prop :=
  ∃ (front : Str) (groups : List Str), whole = front ++ groups.flatten ∧ 1 ≤ front.length ∧
    front.length ≤ 3 ∧ Digits py front ∧ ∀ g ∈ groups, Group py g

def Priced (Whole : Str → Prop) (a : Str) : Prop :=
  ∃ whole cents : Str, a = '$' :: (whole ++ '.' :: cents) ∧ Whole whole ∧ cents.length = 2 ∧
    Digits py cents

/-- What the figure pattern reads. -/
def Figure (a : Str) : Prop := Priced py (Grouped py) a

theorem mem_ends_digits (n : ℕ) (p q : Pos) :
    q ∈ ends py.word (times (.set (digit py)) n) p ↔
      ∃ ds : Str, Reads p ds q ∧ ds.length = n ∧ Digits py ds := by
  rw [times, mem_ends_rep_set py.word (digit py) n (some n) (fun h hh => (Option.some.inj hh).le)]
  constructor
  · rintro ⟨ds, hread, hlo, hhi, hall⟩
    exact ⟨ds, hread, Nat.le_antisymm (hhi n rfl) hlo, hall⟩
  · rintro ⟨ds, hread, rfl, hall⟩
    exact ⟨ds, hread, Nat.le_refl _, fun h hh => (Option.some.inj hh).le, hall⟩

theorem mem_ends_group (p q : Pos) :
    q ∈ ends py.word (.seq (lit ",".toList) (times (.set (digit py)) 3)) p ↔
      ∃ g, Group py g ∧ Reads p g q := by
  simp only [mem_ends_seq, mem_ends_lit, mem_ends_digits]
  constructor
  · rintro ⟨m, hm, ds, hread, hlen, hall⟩
    exact ⟨',' :: ds, ⟨ds, rfl, hlen, hall⟩, hm.trans hread⟩
  · rintro ⟨g, ⟨ds, rfl, hlen, hall⟩, hread⟩
    obtain ⟨m, hm, hrest⟩ := (reads_append p q [','] ds).mp hread
    exact ⟨m, hm, ds, hrest, hlen, hall⟩

theorem group_nonempty : ¬ Group py [] := by
  rintro ⟨ds, h, _⟩
  cases h

theorem mem_ends_numeric (p q : Pos) :
    q ∈ ends py.word (NUMERIC_CLAIM_PATTERN py) p ↔
      (∃ a, Figure py a ∧ Reads p a q) ∧ atBoundary py.word q = true := by
  simp only [NUMERIC_CLAIM_PATTERN, seqs, List.foldr_cons, List.foldr_nil, mem_ends_seq,
    mem_ends_lit, mem_ends_digits, Regex.star, mem_ends_rep py.word (mem_ends_group py)
    (group_nonempty py), mem_ends_rep_set py.word (digit py) 1 (some 3)
    (fun h hh => Option.some.inj hh ▸ (by decide)), mem_ends_boundary, mem_ends_empty]
  constructor
  · rintro ⟨m₁, h₁, m₂, ⟨front, h₂, hlo, hhi, hfront⟩, m₃, ⟨groups, h₃, _, hgroups⟩, m₄, h₄, m₅,
      ⟨cents, h₅, hlen, hcents⟩, _, ⟨rfl, hend⟩, rfl⟩
    refine ⟨⟨'$' :: (front ++ groups.flatten ++ '.' :: cents), ⟨_, cents, rfl,
      ⟨front, groups, rfl, hlo, hhi 3 rfl, hfront, hgroups⟩, hlen, hcents⟩, ?_⟩, hend⟩
    have hread := h₁.trans (h₂.trans (h₃.trans (h₄.trans h₅)))
    simpa using hread
  · rintro ⟨⟨a, ⟨whole, cents, rfl, ⟨front, groups, rfl, hlo, hhi, hfront, hgroups⟩, hlen,
      hcents⟩, hread⟩, hend⟩
    have hsplit : Reads p (['$'] ++ (front ++ (groups.flatten ++ (['.'] ++ cents)))) q := by
      simpa using hread
    obtain ⟨m₁, h₁, hsplit⟩ := (reads_append _ _ _ _).mp hsplit
    obtain ⟨m₂, h₂, hsplit⟩ := (reads_append _ _ _ _).mp hsplit
    obtain ⟨m₃, h₃, hsplit⟩ := (reads_append _ _ _ _).mp hsplit
    obtain ⟨m₄, h₄, h₅⟩ := (reads_append _ _ _ _).mp hsplit
    exact ⟨m₁, h₁, m₂, ⟨front, h₂, hlo, fun h hh => Option.some.inj hh ▸ hhi, hfront⟩, m₃,
      ⟨groups, h₃, Nat.zero_le _, hgroups⟩, m₄, h₄, q, ⟨cents, h₅, hlen, hcents⟩, q,
      ⟨rfl, hend⟩, rfl⟩

theorem digit_ascii (c : Char) (ha : isAscii c = true) (hc : c.isDigit = false) :
    digit py c = false := by
  rw [digit, py.decimal_ascii c ha, hc]
  rfl

/-- A character of the whole part of a figure. -/
def whole_char (c : Char) : Bool := digit py c || c = ','

theorem grouped_chars (whole : Str) (h : Grouped py whole) :
    ∀ c ∈ whole, whole_char py c = true := by
  obtain ⟨front, groups, rfl, _, _, hfront, hgroups⟩ := h
  intro c hc
  rcases List.mem_append.mp hc with hc | hc
  · simp [whole_char, hfront c hc]
  · obtain ⟨g, hg, hcg⟩ := List.mem_flatten.mp hc
    obtain ⟨ds, rfl, _, hds⟩ := hgroups g hg
    rcases List.mem_cons.mp hcg with rfl | hcd
    · simp [whole_char]
    · simp [whole_char, hds c hcd]

theorem point_stops : whole_char py '.' = false := by
  simp [whole_char, digit_ascii py '.' (by decide) (by decide)]

/-- Priced texts with such whole parts that begin at one point are the same. -/
theorem priced_unique {Whole Whole' : Str → Prop} {p q q' : Pos} {a a' : Str}
    (hW : ∀ w, Whole w → ∀ c ∈ w, whole_char py c = true)
    (hW' : ∀ w, Whole' w → ∀ c ∈ w, whole_char py c = true)
    (ha : Priced py Whole a) (ha' : Priced py Whole' a') (h : Reads p a q) (h' : Reads p a' q') :
    a = a' := by
  obtain ⟨w, c, rfl, hw, hc, _⟩ := ha
  obtain ⟨w', c', rfl, hw', hc', _⟩ := ha'
  have hafter : w ++ '.' :: (c ++ q.after) = w' ++ '.' :: (c' ++ q'.after) := by
    have heq := h.after.symm.trans h'.after
    simpa using heq
  obtain ⟨rfl, hcents⟩ := run_split (whole_char py) w w' _ _ '.' (hW w hw) (hW' w' hw')
    (point_stops py) hafter
  rw [(List.append_inj hcents (hc.trans hc'.symm)).1]

theorem dollar_not_in_figure (a : Str) (h : Figure py a) : ∃ t, a = '$' :: t ∧ '$' ∉ t := by
  obtain ⟨whole, cents, rfl, hwhole, _, hcents⟩ := h
  refine ⟨_, rfl, ?_⟩
  have hno : digit py '$' = false := digit_ascii py '$' (by decide) (by decide)
  intro hmem
  rcases List.mem_append.mp hmem with hmem | hmem
  · have hchar := grouped_chars py whole hwhole '$' hmem
    simp [whole_char, hno] at hchar
  · rcases List.mem_cons.mp hmem with hmem | hmem
    · cases hmem
    · rw [hcents '$' hmem] at hno
      cases hno

/-- The figures found are those that stand in the text up to a word boundary. -/
theorem mem_findall_numeric (s a : Str) :
    a ∈ findall py.word (NUMERIC_CLAIM_PATTERN py) s ↔
      Figure py a ∧ ∃ p q, text p = s ∧ Reads p a q ∧ atBoundary py.word q = true := by
  rw [mem_findall]
  constructor
  · rintro ⟨p, q, htried, htaken, hread⟩
    obtain ⟨⟨b, hb, hbread⟩, hend⟩ := (mem_ends_numeric py p q).mp (taken_mem py.word _ p q htaken)
    obtain rfl := reads_between hread hbread
    exact ⟨hb, p, q, tried_text py.word _ s p htried, hread, hend⟩
  · rintro ⟨ha, p, q, htext, hread, hend⟩
    obtain ⟨t, ht, _⟩ := dollar_not_in_figure py a ha
    have hfirst : ∀ p q w, q ∈ ends py.word (NUMERIC_CLAIM_PATTERN py) p → Reads p w q →
        ∃ t, w = '$' :: t ∧ '$' ∉ t := by
      intro p q w hends hw
      obtain ⟨⟨b, hb, hbread⟩, _⟩ := (mem_ends_numeric py p q).mp hends
      obtain rfl := reads_between hw hbread
      exact dollar_not_in_figure py w hb
    have htried := tried_of_first py.word _ '$' hfirst s p htext (by rw [hread.after, ht]; rfl)
    have hends : q ∈ ends py.word (NUMERIC_CLAIM_PATTERN py) p :=
      (mem_ends_numeric py p q).mpr ⟨⟨a, ha, hread⟩, hend⟩
    have hself : p ∉ ends py.word (NUMERIC_CLAIM_PATTERN py) p := by
      intro hself
      obtain ⟨t, ht, _⟩ := hfirst p p [] hself (.refl p)
      cases ht
    obtain ⟨q', hq'⟩ := taken_of_mem py.word _ p q hself hends
    obtain ⟨⟨b, hb, hbread⟩, _⟩ :=
      (mem_ends_numeric py p q').mp (taken_mem py.word _ p q' hq')
    obtain rfl := priced_unique py (grouped_chars py) (grouped_chars py) ha hb hread hbread
    exact ⟨p, q', htried, hq', hbread⟩

/-- The text stands in `s`, and what follows it is as said. -/
def Stands (stop : Pos → Prop) (s a : Str) : Prop :=
  ∃ p q, text p = s ∧ Reads p a q ∧ stop q

/-- No digit follows. -/
def Undigited (q : Pos) : Prop := ∀ c, q.after.head? = some c → digit py c = false

def Bounded (q : Pos) : Prop := atBoundary py.word q = true

def Whole (w : Str) : Prop := (w ≠ [] ∧ Digits py w) ∨ Grouped py w

/-- A dollar amount with cents, with or without thousands separators. -/
def Amount (a : Str) : Prop := Priced py (Whole py) a

/-- The response states the amount. -/
def Stated (response a : Str) : Prop := Amount py a ∧ Stands (Undigited py) response a

/-- The digits between the dollar sign and the first other character. -/
def leading (a : Str) : ℕ := ((a.drop 1).takeWhile (digit py)).length

theorem digit_point : digit py '.' = false := digit_ascii py '.' (by decide) (by decide)

theorem digit_comma : digit py ',' = false := digit_ascii py ',' (by decide) (by decide)

theorem leading_digits (w cents : Str) (h : Digits py w) :
    leading py ('$' :: (w ++ '.' :: cents)) = w.length := by
  have hstop : ∀ c, ('.' :: cents).head? = some c → digit py c = false := by
    intro c hc
    rw [← Option.some.inj hc]
    exact digit_point py
  rw [leading, List.drop_one, List.tail_cons, takeWhile_run (digit py) w _ h hstop]

theorem leading_figure (a : Str) (h : Figure py a) : leading py a ≤ 3 := by
  obtain ⟨_, cents, rfl, ⟨front, groups, rfl, _, hhi, hfront, hgroups⟩, _, _⟩ := h
  have hstop : ∀ c, (groups.flatten ++ '.' :: cents).head? = some c → digit py c = false := by
    intro c hc
    cases groups with
    | nil =>
      rw [← Option.some.inj hc]
      exact digit_point py
    | cons g groups =>
      obtain ⟨ds, rfl, _, _⟩ := hgroups g List.mem_cons_self
      rw [← Option.some.inj hc]
      exact digit_comma py
  rw [leading, List.drop_one, List.tail_cons, List.append_assoc,
    takeWhile_run (digit py) front _ hfront hstop]
  exact hhi

/-- The figure pattern reads the amounts with three leading digits at most. -/
theorem figure_iff (a : Str) (h : Amount py a) : Figure py a ↔ leading py a ≤ 3 := by
  constructor
  · exact leading_figure py a
  · intro hlead
    obtain ⟨w, cents, rfl, hw, hlen, hcents⟩ := h
    refine ⟨w, cents, rfl, ?_, hlen, hcents⟩
    rcases hw with ⟨hne, hdigits⟩ | hgrouped
    · rw [leading_digits py w cents hdigits] at hlead
      exact ⟨w, [], by simp, List.length_pos_iff.mpr hne, hlead, hdigits, by simp⟩
    · exact hgrouped

theorem mem_check_numeric (response infra_data a : Str) :
    a ∈ check_numeric_groundedness py response infra_data ↔
      (Figure py a ∧ Stands (Bounded py) response a) ∧ isIn a infra_data = false := by
  rw [check_numeric_groundedness, List.mem_filter, mem_findall_numeric, Bool.not_eq_true']
  rfl

/-- The amounts that are missing in the data are counted where each has three digits
at most before its first separator and ends at a word boundary somewhere. -/
theorem fabricated_amounts_counted_iff (response infra_data : Str) :
    (∀ a, Stated py response a → isIn a infra_data = false →
      a ∈ check_numeric_groundedness py response infra_data) ↔
    ∀ a, Stated py response a → isIn a infra_data = false →
      leading py a ≤ 3 ∧ Stands (Bounded py) response a := by
  have hone : ∀ a, Stated py response a → isIn a infra_data = false →
      (a ∈ check_numeric_groundedness py response infra_data ↔
        leading py a ≤ 3 ∧ Stands (Bounded py) response a) := by
    intro a hstated hmissing
    rw [mem_check_numeric, figure_iff py a hstated.1, and_iff_left hmissing]
  constructor
  · intro h a hstated hmissing
    exact (hone a hstated hmissing).mp (h a hstated hmissing)
  · intro h a hstated hmissing
    exact (hone a hstated hmissing).mpr (h a hstated hmissing)

end Figures

/-! ## Resource ids -/

section Ids
variable (py : Runtime)

def kinds : List Str :=
  "i".toList :: ["vol", "sg", "snap", "subnet", "vpc", "ami", "eni", "nat", "igw", "rtb", "acl",
    "vpce"].map String.toList

def hex_char : Char → Bool := ignoreCase hexDigit

def slug_char : Char → Bool := ignoreCase slugChar

/-- A character of the last part of an ARN. -/
def arn_char (c : Char) : Bool :=
  ignoreCase (fun c => py.word c || oneOf ['-', '/', ':', '.', '*'] c) c

def ResourceText (w : Str) : Prop :=
  ∃ kind hex : Str, w = kind ++ '-' :: hex ∧ kind.map foldCase ∈ kinds ∧ 8 ≤ hex.length ∧
    hex.length ≤ 17 ∧ ∀ c ∈ hex, hex_char c = true

def ArnText (w : Str) : Prop :=
  ∃ arn service region account tail : Str,
    w = arn ++ (service ++ ':' :: (region ++ ':' :: (account ++ ':' :: tail))) ∧
    arn.map foldCase = "arn:aws:".toList ∧ service ≠ [] ∧ (∀ c ∈ service, slug_char c = true) ∧
    (∀ c ∈ region, slug_char c = true) ∧ account.length = 12 ∧ Digits py account ∧
    tail ≠ [] ∧ ∀ c ∈ tail, arn_char py c = true

theorem mem_ends_kind (p q : Pos) :
    q ∈ ends py.word (alts (litIgnoreCase "i".toList) (["vol", "sg", "snap", "subnet", "vpc",
      "ami", "eni", "nat", "igw", "rtb", "acl", "vpce"].map (fun s => litIgnoreCase s.toList))) p ↔
      ∃ kind : Str, kind.map foldCase ∈ kinds ∧ Reads p kind q := by
  have hlist : litIgnoreCase "i".toList :: ["vol", "sg", "snap", "subnet", "vpc", "ami", "eni",
      "nat", "igw", "rtb", "acl", "vpce"].map (fun s => litIgnoreCase s.toList) =
      kinds.map litIgnoreCase := rfl
  rw [mem_ends_alts, hlist]
  simp only [List.mem_map, exists_exists_and_eq_and, mem_ends_litIgnoreCase]
  constructor
  · rintro ⟨k, hk, kind, rfl, hread⟩
    exact ⟨kind, hk, hread⟩
  · rintro ⟨kind, hk, hread⟩
    exact ⟨_, hk, kind, rfl, hread⟩

theorem resource_describes : Describes py.word resource_id true ResourceText where
  ends_iff := by
    intro p q
    simp only [resource_id, seqs, List.foldr_cons, List.foldr_nil, mem_ends_seq,
      mem_ends_boundary, mem_ends_kind, mem_ends_lit,
      mem_ends_rep_set py.word (ignoreCase hexDigit) 8 (some 17)
        (fun h hh => Option.some.inj hh ▸ (by decide)), mem_ends_empty]
    constructor
    · rintro ⟨_, ⟨rfl, hstart⟩, m₁, ⟨kind, hkind, h₁⟩, m₂, h₂, m₃, ⟨hex, h₃, hlo, hhi, hhex⟩,
        _, ⟨rfl, hend⟩, rfl⟩
      exact ⟨_, ⟨kind, hex, rfl, hkind, hlo, hhi 17 rfl, hhex⟩, h₁.trans (h₂.trans h₃),
        fun _ => ⟨hstart, hend⟩⟩
    · rintro ⟨_, ⟨kind, hex, rfl, hkind, hlo, hhi, hhex⟩, hread, hbounds⟩
      obtain ⟨hstart, hend⟩ := hbounds trivial
      obtain ⟨m₁, h₁, hread⟩ := (reads_append p q kind _).mp hread
      obtain ⟨m₂, h₂, h₃⟩ := (reads_append m₁ q ['-'] hex).mp hread
      exact ⟨p, ⟨rfl, hstart⟩, m₁, ⟨kind, hkind, h₁⟩, m₂, h₂, q,
        ⟨hex, h₃, hlo, fun h hh => Option.some.inj hh ▸ hhi, hhex⟩, q, ⟨rfl, hend⟩, rfl⟩
  nonempty := by
    rintro ⟨kind, hex, hnil, _⟩
    cases kind <;> cases hnil

theorem mem_ends_arn (p q : Pos) :
    q ∈ ends py.word (arn py) p ↔ ∃ w, ArnText py w ∧ Reads p w q := by
  simp only [arn, seqs, List.foldr_cons, List.foldr_nil, mem_ends_seq, mem_ends_litIgnoreCase,
    mem_ends_plus_set, mem_ends_lit, Regex.star, mem_ends_rep_set py.word (ignoreCase slugChar)
      0 none (fun _ h => nomatch h), mem_ends_digits, mem_ends_empty]
  constructor
  · rintro ⟨m₁, ⟨a, ha, h₁⟩, m₂, ⟨service, hs, h₂, hservice⟩, m₃, h₃, m₄,
      ⟨region, h₄, _, _, hregion⟩, m₅, h₅, m₆, ⟨account, h₆, hlen, haccount⟩, m₇, h₇, _,
      ⟨tail, ht, h₈, htail⟩, rfl⟩
    exact ⟨_, ⟨a, service, region, account, tail, rfl, ha, hs, hservice, hregion, hlen, haccount,
      ht, htail⟩, h₁.trans (h₂.trans (h₃.trans (h₄.trans (h₅.trans (h₆.trans (h₇.trans h₈))))))⟩
  · rintro ⟨_, ⟨a, service, region, account, tail, rfl, ha, hs, hservice, hregion, hlen, haccount,
      ht, htail⟩, hread⟩
    obtain ⟨m₁, h₁, hread⟩ := (reads_append _ _ a _).mp hread
    obtain ⟨m₂, h₂, hread⟩ := (reads_append _ _ service _).mp hread
    obtain ⟨m₃, h₃, hread⟩ := (reads_append _ _ [':'] _).mp hread
    obtain ⟨m₄, h₄, hread⟩ := (reads_append _ _ region _).mp hread
    obtain ⟨m₅, h₅, hread⟩ := (reads_append _ _ [':'] _).mp hread
    obtain ⟨m₆, h₆, hread⟩ := (reads_append _ _ account _).mp hread
    obtain ⟨m₇, h₇, h₈⟩ := (reads_append _ _ [':'] tail).mp hread
    exact ⟨m₁, ⟨a, ha, h₁⟩, m₂, ⟨service, hs, h₂, hservice⟩, m₃, h₃, m₄,
      ⟨region, h₄, Nat.zero_le _, (fun _ h => nomatch h), hregion⟩, m₅, h₅, m₆,
      ⟨account, h₆, hlen, haccount⟩, m₇, h₇, q, ⟨tail, ht, h₈, htail⟩, rfl⟩

/-- The match of an ARN that is preferred goes on as long as it can. -/
theorem head_arn (p q : Pos) (h : (ends py.word (arn py) p).head? = some q) :
    ∀ c, q.after.head? = some c → arn_char py c = false := by
  simp only [arn, seqs, List.foldr_cons, List.foldr_nil] at h
  obtain ⟨_, _, h⟩ := head_ends_seq py.word _ _ p q h
  obtain ⟨_, _, h⟩ := head_ends_seq py.word _ _ _ q h
  obtain ⟨_, _, h⟩ := head_ends_seq py.word _ _ _ q h
  obtain ⟨_, _, h⟩ := head_ends_seq py.word _ _ _ q h
  obtain ⟨_, _, h⟩ := head_ends_seq py.word _ _ _ q h
  obtain ⟨_, _, h⟩ := head_ends_seq py.word _ _ _ q h
  obtain ⟨m, _, h⟩ := head_ends_seq py.word _ _ _ q h
  have hlast : ∀ r : Rx, ends py.word (.seq r .empty) m = ends py.word r m := by
    intro r
    simp [ends]
  rw [hlast] at h
  exact head_rep_set py.word (arn_char py) 1 m q h

/-! One whole id at most begins at a point. -/

theorem hex_ascii (c : Char) (h : hex_char c = true) :
    isAscii c = true ∧ c.isAlphanum = true := by
  have hdigit : ∀ d, hexDigit d = true → isAscii d = true ∧ d.isAlphanum = true := by
    intro d hd
    simp only [hexDigit, Bool.or_eq_true, Bool.and_eq_true, decide_eq_true_eq, Char.isDigit,
      ge_iff_le, Char.le_def, UInt32.le_iff_toNat_le] at hd
    simp only [isAscii, Char.isAlphanum, isAlpha_eq, isLower_eq, isUpper_eq, Char.isDigit,
      Char.toNat, Bool.or_eq_true, Bool.and_eq_true, decide_eq_true_eq, ge_iff_le,
      UInt32.le_iff_toNat_le]
    simp only [UInt32.reduceToNat, Char.reduceVal] at hd ⊢
    omega
  have hfold : hexDigit (foldCase c) = true := h
  by_cases hupper : c.isUpper = true
  · rw [isUpper_eq, decide_eq_true_eq] at hupper
    simp only [ge_iff_le, UInt32.le_iff_toNat_le, Char.reduceVal, UInt32.reduceToNat] at hupper
    constructor
    · simp only [isAscii, Char.toNat, decide_eq_true_eq]
      omega
    · simp only [Char.isAlphanum, isAlpha_eq, isUpper_eq, Bool.or_eq_true, decide_eq_true_eq,
        ge_iff_le, UInt32.le_iff_toNat_le, Char.reduceVal, UInt32.reduceToNat]
      exact .inl (.inl hupper)
  · have hlower : c.toLower = c := toLower_of_not_upper c (Bool.eq_false_iff.mpr hupper)
    unfold foldCase at hfold
    split at hfold
    · exact absurd hfold (by decide)
    · split at hfold
      · exact absurd hfold (by decide)
      · split at hfold
        · exact absurd hfold (by decide)
        · rw [hlower] at hfold
          exact hdigit c hfold

theorem hex_word (c : Char) (h : hex_char c = true) : py.word c = true := by
  obtain ⟨hascii, halnum⟩ := hex_ascii c h
  rw [py.word_ascii c hascii, halnum, Bool.true_or]

/-- The hexadecimal digits of an id end at its end. -/
theorem hex_stops {p q : Pos} {kind hex : Str} (hread : Reads p (kind ++ '-' :: hex) q)
    (hlen : 8 ≤ hex.length) (hhex : ∀ c ∈ hex, hex_char c = true)
    (hend : atBoundary py.word q = true) :
    ∀ c, q.after.head? = some c → hex_char c = false := by
  intro c hc
  by_contra hok
  obtain ⟨h, d, rfl⟩ := List.eq_nil_or_concat hex |>.resolve_left
    (List.ne_nil_of_length_pos (by omega))
  have hbefore : q.before.head? = some d := by
    rw [(head_of_reads hread (by simp)).2, List.concat_eq_append]
    simp [List.getLast?_cons]
  rw [atBoundary, hbefore, hc, Option.any_some, Option.any_some,
    hex_word py d (hhex d (by simp)), hex_word py c (by simpa using hok)] at hend
  simp at hend

theorem resource_unique {p q q' : Pos} {w w' : Str} (hw : ResourceText w) (hw' : ResourceText w')
    (h : Reads p w q) (h' : Reads p w' q') (hend : atBoundary py.word q = true)
    (hend' : atBoundary py.word q' = true) : w = w' := by
  obtain ⟨kind, hex, rfl, hkind, hlo, _, hhex⟩ := hw
  obtain ⟨kind', hex', rfl, hkind', hlo', _, hhex'⟩ := hw'
  have hdash : ∀ kind : Str, kind.map foldCase ∈ kinds →
      ∀ c ∈ kind, (decide (c ≠ '-')) = true := by
    intro kind hkind c hc
    have hno : ∀ k ∈ kinds, '-' ∉ k := by decide
    rw [decide_eq_true_eq]
    rintro rfl
    exact hno _ hkind (List.mem_map_of_mem (f := foldCase) hc)
  have hafter : kind ++ '-' :: (hex ++ q.after) = kind' ++ '-' :: (hex' ++ q'.after) := by
    have heq := h.after.symm.trans h'.after
    simpa using heq
  obtain ⟨rfl, hrest⟩ := run_split (fun c => decide (c ≠ '-')) kind kind' _ _ '-'
    (hdash kind hkind) (hdash kind' hkind') (by decide) hafter
  rw [← takeWhile_run hex_char hex q.after hhex (hex_stops py h hlo hhex hend),
    ← takeWhile_run hex_char hex' q'.after hhex' (hex_stops py h' hlo' hhex' hend'), hrest]

theorem slug_stops : slug_char ':' = false := by decide

theorem arn_unique {p q q' : Pos} {w w' : Str} (hw : ArnText py w) (hw' : ArnText py w')
    (h : Reads p w q) (h' : Reads p w' q')
    (hend : ∀ c, q.after.head? = some c → arn_char py c = false)
    (hend' : ∀ c, q'.after.head? = some c → arn_char py c = false) : w = w' := by
  obtain ⟨a, service, region, account, tail, rfl, ha, _, hservice, hregion, hlen, _, _, htail⟩ := hw
  obtain ⟨a', service', region', account', tail', rfl, ha', _, hservice', hregion', hlen', _, _,
    htail'⟩ := hw'
  have hafter : a ++ (service ++ ':' :: (region ++ ':' :: (account ++ ':' :: (tail ++ q.after)))) =
      a' ++ (service' ++ ':' :: (region' ++ ':' :: (account' ++ ':' :: (tail' ++ q'.after)))) := by
    have heq := h.after.symm.trans h'.after
    simpa using heq
  have halen : a.length = a'.length := by
    have hone := congrArg List.length (ha.trans ha'.symm)
    simpa using hone
  obtain ⟨rfl, hservices⟩ := List.append_inj hafter halen
  obtain ⟨rfl, hregions⟩ :=
    run_split slug_char service service' _ _ ':' hservice hservice' slug_stops hservices
  obtain ⟨rfl, haccounts⟩ :=
    run_split slug_char region region' _ _ ':' hregion hregion' slug_stops hregions
  obtain ⟨rfl, htails⟩ := List.append_inj haccounts (hlen.trans hlen'.symm)
  obtain ⟨_, htails⟩ := List.cons.inj htails
  have htail_eq : tail = tail' := by
    rw [← takeWhile_run (arn_char py) tail q.after htail hend,
      ← takeWhile_run (arn_char py) tail' q'.after htail' hend', htails]
  rw [htail_eq]

/-- No text begins both as a resource id and as an ARN. -/
theorem resource_not_arn {w w' u u' : Str} (hw : ResourceText w) (hw' : ArnText py w')
    (h : w ++ u = w' ++ u') : False := by
  obtain ⟨kind, hex, rfl, hkind, _⟩ := hw
  obtain ⟨a, service, _, _, _, rfl, ha, _⟩ := hw'
  have hfold := congrArg (fun s => (List.map foldCase s).take 2) h
  have hkinds : ∀ k ∈ kinds, ∀ t : Str, (k ++ '-' :: t).take 2 ≠ "ar".toList := by
    intro k hk t
    simp only [kinds, List.map_cons, List.map_nil, List.mem_cons, List.not_mem_nil,
      or_false] at hk
    rcases hk with rfl | rfl | rfl | rfl | rfl | rfl | rfl | rfl | rfl | rfl | rfl | rfl | rfl
    all_goals
      intro heq
      cases heq
  simp only [List.map_append, List.append_assoc, ha, List.map_cons] at hfold
  exact hkinds _ hkind _ hfold

/-- The text `w` stands there as a whole id: a resource id between word boundaries,
or an ARN that no character of an ARN follows. -/
def Delimited (p : Pos) (w : Str) (q : Pos) : Prop :=
  Reads p w q ∧ ((ResourceText w ∧ atBoundary py.word p = true ∧ atBoundary py.word q = true) ∨
    (ArnText py w ∧ ∀ c, q.after.head? = some c → arn_char py c = false))

theorem taken_delimited (p q : Pos) (h : Taken py.word (RESOURCE_ID_PATTERN py) p q) :
    ∃ w, Delimited py p w q := by
  have hhead := taken_head py.word _ p q h
  rw [RESOURCE_ID_PATTERN, ends, List.head?_append] at hhead
  cases hres : (ends py.word resource_id p).head? with
  | some q' =>
    rw [hres, Option.some_or, Option.some.injEq] at hhead
    subst hhead
    obtain ⟨w, hw, hread, hbounds⟩ :=
      ((resource_describes py).ends_iff p q').mp (List.mem_of_mem_head? hres)
    exact ⟨w, hread, .inl ⟨hw, hbounds rfl⟩⟩
  | none =>
    rw [hres, Option.none_or] at hhead
    obtain ⟨w, hw, hread⟩ := (mem_ends_arn py p q).mp (List.mem_of_mem_head? hhead)
    exact ⟨w, hread, .inr ⟨hw, head_arn py p q hhead⟩⟩

theorem delimited_ends (p q : Pos) (w : Str) (h : Delimited py p w q) :
    q ∈ ends py.word (RESOURCE_ID_PATTERN py) p := by
  obtain ⟨hread, ⟨hw, hbounds⟩ | ⟨hw, _⟩⟩ := h
  · exact List.mem_append_left _ (((resource_describes py).ends_iff p q).mpr
      ⟨w, hw, hread, fun _ => hbounds⟩)
  · exact List.mem_append_right _ ((mem_ends_arn py p q).mpr ⟨w, hw, hread⟩)

theorem delimited_unique {p q q' : Pos} {w w' : Str} (h : Delimited py p w q)
    (h' : Delimited py p w' q') : w = w' := by
  have hafter : w ++ q.after = w' ++ q'.after := h.1.after.symm.trans h'.1.after
  obtain ⟨hread, ⟨hw, _, hend⟩ | ⟨hw, hend⟩⟩ := h
  · obtain ⟨hread', ⟨hw', _, hend'⟩ | ⟨hw', _⟩⟩ := h'
    · exact resource_unique py hw hw' hread hread' hend hend'
    · exact (resource_not_arn py hw hw' hafter).elim
  · obtain ⟨hread', ⟨hw', _, _⟩ | ⟨hw', hend'⟩⟩ := h'
    · exact (resource_not_arn py hw' hw hafter.symm).elim
    · exact arn_unique py hw hw' hread hread' hend hend'

theorem id_nonempty (p : Pos) : p ∉ ends py.word (RESOURCE_ID_PATTERN py) p := by
  intro h
  have hnil : ∀ w, Reads p w p → w = [] := fun w hw => reads_between hw (.refl p)
  rcases List.mem_append.mp h with h | h
  · obtain ⟨w, hw, hread, _⟩ := ((resource_describes py).ends_iff p p).mp h
    exact (resource_describes py).nonempty (hnil w hread ▸ hw)
  · obtain ⟨w, ⟨_, _, _, _, tail, rfl, _⟩, hread⟩ := (mem_ends_arn py p p).mp h
    have hlen := congrArg List.length (hnil _ hread)
    simp at hlen

theorem delimited_taken {p q : Pos} {w : Str} (h : Delimited py p w q) :
    Taken py.word (RESOURCE_ID_PATTERN py) p q := by
  obtain ⟨q', hq'⟩ := taken_of_mem py.word _ p q (id_nonempty py p) (delimited_ends py p q w h)
  obtain ⟨w', hw'⟩ := taken_delimited py p q' hq'
  obtain rfl := delimited_unique py h hw'
  rwa [(reads_unique h.1 hw'.1 rfl).2]

/-- The ids found are those that stand whole outside the ids found before them. -/
theorem mem_findall_ids (s w : Str) :
    w ∈ findall py.word (RESOURCE_ID_PATTERN py) s ↔
      ∃ p q, text p = s ∧ ¬ Covered py.word (RESOURCE_ID_PATTERN py) s p ∧ Delimited py p w q := by
  rw [mem_findall]
  constructor
  · rintro ⟨p, q, htried, htaken, hread⟩
    have htext := tried_text py.word _ s p htried
    obtain ⟨w', hw'⟩ := taken_delimited py p q htaken
    obtain rfl := reads_between hread hw'.1
    exact ⟨p, q, htext, (tried_iff py.word _ s p htext).mp htried, hw'⟩
  · rintro ⟨p, q, htext, hfree, hw⟩
    exact ⟨p, q, (tried_iff py.word _ s p htext).mpr hfree, delimited_taken py hw, hw.1⟩

end Ids

/-! ## What the guard lets pass -/

section Grounding
variable (py : Runtime)

/-- An id or figure of the response that is not reported is one of the data, as a whole. -/
structure GroundedByItself (response infra_data : Str) : Prop where
  ids : ∀ id ∈ findall py.word (RESOURCE_ID_PATTERN py) response,
    id ∉ find_ungrounded_resource_ids py response infra_data →
      ∃ known ∈ findall py.word (RESOURCE_ID_PATTERN py) infra_data, lower py known = lower py id
  figures : ∀ figure ∈ findall py.word (NUMERIC_CLAIM_PATTERN py) response,
    figure ∉ check_numeric_groundedness py response infra_data →
      figure ∈ findall py.word (NUMERIC_CLAIM_PATTERN py) infra_data

/-- Ignoring case, the id stands in the data as a whole id outside the ids before it. -/
def StandsWhole (infra_data id : Str) : Prop :=
  ∃ p w q, text p = infra_data ∧ ¬ Covered py.word (RESOURCE_ID_PATTERN py) infra_data p ∧
    Delimited py p w q ∧ lower py w = lower py id

theorem id_unreported_iff (response infra_data id : Str)
    (h : id ∈ findall py.word (RESOURCE_ID_PATTERN py) response) :
    id ∉ find_ungrounded_resource_ids py response infra_data ↔
      isIn (lower py id) (lower py infra_data) = true := by
  rw [find_ungrounded_resource_ids, List.mem_filter, Bool.not_eq_true', not_and,
    Bool.not_eq_false]
  exact ⟨fun hin => hin h, fun hin _ => hin⟩

theorem figure_unreported_iff (response infra_data figure : Str)
    (h : figure ∈ findall py.word (NUMERIC_CLAIM_PATTERN py) response) :
    figure ∉ check_numeric_groundedness py response infra_data ↔
      isIn figure infra_data = true := by
  rw [check_numeric_groundedness, List.mem_filter, Bool.not_eq_true', not_and, Bool.not_eq_false]
  exact ⟨fun hin => hin h, fun hin _ => hin⟩

theorem known_id_iff (infra_data id : Str) :
    (∃ known ∈ findall py.word (RESOURCE_ID_PATTERN py) infra_data,
      lower py known = lower py id) ↔ StandsWhole py infra_data id := by
  constructor
  · rintro ⟨known, hknown, hcase⟩
    obtain ⟨p, q, htext, hfree, hwhole⟩ := (mem_findall_ids py infra_data known).mp hknown
    exact ⟨p, known, q, htext, hfree, hwhole, hcase⟩
  · rintro ⟨p, w, q, htext, hfree, hwhole, hcase⟩
    exact ⟨w, (mem_findall_ids py infra_data w).mpr ⟨p, q, htext, hfree, hwhole⟩, hcase⟩

theorem known_figure_iff (response infra_data figure : Str)
    (h : figure ∈ findall py.word (NUMERIC_CLAIM_PATTERN py) response) :
    figure ∈ findall py.word (NUMERIC_CLAIM_PATTERN py) infra_data ↔
      Stands (Bounded py) infra_data figure := by
  have hfigure := ((mem_findall_numeric py response figure).mp h).1
  rw [mem_findall_numeric, and_iff_right hfigure]
  rfl

/-- Exactly where each id the data contains stands there whole, and each figure up to a
word boundary, does what passes as grounded occur in the data by itself. -/
theorem grounded_by_itself_iff (response infra_data : Str) :
    GroundedByItself py response infra_data ↔
      (∀ id ∈ findall py.word (RESOURCE_ID_PATTERN py) response,
        isIn (lower py id) (lower py infra_data) = true → StandsWhole py infra_data id) ∧
      ∀ figure ∈ findall py.word (NUMERIC_CLAIM_PATTERN py) response,
        isIn figure infra_data = true → Stands (Bounded py) infra_data figure := by
  constructor
  · intro h
    constructor
    · intro id hid hin
      exact (known_id_iff py infra_data id).mp
        (h.ids id hid ((id_unreported_iff py response infra_data id hid).mpr hin))
    · intro figure hfigure hin
      exact (known_figure_iff py response infra_data figure hfigure).mp (h.figures figure hfigure
        ((figure_unreported_iff py response infra_data figure hfigure).mpr hin))
  · rintro ⟨hids, hfigures⟩
    constructor
    · intro id hid hreported
      exact (known_id_iff py infra_data id).mpr
        (hids id hid ((id_unreported_iff py response infra_data id hid).mp hreported))
    · intro figure hfigure hreported
      exact (known_figure_iff py response infra_data figure hfigure).mpr (hfigures figure hfigure
        ((figure_unreported_iff py response infra_data figure hfigure).mp hreported))

end Grounding

def truncated : Str := "i-12345678 costs $12.34".toList

def recorded : Str := "i-1234567890abcdef0 costs $12.345".toList

set_option maxRecDepth 20000 in
/-- The cut id passes as grounded. -/
theorem truncated_tokens_pass : ¬ GroundedByItself asciiRuntime truncated recorded := by
  intro h
  have hids : findall asciiRuntime.word (RESOURCE_ID_PATTERN asciiRuntime) truncated =
      ["i-12345678".toList] := by rfl
  have hpass : find_ungrounded_resource_ids asciiRuntime truncated recorded = [] := by rfl
  obtain ⟨known, hknown, hcase⟩ := h.ids "i-12345678".toList (by simp [hids]) (by simp [hpass])
  have hall : findall asciiRuntime.word (RESOURCE_ID_PATTERN asciiRuntime) recorded =
      ["i-1234567890abcdef0".toList] := by rfl
  rw [hall, List.mem_singleton] at hknown
  subst hknown
  exact absurd hcase (by decide)

/-! ## An amount without separators -/

def billed : Str := "The bill is $12345.67.".toList

def collected : Str := "Total: $99.00".toList

set_option maxRecDepth 20000 in
/-- The amount goes uncounted and the answer passes with high confidence. -/
theorem unseparated_amount_uncounted :
    Stated asciiRuntime billed "$12345.67".toList ∧
      isIn "$12345.67".toList collected = false ∧
      "$12345.67".toList ∉ check_numeric_groundedness asciiRuntime billed collected ∧
      ResponseQuality.scan asciiRuntime true billed collected =
        .ok (some ⟨"high".toList, []⟩) := by
  refine ⟨⟨⟨"12345".toList, "67".toList, rfl, .inl ⟨by simp, ?_⟩, rfl, ?_⟩,
    ⟨"The bill is ".toList.reverse, "$12345.67.".toList⟩,
    ⟨"The bill is $12345.67".toList.reverse, ".".toList⟩, by decide, ⟨by decide, by decide⟩, ?_⟩,
    ?_, ?_, ?_⟩
  · decide
  · decide
  · intro c hc
    rw [← Option.some.inj hc]
    decide
  · rfl
  · have hnone : check_numeric_groundedness asciiRuntime billed collected = [] := by rfl
    rw [hnone]
    exact List.not_mem_nil
  · rfl

end AigentSquad.TokenGrounding

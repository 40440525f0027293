import AigentSquad.SecretTexts

/-!
# The replacement that begins with a word

`Bearer <redacted:token>` writes the word in one way. The word is no part of a
new match of any pattern: with the case it had in the text it was one before.
-/

set_option autoImplicit false

namespace AigentSquad.BearerReplacement
open AigentSquad.PyText AigentSquad.Regex AigentSquad.Substitution AigentSquad.Redactor
open AigentSquad.SecretTexts

/-- A bearer match is the longest there is. -/
theorem bearer_longest (word : Char → Bool) (p q : Pos) (h : Taken word bearer p q) :
    ∀ c, q.after.head? = some c → bearer_char c = false := by
  have hhead := taken_head word bearer p q h
  obtain ⟨m₁, _, hhead⟩ := head_ends_seq word _ _ p q hhead
  obtain ⟨m₂, _, hhead⟩ := head_ends_seq word _ _ m₁ q hhead
  have hends : ends word (seqs [plus (.set bearer_char)]) m₂ =
      ends word (.rep (.set bearer_char) 1 none) m₂ := by
    simp [seqs, plus, ends]
  exact head_rep_set word bearer_char 1 m₂ q (hends ▸ hhead)

/-- The same character, or the same letter in any case. -/
def Alike (c d : Char) : Prop :=
  c = d ∨ (c.isAlpha = true ∧ d.isAlpha = true ∧ foldCase c = foldCase d)

theorem alpha_of_fold (c d : Char) (hd : d ∈ "bearer".toList) (h : foldCase c = d) :
    c.isAlpha = true := by
  have hletters : ∀ e ∈ "bearer".toList, e.isAlpha = true ∧ e ≠ 's' ∧ e ≠ 'k' ∧ e ≠ 'i' := by
    decide
  obtain ⟨halpha, hs, hk, hi⟩ := hletters d hd
  unfold foldCase at h
  split at h
  · exact absurd h.symm hs
  · split at h
    · exact absurd h.symm hk
    · split at h
      · exact absurd h.symm hi
      · rw [isAlpha_eq]
        cases hupper : c.isUpper with
        | true => rfl
        | false =>
          rw [toLower_of_not_upper c hupper] at h
          subst h
          rwa [isAlpha_eq, hupper] at halpha

theorem bearer_letters (b : Str) (hb : b.map foldCase = "bearer".toList) :
    ∀ c ∈ b, c.isAlpha = true := by
  intro c hc
  exact alpha_of_fold c (foldCase c) (hb ▸ List.mem_map_of_mem hc) rfl

/-- A part of the replacement without a bracket, not ending in a blank. -/
theorem bearer_front (l t : Str) (h : bearer_repl = l ++ t) (hl : '<' ∉ l)
    (hblank : l.getLast? ≠ some ' ') :
    l.length ≤ 6 ∧ l = "Bearer".toList.take l.length ∧ t = bearer_repl.drop l.length := by
  have htake : l = bearer_repl.take l.length := by
    rw [h, List.take_left]
  have hdrop : t = bearer_repl.drop l.length := by
    rw [h, List.drop_left]
  have hlen : l.length ≤ 6 := by
    by_contra hmore
    rcases Nat.lt_or_ge 7 l.length with hlong | hseven
    · apply hl
      rw [htake]
      have hmem : '<' ∈ bearer_repl.take 8 := by decide
      exact (List.take_subset_take_left bearer_repl hlong) hmem
    · have heq : l.length = 7 := by omega
      rw [htake, heq] at hblank
      exact hblank (by decide)
  refine ⟨hlen, ?_, hdrop⟩
  have hfront : "Bearer".toList = bearer_repl.take 6 := by decide
  rw [hfront, List.take_take, Nat.min_eq_left hlen]
  exact htake

/-- Where a piece `k ++ l` of the output comes from: `l` is the front of a
replaced match, in whatever case it stands in the text. -/
structure Recased (word : Char → Bool) (s : Str) (o : Option Char) (k l v : Str) (p : Pos)
    (m : Str) (q : Pos) : Prop where
  text : text p = s
  kept : ∀ q', ¬ Taken word bearer p q'
  link : Link word bearer '>' o p
  reads : Reads p (k ++ m) q
  alike : List.Forall₂ Alike m l
  letters : ∀ c ∈ l, c.isAlpha = true
  next : v.head?.any word = q.after.head?.any word
  front : l ≠ [] → l = "Bearer".toList.take l.length ∧ v.head? = (bearer_repl.drop l.length).head?

theorem ascii_of_alpha (c : Char) (hc : c.isAlpha = true) : isAscii c = true := by
  simp only [isAlpha_eq, isUpper_eq, isLower_eq, Bool.or_eq_true, Bool.and_eq_true,
    decide_eq_true_eq, UInt32.le_iff_toNat_le, ge_iff_le] at hc
  have hval : c.toNat = c.val.toNat := rfl
  have hupper : 'Z'.val.toNat = 90 := rfl
  have hlower : 'z'.val.toNat = 122 := rfl
  rw [isAscii, decide_eq_true_eq]
  omega

theorem alpha_word (py : Runtime) (c : Char) (hc : c.isAlpha = true) : py.word c = true := by
  rw [py.word_ascii c (ascii_of_alpha c hc), Char.isAlphanum, hc]
  rfl

theorem alike_of_fold (b c : Str) (h : b.map foldCase = c.map foldCase)
    (hb : ∀ x ∈ b, x.isAlpha = true) (hc : ∀ x ∈ c, x.isAlpha = true) :
    List.Forall₂ Alike b c := by
  induction b generalizing c with
  | nil =>
    rw [List.map_eq_nil_iff.mp h.symm]
    exact .nil
  | cons x b ih =>
    cases c with
    | nil => cases h
    | cons y c =>
      rw [List.map_cons, List.map_cons, List.cons.injEq] at h
      obtain ⟨hx, hb⟩ := List.forall_mem_cons.mp hb
      obtain ⟨hy, hc⟩ := List.forall_mem_cons.mp hc
      exact .cons (.inr ⟨hx, hy, h.1⟩) (ih c h.2 hb hc)

theorem any_head (ok : Char → Bool) (s : Str) (h : s ≠ []) (b : Bool)
    (hall : ∀ c ∈ s, ok c = b) (t : Str) : (s ++ t).head?.any ok = b := by
  cases s with
  | nil => exact absurd rfl h
  | cons c s => exact hall c List.mem_cons_self

/-- Two texts go on alike: with the same character, with a letter each, or with
a blank where the replacement has its own. -/
def GoOn (v rest : Str) : Prop :=
  v.head? = rest.head? ∨
    (v.head?.any Char.isAlpha = true ∧ rest.head?.any Char.isAlpha = true) ∨
    (v.head? = some ' ' ∧ rest.head?.any isspace = true)

theorem word_of_any_alpha (py : Runtime) (o : Option Char) (h : o.any Char.isAlpha = true) :
    o.any py.word = true := by
  cases o with
  | none => cases h
  | some c => exact alpha_word py c h

theorem goOn_word (py : Runtime) (hspace : ∀ c, isspace c = true → py.word c = false)
    (v rest : Str) (h : GoOn v rest) : v.head?.any py.word = rest.head?.any py.word := by
  rcases h with h | ⟨hv, hrest⟩ | ⟨hv, hrest⟩
  · rw [h]
  · rw [word_of_any_alpha py _ hv, word_of_any_alpha py _ hrest]
  · rw [hv, Option.any_some, hspace ' ' (by decide)]
    cases hhead : rest.head? with
    | none => rfl
    | some c =>
      rw [hhead] at hrest
      exact (hspace c hrest).symm

/-- Behind the part of a match that the front of the replacement stands for, text
and output go on with a letter, or both with a blank. -/
theorem bearer_goOn (b s t : Str) (n : ℕ) (hn : n ≤ 6) (hb : b.map foldCase = "bearer".toList)
    (hs : s ≠ []) (hblank : ∀ c ∈ s, isspace c = true) (rest : Str) :
    GoOn (bearer_repl.drop n) (b.drop n ++ (s ++ t) ++ rest) := by
  have hlen : b.length = 6 := by
    rw [← List.length_map (f := foldCase), hb]
    rfl
  rcases Nat.lt_or_ge n 6 with hless | hsix
  · refine .inr (.inl ⟨?_, ?_⟩)
    · have hsplit : bearer_repl.drop n =
          "Bearer".toList.drop n ++ " <redacted:token>".toList := by
        have hwhole : bearer_repl = "Bearer".toList ++ " <redacted:token>".toList := by decide
        rw [hwhole, List.drop_append_of_le_length (Nat.le_of_lt hless)]
      have hfront : "Bearer".toList.drop n ≠ [] := by
        intro hnil
        rw [List.drop_eq_nil_iff] at hnil
        exact absurd hnil (Nat.not_le.mpr hless)
      have hletters : ∀ c ∈ "Bearer".toList, c.isAlpha = true := by decide
      rw [hsplit]
      exact any_head Char.isAlpha _ hfront true
        (fun c hc => hletters c (List.mem_of_mem_drop hc)) _
    · have hdrop : b.drop n ≠ [] := by
        intro hnil
        rw [List.drop_eq_nil_iff] at hnil
        omega
      rw [List.append_assoc]
      exact any_head Char.isAlpha _ hdrop true
        (fun c hc => bearer_letters b hb c (List.mem_of_mem_drop hc)) _
  · have hn6 : n = 6 := Nat.le_antisymm hn hsix
    subst hn6
    refine .inr (.inr ⟨by decide, ?_⟩)
    rw [List.drop_eq_nil_of_le (Nat.le_of_eq hlen), List.nil_append, List.append_assoc]
    exact any_head isspace s hs true hblank _

/-- The text that a piece `k ++ l` of the output stands for, when its `l` may be
the front of a replacement. -/
theorem bearer_leaves (word : Char → Bool) (p : Pos) (k l v : Str)
    (h : Leaves word bearer bearer_repl p k l v) (hopen : '<' ∉ k ++ l)
    (hblank : (k ++ l).getLast? ≠ some ' ') :
    ∃ m q, Reads p (k ++ m) q ∧ List.Forall₂ Alike m l ∧ (∀ c ∈ l, c.isAlpha = true) ∧
      GoOn v q.after ∧ (l ≠ [] → l = "Bearer".toList.take l.length ∧
        v.head? = (bearer_repl.drop l.length).head?) := by
  obtain ⟨q, hread, ⟨rfl, hsame⟩ | ⟨q', t, v', htaken, hrepl, hv⟩⟩ := h
  · refine ⟨[], q, ?_, .nil, List.forall_mem_nil _, .inl hsame, fun h => absurd rfl h⟩
    rwa [List.append_nil]
  · have hlast : l.getLast? ≠ some ' ' := by
      intro h
      rw [List.getLast?_append, h] at hblank
      exact hblank rfl
    obtain ⟨hlen, hl, ht⟩ := bearer_front l t hrepl
      (fun h => hopen (List.mem_append_right k h)) hlast
    obtain ⟨m₀, ⟨b, sp, tok, rfl, hb, hsp, _, hspaces, _⟩, hmatch, _⟩ :=
      ((bearer_describes word).ends_iff q q').mp (taken_mem word bearer q q' htaken)
    have hsplit : b ++ (sp ++ tok) = b.take l.length ++ (b.drop l.length ++ (sp ++ tok)) := by
      rw [← List.append_assoc (b.take _), List.take_append_drop]
    rw [hsplit] at hmatch
    obtain ⟨q₁, hfront, hrest⟩ := (reads_append _ _ _ _).mp hmatch
    have hletters : ∀ c ∈ "Bearer".toList, c.isAlpha = true := by decide
    have hwhole : List.Forall₂ Alike b "Bearer".toList :=
      alike_of_fold b _ (hb.trans (by decide)) (bearer_letters b hb) hletters
    have hne : t ≠ [] := by
      rw [ht]
      intro hnil
      rw [List.drop_eq_nil_iff] at hnil
      exact absurd (Nat.le_trans hnil hlen) (by decide)
    have hhead : v.head? = (bearer_repl.drop l.length).head? := by
      rw [hv, List.head?_append_of_ne_nil _ hne, ht]
    refine ⟨b.take l.length, q₁, hread.trans hfront, ?_, ?_, ?_, fun _ => ⟨hl, hhead⟩⟩
    · have htake := List.forall₂_take l.length hwhole
      rwa [← hl] at htake
    · intro c hc
      rw [hl] at hc
      exact hletters c (List.mem_of_mem_take hc)
    · rw [GoOn, hhead, hrest.after]
      exact bearer_goOn b sp tok l.length hlen hb hsp hspaces q'.after

theorem bearer_traced (py : Runtime) (hspace : ∀ c, isspace c = true → py.word c = false)
    (s u w v : Str) (hopen : '<' ∉ w) (hclose : '>' ∉ w)
    (hblank : w.getLast? ≠ some ' ') (hin : ¬ w <:+: bearer_repl)
    (hout : sub py.word bearer bearer_repl s = u ++ (w ++ v)) :
    ∃ k l p m q, w = k ++ l ∧ k ≠ [] ∧ Recased py.word s u.getLast? k l v p m q := by
  obtain ⟨p, k, l, rfl, hk, htrace⟩ :=
    sub_traced py.word bearer bearer_repl '>' rfl s u w v hclose hin hout
  obtain ⟨m, q, hread, halike, hletters, hgo, hfront⟩ :=
    bearer_leaves py.word p k l v htrace.leaves hopen hblank
  exact ⟨k, l, p, m, q, rfl, hk, htrace.text, htrace.kept, htrace.link, hread, halike, hletters,
    goOn_word py hspace v q.after hgo, hfront⟩

/-! ## Emails -/

theorem alike_append_right (w a b : Str) (h : List.Forall₂ Alike w (a ++ b)) :
    ∃ a' b', w = a' ++ b' ∧ List.Forall₂ Alike a' a ∧ List.Forall₂ Alike b' b :=
  ⟨w.take a.length, w.drop a.length, (List.take_append_drop _ _).symm,
    List.forall₂_take_append w a b h, List.forall₂_drop_append w a b h⟩

theorem alike_refl (w : Str) : List.Forall₂ Alike w w := List.forall₂_same.mpr (fun _ _ => .inl rfl)

/-- A set with all letters holds what is alike to its members. -/
theorem alike_all (ok : Char → Bool) (hok : ∀ c, c.isAlpha = true → ok c = true) (a b : Str)
    (h : List.Forall₂ Alike a b) (hb : ∀ c ∈ b, ok c = true) : ∀ c ∈ a, ok c = true := by
  induction h with
  | nil => exact List.forall_mem_nil _
  | @cons x y a b hxy _ ih =>
    obtain ⟨hy, hb⟩ := List.forall_mem_cons.mp hb
    refine List.forall_mem_cons.mpr ⟨?_, ?_⟩
    · rcases hxy with rfl | ⟨hx, _, _⟩
      · exact hy
      · exact hok x hx
    · exact ih hb

theorem alike_mark (a : Str) (c : Char) (hc : c.isAlpha = false)
    (h : List.Forall₂ Alike a [c]) : a = [c] := by
  obtain ⟨x, a', hx, hnil, rfl⟩ := List.forall₂_cons_right_iff.mp h
  rw [List.forall₂_nil_right_iff.mp hnil]
  rcases hx with rfl | ⟨_, halpha, _⟩
  · rfl
  · rw [hc] at halpha
    cases halpha

theorem alike_ne_nil {a b : Str} (h : List.Forall₂ Alike a b) (hb : b ≠ []) : a ≠ [] := by
  rintro rfl
  exact hb (List.forall₂_nil_left_iff.mp h)

theorem email_alike (py : Runtime) (w w' : Str) (h : List.Forall₂ Alike w' w)
    (hw : EmailText py w) : EmailText py w' := by
  obtain ⟨l, d, t, rfl, hl, hd, ht, hlocal, hdomain, htail⟩ := hw.parts
  obtain ⟨l', w₁, rfl, hl', h₁⟩ := alike_append_right _ _ _ h
  obtain ⟨x, w₂, rfl, hx, h₂⟩ := alike_append_right _ _ _ h₁
  obtain ⟨d', w₃, rfl, hd', h₃⟩ := alike_append_right _ _ _ h₂
  obtain ⟨y, t', rfl, hy, ht'⟩ := alike_append_right _ _ _ h₃
  rw [alike_mark x '@' (by decide) hx, alike_mark y '.' (by decide) hy]
  refine ⟨l', d', t', rfl, alike_ne_nil hl' hl, alike_ne_nil hd' hd, alike_ne_nil ht' ht,
    alike_all _ ?_ _ _ hl' hlocal, alike_all _ ?_ _ _ hd' hdomain, alike_all _ ?_ _ _ ht' htail⟩
  · intro c hc
    rw [local_char, alpha_word py c hc]
    rfl
  · intro c hc
    rw [domain_char, alpha_word py c hc]
    rfl
  · intro c hc
    rw [tail_char, alpha_word py c hc]
    rfl

/-- An email address may start at any word character: what stands before it is a
boundary or a part of it. -/
theorem email_extends (py : Runtime) (p q : Pos) (w : Str) (hw : EmailText py w)
    (hread : Reads p w q) (hhead : p.after.head?.any py.word = true)
    (hend : atBoundary py.word q = true) : Occurs py.word (email py) (text p) := by
  obtain ⟨b, a⟩ := p
  induction b generalizing w a with
  | nil =>
    refine ⟨_, q, rfl, ((email_describes py).ends_iff _ _).mpr ⟨w, hw, hread, fun _ => ⟨?_, hend⟩⟩⟩
    rw [atBoundary, hhead]
    rfl
  | cons c b ih =>
    cases hc : py.word c with
    | false =>
      refine ⟨_, q, rfl,
        ((email_describes py).ends_iff _ _).mpr ⟨w, hw, hread, fun _ => ⟨?_, hend⟩⟩⟩
      rw [atBoundary, hhead, List.head?_cons, Option.any_some, hc]
      rfl
    | true =>
      obtain ⟨l, d, t, rfl, hl, hd, ht, hlocal, hdomain, htail⟩ := hw.parts
      have hlonger : EmailText py (c :: (l ++ (['@'] ++ (d ++ (['.'] ++ t))))) := by
        refine ⟨c :: l, d, t, rfl, List.cons_ne_nil c l, hd, ht, ?_, hdomain, htail⟩
        refine List.forall_mem_cons.mpr ⟨?_, hlocal⟩
        rw [local_char, hc]
        rfl
      have hback : Reads ⟨b, c :: a⟩ [c] ⟨c :: b, a⟩ := ⟨rfl, rfl⟩
      have hoccurs := ih _ hlonger (c :: a) (hback.trans hread) (by simp [hc])
      have htext : text ⟨b, c :: a⟩ = text ⟨c :: b, a⟩ := by simp [text]
      rwa [htext] at hoccurs

/-- The piece of the text ends at a boundary where the piece of the output does. -/
theorem recased_end (py : Runtime) {s k l v m : Str} {o : Option Char} {p q p₀ q₀ : Pos}
    (h : Recased py.word s o k l v p m q) (hk : k ≠ []) (hread : Reads p₀ (k ++ l) q₀)
    (hv : v = q₀.after) (hend : atBoundary py.word q₀ = true) : atBoundary py.word q = true := by
  have hlast : (k ++ m).getLast?.any py.word = (k ++ l).getLast?.any py.word := by
    cases hl : l with
    | nil =>
      have halike := h.alike
      rw [hl] at halike
      rw [List.forall₂_nil_right_iff.mp halike]
    | cons c l' =>
      have hne : l ≠ [] := by
        rw [hl]
        exact List.cons_ne_nil c l'
      have hm := alike_ne_nil h.alike hne
      have hletters := alike_all Char.isAlpha (fun _ hc => hc) m l h.alike h.letters
      rw [← hl, List.getLast?_append_of_ne_nil _ hm, List.getLast?_append_of_ne_nil _ hne,
        List.getLast?_eq_some_getLast hm, List.getLast?_eq_some_getLast hne, Option.any_some,
        Option.any_some, alpha_word py _ (hletters _ (List.getLast_mem hm)),
        alpha_word py _ (h.letters _ (List.getLast_mem hne))]
  have hne : k ++ m ≠ [] := List.append_ne_nil_of_left_ne_nil hk m
  have hne₀ : k ++ l ≠ [] := List.append_ne_nil_of_left_ne_nil hk l
  rw [atBoundary, (head_of_reads h.reads hne).2, hlast, ← h.next, hv,
    ← (head_of_reads hread hne₀).2]
  exact hend

theorem recased_head {word : Char → Bool} {s k l v m : Str} {o : Option Char} {p q p₀ q₀ : Pos}
    (h : Recased word s o k l v p m q) (hk : k ≠ []) (hread : Reads p₀ (k ++ l) q₀) :
    p.after.head? = p₀.after.head? := by
  rw [(head_of_reads h.reads (List.append_ne_nil_of_left_ne_nil hk m)).1,
    (head_of_reads hread (List.append_ne_nil_of_left_ne_nil hk l)).1,
    List.head?_append_of_ne_nil _ hk, List.head?_append_of_ne_nil _ hk]

/-- Writing `Bearer` in one way makes no email address. -/
theorem email_of_bearer_sub (py : Runtime)
    (hspace : ∀ c, isspace c = true → py.word c = false) (s : Str)
    (h : Occurs py.word (email py) (sub py.word bearer bearer_repl s)) :
    Occurs py.word (email py) s := by
  obtain ⟨p₀, q₀, htext, hq⟩ := h
  obtain ⟨w, hw, hread, hbounds⟩ := ((email_describes py).ends_iff p₀ q₀).mp hq
  obtain ⟨hstart, hend⟩ := hbounds rfl
  obtain ⟨hopen, hclose, hin⟩ := email_avoids py (by decide : '@' ∉ bearer_repl) w hw
  have hblank : w.getLast? ≠ some ' ' :=
    fun h => email_not_mem py w hw ' ' (by decide) (List.mem_of_getLast? h)
  have hout : sub py.word bearer bearer_repl s = p₀.before.reverse ++ (w ++ q₀.after) := by
    rw [← htext, text, hread.after]
  obtain ⟨k, l, p, m, q, rfl, hk, hrecased⟩ :=
    bearer_traced py hspace s _ w q₀.after hopen hclose hblank hin hout
  have hemail : EmailText py (k ++ m) :=
    email_alike py (k ++ l) (k ++ m) (List.rel_append (alike_refl k) hrecased.alike) hw
  have hend' := recased_end py hrecased hk hread rfl hend
  have hhead := recased_head hrecased hk hread
  rw [← hrecased.text]
  rcases hrecased.link with hsame | ⟨hafter, _⟩
  · rw [List.getLast?_reverse] at hsame
    refine ⟨p, q, rfl, ((email_describes py).ends_iff p q).mpr
      ⟨k ++ m, hemail, hrecased.reads, fun _ => ⟨?_, hend'⟩⟩⟩
    rw [atBoundary, ← hsame, hhead]
    exact hstart
  · -- the match taken before it does not end in a boundary
    rw [List.getLast?_reverse] at hafter
    apply email_extends py p q (k ++ m) hemail hrecased.reads ?_ hend'
    rw [atBoundary, hafter, Option.any_some, py.word_ascii '>' (by decide)] at hstart
    rw [hhead]
    simpa using hstart

/-! ## Keys -/

/-- The front of the replacement stands in the body of a key. -/
theorem front_in_body (before body k l : Str) (hb : 'B' ∉ before)
    (hl : l = "Bearer".toList.take l.length) (h : before ++ body = k ++ l) :
    ∃ a, k = before ++ a ∧ body = a ++ l := by
  rcases List.append_eq_append_iff.mp h with ⟨a, hk, hbody⟩ | ⟨a, hbefore, hl'⟩
  · exact ⟨a, hk, hbody⟩
  · cases a with
    | nil =>
      refine ⟨[], ?_, ?_⟩
      · rw [hbefore, List.append_nil, List.append_nil]
      · rw [hl', List.nil_append, List.nil_append]
    | cons c a =>
      -- the fixed part would hold the first letter of the front
      have hfirst : l.head? = some c := by rw [hl']; rfl
      have hlen : l.length ≠ 0 := by
        rw [hl']
        exact Nat.succ_ne_zero _
      rw [hl, List.head?_take, if_neg hlen] at hfirst
      have hc : 'B' = c := Option.some.inj hfirst
      rw [hbefore, ← hc] at hb
      exact absurd (List.mem_append_right k List.mem_cons_self) hb

theorem key_alike {before : Str} {ok : Char → Bool} {lo : ℕ} {hi : Option ℕ}
    (hall : ∀ c, c.isAlpha = true → ok c = true) (hb : 'B' ∉ before) {k l m : Str}
    (hl : l = "Bearer".toList.take l.length) (hm : List.Forall₂ Alike m l)
    (hw : KeyText before ok lo hi (k ++ l)) : KeyText before ok lo hi (k ++ m) := by
  obtain ⟨body, heq, hlo, hhi, hok⟩ := hw
  obtain ⟨a, rfl, rfl⟩ := front_in_body before body k l hb hl heq.symm
  have halike : List.Forall₂ Alike (a ++ m) (a ++ l) := List.rel_append (alike_refl a) hm
  refine ⟨a ++ m, List.append_assoc _ _ _, ?_, ?_, alike_all ok hall _ _ halike hok⟩
  · rw [halike.length_eq]
    exact hlo
  · rw [halike.length_eq]
    exact hhi

/-- Writing `Bearer` in one way makes no key. -/
theorem key_of_bearer_sub (py : Runtime)
    (hspace : ∀ c, isspace c = true → py.word c = false) {before : Str} {ok : Char → Bool}
    {lo : ℕ} {hi : Option ℕ} (hlohi : ∀ h, hi = some h → lo ≤ h) (hk : IsKey before ok lo)
    (hsafe : BearerSafe before ok) (s : Str)
    (h : Occurs py.word (token before ok lo hi) (sub py.word bearer bearer_repl s)) :
    Occurs py.word (token before ok lo hi) s := by
  obtain ⟨c, rest, hbefore, halpha, htoken⟩ := hsafe.head
  have hdescribes : Describes py.word (token before ok lo hi) true (KeyText before ok lo hi) :=
    key_described py.word hlohi hsafe
  obtain ⟨p₀, q₀, htext, hq⟩ := h
  obtain ⟨w, hw, hread, hbounds⟩ := (hdescribes.ends_iff p₀ q₀).mp hq
  obtain ⟨hstart, hend⟩ := hbounds rfl
  obtain ⟨hopen, hclose, hin⟩ := key_avoids hk (by decide : bearer_repl.countP key_char < 20) w hw
  have hblank : w.getLast? ≠ some ' ' := by
    intro h
    exact absurd ((key_chars hk hw).1 ' ' (List.mem_of_getLast? h)) (by decide)
  have hout : sub py.word bearer bearer_repl s = p₀.before.reverse ++ (w ++ q₀.after) := by
    rw [← htext, text, hread.after]
  obtain ⟨k, l, p, m, q, rfl, hk', hrecased⟩ :=
    bearer_traced py hspace s _ w q₀.after hopen hclose hblank hin hout
  have hend' := recased_end py hrecased hk' hread rfl hend
  have hhead := recased_head hrecased hk' hread
  have hfirst : p₀.after.head? = some c := by
    obtain ⟨body, heq, _⟩ := hw
    rw [hread.after, heq, hbefore]
    rfl
  have hkey : KeyText before ok lo hi (k ++ m) := by
    cases hl : l with
    | nil =>
      have halike := hrecased.alike
      rw [hl] at halike hw
      rwa [List.forall₂_nil_right_iff.mp halike]
    | cons d l' =>
      have hne : l ≠ [] := by
        rw [hl]
        exact List.cons_ne_nil d l'
      obtain ⟨htake, hnext⟩ := hrecased.front hne
      rcases hsafe.body with hall | he
      · exact key_alike hall hsafe.no_b htake hrecased.alike hw
      · -- only the first letter of the front fits, and the next is a letter too
        exfalso
        obtain ⟨body, heq, _, _, hok⟩ := hw
        obtain ⟨a, _, hbody⟩ := front_in_body before body k l hsafe.no_b htake heq.symm
        have hone : l = ['B'] := by
          rcases Nat.lt_or_ge l.length 2 with hless | htwo
          · have hlen : l.length = 1 := by
              have hpos := List.length_pos_iff.mpr hne
              omega
            rw [htake, hlen]
            rfl
          · have hmem : 'e' ∈ l := by
              rw [htake]
              exact (List.take_subset_take_left _ htwo) (by decide)
            rw [hok 'e' (hbody ▸ List.mem_append_right a hmem)] at he
            cases he
        have hlast : (k ++ l).getLast? = some 'B' := by rw [hone]; simp
        rw [hone] at hnext
        rw [atBoundary, (head_of_reads hread (List.append_ne_nil_of_left_ne_nil hk' l)).2, hlast,
          hnext] at hend
        have hB := alpha_word py 'B' (by decide)
        have he' := alpha_word py 'e' (by decide)
        have hnext' : (bearer_repl.drop ['B'].length).head? = some 'e' := by decide
        rw [hnext', Option.any_some, Option.any_some, hB, he'] at hend
        cases hend
  rw [← hrecased.text]
  refine ⟨p, q, rfl, (hdescribes.ends_iff p q).mpr
    ⟨k ++ m, hkey, hrecased.reads, fun _ => ⟨?_, hend'⟩⟩⟩
  rcases hrecased.link with hsame | ⟨_, p', htaken⟩
  · rw [List.getLast?_reverse] at hsame
    rw [atBoundary, ← hsame, hhead]
    exact hstart
  · -- the match taken before would have gone on
    rw [bearer_longest py.word p' p htaken c (hhead.trans hfirst)] at htoken
    cases htoken

/-! ## Bearer tokens -/

theorem infix_of_avoid (w a b : Str) (c : Char) (hc : c ∉ w) (h : w <:+: a ++ c :: b) :
    w <:+: a ∨ w <:+: b := by
  obtain ⟨x, y, hxy⟩ := h
  rcases List.append_eq_append_iff.mp hxy with ⟨z, ha, _⟩ | ⟨z, hxw, hcb⟩
  · exact .inl ⟨x, z, ha.symm⟩
  · cases z with
    | nil =>
      rw [List.append_nil] at hxw
      exact .inl ⟨x, [], by rw [List.append_nil, hxw]⟩
    | cons d z =>
      rw [List.cons_append, List.cons.injEq] at hcb
      obtain ⟨rfl, hb⟩ := hcb
      rcases List.append_eq_append_iff.mp hxw with ⟨u, _, hw⟩ | ⟨u, _, hw⟩
      · rw [hw] at hc
        exact absurd (List.mem_append_right u List.mem_cons_self) hc
      · cases u with
        | nil =>
          rw [List.nil_append] at hw
          rw [← hw] at hc
          exact absurd List.mem_cons_self hc
        | cons e u =>
          rw [List.cons_append, List.cons.injEq] at hw
          exact .inr ⟨u, y, by rw [hb, hw.2]⟩

theorem alike_fold {a b : Str} (h : List.Forall₂ Alike a b) :
    a.map foldCase = b.map foldCase := by
  induction h with
  | nil => rfl
  | cons hxy _ ih =>
    rw [List.map_cons, List.map_cons, ih]
    rcases hxy with rfl | ⟨_, _, hfold⟩
    · rfl
    · rw [hfold]

theorem alike_blank {a b : Str} (h : List.Forall₂ Alike a b)
    (hb : ∀ c ∈ b, isspace c = true) : a = b := by
  induction h with
  | nil => rfl
  | cons hxy _ ih =>
    obtain ⟨hy, hb⟩ := List.forall_mem_cons.mp hb
    rw [ih hb]
    rcases hxy with rfl | ⟨_, halpha, _⟩
    · rfl
    · rw [space_not_letter _ hy] at halpha
      cases halpha

theorem bearer_alpha (c : Char) (hc : c.isAlpha = true) : bearer_char c = true := by
  have table : ∀ n : Fin 128, (Char.ofNat n).isAlpha = true →
      bearer_char (Char.ofNat n) = true := by decide
  have hchar := table ⟨c.toNat, of_decide_eq_true (ascii_of_alpha c hc)⟩
  rw [Char.ofNat_toNat] at hchar
  exact hchar hc

theorem bearer_alike {w w' : Str} (h : List.Forall₂ Alike w' w) (hw : BearerText w) :
    BearerText w' := by
  obtain ⟨b, s, t, rfl, hb, hs, ht, hspace, htoken⟩ := hw.parts
  obtain ⟨b', w₁, rfl, hb', h₁⟩ := alike_append_right _ _ _ h
  obtain ⟨s', t', rfl, hs', ht'⟩ := alike_append_right _ _ _ h₁
  rw [alike_blank hs' hspace]
  refine ⟨b', s, t', rfl, (alike_fold hb').trans hb, hs, alike_ne_nil ht' ht, hspace,
    alike_all bearer_char bearer_alpha _ _ ht' htoken⟩

/-- The replacement `Bearer <redacted:token>` holds no bearer token. -/
theorem bearer_not_in_repl (w : Str) (hw : BearerText w) : ¬ w <:+: bearer_repl := by
  intro hin
  have hsplit : bearer_repl = "Bearer ".toList ++ '<' :: "redacted:token>".toList := by decide
  rw [hsplit] at hin
  rcases infix_of_avoid w _ _ '<' (bearer_not_mem w hw '<' (by decide)) hin with hin | hin
  · obtain ⟨b, s, t, rfl, hb, hs, ht, _⟩ := hw.parts
    have hlen : b.length = 6 := by
      rw [← List.length_map (f := foldCase), hb]
      rfl
    have hshort := hin.length_le
    have hs' := List.length_pos_iff.mpr hs
    have ht' := List.length_pos_iff.mpr ht
    rw [List.length_append, List.length_append, hlen] at hshort
    have hseven : "Bearer ".toList.length = 7 := by decide
    omega
  · exact (bearer_avoids (by decide) w hw).2.2 hin

theorem bearer_own (py : Runtime) (hspace : ∀ c, isspace c = true → py.word c = false)
    (s : Str) : ¬ Occurs py.word bearer (sub py.word bearer bearer_repl s) := by
  rintro ⟨p₀, q₀, htext, hq⟩
  obtain ⟨w, hw, hread, _⟩ := ((bearer_describes py.word).ends_iff p₀ q₀).mp hq
  have hblank : w.getLast? ≠ some ' ' := by
    obtain ⟨b, sp, t, rfl, _, _, ht, _, htoken⟩ := hw.parts
    rw [List.getLast?_append_of_ne_nil _ (List.append_ne_nil_of_right_ne_nil sp ht),
      List.getLast?_append_of_ne_nil _ ht]
    intro h
    exact absurd (htoken ' ' (List.mem_of_getLast? h)) (by decide)
  have hout : sub py.word bearer bearer_repl s = p₀.before.reverse ++ (w ++ q₀.after) := by
    rw [← htext, text, hread.after]
  obtain ⟨k, l, p, m, q, rfl, _, hrecased⟩ :=
    bearer_traced py hspace s _ w q₀.after (bearer_not_mem w hw '<' (by decide))
      (bearer_not_mem w hw '>' (by decide)) hblank (bearer_not_in_repl w hw) hout
  have hbearer : BearerText (k ++ m) :=
    bearer_alike (List.rel_append (alike_refl k) hrecased.alike) hw
  have hends : q ∈ ends py.word bearer p :=
    ((bearer_describes py.word).ends_iff p q).mpr
      ⟨k ++ m, hbearer, hrecased.reads, by simp⟩
  obtain ⟨q', htaken⟩ := describes_taken py.word (bearer_describes py.word) hends
  exact hrecased.kept q' htaken

end AigentSquad.BearerReplacement

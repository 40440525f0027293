import AigentSquad.FoundMatches
import AigentSquad.InputScanner
import Mathlib.Data.List.Perm.Basic

/-!
# What the input scanner accepts

Unicode NFKC enters by what it does to the full compatibility decompositions of the
characters. Deleting and folding characters behind it can leave a text that is not
normalised; the size is checked in front of it; and of a decoded blob NFKC is all
that is applied.
-/

set_option autoImplicit false

namespace AigentSquad.ScannedInput
open AigentSquad.PyText AigentSquad.Regex AigentSquad.FoundMatches AigentSquad.Effects
open AigentSquad.InputScanner

/-- A letter of `_HOMOGLYPH_MAP`. -/
def homoglyph (c : Char) : Bool := (HOMOGLYPH_MAP.lookup c.toNat).isSome

/-- Unicode NFKC and the full compatibility decomposition of a character. A text and its
normal form decompose to the same characters, up to the order of combining marks. -/
structure Nfkc where
  normalize : Str → Str
  decomposition : Char → Str
  idempotent : ∀ s, normalize (normalize s) = normalize s
  equivalent : ∀ s, ((normalize s).flatMap decomposition).Perm (s.flatMap decomposition)
  /-- these decompose to themselves -/
  simple : ∀ c, isAscii c || zero_width c || homoglyph c → decomposition c = [c]

/-! ## Folding and stripping -/

theorem fold_ascii (c : Char) (h : homoglyph c = true) : isAscii (fold_homoglyph c) = true := by
  have hlist : ∀ e ∈ HOMOGLYPH_MAP, isAscii e.2 = true := by decide
  obtain ⟨d, hd⟩ := Option.isSome_iff_exists.mp h
  obtain ⟨l₁, l₂, hsplit, _⟩ := List.lookup_eq_some_iff.mp hd
  rw [fold_homoglyph, hd, Option.getD_some]
  exact hlist (c.toNat, d) (by rw [hsplit]; simp)

theorem fold_other (c : Char) (h : homoglyph c = false) : fold_homoglyph c = c := by
  rw [fold_homoglyph, Option.isSome_eq_false_iff.mp h |> Option.isNone_iff_eq_none.mp,
    Option.getD_none]

/-- ASCII is neither zero-width nor a homoglyph. -/
theorem ascii_plain (c : Char) (h : isAscii c = true) :
    zero_width c = false ∧ homoglyph c = false := by
  have table : ∀ n : Fin 128, zero_width (Char.ofNat n) = false ∧
      homoglyph (Char.ofNat n) = false := by decide
  have hc := table ⟨c.toNat, by simpa [isAscii] using h⟩
  simpa only [Char.ofNat_toNat] using hc

theorem fold_plain (c : Char) : homoglyph (fold_homoglyph c) = false := by
  by_cases h : homoglyph c = true
  · exact (ascii_plain _ (fold_ascii c h)).2
  · rw [fold_other c (Bool.eq_false_iff.mpr h)]
    exact Bool.eq_false_iff.mpr h

theorem fold_zero_width (c : Char) (h : zero_width c = false) :
    zero_width (fold_homoglyph c) = false := by
  by_cases hc : homoglyph c = true
  · exact (ascii_plain _ (fold_ascii c hc)).1
  · rwa [fold_other c (Bool.eq_false_iff.mpr hc)]

/-- `_normalize` behind NFKC: what is zero-width is deleted, homoglyphs are folded. -/
def folded (s : Str) : Str := (s.filter (fun c => !zero_width c)).map fold_homoglyph

/-- A character that folding leaves as it is. -/
def Plain (c : Char) : Prop := zero_width c = false ∧ homoglyph c = false

theorem folded_plain (s : Str) : ∀ c ∈ folded s, Plain c := by
  intro c hc
  obtain ⟨d, hd, rfl⟩ := List.mem_map.mp hc
  have hwidth := (List.mem_filter.mp hd).2
  exact ⟨fold_zero_width d (by simpa using hwidth), fold_plain d⟩

theorem folded_of_plain (s : Str) (h : ∀ c ∈ s, Plain c) : folded s = s := by
  have hfilter : s.filter (fun c => !zero_width c) = s := by
    rw [List.filter_eq_self]
    intro c hc
    simp [(h c hc).1]
  have hmap : s.map fold_homoglyph = s.map id :=
    List.map_congr_left (fun c hc => fold_other c (h c hc).2)
  rw [folded, hfilter, hmap, List.map_id]

section Decompositions
variable (u : Nfkc)

theorem length_decomposed (s : Str) :
    (s.flatMap u.decomposition).length =
      ((folded s).flatMap u.decomposition).length + s.countP zero_width := by
  induction s with
  | nil => rfl
  | cons c s ih =>
    rw [List.flatMap_cons, List.length_append, ih, List.countP_cons]
    by_cases hzero : zero_width c = true
    · have hfold : folded (c :: s) = folded s := by simp [folded, hzero]
      rw [hfold, u.simple c (by simp [hzero]), if_pos hzero, List.length_singleton]
      omega
    · have hfold : folded (c :: s) = fold_homoglyph c :: folded s := by simp [folded, hzero]
      have hsame : (u.decomposition (fold_homoglyph c)).length = (u.decomposition c).length := by
        by_cases hc : homoglyph c = true
        · rw [u.simple c (by simp [hc]), u.simple _ (by simp [fold_ascii c hc])]
          rfl
        · rw [fold_other c (Bool.eq_false_iff.mpr hc)]
      rw [hfold, List.flatMap_cons, List.length_append, hsame, if_neg hzero]
      omega

theorem homoglyphs_decomposed (s : Str) :
    (s.flatMap u.decomposition).countP homoglyph =
      ((s.map fold_homoglyph).flatMap u.decomposition).countP homoglyph +
        s.countP homoglyph := by
  induction s with
  | nil => rfl
  | cons c s ih =>
    rw [List.flatMap_cons, List.countP_append, ih, List.map_cons, List.flatMap_cons,
      List.countP_append, List.countP_cons]
    by_cases hc : homoglyph c = true
    · rw [u.simple c (by simp [hc]), u.simple _ (by simp [fold_ascii c hc]), if_pos hc,
        List.countP_singleton, List.countP_singleton, if_pos hc,
        if_neg (by simp [fold_plain c])]
      omega
    · rw [fold_other c (Bool.eq_false_iff.mpr hc), if_neg hc]
      omega

/-- A folded text that comes back from NFKC and folding is in NFKC. -/
theorem normal_of_folded (t : Str) (h : folded (u.normalize t) = t) : u.normalize t = t := by
  have hperm := u.equivalent t
  have hlen := length_decomposed u (u.normalize t)
  rw [h, hperm.length_eq] at hlen
  have hnone : ∀ c ∈ u.normalize t, zero_width c = false := by
    have hzero : (u.normalize t).countP zero_width = 0 := by omega
    intro c hc
    simpa using List.countP_eq_zero.mp hzero c hc
  have hfilter : (u.normalize t).filter (fun c => !zero_width c) = u.normalize t := by
    rw [List.filter_eq_self]
    intro c hc
    simp [hnone c hc]
  rw [folded, hfilter] at h
  have hcount := homoglyphs_decomposed u (u.normalize t)
  rw [h, hperm.countP_eq] at hcount
  have hno : ∀ c ∈ u.normalize t, homoglyph c = false := by
    have hzero : (u.normalize t).countP homoglyph = 0 := by omega
    intro c hc
    simpa using List.countP_eq_zero.mp hzero c hc
  have hsame := folded_of_plain (u.normalize t) (fun c hc => ⟨hnone c hc, hno c hc⟩)
  rw [folded, hfilter, h] at hsame
  exact hsame.symm

end Decompositions

/-! ## Scanning twice -/

section Scan
variable (py : Runtime) (nfkc : Str → Str)

theorem normalize_text_eq (text : Str) : normalize_text nfkc text = folded (nfkc text) := rfl

/-- What a normalised text is refused for. -/
def Refused (normalized : Str) : Prop :=
  excessive_control normalized = true ∨ repeated_chars normalized = true ∨
    (findall py.word BASE64_BLOB_RE normalized).any (injects py nfkc) = true

theorem scan_ok_iff (text t : Str) :
    scan py nfkc true text = .ok t ↔ text.length ≤ MAX_INPUT_LENGTH ∧
      t = normalize_text nfkc text ∧ ¬ Refused py nfkc (normalize_text nfkc text) := by
  have hscan : scan py nfkc true text = scan_internal py nfkc text := rfl
  rw [hscan, scan_internal, Refused]
  by_cases hsize : MAX_INPUT_LENGTH < text.length
  · rw [if_pos hsize]
    exact iff_of_false (fun h => nomatch h) (fun h => absurd h.1 (by omega))
  · rw [if_neg hsize, and_iff_right (by omega)]
    by_cases hcontrol : excessive_control (normalize_text nfkc text) = true
    · rw [if_pos hcontrol]
      exact iff_of_false (fun h => nomatch h) (fun h => h.2 (.inl hcontrol))
    · by_cases hrepeated : repeated_chars (normalize_text nfkc text) = true
      · rw [if_neg hcontrol, if_pos hrepeated]
        exact iff_of_false (fun h => nomatch h) (fun h => h.2 (.inr (.inl hrepeated)))
      · rw [if_neg hcontrol, if_neg hrepeated, check_base64_blobs]
        split
        · next hblob => exact iff_of_false (fun h => nomatch h) (fun h => h.2 (.inr (.inr hblob)))
        · next hblob =>
          constructor
          · intro h
            exact ⟨(Except.ok.inj h).symm,
              fun hr => hr.elim hcontrol (fun hr => hr.elim hrepeated hblob)⟩
          · rintro ⟨rfl, _⟩
            rfl

/-- A text that is not accepted is refused by the guardrail exception. -/
theorem scan_cases (text : Str) :
    (∃ t, scan py nfkc true text = .ok t) ∨
      ∃ category, scan py nfkc true text = .error (rejection category) := by
  have hscan : scan py nfkc true text = scan_internal py nfkc text := rfl
  rw [hscan, scan_internal]
  split
  · exact .inr ⟨_, rfl⟩
  · dsimp only
    split
    · exact .inr ⟨_, rfl⟩
    · split
      · exact .inr ⟨_, rfl⟩
      · rw [check_base64_blobs]
        split
        · exact .inr ⟨_, rfl⟩
        · exact .inl ⟨_, rfl⟩

end Scan

section Rescan
variable (py : Runtime) (u : Nfkc)

/-- Deleting the zero-width characters of NFKC(text) and folding its homoglyphs leaves a text
in NFKC that is no longer than the scanner takes. -/
def Settles (text : Str) : Prop :=
  u.normalize (folded (u.normalize text)) = folded (u.normalize text) ∧
    (folded (u.normalize text)).length ≤ MAX_INPUT_LENGTH

theorem folded_length (s : Str) :
    (folded s).length = s.countP (fun c => !zero_width c) := by
  rw [folded, List.length_map, List.countP_eq_length_filter]

/-- The normalised text has a long run of base64 characters that decodes to a text with a
marker as a whole word once `view` is applied and letters are lowered. -/
def Carries (view : Str → Str) (text : Str) : Prop :=
  ∃ blob decoded, 200 ≤ blob.length ∧
    MaximalRun base64_char (normalize_text u.normalize text) blob ∧
    try_decode_base64 blob = some decoded ∧ marked py (lower py (view decoded)) = true

def Raises (text : Str) : Prop :=
  ∃ reason source categories, scan py u.normalize true text =
    .error (.GuardrailBlockedError reason source categories)

theorem blobs_inject_iff (text : Str) :
    (findall py.word BASE64_BLOB_RE (normalize_text u.normalize text)).any
      (injects py u.normalize) = true ↔ Carries py u u.normalize text := by
  simp only [List.any_eq_true, BASE64_BLOB_RE, mem_findall_runs py.word base64_char 200
    (by decide), Carries, injects]
  constructor
  · rintro ⟨blob, ⟨hlen, hrun⟩, hshows⟩
    cases hdecode : try_decode_base64 blob with
    | none =>
      rw [hdecode] at hshows
      cases hshows
    | some decoded =>
      rw [hdecode] at hshows
      exact ⟨blob, decoded, hlen, hrun, hdecode, hshows⟩
  · rintro ⟨blob, decoded, hlen, hrun, hdecode, hshows⟩
    refine ⟨blob, ⟨hlen, hrun⟩, ?_⟩
    rw [hdecode]
    exact hshows

theorem raises_iff (text : Str) :
    Raises py u text ↔ MAX_INPUT_LENGTH < text.length ∨
      Refused py u.normalize (normalize_text u.normalize text) := by
  have hok : (∃ t, scan py u.normalize true text = .ok t) ↔ text.length ≤ MAX_INPUT_LENGTH ∧
      ¬ Refused py u.normalize (normalize_text u.normalize text) := by
    simp only [scan_ok_iff]
    constructor
    · rintro ⟨t, hlen, _, hpasses⟩
      exact ⟨hlen, hpasses⟩
    · rintro ⟨hlen, hpasses⟩
      exact ⟨_, hlen, rfl, hpasses⟩
  rcases scan_cases py u.normalize text with hyes | ⟨category, hno⟩
  · have hpasses := hok.mp hyes
    obtain ⟨t, ht⟩ := hyes
    refine iff_of_false ?_ (fun h => h.elim (fun hlen => by omega) hpasses.2)
    rintro ⟨_, _, _, herror⟩
    rw [ht] at herror
    cases herror
  · refine iff_of_true ⟨_, _, _, hno⟩ ?_
    by_contra hpasses
    rw [not_or, Nat.not_lt] at hpasses
    obtain ⟨t, ht⟩ := hok.mpr hpasses
    rw [ht] at hno
    cases hno

/-- A text whose blob hides a marker from NFKC but not from the scanner's own normalisation
raises exactly where a cheaper check refuses it or some blob shows a marker to NFKC alone. -/
theorem hidden_marker_raises_iff (text : Str)
    (_ : Carries py u (normalize_text u.normalize) text) :
    Raises py u text ↔ MAX_INPUT_LENGTH < text.length ∨
      excessive_control (normalize_text u.normalize text) = true ∨
      repeated_chars (normalize_text u.normalize text) = true ∨
      Carries py u u.normalize text := by
  rw [raises_iff, Refused, blobs_inject_iff]

end Rescan

/-! ## Texts that fail -/

/-- What NFKC makes of texts whose only composition is that of á. -/
def composed : Str → Str
  | [] => []
  | [c] => [c]
  | c :: d :: s =>
    if c = 'a' ∧ d = Char.ofNat 0x301 then 'á' :: composed s else c :: composed (d :: s)

def acute_parts (c : Char) : Str := if c = 'á' then ['a', Char.ofNat 0x301] else [c]

theorem composed_head (s : Str) (h : (composed s).head? = some (Char.ofNat 0x301)) :
    s.head? = some (Char.ofNat 0x301) := by
  cases s with
  | nil => exact h
  | cons c s =>
    cases s with
    | nil => exact h
    | cons d s =>
      rw [composed] at h
      split at h
      · exact absurd (Option.some.inj h) (by decide)
      · exact h

theorem composed_idempotent (s : Str) : composed (composed s) = composed s := by
  induction s using composed.induct with
  | case1 => rfl
  | case2 c => rfl
  | case3 c d s h ih =>
    rw [composed, if_pos h]
    cases hs : composed s with
    | nil => rfl
    | cons e t =>
      rw [hs] at ih
      rw [composed, if_neg (fun hboth => absurd hboth.1 (by decide)), ih]
  | case4 c d s hno ih =>
    rw [composed, if_neg hno]
    cases hs : composed (d :: s) with
    | nil => rfl
    | cons e t =>
      have hkeep : ¬ (c = 'a' ∧ e = Char.ofNat 0x301) := by
        rintro ⟨rfl, rfl⟩
        have hd := composed_head (d :: s) (by rw [hs]; rfl)
        exact hno ⟨rfl, Option.some.inj hd⟩
      rw [hs] at ih
      rw [composed, if_neg hkeep, ih]

theorem composed_parts (s : Str) :
    (composed s).flatMap acute_parts = s.flatMap acute_parts := by
  induction s using composed.induct with
  | case1 => rfl
  | case2 c => rfl
  | case3 c d s h ih =>
    obtain ⟨rfl, rfl⟩ := h
    rw [composed, if_pos ⟨rfl, rfl⟩, List.flatMap_cons, ih]
    rfl
  | case4 c d s hno ih => rw [composed, if_neg hno, List.flatMap_cons, ih, ← List.flatMap_cons]

def accents : Nfkc where
  normalize := composed
  decomposition := acute_parts
  idempotent := composed_idempotent
  equivalent s := by rw [composed_parts]
  simple c h := by
    rw [acute_parts, if_neg]
    rintro rfl
    revert h
    decide

/-- What NFKC makes of texts whose only decomposition is that of the diaeresis. -/
def spaced (c : Char) : Str := if c = '¨' then [' ', Char.ofNat 0x308] else [c]

theorem spaced_spaced (c : Char) : (spaced c).flatMap spaced = spaced c := by
  by_cases hc : c = '¨'
  · subst hc
    rfl
  · simp [spaced, hc]

def diaereses : Nfkc where
  normalize s := s.flatMap spaced
  decomposition := spaced
  idempotent s := by simp only [List.flatMap_assoc, spaced_spaced]
  equivalent s := by
    simp only [List.flatMap_assoc, spaced_spaced]
    exact List.Perm.refl _
  simple c h := by
    rw [spaced, if_neg]
    rintro rfl
    revert h
    decide

/-- Texts where no character meets itself hold no repetition. -/
theorem pairs_unrepeated (a b : Char) (hab : a ≠ b) (n : ℕ) :
    repeated_chars (List.replicate n [a, b]).flatten = false := by
  induction n with
  | zero => rfl
  | succ n ih =>
    have hnext : ((List.replicate n [a, b]).flatten.takeWhile (fun d => d = b)) = [] := by
      cases n with
      | zero => rfl
      | succ n =>
        rw [List.replicate_succ, List.flatten_cons, List.cons_append, List.takeWhile_cons_of_neg]
        simpa using hab
    have hfirst : ((b :: (List.replicate n [a, b]).flatten).takeWhile (fun d => d = a)) = [] := by
      rw [List.takeWhile_cons_of_neg]
      simpa using hab.symm
    rw [List.replicate_succ, List.flatten_cons]
    change repeated_chars (a :: b :: (List.replicate n [a, b]).flatten) = false
    rw [repeated_chars, hfirst, repeated_chars, hnext, ih]
    simp

theorem uncontrolled (s : Str) (h : s.countP control = 0) : excessive_control s = false := by
  rw [excessive_control, h]
  norm_num [CONTROL_CHAR_RATIO_THRESHOLD]

/-- A text of characters that are neither base64 nor control characters is refused for
repetition only. -/
theorem passes_of_chars (py : Runtime) (nfkc : Str → Str) (s : Str)
    (hchars : ∀ c ∈ s, base64_char c = false ∧ control c = false)
    (hrepeated : repeated_chars s = false) : ¬ Refused py nfkc s := by
  rintro (hcontrol | hrep | hblob)
  · have hzero : s.countP control = 0 := by
      rw [List.countP_eq_zero]
      intro c hc
      simp [(hchars c hc).2]
    rw [uncontrolled s hzero] at hcontrol
    cases hcontrol
  · rw [hrepeated] at hrep
    cases hrep
  · obtain ⟨blob, hmem, _⟩ := List.any_eq_true.mp hblob
    obtain ⟨hlen, b, a, hs, hall, _⟩ :=
      (mem_findall_runs py.word base64_char 200 (by decide) s blob).mp hmem
    have hne : blob ≠ [] := List.ne_nil_of_length_pos (by omega)
    obtain ⟨c, blob, rfl⟩ := List.exists_cons_of_ne_nil hne
    have hno := (hchars c (by rw [hs]; simp)).1
    rw [hall c List.mem_cons_self] at hno
    cases hno

/-- "ignore previous - " nine times, in base64 -/
def plainBlob : Str := (List.replicate 9 "aWdub3JlIHByZXZpb3VzIC0g".toList).flatten

/-- The same eight times with U+200B inside "ignore". -/
def hiddenBlob : Str := (List.replicate 8 "aWfigItub3JlIHByZXZpb3VzIC0g".toList).flatten

theorem whole_blob (s : Str) (h : ∀ c ∈ s, base64_char c = true) : MaximalRun base64_char s s :=
  ⟨[], [], by simp, h, (fun _ h => nomatch h), fun _ h => nomatch h⟩

/-- A text in base64 as a whole carries what it decodes to. -/
theorem whole_carries (py : Runtime) (u : Nfkc) (view : Str → Str) (s decoded : Str)
    (hnormal : normalize_text u.normalize s = s) (h : s.all base64_char = true)
    (hlen : 200 ≤ s.length) (hdecode : try_decode_base64 s = some decoded)
    (hmarked : marked py (lower py (view decoded)) = true) : Carries py u view s := by
  refine ⟨s, decoded, hlen, ?_, hdecode, hmarked⟩
  rw [hnormal]
  exact whole_blob s (List.all_eq_true.mp h)

def plainText : Str := (List.replicate 9 "ignore previous - ".toList).flatten

def hiddenText : Str :=
  (List.replicate 8 ("ig".toList ++ Char.ofNat 0x200b :: "nore previous - ".toList)).flatten

set_option maxRecDepth 20000 in
theorem plainBlob_raises : Raises asciiRuntime accents plainBlob := by
  have hnormal : normalize_text accents.normalize plainBlob = plainBlob := by rfl
  have hall : plainBlob.all base64_char = true := by rfl
  have hdecode : try_decode_base64 plainBlob = some plainText := by rfl
  have hshows := whole_carries asciiRuntime accents accents.normalize plainBlob plainText hnormal
    hall (by decide) hdecode (by rfl)
  have hhides := whole_carries asciiRuntime accents (normalize_text accents.normalize) plainBlob
    plainText hnormal hall (by decide) hdecode (by rfl)
  exact (hidden_marker_raises_iff asciiRuntime accents plainBlob hhides).mpr
    (.inr (.inr (.inr hshows)))

set_option maxRecDepth 20000 in
theorem hiddenBlob_passes :
    Carries asciiRuntime accents (normalize_text accents.normalize) hiddenBlob ∧
      scan asciiRuntime accents.normalize true hiddenBlob = .ok hiddenBlob := by
  have hnormal : normalize_text accents.normalize hiddenBlob = hiddenBlob := by rfl
  have hrepeated : repeated_chars hiddenBlob = false := by rfl
  have hblobs : (findall asciiRuntime.word BASE64_BLOB_RE hiddenBlob).any
      (injects asciiRuntime accents.normalize) = false := by rfl
  refine ⟨whole_carries asciiRuntime accents _ hiddenBlob hiddenText hnormal (by rfl) (by decide)
    (by rfl) (by rfl), ?_⟩
  refine (scan_ok_iff asciiRuntime accents.normalize _ _).mpr ⟨by decide, hnormal.symm, ?_⟩
  rw [hnormal, Refused, uncontrolled hiddenBlob (by rfl), hrepeated, hblobs]
  simp

end AigentSquad.ScannedInput

import AigentSquad.BearerReplacement

/-!
# Redacted texts hold no secret

No pattern matches in what `redact` returns: each substitution leaves no match
of its own pattern and makes none of another.
-/

set_option autoImplicit false

namespace AigentSquad.RedactedText
open AigentSquad.PyText AigentSquad.Regex AigentSquad.Substitution AigentSquad.Redactor
open AigentSquad.SecretTexts AigentSquad.BearerReplacement

/-- A text without a match of `x` keeps that through each substitution. -/
structure Resists (py : Runtime) (x : Rx) : Prop where
  marker : ∀ (y : Rx) (M : Str → Prop) (repl : Str), Describes py.word y true M → Marker repl →
    ∀ s, Occurs py.word x (sub py.word y repl s) → Occurs py.word x s
  bearer : ∀ s, Occurs py.word x (sub py.word bearer bearer_repl s) → Occurs py.word x s

theorem resists_marker (py : Runtime) {x : Rx} {bounded : Bool} {L : Str → Prop}
    (hx : Describes py.word x bounded L)
    (havoid : ∀ repl, Marker repl → ∀ w, L w → '<' ∉ w ∧ '>' ∉ w ∧ ¬ w <:+: repl)
    (y : Rx) (M : Str → Prop) (repl : Str) (hy : Describes py.word y true M)
    (hrepl : Marker repl) (s : Str) (h : Occurs py.word x (sub py.word y repl s)) :
    Occurs py.word x s := by
  obtain ⟨p, q, htext, hq, _⟩ :=
    occurs_of_sub py.word hx hy (fun _ => rfl) hrepl.head hrepl.last (havoid repl hrepl) s h
  exact ⟨p, q, htext, hq⟩

section Resists
variable (py : Runtime) (hspace : ∀ c, isspace c = true → py.word c = false)
include hspace

theorem email_resists : Resists py (email py) where
  marker := resists_marker py (email_describes py)
    (fun _ hrepl => email_avoids py hrepl.no_at)
  bearer := email_of_bearer_sub py hspace

theorem key_resists {before : Str} {ok : Char → Bool} {lo : ℕ} {hi : Option ℕ}
    (hlohi : ∀ h, hi = some h → lo ≤ h) (hk : IsKey before ok lo)
    (hsafe : BearerSafe before ok) : Resists py (token before ok lo hi) where
  marker := resists_marker py (key_described py.word hlohi hsafe)
    (fun _ hrepl => key_avoids hk hrepl.few)
  bearer := key_of_bearer_sub py hspace hlohi hk hsafe

theorem bearer_resists : Resists py bearer where
  marker := resists_marker py (bearer_describes py.word)
    (fun _ hrepl => bearer_avoids hrepl.no_blank)
  bearer := fun s h => absurd h (bearer_own py hspace s)

end Resists

section Clean
variable (py : Runtime) (hspace : ∀ c, isspace c = true → py.word c = false)
include hspace

theorem kind_resists {x : Rx × Str} (hx : Kind py x) : Resists py x.1 := by
  cases hx with
  | email => exact email_resists py hspace
  | key before ok lo hi repl hkey => exact key_resists py hspace hkey.bounds hkey.key hkey.safe
  | bearer => exact bearer_resists py hspace

theorem kind_kept {x y : Rx × Str} (hx : Kind py x) (hy : Kind py y) (s : Str)
    (h : Occurs py.word x.1 (sub py.word y.1 y.2 s)) : Occurs py.word x.1 s := by
  have hresists := kind_resists py hspace hx
  cases hy with
  | email repl hrepl => exact hresists.marker _ _ repl (email_describes py) hrepl s h
  | key before ok lo hi repl hkey =>
    exact hresists.marker _ _ repl (hkey.describes py.word) hkey.marker s h
  | bearer => exact hresists.bearer s h

theorem kind_own {x : Rx × Str} (hx : Kind py x) (s : Str) :
    ¬ Occurs py.word x.1 (sub py.word x.1 x.2 s) := by
  cases hx with
  | email repl hrepl =>
    exact sub_own py.word (email_describes py) hrepl.head hrepl.last
      (email_avoids py hrepl.no_at) s
  | key before ok lo hi repl hkey =>
    exact sub_own py.word (hkey.describes py.word) hkey.marker.head hkey.marker.last
      (key_avoids hkey.key hkey.marker.few) s
  | bearer => exact bearer_own py hspace s

/-- Substitutions one after another bring no match. -/
theorem kept_of_run {x : Rx × Str} (hx : Kind py x) (ps : List (Rx × Str))
    (hps : ∀ p ∈ ps, Kind py p) (s : Str)
    (h : Occurs py.word x.1 (ps.foldl (fun t p => sub py.word p.1 p.2 t) s)) :
    Occurs py.word x.1 s := by
  induction ps generalizing s with
  | nil => exact h
  | cons p ps ih =>
    obtain ⟨hp, hps⟩ := List.forall_mem_cons.mp hps
    exact kind_kept py hspace hx hp s (ih hps _ h)

theorem clean_of_run (ps : List (Rx × Str)) (hps : ∀ p ∈ ps, Kind py p) (s : Str) :
    ∀ x ∈ ps, ¬ Occurs py.word x.1 (ps.foldl (fun t p => sub py.word p.1 p.2 t) s) := by
  induction ps generalizing s with
  | nil => exact fun x hx => nomatch hx
  | cons p ps ih =>
    obtain ⟨hp, hps⟩ := List.forall_mem_cons.mp hps
    refine List.forall_mem_cons.mpr ⟨?_, ih hps _⟩
    intro h
    exact kind_own py hspace hp s (kept_of_run py hspace hp ps hps _ h)

/-- What `redact` returns holds no match of any pattern. -/
theorem redact_clean (s : Str) :
    ∀ p ∈ PATTERNS py, search py.word p.1 (redact py s) = none := by
  intro p hp
  rw [search_eq_none]
  exact clean_of_run py hspace (PATTERNS py) (kind_of_pattern py) s p hp

end Clean

theorem ascii_space_not_word (c : Char) (hc : isspace c = true) : asciiRuntime.word c = false := by
  cases hascii : isAscii c with
  | false => simp [asciiRuntime, hascii]
  | true =>
    have hbar : c ≠ '_' := by
      rintro rfl
      exact absurd hc (by decide)
    rw [asciiRuntime.word_ascii c hascii, Char.isAlphanum, space_not_letter c hc,
      space_not_digit c hc]
    simpa using hbar

end AigentSquad.RedactedText

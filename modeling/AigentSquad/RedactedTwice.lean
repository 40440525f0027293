import AigentSquad.RedactedText
import AigentSquad.Provenance

/-!
# Redacting what is redacted

A text is a fixed point of `redact` exactly when no pattern matches in it, and
every redacted text is one.
-/

set_option autoImplicit false

namespace AigentSquad.RedactedTwice
open AigentSquad.PyText AigentSquad.Regex AigentSquad.Substitution AigentSquad.Provenance
open AigentSquad.Redactor AigentSquad.RedactedText

theorem subs_of_no_match (word : Char → Bool) (ps : List (Rx × Str)) (s : Str)
    (h : ∀ p ∈ ps, search word p.1 s = none) : subs word ps s = s := by
  induction ps with
  | nil => rfl
  | cons p ps ih =>
    have hp := (search_eq_none word p.1 s).mp (h p List.mem_cons_self)
    have hsame : sub word p.1 p.2 s = s := (sub_of_no_match word p.1 p.2 s hp).1
    calc subs word (p :: ps) s = subs word ps (sub word p.1 p.2 s) := rfl
      _ = subs word ps s := by rw [hsame]
      _ = s := ih fun q hq => h q (List.mem_cons_of_mem p hq)

theorem redact_of_no_match (py : Runtime) (s : Str)
    (h : ∀ p ∈ PATTERNS py, search py.word p.1 s = none) : redact py s = s :=
  subs_of_no_match py.word (PATTERNS py) s h

section Redacted
variable (py : Runtime) (hspace : ∀ c, isspace c = true → py.word c = false)
include hspace

theorem redact_fixed_iff (s : Str) :
    redact py s = s ↔ ∀ p ∈ PATTERNS py, search py.word p.1 s = none := by
  constructor
  · intro hfixed
    have hclean := redact_clean py hspace s
    rwa [hfixed] at hclean
  · exact redact_of_no_match py s

/-- Nothing is left to redact. -/
theorem redact_leaves_nothing (s : Str) :
    (∀ p ∈ PATTERNS py, search py.word p.1 (redact py s) = none) ∧
      redact py (redact py s) = redact py s := by
  have hclean := redact_clean py hspace s
  exact ⟨hclean, redact_of_no_match py (redact py s) hclean⟩

end Redacted

/-- A key behind a bearer. -/
def bearer_of_key : Str := "bearer AKIA0123456789ABCDEF x".toList

theorem bearer_of_key_redacted :
    (∀ p ∈ PATTERNS asciiRuntime,
        search asciiRuntime.word p.1 (redact asciiRuntime bearer_of_key) = none) ∧
      redact asciiRuntime (redact asciiRuntime bearer_of_key) = redact asciiRuntime bearer_of_key :=
  redact_leaves_nothing asciiRuntime ascii_space_not_word bearer_of_key

end AigentSquad.RedactedTwice

import AigentSquad.ToolListing

/-!
# Registering tool names

What `ToolNameMap` returns over a sequence of registrations: the names it holds
stay where they are, so two server names never share one. A name that had to be
disambiguated is disambiguated again when it comes a second time.
-/

set_option autoImplicit false

namespace AigentSquad.NameRegistration
open AigentSquad.PyText AigentSquad.PyJson AigentSquad.Dict AigentSquad.Effects
open AigentSquad.ToolSchema AigentSquad.ToolListing

def to_converse_name (m : ToolNameMap) (server_name : Str) : Option Str :=
  get m.to_converse server_name

def register_all (m : ToolNameMap) (names : List Str) : ToolNameMap :=
  names.foldl (fun m server_name => (register m server_name).2) m

/-- The map after these registrations. -/
def registered (names : List Str) : ToolNameMap := register_all .empty names

/-- What the registration of `server_name` after those of `before` returned. -/
def returned (before : List Str) (server_name : Str) : Str :=
  (register (registered before) server_name).1

/-- Another server name holds the underscored form. -/
def held_by_other (before : List Str) (server_name : Str) : Bool :=
  clashes (registered before) (underscored server_name) server_name

theorem register_all_append (m : ToolNameMap) (names more : List Str) :
    register_all m (names ++ more) = register_all (register_all m names) more :=
  List.foldl_append

theorem register_all_keeps (m : ToolNameMap) (names : List Str) (name tool : Str)
    (h : to_server_name m name = some tool) :
    to_server_name (register_all m names) name = some tool := by
  induction names generalizing m with
  | nil => exact h
  | cons server_name names ih => exact ih _ (register_keeps m server_name name tool h)

/-! ## Routing -/

theorem returned_kept (before : List Str) (server_name : Str) (after : List Str) :
    to_server_name (registered (before ++ server_name :: after)) (returned before server_name) =
      some server_name := by
  rw [registered, register_all_append]
  exact register_all_keeps _ after _ _ (register_own (registered before) server_name)

/-- Every name ever returned keeps its server name, and no two server names share one. -/
theorem names_route_stably (names : List Str) :
    (∀ before server_name after, names = before ++ server_name :: after →
      to_server_name (registered names) (returned before server_name) = some server_name) ∧
    ∀ before₁ server₁ after₁ before₂ server₂ after₂,
      names = before₁ ++ server₁ :: after₁ → names = before₂ ++ server₂ :: after₂ →
        server₁ ≠ server₂ → returned before₁ server₁ ≠ returned before₂ server₂ := by
  constructor
  · rintro before server_name after rfl
    exact returned_kept before server_name after
  · intro before₁ server₁ after₁ before₂ server₂ after₂ h₁ h₂ hne hsame
    have hkept₁ := returned_kept before₁ server₁ after₁
    have hkept₂ := returned_kept before₂ server₂ after₂
    rw [← h₁, hsame] at hkept₁
    rw [← h₂, hkept₁] at hkept₂
    exact hne (Option.some.inj hkept₂)

/-! ## Registering again -/

theorem clashes_kept (m : ToolNameMap) (names : List Str) (name server_name : Str)
    (h : clashes m name server_name = true) :
    clashes (register_all m names) name server_name = true := by
  unfold clashes at h ⊢
  cases hget : get m.to_server name with
  | none =>
    rw [hget] at h
    cases h
  | some other =>
    rw [hget] at h
    have hkept : get (register_all m names).to_server name = some other :=
      register_all_keeps m names name other hget
    rw [hkept]
    exact h

theorem returned_plain (before : List Str) (server_name : Str)
    (h : held_by_other before server_name = false) :
    returned before server_name = underscored server_name := by
  unfold held_by_other at h
  change registered_name _ _ = _
  simp [registered_name, h]

/-- A disambiguated name is new. -/
theorem returned_free (before : List Str) (server_name : Str)
    (h : held_by_other before server_name = true) :
    to_server_name (registered before) (returned before server_name) = none := by
  have hfree := freeFrom_free (registered before).to_server
    (suffixed (underscored server_name)) (suffixed_injective _) 1
  unfold held_by_other at h
  change get _ (registered_name _ _) = none
  simp only [registered_name, if_pos h]
  rw [← Bool.not_eq_true, has_iff_get] at hfree
  exact Option.eq_none_iff_forall_ne_some.mpr (fun other hother => hfree ⟨other, hother⟩)

/-- A server name that comes again returns what it returned before exactly when nobody
else holds its underscored form. -/
theorem returned_again_iff (before : List Str) (server_name : Str) (between : List Str) :
    returned (before ++ server_name :: between) server_name = returned before server_name ↔
      held_by_other (before ++ server_name :: between) server_name = false := by
  constructor
  · intro hsame
    by_contra hheld
    have hfree := returned_free (before ++ server_name :: between) server_name (by simpa using hheld)
    rw [hsame, returned_kept] at hfree
    cases hfree
  · intro hlast
    have hfirst : held_by_other before server_name = false := by
      by_contra hheld
      have hkept := clashes_kept (registered before) (server_name :: between) _ server_name
        (by simpa [held_by_other] using hheld)
      rw [held_by_other, registered, register_all_append] at hlast
      rw [registered] at hkept
      rw [hkept] at hlast
      cases hlast
    rw [returned_plain _ _ hlast, returned_plain _ _ hfirst]

/-- Where coming again changes nothing, the server name keeps the name it got first. -/
theorem to_converse_settled (before : List Str) (server_name : Str) (after : List Str)
    (h : ∀ between more, after = between ++ server_name :: more →
      returned (before ++ server_name :: between) server_name = returned before server_name) :
    to_converse_name (registered (before ++ server_name :: after)) server_name =
      some (returned before server_name) := by
  induction after using List.reverseRecOn with
  | nil =>
    rw [registered, register_all_append]
    exact get_put_same _ _ _
  | append_singleton after other ih =>
    have hsplit : before ++ server_name :: (after ++ [other]) =
        (before ++ server_name :: after) ++ [other] := by simp
    rw [hsplit, registered, register_all_append]
    change get (put _ other (returned (before ++ server_name :: after) other)) server_name = _
    by_cases hother : other = server_name
    · subst hother
      rw [get_put_same, h after [] rfl]
    · rw [get_put_other _ _ _ _ (Ne.symm hother)]
      exact ih (fun between more hafter => h between (more ++ [other]) (by simp [hafter]))

/-- The two directions of the map are inverse to each other over these registrations. -/
structure Bijective (names : List Str) : Prop where
  again : ∀ before server_name between after,
    names = before ++ server_name :: (between ++ server_name :: after) →
      returned (before ++ server_name :: between) server_name = returned before server_name
  inverse : ∀ before server_name after, names = before ++ server_name :: after →
    (to_server_name (registered names) (returned before server_name)).bind
      (to_converse_name (registered names)) = some (returned before server_name)

/-- The map is a bijection exactly when no server name comes again whose underscored form
another one holds. -/
theorem bijective_iff (names : List Str) :
    Bijective names ↔ ∀ before server_name after, names = before ++ server_name :: after →
      server_name ∈ before → held_by_other before server_name = false := by
  constructor
  · rintro h before server_name after hnames hmem
    obtain ⟨first, between, rfl⟩ := List.append_of_mem hmem
    rw [← returned_again_iff]
    exact h.again first server_name between after (by rw [hnames]; simp)
  · intro h
    have hagain : ∀ before server_name between after,
        names = before ++ server_name :: (between ++ server_name :: after) →
          returned (before ++ server_name :: between) server_name =
            returned before server_name := by
      intro before server_name between after hnames
      rw [returned_again_iff]
      exact h _ server_name after (by rw [hnames]; simp) (by simp)
    refine ⟨hagain, ?_⟩
    rintro before server_name after rfl
    rw [returned_kept, Option.bind_some]
    refine to_converse_settled before server_name after ?_
    rintro between more rfl
    exact hagain before server_name between more rfl

/-- `get_thing` got a suffix and gets another one. -/
theorem disambiguated_twice : ¬ ∀ names : List Str, Bijective names := by
  intro h
  have hagain := (h ["get-thing".toList, "get_thing".toList, "get_thing".toList]).again
    ["get-thing".toList] "get_thing".toList [] [] rfl
  exact absurd hagain (by decide)

end AigentSquad.NameRegistration

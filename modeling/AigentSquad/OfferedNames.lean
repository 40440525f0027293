import AigentSquad.NameRegistration

/-!
# Names offered to Converse

The names in the specs of one catalog. Replacement and suffix keep every
character but the hyphen, so a name is valid where the server's is; and a server
name that comes again is offered under the same name unless it is disambiguated.
-/

set_option autoImplicit false

namespace AigentSquad.OfferedNames
open AigentSquad.PyText AigentSquad.Dict AigentSquad.Effects AigentSquad.ToolSchema
open AigentSquad.ToolListing AigentSquad.NameRegistration

/-- `[a-zA-Z0-9_\-]` -/
def name_char (c : Char) : Bool := c.isAlphanum || c = '_' || c = '-'

/-- What `^[a-zA-Z0-9_\-]+$` asks of the whole name. -/
def valid_name (name : Str) : Bool := !name.isEmpty && name.all name_char

/-- The server names a catalog brings, in order. -/
def listed (allowlist : List Str) (tools : List Tool) : List Str :=
  (tools.map Tool.name).filter (fun name => name ∈ allowlist)

def converse_names (m : ToolNameMap) : List Str → List Str
  | [] => []
  | server_name :: names =>
    (register m server_name).1 :: converse_names (register m server_name).2 names

theorem converse_names_concat (m : ToolNameMap) (names : List Str) (server_name : Str) :
    converse_names m (names ++ [server_name]) =
      converse_names m names ++ [(register (register_all m names) server_name).1] := by
  induction names generalizing m with
  | nil => rfl
  | cons first names ih =>
    rw [List.cons_append, converse_names, ih, converse_names, List.cons_append]
    rfl

theorem build_specs_names (allowlist : List Str) (m : ToolNameMap) (tools : List Tool)
    (offers : List Offer) (h : (build_specs allowlist m tools).1 = .ok offers) :
    offers.map (fun o => o.spec.name) = converse_names m (listed allowlist tools) := by
  induction tools generalizing m offers with
  | nil =>
    simp only [build_specs, Except.ok.injEq] at h
    rw [← h]
    rfl
  | cons t tools ih =>
    unfold build_specs at h
    by_cases ht : t.name ∈ allowlist
    · have hlisted : listed allowlist (t :: tools) = t.name :: listed allowlist tools := by
        simp [listed, ht]
      simp only [if_pos ht] at h
      cases hspec : tool_spec (register m t.name).1 t.name (t.description.getD [])
          t.inputSchema with
      | error e => simp [hspec] at h
      | ok spec =>
        simp only [hspec] at h
        cases hrest : (build_specs allowlist (register m t.name).2 tools).1 with
        | error e => simp [hrest, Except.map] at h
        | ok rest =>
          simp only [hrest, Except.map, Except.ok.injEq] at h
          rw [← h, List.map_cons, ih _ rest hrest, tool_spec_name _ _ _ _ _ hspec, hlisted]
          rfl
    · have hlisted : listed allowlist (t :: tools) = listed allowlist tools := by
        simp [listed, ht]
      rw [if_neg ht] at h
      rw [hlisted, ih m offers h]

/-! ## Validity -/

theorem name_char_underscored (c : Char) :
    name_char (if c = '-' then '_' else c) = name_char c := by
  by_cases h : c = '-'
  · subst h
    decide
  · rw [if_neg h]

theorem all_underscored (name : Str) :
    (underscored name).all name_char = name.all name_char := by
  rw [underscored, List.all_map]
  congr 1
  funext c
  exact name_char_underscored c

theorem all_suffixed (name : Str) (suffix : ℕ) :
    (suffixed name suffix).all name_char = name.all name_char := by
  have hdigits : (strNat suffix).all name_char = true := by
    rw [List.all_eq_true]
    intro c hc
    simp [name_char, Char.isAlphanum, strNat_digits suffix c hc]
  have hbar : name_char '_' = true := by decide
  rw [suffixed, List.all_append, List.all_cons, hdigits, hbar, Bool.and_self, Bool.and_true]

theorem registered_emptyName (names : List Str) : EmptyName (registered names) := by
  induction names using List.reverseRecOn with
  | nil =>
    intro tool h
    cases h
  | append_singleton names server_name ih =>
    rw [registered, register_all_append]
    exact (register_empty _ server_name ih).1

/-- The name given out is valid where the server's is. -/
theorem returned_valid (before : List Str) (server_name : Str) :
    valid_name (returned before server_name) = valid_name server_name := by
  by_cases hempty : server_name = []
  · subst hempty
    rw [returned, (register_empty _ [] (registered_emptyName before)).2 rfl]
  · have hall : (returned before server_name).all name_char = server_name.all name_char := by
      change (registered_name _ _).all name_char = _
      unfold registered_name
      dsimp only
      split
      · rw [all_suffixed, all_underscored]
      · exact all_underscored server_name
    have hne : returned before server_name ≠ [] := by
      change registered_name _ _ ≠ []
      unfold registered_name
      dsimp only
      split
      · simp [suffixed]
      · simpa [underscored] using hempty
    rw [valid_name, valid_name, hall, List.isEmpty_eq_false_iff.mpr hne,
      List.isEmpty_eq_false_iff.mpr hempty]

theorem converse_names_valid_iff (names : List Str) :
    (∀ name ∈ converse_names .empty names, valid_name name = true) ↔
      ∀ server_name ∈ names, valid_name server_name = true := by
  induction names using List.reverseRecOn with
  | nil => rfl
  | append_singleton names server_name ih =>
    rw [converse_names_concat, List.forall_mem_append, List.forall_mem_append, ih,
      List.forall_mem_singleton, List.forall_mem_singleton]
    change _ ∧ valid_name (returned names server_name) = true ↔ _
    rw [returned_valid]

/-! ## Distinctness -/

/-- Where an entry of a list stands once another one is added behind. -/
theorem split_concat {α : Type} (l before after : List α) (x y : α) :
    l ++ [y] = before ++ x :: after ↔
      (l = before ∧ y = x ∧ after = []) ∨ ∃ more, l = before ++ x :: more ∧ after = more ++ [y] := by
  constructor
  · intro h
    rcases List.eq_nil_or_concat after with rfl | ⟨more, z, rfl⟩
    · obtain ⟨hl, hlast⟩ := List.append_inj' h rfl
      exact .inl ⟨hl, (List.cons.inj hlast).1, rfl⟩
    · rw [List.concat_eq_append, ← List.cons_append, ← List.append_assoc] at h
      obtain ⟨hl, hlast⟩ := List.append_inj' h rfl
      rw [← (List.cons.inj hlast).1, List.concat_eq_append]
      exact .inr ⟨more, hl, rfl⟩
  · rintro (⟨rfl, rfl, rfl⟩ | ⟨more, rfl, rfl⟩)
    · rfl
    · simp

theorem mem_converse_names (names : List Str) (name : Str) :
    name ∈ converse_names .empty names ↔
      ∃ before server_name after, names = before ++ server_name :: after ∧
        returned before server_name = name := by
  induction names using List.reverseRecOn with
  | nil => simp [converse_names]
  | append_singleton names last ih =>
    rw [converse_names_concat, List.mem_append, ih, List.mem_singleton]
    constructor
    · rintro (⟨before, server_name, after, hnames, hname⟩ | rfl)
      · exact ⟨before, server_name, after ++ [last],
          (split_concat _ _ _ _ _).mpr (.inr ⟨after, hnames, rfl⟩), hname⟩
      · exact ⟨names, last, [], rfl, rfl⟩
    · rintro ⟨before, server_name, after, hsplit, rfl⟩
      rcases (split_concat _ _ _ _ _).mp hsplit with ⟨rfl, rfl, _⟩ | ⟨more, hnames, _⟩
      · exact .inr rfl
      · exact .inl ⟨before, server_name, more, hnames, rfl⟩

/-- The next name is new where the server name is, or where it is disambiguated. -/
theorem returned_new_iff (names : List Str) (server_name : Str) :
    returned names server_name ∉ converse_names .empty names ↔
      (server_name ∈ names → held_by_other names server_name = true) := by
  constructor
  · intro hnew hmem
    by_contra hheld
    obtain ⟨before, between, rfl⟩ := List.append_of_mem hmem
    have hsame := (returned_again_iff before server_name between).mpr (by simpa using hheld)
    exact hnew ((mem_converse_names _ _).mpr ⟨before, server_name, between, rfl, hsame.symm⟩)
  · intro hheld hold
    obtain ⟨before, other, after, hnames, hsame⟩ := (mem_converse_names _ _).mp hold
    have hkept := returned_kept before other after
    rw [← hnames, hsame] at hkept
    by_cases hmem : server_name ∈ names
    · rw [returned_free names server_name (hheld hmem)] at hkept
      cases hkept
    · have hlater := register_keeps (registered names) server_name _ other hkept
      have hown := register_own (registered names) server_name
      change to_server_name _ (returned names server_name) = _ at hown
      rw [hlater, Option.some.injEq] at hown
      exact hmem (by rw [hnames, hown]; simp)

theorem converse_names_nodup_iff (names : List Str) :
    (converse_names .empty names).Nodup ↔
      ∀ before server_name after, names = before ++ server_name :: after →
        server_name ∈ before → held_by_other before server_name = true := by
  induction names using List.reverseRecOn with
  | nil => simp [converse_names]
  | append_singleton names last ih =>
    have hnodup : (converse_names .empty (names ++ [last])).Nodup ↔
        (converse_names .empty names).Nodup ∧
          returned names last ∉ converse_names .empty names := by
      rw [converse_names_concat, List.nodup_append_comm, List.singleton_append, List.nodup_cons,
        and_comm]
      rfl
    rw [hnodup, ih, returned_new_iff]
    constructor
    · rintro ⟨hearlier, hlast⟩ before server_name after hsplit
      rcases (split_concat _ _ _ _ _).mp hsplit with ⟨rfl, rfl, _⟩ | ⟨more, hnames, _⟩
      · exact hlast
      · exact hearlier before server_name more hnames
    · intro h
      constructor
      · intro before server_name after hnames
        exact h before server_name (after ++ [last])
          ((split_concat _ _ _ _ _).mpr (.inr ⟨after, hnames, rfl⟩))
      · exact h names last [] rfl

/-- The offered names are valid and distinct exactly when the listed server names are valid
and none comes again unless another one holds its underscored form. -/
theorem offered_names_iff (allowlist : List Str) (tools : List Tool) (offers : List Offer)
    (h : (build_specs allowlist .empty tools).1 = .ok offers) :
    ((∀ o ∈ offers, valid_name o.spec.name = true) ∧
        (offers.map (fun o => o.spec.name)).Nodup) ↔
      (∀ server_name ∈ listed allowlist tools, valid_name server_name = true) ∧
        ∀ before server_name after, listed allowlist tools = before ++ server_name :: after →
          server_name ∈ before → held_by_other before server_name = true := by
  have hnames := build_specs_names allowlist .empty tools offers h
  have hvalid : (∀ o ∈ offers, valid_name o.spec.name = true) ↔
      ∀ name ∈ offers.map (fun o => o.spec.name), valid_name name = true := by
    rw [List.forall_mem_map]
  rw [hvalid, hnames, converse_names_valid_iff, converse_names_nodup_iff]

/-- A tool with nothing but a name. -/
def plain_tool (name : Str) : Tool := ⟨name, none, none⟩

def plain_offer (converse_name server_name : Str) : Offer :=
  ⟨plain_tool server_name, ⟨converse_name, default_description server_name, permissive_object⟩⟩

/-- Two tools whose names clash are offered under valid names of their own. -/
theorem clashing_names_offered :
    (∀ o ∈ [plain_offer "get_pods".toList "get-pods".toList,
        plain_offer "get_pods_1".toList "get_pods".toList], valid_name o.spec.name = true) ∧
      ([plain_offer "get_pods".toList "get-pods".toList,
        plain_offer "get_pods_1".toList "get_pods".toList].map (fun o => o.spec.name)).Nodup :=
  (offered_names_iff ["get-pods".toList, "get_pods".toList]
    [plain_tool "get-pods".toList, plain_tool "get_pods".toList] _ (by rfl)).mpr
    ⟨by decide, (converse_names_nodup_iff _).mp (by decide)⟩

/-- A name with a blank is offered as it is. -/
theorem blank_name_offered :
    ¬ ∀ (allowlist : List Str) (tools : List Tool) (offers : List Offer),
      (build_specs allowlist .empty tools).1 = .ok offers →
        (∀ o ∈ offers, valid_name o.spec.name = true) ∧
          (offers.map (fun o => o.spec.name)).Nodup := by
  intro h
  have hvalid := (h ["search docs".toList] [plain_tool "search docs".toList]
    [plain_offer "search docs".toList "search docs".toList] (by rfl)).1
  exact absurd (hvalid _ List.mem_cons_self) (by decide)

end AigentSquad.OfferedNames

import AigentSquad.AgenticLoopStreaming
import AigentSquad.JsonLayout

/-!
# Displayed tool arguments

`_sanitize_args_for_display` masks the outer keys that look like secrets. What
stands deeper is shown in the JSON text of an outer value, up to its cut.
-/

set_option autoImplicit false

namespace AigentSquad.ArgsDisplay
open AigentSquad.PyText AigentSquad.PyJson AigentSquad.PyRepr AigentSquad.Regex
open AigentSquad.Truncation AigentSquad.Effects AigentSquad.AgenticLoopStreaming

def secret_key (py : Runtime) (key : Str) : Bool := (search py.word SECRET_KEYS key).isSome

mutual

/-- The values differ under secret keys only. -/
def Alike (py : Runtime) : Json → Json → Prop
  | .arr xs, .arr ys => AlikeItems py xs ys
  | .obj ps, .obj qs => AlikePairs py ps qs
  | x, y => x = y

def AlikeItems (py : Runtime) : List Json → List Json → Prop
  | [], [] => True
  | x :: xs, y :: ys => Alike py x y ∧ AlikeItems py xs ys
  | _, _ => False

def AlikePairs (py : Runtime) : List (Str × Json) → List (Str × Json) → Prop
  | [], [] => True
  | (k, x) :: ps, (l, y) :: qs =>
    k = l ∧ (secret_key py k = true ∨ Alike py x y) ∧ AlikePairs py ps qs
  | _, _ => False

end

/-- Both texts are cut, in front of the first place where they differ. -/
def CutAlike (s t : Str) : Prop := 60 < s.length ∧ 60 < t.length ∧ s.take 57 = t.take 57

/-- What is shown of an argument does not tell the two values apart. -/
def Hidden (py : Runtime) (key : Str) (x y : Json) : Prop :=
  secret_key py key = true ∨ x = y ∨ CutAlike (dumps true x) (dumps true y)

/-! ## Texts that close themselves -/

def isContainer : Json → Prop
  | .arr _ => True
  | .obj _ => True
  | _ => False

theorem dumps_read (py : Runtime) (x : Json) (hx : isContainer x) (hs : Sound py x) (n : Nat)
    (rest : Str) (hn : 2 * (dumps true x).length < n) :
    scanOnce py n (dumps true x ++ rest) = .ok (x, rest) := by
  rw [← render_plain true 0 x] at hn ⊢
  apply scanOnce_render py true .plain x hs 0 n rest _ hn
  cases x with
  | arr items => trivial
  | obj pairs => trivial
  | _ => exact absurd hx id

/-- The text of an array or object ends where its bracket closes. -/
theorem dumps_front (py : Runtime) (x y : Json) (hx : isContainer x) (hy : isContainer y)
    (hsx : Sound py x) (hsy : Sound py y) (r r' : Str)
    (h : dumps true x ++ r = dumps true y ++ r') : x = y ∧ r = r' := by
  have hreadx := dumps_read py x hx hsx
    (2 * ((dumps true x).length + (dumps true y).length) + 1) r (by omega)
  have hready := dumps_read py y hy hsy
    (2 * ((dumps true x).length + (dumps true y).length) + 1) r' (by omega)
  rw [h, hready, Except.ok.injEq, Prod.mk.injEq] at hreadx
  exact ⟨hreadx.1.symm, hreadx.2.symm⟩

theorem dumps_last (x : Json) (hx : isContainer x) :
    ∃ c ∈ [']', '\x7d'], (dumps true x).getLast? = some c := by
  cases x with
  | arr items => exact ⟨']', by simp, by simp [dumps, List.getLast?_cons]⟩
  | obj pairs => exact ⟨'\x7d', by simp, by simp [dumps, List.getLast?_cons]⟩
  | _ => exact absurd hx id

/-- A text of at most sixty characters is not the front of a cut one. -/
theorem uncut_not_cut (py : Runtime) (x y : Json) (hx : isContainer x) (hy : isContainer y)
    (hsx : Sound py x) (hsy : Sound py y) (hlong : 60 < (dumps true x).length)
    (hshort : (dumps true y).length ≤ 60) (r r' : Str) :
    (dumps true x).take 57 ++ ("...".toList ++ r) ≠ dumps true y ++ r' := by
  intro h
  have hcut : ((dumps true x).take 57).length = 57 := by
    rw [List.length_take]
    omega
  by_cases hfit : (dumps true y).length ≤ 57
  · -- the short text would be the front of the long one, which closes later
    have hfront : dumps true y <+: (dumps true x).take 57 :=
      List.prefix_of_prefix_length_le ⟨r', h.symm⟩ ⟨_, rfl⟩ (by omega)
    obtain ⟨u, hu⟩ := hfront.trans (List.take_prefix 57 _)
    have hread := dumps_front py y x hy hx hsy hsx u [] (by rw [hu, List.append_nil])
    rw [hread.1] at hshort
    omega
  · -- the short text would end in a dot
    obtain ⟨c, hc, hlast⟩ := dumps_last y hy
    have hdot : ((dumps true x).take 57 ++ ("...".toList ++ r))[(dumps true y).length - 1]? =
        some '.' := by
      rw [List.getElem?_append_right (by omega), hcut]
      have hplace : (dumps true y).length - 1 - 57 = 0 ∨ (dumps true y).length - 1 - 57 = 1 ∨
          (dumps true y).length - 1 - 57 = 2 := by omega
      rcases hplace with h0 | h1 | h2
      · rw [h0]
        rfl
      · rw [h1]
        rfl
      · rw [h2]
        rfl
    rw [h, List.getElem?_append_left (by omega), ← List.getLast?_eq_getElem?, hlast,
      Option.some.injEq] at hdot
    rw [hdot] at hc
    revert hc
    decide

theorem clip_long (s : Str) (h : 60 < s.length) : clip 60 57 s = s.take 57 ++ "...".toList := by
  rw [clip, if_pos h]

theorem clip_short (s : Str) (h : s.length ≤ 60) : clip 60 57 s = s := by
  rw [clip, if_neg (by omega)]

/-- Where two displays are alike up to what follows, the values are hidden. -/
theorem clip_front (py : Runtime) (x y : Json) (hx : isContainer x) (hy : isContainer y)
    (hsx : Sound py x) (hsy : Sound py y) (r r' : Str)
    (h : clip 60 57 (dumps true x) ++ r = clip 60 57 (dumps true y) ++ r') :
    (x = y ∨ CutAlike (dumps true x) (dumps true y)) ∧ r = r' := by
  by_cases hlx : 60 < (dumps true x).length
  · by_cases hly : 60 < (dumps true y).length
    · rw [clip_long _ hlx, clip_long _ hly] at h
      obtain ⟨hclip, hrest⟩ := List.append_inj h (by
        simp only [List.length_append, List.length_take]
        omega)
      exact ⟨.inr ⟨hlx, hly, List.append_cancel_right hclip⟩, hrest⟩
    · rw [clip_long _ hlx, clip_short _ (by omega), List.append_assoc] at h
      exact absurd h (uncut_not_cut py x y hx hy hsx hsy hlx (by omega) r r')
  · by_cases hly : 60 < (dumps true y).length
    · rw [clip_short _ (by omega), clip_long _ hly, List.append_assoc] at h
      exact absurd h.symm (uncut_not_cut py y x hy hx hsy hsx hly (by omega) r' r)
    · rw [clip_short _ (by omega), clip_short _ (by omega)] at h
      obtain ⟨hxy, hrest⟩ := dumps_front py x y hx hy hsx hsy r r' h
      exact ⟨.inl hxy, hrest⟩

theorem cut_alike_clip (s t : Str) (h : CutAlike s t) : clip 60 57 s = clip 60 57 t := by
  rw [clip_long s h.1, clip_long t h.2.1, h.2.2]

/-! ## Displays of alike arguments -/

/-- Values that are alike are the same, or both arrays or both objects. -/
theorem alike_cases (py : Runtime) (x y : Json) (h : Alike py x y) :
    x = y ∨ (isContainer x ∧ isContainer y) := by
  cases x with
  | arr xs =>
    cases y with
    | arr ys => exact .inr ⟨trivial, trivial⟩
    | _ => exact .inl h
  | obj ps =>
    cases y with
    | obj qs => exact .inr ⟨trivial, trivial⟩
    | _ => exact .inl h
  | _ => exact .inl (by simpa [Alike] using h)

theorem display_masked (py : Runtime) (k : Str) (x : Json) (h : secret_key py k = true) :
    display_pair py (k, x) = k ++ "=\"***\"".toList := if_pos h

theorem display_shown (py : Runtime) (k : Str) (x : Json) (h : secret_key py k = false) :
    display_pair py (k, x) = k ++ ['='] ++ display_value py x :=
  if_neg (by simpa [secret_key] using h)

theorem display_container (py : Runtime) (x : Json) (hx : isContainer x) :
    display_value py x = clip 60 57 (dumps true x) := by
  cases x with
  | arr items => rfl
  | obj pairs => rfl
  | _ => exact absurd hx id

theorem hidden_display (py : Runtime) (k : Str) (x y : Json) (halike : secret_key py k = true ∨
    Alike py x y) (h : Hidden py k x y) : display_pair py (k, x) = display_pair py (k, y) := by
  cases hk : secret_key py k with
  | true => rw [display_masked py k x hk, display_masked py k y hk]
  | false =>
    rw [display_shown py k x hk, display_shown py k y hk]
    rcases h with h | rfl | hcut
    · rw [hk] at h
      cases h
    · rfl
    · rcases halike with hsecret | halike
      · rw [hk] at hsecret
        cases hsecret
      · rcases alike_cases py x y halike with rfl | ⟨hx, hy⟩
        · rfl
        · rw [display_container py x hx, display_container py y hy, cut_alike_clip _ _ hcut]

/-- Where two displays go on with `r` and `r'`, the values are hidden. -/
theorem display_front (py : Runtime) (k : Str) (x y : Json) (hsx : Sound py x) (hsy : Sound py y)
    (halike : secret_key py k = true ∨ Alike py x y) (r r' : Str)
    (h : display_pair py (k, x) ++ r = display_pair py (k, y) ++ r') :
    Hidden py k x y ∧ r = r' := by
  cases hk : secret_key py k with
  | true =>
    rw [display_masked py k x hk, display_masked py k y hk] at h
    exact ⟨.inl hk, List.append_cancel_left h⟩
  | false =>
    rw [hk] at halike
    rcases alike_cases py x y (halike.resolve_left (by simp)) with rfl | ⟨hx, hy⟩
    · exact ⟨.inr (.inl rfl), List.append_cancel_left h⟩
    · rw [display_shown py k x hk, display_shown py k y hk, display_container py x hx,
        display_container py y hy, List.append_assoc, List.append_assoc _ _ r'] at h
      obtain ⟨hhidden, hrest⟩ := clip_front py x y hx hy hsx hsy r r' (List.append_cancel_left h)
      exact ⟨.inr hhidden, hrest⟩

theorem join_front (sep x : Str) (xs : List Str) :
    join sep (x :: xs) = x ++ if xs.isEmpty then [] else sep ++ join sep xs := by
  cases xs with
  | nil => simp
  | cons y ys => simp [join_cons_cons]

theorem alike_nil_iff (py : Runtime) (ps qs : List (Str × Json)) (h : AlikePairs py ps qs) :
    ps = [] ↔ qs = [] := by
  cases ps with
  | nil =>
    cases qs with
    | nil => exact Iff.rfl
    | cons e qs => exact absurd h (by simp [AlikePairs])
  | cons e ps =>
    cases qs with
    | nil => exact absurd h (by simp [AlikePairs])
    | cons e' qs => simp

theorem join_displays (py : Runtime) : (ps qs : List (Str × Json)) → SoundPairs py ps →
    SoundPairs py qs → AlikePairs py ps qs →
    (join ", ".toList (ps.map (display_pair py)) = join ", ".toList (qs.map (display_pair py)) ↔
      ∀ e ∈ ps.zip qs, Hidden py e.1.1 e.1.2 e.2.2)
  | [], [], _, _, _ => by simp
  | [], _ :: _, _, _, h => absurd h (by simp [AlikePairs])
  | _ :: _, [], _, _, h => absurd h (by simp [AlikePairs])
  | (k, x) :: ps, (l, y) :: qs, hps, hqs, h => by
    obtain ⟨rfl, halike, hrest⟩ := h
    have ih := join_displays py ps qs hps.2 hqs.2 hrest
    have hnil := alike_nil_iff py ps qs hrest
    rw [List.map_cons, List.map_cons, join_front, join_front, List.zip_cons_cons,
      List.forall_mem_cons, ← ih]
    constructor
    · intro heq
      obtain ⟨hhidden, htail⟩ := display_front py k x y hps.1 hqs.1 halike _ _ heq
      refine ⟨hhidden, ?_⟩
      by_cases hempty : ps = []
      · rw [hempty, hnil.mp hempty]
      · have hempty' : qs ≠ [] := fun hqs => hempty (hnil.mpr hqs)
        simp only [List.isEmpty_iff, List.map_eq_nil_iff, hempty, hempty', if_false] at htail
        exact List.append_cancel_left htail
    · rintro ⟨hhidden, htail⟩
      have hempty : (ps.map (display_pair py)).isEmpty = (qs.map (display_pair py)).isEmpty := by
        rw [Bool.eq_iff_iff]
        simpa using hnil
      rw [hidden_display py k x y halike hhidden, hempty, htail]

/-- Two arguments that are alike are displayed alike exactly when no outer value
that is shown differs in front of its cut. -/
theorem display_alike_iff (py : Runtime) (ps qs : List (Str × Json)) (hps : Sound py (.obj ps))
    (hqs : Sound py (.obj qs)) (h : AlikePairs py ps qs) :
    sanitize_args_for_display py (.obj ps) = sanitize_args_for_display py (.obj qs) ↔
      ∀ e ∈ ps.zip qs, Hidden py e.1.1 e.1.2 e.2.2 := by
  rw [← join_displays py ps qs hps.2 hqs.2 h]
  by_cases hempty : ps = []
  · rw [hempty, (alike_nil_iff py ps qs h).mp hempty]
    exact iff_of_true rfl rfl
  · have hempty' : qs ≠ [] := fun hqs => hempty ((alike_nil_iff py ps qs h).mpr hqs)
    have htruthy : ∀ pairs : List (Str × Json), pairs ≠ [] →
        sanitize_args_for_display py (.obj pairs) =
          .ok (join ", ".toList (pairs.map (display_pair py))) := by
      intro pairs hne
      rw [sanitize_args_for_display, if_neg (by simpa [Json.truthy] using hne)]
    rw [htruthy ps hempty, htruthy qs hempty', Except.ok.injEq]

def with_token (token : Str) : List (Str × Json) :=
  [("namespace".toList, .str "dev".toList), ("auth_token".toList, .str token)]

theorem with_token_alike (token token' : Str) :
    AlikePairs asciiRuntime (with_token token) (with_token token') := by
  have hsecret : secret_key asciiRuntime "auth_token".toList = true := by rfl
  exact ⟨rfl, .inr rfl, rfl, .inl hsecret, trivial⟩

theorem with_token_sound (token : Str) : Sound asciiRuntime (.obj (with_token token)) :=
  ⟨by simp [with_token], trivial, trivial, trivial⟩

theorem outer_token_hidden :
    AlikePairs asciiRuntime (with_token "a".toList) (with_token "b".toList) ∧
      sanitize_args_for_display asciiRuntime (.obj (with_token "a".toList)) =
        sanitize_args_for_display asciiRuntime (.obj (with_token "b".toList)) := by
  have halike := with_token_alike "a".toList "b".toList
  refine ⟨halike, (display_alike_iff asciiRuntime _ _ (with_token_sound _) (with_token_sound _)
    halike).mpr ?_⟩
  have hsecret : secret_key asciiRuntime "auth_token".toList = true := by rfl
  simp only [with_token, List.zip_cons_cons, List.zip_nil_right, List.forall_mem_cons,
    List.not_mem_nil, false_imp_iff, implies_true, and_true]
  exact ⟨.inr (.inl rfl), .inl hsecret⟩

def with_config (password : Str) : List (Str × Json) :=
  [("config".toList, .obj [("password".toList, .str password)])]

set_option maxRecDepth 100000 in
/-- The password under an outer key that looks harmless is shown. -/
theorem nested_password_shown :
    AlikePairs asciiRuntime (with_config "hunter2".toList) (with_config "s3cret".toList) ∧
      sanitize_args_for_display asciiRuntime (.obj (with_config "hunter2".toList)) =
        .ok "config=\x7b\"password\": \"hunter2\"\x7d".toList ∧
      sanitize_args_for_display asciiRuntime (.obj (with_config "hunter2".toList)) ≠
        sanitize_args_for_display asciiRuntime (.obj (with_config "s3cret".toList)) := by
  have hsecret : secret_key asciiRuntime "password".toList = true := by rfl
  have hshown : sanitize_args_for_display asciiRuntime (.obj (with_config "hunter2".toList)) =
      .ok "config=\x7b\"password\": \"hunter2\"\x7d".toList := by
    rfl
  have hother : sanitize_args_for_display asciiRuntime (.obj (with_config "s3cret".toList)) =
      .ok "config=\x7b\"password\": \"s3cret\"\x7d".toList := by
    rfl
  refine ⟨⟨rfl, .inr ⟨rfl, .inl hsecret, trivial⟩, trivial⟩, hshown, ?_⟩
  rw [hshown, hother]
  decide

end AigentSquad.ArgsDisplay

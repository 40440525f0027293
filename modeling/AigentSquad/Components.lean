import Mathlib.Data.Finset.Card
import Mathlib.Data.Finset.Image
import Mathlib.Logic.Relation

/-!
# Connected components of a finite graph

The graph has the vertices of `s` and a link wherever `adj` holds. A new vertex
melts the components it is linked to into one.
-/

set_option autoImplicit false

namespace AigentSquad.Components
open Classical

variable {α β γ : Type}

def Linked (adj : α → α → Prop) (s : Finset α) (a b : α) : Prop := a ∈ s ∧ b ∈ s ∧ adj a b

def Connected (adj : α → α → Prop) (s : Finset α) : α → α → Prop :=
  Relation.EqvGen (Linked adj s)

def component (adj : α → α → Prop) (s : Finset α) (a : α) : Set α := {b | Connected adj s a b}

/-- The number of components. -/
noncomputable def components (adj : α → α → Prop) (s : Finset α) : ℕ :=
  (s.image (component adj s)).card

/-- The number of components with a vertex that `p` marks. -/
noncomputable def marked (adj : α → α → Prop) (s : Finset α) (p : α → Prop) : ℕ :=
  ((s.filter p).image (component adj s)).card

theorem card_image_kernel [DecidableEq β] [DecidableEq γ] (s : Finset α) (f : α → β) (g : α → γ)
    (h : ∀ a ∈ s, ∀ b ∈ s, f a = f b ↔ g a = g b) : (s.image f).card = (s.image g).card := by
  have hf : (s.image f).card = (s.image (fun a => (f a, g a))).card := by
    rw [show s.image f = (s.image (fun a => (f a, g a))).image Prod.fst by
      rw [Finset.image_image]; rfl]
    refine Finset.card_image_of_injOn (fun p hp q hq hpq => ?_)
    obtain ⟨a, ha, rfl⟩ := Finset.mem_image.mp hp
    obtain ⟨b, hb, rfl⟩ := Finset.mem_image.mp hq
    exact Prod.ext hpq ((h a ha b hb).mp hpq)
  have hg : (s.image g).card = (s.image (fun a => (f a, g a))).card := by
    rw [show s.image g = (s.image (fun a => (f a, g a))).image Prod.snd by
      rw [Finset.image_image]; rfl]
    refine Finset.card_image_of_injOn (fun p hp q hq hpq => ?_)
    obtain ⟨a, ha, rfl⟩ := Finset.mem_image.mp hp
    obtain ⟨b, hb, rfl⟩ := Finset.mem_image.mp hq
    exact Prod.ext ((h a ha b hb).mpr hpq) hpq
  rw [hf, hg]

section Graph
variable (adj : α → α → Prop) (s : Finset α)

theorem connected_refl (a : α) : Connected adj s a a := .refl a

theorem connected_symm {a b : α} (h : Connected adj s a b) : Connected adj s b a := .symm _ _ h

theorem connected_trans {a b c : α} (hab : Connected adj s a b) (hbc : Connected adj s b c) :
    Connected adj s a c := .trans _ _ _ hab hbc

/-- An equivalence that holds along every link holds along every connection. -/
theorem connected_le {R : α → α → Prop} (hR : Equivalence R)
    (hlink : ∀ a b, Linked adj s a b → R a b) {a b : α} (h : Connected adj s a b) : R a b :=
  hR.eqvGen_iff.mp (Relation.EqvGen.mono hlink _ _ h)

theorem connected_mono {t : Finset α} (hst : s ⊆ t) {a b : α} (h : Connected adj s a b) :
    Connected adj t a b := by
  refine connected_le adj s ⟨.refl, fun h => .symm _ _ h, fun h k => .trans _ _ _ h k⟩ ?_ h
  exact fun a b hab => .rel _ _ ⟨hst hab.1, hst hab.2.1, hab.2.2⟩

/-- Nothing else is connected to what is not a vertex. -/
theorem connected_outside {a v : α} (hv : v ∉ s) (h : Connected adj s a v) : a = v := by
  have hR : Equivalence (fun a b : α => a = b ∨ (a ∈ s ∧ b ∈ s)) := by
    refine ⟨fun a => .inl rfl, ?_, ?_⟩
    · rintro a b (rfl | ⟨ha, hb⟩)
      · exact .inl rfl
      · exact .inr ⟨hb, ha⟩
    · rintro a b c (rfl | ⟨ha, hb⟩) hbc
      · exact hbc
      · rcases hbc with rfl | ⟨_, hc⟩
        · exact .inr ⟨ha, hb⟩
        · exact .inr ⟨ha, hc⟩
  have hav := connected_le adj s hR (fun a b hab => .inr ⟨hab.1, hab.2.1⟩) h
  exact hav.resolve_right (fun hs => hv hs.2)

theorem component_eq_iff (a b : α) :
    component adj s a = component adj s b ↔ Connected adj s a b := by
  constructor
  · intro h
    have hmem : b ∈ component adj s b := connected_refl adj s b
    rwa [← h] at hmem
  · intro h
    refine Set.ext (fun c => ⟨fun hc => ?_, fun hc => ?_⟩)
    · exact connected_trans adj s (connected_symm adj s h) hc
    · exact connected_trans adj s h hc

/-- Any choice of names that are equal exactly on connected vertices counts the components. -/
theorem components_eq_card [DecidableEq β] (f : α → β)
    (h : ∀ a ∈ s, ∀ b ∈ s, f a = f b ↔ Connected adj s a b) :
    (s.image f).card = components adj s :=
  card_image_kernel s f _ (fun a ha b hb => (h a ha b hb).trans (component_eq_iff adj s a b).symm)

end Graph

theorem connected_congr {adj adj' : α → α → Prop} {s : Finset α}
    (h : ∀ a ∈ s, ∀ b ∈ s, adj a b ↔ adj' a b) : Connected adj s = Connected adj' s := by
  have hlinked : Linked adj s = Linked adj' s := by
    funext a b
    refine propext ⟨fun hab => ?_, fun hab => ?_⟩
    · exact ⟨hab.1, hab.2.1, (h a hab.1 b hab.2.1).mp hab.2.2⟩
    · exact ⟨hab.1, hab.2.1, (h a hab.1 b hab.2.1).mpr hab.2.2⟩
  rw [Connected, hlinked, Connected]

theorem component_congr {adj adj' : α → α → Prop} {s : Finset α}
    (h : ∀ a ∈ s, ∀ b ∈ s, adj a b ↔ adj' a b) : component adj s = component adj' s := by
  funext a
  rw [component, connected_congr h, component]

theorem marked_congr {adj adj' : α → α → Prop} {s : Finset α} {p p' : α → Prop}
    (h : ∀ a ∈ s, ∀ b ∈ s, adj a b ↔ adj' a b) (hp : ∀ a ∈ s, p a ↔ p' a) :
    marked adj s p = marked adj' s p' := by
  rw [marked, component_congr h, Finset.filter_congr hp, marked]

theorem components_congr {adj adj' : α → α → Prop} {s : Finset α}
    (h : ∀ a ∈ s, ∀ b ∈ s, adj a b ↔ adj' a b) : components adj s = components adj' s := by
  rw [components, component_congr h, components]

theorem marked_eq_zero_iff (adj : α → α → Prop) (s : Finset α) (p : α → Prop) :
    marked adj s p = 0 ↔ ∀ a ∈ s, ¬ p a := by
  rw [marked, Finset.card_eq_zero, Finset.image_eq_empty, Finset.filter_eq_empty_iff]

theorem marked_le_one (adj : α → α → Prop) (s : Finset α) (p : α → Prop) (v : α)
    (h : ∀ a ∈ s, p a → Connected adj s v a) : marked adj s p ≤ 1 := by
  rw [marked, Finset.card_le_one]
  intro c hc d hd
  obtain ⟨a, ha, rfl⟩ := Finset.mem_image.mp hc
  obtain ⟨b, hb, rfl⟩ := Finset.mem_image.mp hd
  obtain ⟨has, hpa⟩ := Finset.mem_filter.mp ha
  obtain ⟨hbs, hpb⟩ := Finset.mem_filter.mp hb
  rw [component_eq_iff]
  exact connected_trans adj s (connected_symm adj s (h a has hpa)) (h b hbs hpb)

/-- Links may be added or left out where they connect nothing new. -/
theorem components_eq_of_connected {adj adj' : α → α → Prop} {s : Finset α}
    (h : ∀ a b, Connected adj s a b ↔ Connected adj' s a b) :
    components adj s = components adj' s := by
  have hconnected : Connected adj s = Connected adj' s := by
    funext a b
    exact propext (h a b)
  have hcomponent : component adj s = component adj' s := by
    funext a
    rw [component, hconnected, component]
  rw [components, hcomponent, components]

section Renaming
variable [DecidableEq β] (adj : β → β → Prop) (s : Finset α) (e : α → β)
  (he : Function.Injective e)
include he

theorem connected_image (a b : α) :
    Connected adj (s.image e) (e a) (e b) ↔ Connected (fun x y => adj (e x) (e y)) s a b := by
  constructor
  · intro h
    let R : β → β → Prop := fun x y =>
      x = y ∨ ∃ a b, e a = x ∧ e b = y ∧ Connected (fun x y => adj (e x) (e y)) s a b
    have hR : Equivalence R := by
      refine ⟨fun x => .inl rfl, ?_, ?_⟩
      · rintro x y (rfl | ⟨a, b, rfl, rfl, hab⟩)
        · exact .inl rfl
        · exact .inr ⟨b, a, rfl, rfl, .symm _ _ hab⟩
      · rintro x y z (rfl | ⟨a, b, rfl, rfl, hab⟩) hyz
        · exact hyz
        · rcases hyz with rfl | ⟨c, d, hc, rfl, hcd⟩
          · exact .inr ⟨a, b, rfl, rfl, hab⟩
          · exact .inr ⟨a, d, rfl, rfl, .trans _ _ _ hab (he hc ▸ hcd)⟩
    have hlink : ∀ x y, Linked adj (s.image e) x y → R x y := by
      rintro x y ⟨hx, hy, hxy⟩
      obtain ⟨a, ha, rfl⟩ := Finset.mem_image.mp hx
      obtain ⟨b, hb, rfl⟩ := Finset.mem_image.mp hy
      exact .inr ⟨a, b, rfl, rfl, .rel _ _ ⟨ha, hb, hxy⟩⟩
    rcases connected_le adj (s.image e) hR hlink h with hab | ⟨c, d, hc, hd, hcd⟩
    · rw [he hab]
      exact .refl b
    · rwa [← he hc, ← he hd]
  · intro h
    induction h with
    | rel a b hab =>
      exact .rel _ _ ⟨Finset.mem_image_of_mem e hab.1, Finset.mem_image_of_mem e hab.2.1, hab.2.2⟩
    | refl a => exact .refl _
    | symm a b _ ih => exact .symm _ _ ih
    | trans a b c _ _ hab hbc => exact .trans _ _ _ hab hbc

/-- Renaming the vertices keeps the number of components. -/
theorem components_image :
    components adj (s.image e) = components (fun x y => adj (e x) (e y)) s := by
  rw [components, Finset.image_image]
  refine components_eq_card _ s _ (fun a _ b _ => ?_)
  rw [Function.comp_apply, Function.comp_apply, component_eq_iff, connected_image adj s e he]

theorem marked_image (p : β → Prop) :
    marked adj (s.image e) p = marked (fun x y => adj (e x) (e y)) s (fun x => p (e x)) := by
  rw [marked, Finset.filter_image, Finset.image_image, marked]
  refine card_image_kernel _ _ _ (fun a _ b _ => ?_)
  rw [Function.comp_apply, Function.comp_apply, component_eq_iff, connected_image adj s e he,
    component_eq_iff]

end Renaming

section Insertion
variable [DecidableEq α] (adj : α → α → Prop) (s : Finset α) (v : α)

/-- The vertex is connected to one the new vertex is linked to. -/
def Reached (a : α) : Prop := ∃ b ∈ s, adj v b ∧ Connected adj s a b

omit [DecidableEq α] in
theorem reached_of_connected {a b : α} (h : Connected adj s a b) (hb : Reached adj s v b) :
    Reached adj s v a := by
  obtain ⟨c, hc, hvc, hbc⟩ := hb
  exact ⟨c, hc, hvc, connected_trans adj s h hbc⟩

omit [DecidableEq α] in
theorem melted_of_connected (hv : v ∉ s) {a b : α} (h : Connected adj s a b)
    (hb : b = v ∨ Reached adj s v b) : a = v ∨ Reached adj s v a := by
  rcases hb with rfl | hb
  · exact .inl (connected_outside adj s hv h)
  · exact .inr (reached_of_connected adj s v h hb)

theorem connected_new {a : α} (h : a = v ∨ Reached adj s v a) :
    Connected adj (insert v s) a v := by
  rcases h with rfl | ⟨b, hb, hvb, hab⟩
  · exact .refl a
  · have hlink : Linked adj (insert v s) v b :=
      ⟨Finset.mem_insert_self v s, Finset.mem_insert_of_mem hb, hvb⟩
    exact .trans _ _ _ (connected_mono adj s (Finset.subset_insert v s) hab) (.symm _ _ (.rel _ _ hlink))

theorem connected_insert (hsymm : ∀ a b, adj a b → adj b a) (hv : v ∉ s) (a b : α) :
    Connected adj (insert v s) a b ↔ Connected adj s a b ∨
      ((a = v ∨ Reached adj s v a) ∧ (b = v ∨ Reached adj s v b)) := by
  constructor
  · have hR : Equivalence (fun a b => Connected adj s a b ∨
        ((a = v ∨ Reached adj s v a) ∧ (b = v ∨ Reached adj s v b))) := by
      refine ⟨fun a => .inl (.refl a), ?_, ?_⟩
      · rintro a b (h | ⟨ha, hb⟩)
        · exact .inl (.symm _ _ h)
        · exact .inr ⟨hb, ha⟩
      · rintro a b c (hab | ⟨ha, hb⟩) (hbc | ⟨hb', hc⟩)
        · exact .inl (.trans _ _ _ hab hbc)
        · exact .inr ⟨melted_of_connected adj s v hv hab hb', hc⟩
        · exact .inr ⟨ha, melted_of_connected adj s v hv (.symm _ _ hbc) hb⟩
        · exact .inr ⟨ha, hc⟩
    refine connected_le adj (insert v s) hR ?_
    rintro a b ⟨ha, hb, hab⟩
    rcases Finset.mem_insert.mp ha with rfl | has
    · rcases Finset.mem_insert.mp hb with rfl | hbs
      · exact .inl (.refl _)
      · exact .inr ⟨.inl rfl, .inr ⟨b, hbs, hab, .refl b⟩⟩
    · rcases Finset.mem_insert.mp hb with rfl | hbs
      · exact .inr ⟨.inr ⟨a, has, hsymm a _ hab, .refl a⟩, .inl rfl⟩
      · exact .inl (.rel _ _ ⟨has, hbs, hab⟩)
  · rintro (h | ⟨ha, hb⟩)
    · exact connected_mono adj s (Finset.subset_insert v s) h
    · exact .trans _ _ _ (connected_new adj s v ha) (.symm _ _ (connected_new adj s v hb))

omit [DecidableEq α] in
/-- The components the new vertex is linked to are those of the vertices it reaches. -/
theorem marked_eq_reached :
    marked adj s (adj v) = ((s.filter (Reached adj s v)).image (component adj s)).card := by
  rw [marked]
  congr 1
  ext c
  simp only [Finset.mem_image, Finset.mem_filter]
  constructor
  · rintro ⟨a, ⟨ha, hva⟩, rfl⟩
    exact ⟨a, ⟨ha, a, ha, hva, .refl a⟩, rfl⟩
  · rintro ⟨a, ⟨_, b, hb, hvb, hab⟩, rfl⟩
    exact ⟨b, ⟨hb, hvb⟩, ((component_eq_iff adj s a b).mpr hab).symm⟩

omit [DecidableEq α] in
theorem components_split : components adj s = marked adj s (adj v) +
    ((s.filter (fun a => ¬ Reached adj s v a)).image (component adj s)).card := by
  rw [marked_eq_reached, ← Finset.card_union_of_disjoint, ← Finset.image_union,
    Finset.filter_union_filter_not_eq, components]
  rw [Finset.disjoint_left]
  intro c hc hc'
  obtain ⟨a, ha, rfl⟩ := Finset.mem_image.mp hc
  obtain ⟨b, hb, hab⟩ := Finset.mem_image.mp hc'
  have hba := (component_eq_iff adj s b a).mp hab
  exact (Finset.mem_filter.mp hb).2 (reached_of_connected adj s v hba (Finset.mem_filter.mp ha).2)

/-- Adding a vertex: the components it is linked to become one. -/
theorem components_insert (hsymm : ∀ a b, adj a b → adj b a) (hv : v ∉ s) :
    components adj (insert v s) + marked adj s (adj v) = components adj s + 1 := by
  let name : α → Option (Set α) := fun a =>
    if a = v ∨ Reached adj s v a then none else some (component adj s a)
  have hname : ∀ a ∈ insert v s, ∀ b ∈ insert v s,
      name a = name b ↔ Connected adj (insert v s) a b := by
    intro a _ b _
    rw [connected_insert adj s v hsymm hv]
    by_cases ha : a = v ∨ Reached adj s v a <;> by_cases hb : b = v ∨ Reached adj s v b
    · simp [name, ha, hb]
    · simp only [name, if_pos ha, if_neg hb, reduceCtorEq, ha, hb, and_false, or_false, false_iff]
      exact fun h => hb (melted_of_connected adj s v hv (.symm _ _ h) ha)
    · simp only [name, if_neg ha, if_pos hb, reduceCtorEq, ha, hb, false_and, or_false, false_iff]
      exact fun h => ha (melted_of_connected adj s v hv h hb)
    · simp [name, ha, hb, component_eq_iff]
  have himage : (insert v s).image name = insert none
      (((s.filter (fun a => ¬ Reached adj s v a)).image (component adj s)).image some) := by
    ext c
    simp only [Finset.mem_image, Finset.mem_insert, Finset.mem_filter]
    constructor
    · rintro ⟨a, ha, rfl⟩
      by_cases hm : a = v ∨ Reached adj s v a
      · exact .inl (if_pos hm)
      · have hs : a ∈ s := ha.resolve_left (fun h => hm (.inl h))
        refine .inr ⟨_, ⟨a, ⟨hs, fun h => hm (.inr h)⟩, rfl⟩, ?_⟩
        exact (if_neg hm).symm
    · rintro (rfl | ⟨c, ⟨a, ⟨ha, hr⟩, rfl⟩, rfl⟩)
      · exact ⟨v, .inl rfl, if_pos (.inl rfl)⟩
      · have hm : ¬ (a = v ∨ Reached adj s v a) := by
          rintro (rfl | h)
          · exact hv ha
          · exact hr h
        exact ⟨a, .inr ha, if_neg hm⟩
  rw [← components_eq_card adj (insert v s) name hname, himage, Finset.card_insert_of_notMem (by simp),
    Finset.card_image_of_injective _ (Option.some_injective _), components_split adj s v]
  omega

end Insertion

end AigentSquad.Components

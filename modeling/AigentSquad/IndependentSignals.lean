import AigentSquad.EvidenceExchange
import AigentSquad.PathHalving
import Mathlib.Combinatorics.SimpleGraph.Connectivity.Connected
import Mathlib.Data.List.Perm.Basic
import Mathlib.SetTheory.Cardinal.Finite

/-!
# Independent signals

The independence count is the number of connected components of the evidence. A
copy of an item is one more signal unless the item depends on something listed.
-/

set_option autoImplicit false

namespace AigentSquad.IndependentSignals
open AigentSquad.PyText AigentSquad.Components AigentSquad.DisjointSets AigentSquad.PathHalving
open AigentSquad.PyJson AigentSquad.Investigation AigentSquad.Confidence
open AigentSquad.EvidenceExchange

/-! ### Components of a simple graph -/

section Graph
variable {α : Type} (G : SimpleGraph α)

theorem connected_univ_iff [Fintype α] (a b : α) :
    Connected G.Adj Finset.univ a b ↔ G.Reachable a b := by
  have hlinked : Components.Linked G.Adj Finset.univ = G.Adj := by
    funext a b
    simp [Components.Linked]
  have hsymm : Std.Symm G.Adj := ⟨fun _ _ h => h.symm⟩
  rw [Connected, hlinked, Relation.EqvGen.eqvGen_eq_reflTransGen, G.reachable_iff_reflTransGen]

theorem components_connectedComponent [Fintype α] :
    components G.Adj Finset.univ = Nat.card G.ConnectedComponent := by
  classical
  have hfinite : Fintype G.ConnectedComponent := Fintype.ofFinite _
  have hname : ∀ a ∈ Finset.univ, ∀ b ∈ Finset.univ,
      G.connectedComponentMk a = G.connectedComponentMk b ↔ Connected G.Adj Finset.univ a b := by
    intro a _ b _
    rw [SimpleGraph.ConnectedComponent.eq, connected_univ_iff]
  have hsurjective : Function.Surjective G.connectedComponentMk := Quot.mk_surjective
  rw [← components_eq_card G.Adj Finset.univ G.connectedComponentMk hname,
    Finset.image_univ_of_surjective hsurjective, Finset.card_univ, Nat.card_eq_fintype_card]

end Graph

/-! ### The evidence as a graph -/

variable {V : Type}

/-- A layer and a fault domain in common, neither of them empty. -/
def ShareLayerAndDomain (a b : Evidence V) : Prop :=
  a.causal_layer ≠ [] ∧ a.causal_layer = b.causal_layer ∧
    a.fault_domain ≠ [] ∧ a.fault_domain = b.fault_domain

theorem same_layer_and_domain_iff (a b : Evidence V) :
    same_layer_and_domain a b = true ↔ ShareLayerAndDomain a b := by
  simp only [same_layer_and_domain, ShareLayerAndDomain, Bool.and_eq_true, Bool.not_eq_true',
    List.isEmpty_eq_false_iff, beq_iff_eq]
  constructor
  · rintro ⟨⟨⟨⟨⟨hlayer, _⟩, hlayers⟩, hdomain⟩, _⟩, hdomains⟩
    exact ⟨hlayer, hlayers, hdomain, hdomains⟩
  · rintro ⟨hlayer, hlayers, hdomain, hdomains⟩
    exact ⟨⟨⟨⟨⟨hlayer, hlayers ▸ hlayer⟩, hlayers⟩, hdomain⟩, hdomains ▸ hdomain⟩, hdomains⟩

theorem dependent_iff (a b : Evidence V) :
    dependent a b = true ↔ are_derived a b = true ∨ ShareLayerAndDomain a b := by
  rw [dependent, Bool.or_eq_true, same_layer_and_domain_iff]

/-- Edges join items derived from each other or of one layer and one fault domain. -/
def evidence_graph (evidences : List (Evidence V)) : SimpleGraph (Fin evidences.length) where
  Adj i j := i ≠ j ∧
    (are_derived evidences[i] evidences[j] = true ∨ ShareLayerAndDomain evidences[i] evidences[j])
  symm := ⟨fun i j h => by
    rw [← dependent_iff] at h ⊢
    exact ⟨h.1.symm, dependent_symm evidences[j] evidences[i] ▸ h.2⟩⟩
  loopless := ⟨fun i h => h.1 rfl⟩

theorem groups_eq_card (evidences : List (Evidence V)) :
    groups evidences = Nat.card (evidence_graph evidences).ConnectedComponent := by
  have himage : Finset.range evidences.length =
      (Finset.univ : Finset (Fin evidences.length)).image Fin.val := by
    ext i
    simp only [Finset.mem_range, Finset.mem_image, Finset.mem_univ, true_and]
    exact ⟨fun h => ⟨⟨i, h⟩, rfl⟩, fun ⟨j, hj⟩ => hj ▸ j.isLt⟩
  have hadj : ∀ i ∈ Finset.univ, ∀ j ∈ Finset.univ,
      Investigation.Linked evidences (Fin.val i) (Fin.val j) ↔
        (evidence_graph evidences).Adj i j := by
    intro i _ j _
    simp only [Investigation.Linked, dependent_at, List.getElem?_eq_getElem i.isLt,
      List.getElem?_eq_getElem j.isLt, dependent_iff, evidence_graph, Fin.getElem_fin, ne_eq,
      Fin.val_inj]
  rw [groups, himage, components_image _ _ _ Fin.val_injective, components_congr hadj,
    components_connectedComponent]

/-! ### The order of the evidence -/

/-- Listing the evidence in another order renames the vertices. -/
theorem evidence_graph_perm (evidences evidences' : List (Evidence V))
    (h : evidences.Perm evidences') :
    Nonempty (evidence_graph evidences ≃g evidence_graph evidences') := by
  classical
  let e := Equiv.ofBijective h.idxBij ⟨h.idxBij_injective, h.idxBij_surjective⟩
  refine ⟨⟨e, fun {i j} => ?_⟩⟩
  have hi : evidences'[e i] = evidences[i] := h.getElem_idxBij_eq_getElem i
  have hj : evidences'[e j] = evidences[j] := h.getElem_idxBij_eq_getElem j
  simp only [evidence_graph, hi, hj, e.injective.ne_iff]

theorem count_independent_perm (evidences evidences' : List (Evidence V))
    (h : evidences.Perm evidences') : count_independent evidences' = count_independent evidences := by
  obtain ⟨iso⟩ := evidence_graph_perm evidences evidences' h
  rw [count_independent_eq, count_independent_eq, groups_eq_card, groups_eq_card]
  exact (Nat.card_congr iso.connectedComponentEquiv).symm

/-! ### The loops -/

/-- A run of `count_independent` whose loops take as long as they take. -/
def Counted (evidences : List (Evidence V)) (count : ℕ) : Prop :=
  ∃ parent roots, UnitesAll id (dependent_pairs evidences) parent ∧
    FindsAll parent (List.range evidences.length) roots ∧ count = roots.dedup.length

theorem counted_once (evidences : List (Evidence V)) (n m : ℕ) (hn : Counted evidences n)
    (hm : Counted evidences m) : n = m := by
  obtain ⟨parent, rs, hunites, hfinds, rfl⟩ := hn
  obtain ⟨parent', rs', hunites', hfinds', rfl⟩ := hm
  obtain rfl := hunites.unique hunites'
  rw [hfinds.unique hfinds']

theorem counted_count_independent (evidences : List (Evidence V)) :
    Counted evidences (count_independent evidences) := by
  let links := dependent_pairs evidences
  let fuel := links.length + 1
  obtain ⟨rep, height, hforest, _⟩ := unions_spec fuel links forest_id (by omega)
  have hunites := forest_unitesAll forest_id fuel links (by omega)
  have hfinds := forest_findsAll hforest fuel (by omega) (List.range evidences.length)
  refine ⟨_, _, hunites, hfinds, ?_⟩
  unfold count_independent
  by_cases hempty : evidences.isEmpty = true
  · rw [if_pos hempty, List.isEmpty_iff.mp hempty]
    rfl
  · rw [if_neg hempty]

/-- The run ends, counts the components and does not see the order. -/
theorem count_is_components (evidences : List (Evidence V)) :
    (∀ count, Counted evidences count ↔ count = count_independent evidences) ∧
    count_independent evidences = Nat.card (evidence_graph evidences).ConnectedComponent ∧
    ∀ evidences', evidences.Perm evidences' →
      count_independent evidences' = count_independent evidences := by
  refine ⟨fun count => ⟨fun h => ?_, fun h => ?_⟩, ?_, count_independent_perm evidences⟩
  · exact counted_once evidences _ _ h (counted_count_independent evidences)
  · exact h ▸ counted_count_independent evidences
  · rw [count_independent_eq, groups_eq_card]

/-! ### Copies -/

theorem linked_to_original (evidences : List (Evidence V)) (x a : Evidence V) (i j : ℕ)
    (hi : evidences[i]? = some x) (hj : evidences[j]? = some a) (hdep : dependent x a = true) :
    Connected (Investigation.Linked evidences) (Finset.range evidences.length) i j := by
  by_cases hij : i = j
  · subst hij
    exact .refl i
  · have hlink : dependent_at evidences i j = true := by
      rw [dependent_at, hi, hj]
      exact hdep
    have hlt := dependent_at_lt evidences i j hlink
    exact .rel _ _ ⟨by simpa using hlt.1, by simpa using hlt.2, hij, hlink⟩

/-- What a listed item depends on is one group. -/
theorem joined_groups_le_one (evidences : List (Evidence V)) (x : Evidence V)
    (hx : x ∈ evidences) : joined_groups evidences x ≤ 1 := by
  obtain ⟨i, hi⟩ := List.mem_iff_getElem?.mp hx
  refine marked_le_one _ _ _ i ?_
  rintro j _ ⟨a, ha, hdep⟩
  exact linked_to_original evidences x a i j hi ha hdep

/-- A copy goes uncounted exactly if the item depends on one that is listed, itself included. -/
theorem copy_uncounted_iff (evidences : List (Evidence V)) (x : Evidence V) (hx : x ∈ evidences) :
    count_independent (evidences ++ [x]) = count_independent evidences ↔
      ∃ a ∈ evidences, dependent x a = true := by
  have hinsert := groups_insert evidences [] x
  have hone := joined_groups_le_one evidences x hx
  have hzero := joined_groups_eq_zero_iff evidences x
  rw [List.append_nil] at hinsert
  rw [count_independent_eq, count_independent_eq]
  constructor
  · intro h
    by_contra hnone
    have hall : ∀ a ∈ evidences, dependent x a = false := by
      intro a ha
      by_contra hdep
      exact hnone ⟨a, ha, by simpa using hdep⟩
    have := hzero.mpr hall
    omega
  · rintro ⟨a, ha, hdep⟩
    have hne : joined_groups evidences x ≠ 0 := by
      intro h
      rw [hzero.mp h a ha] at hdep
      cases hdep
    omega

theorem copy_uncounted_deployed :
    count_independent ([deployed, outOfMemory] ++ [deployed]) =
      count_independent [deployed, outOfMemory] :=
  (copy_uncounted_iff [deployed, outOfMemory] deployed (by simp)).mpr ⟨deployed, by simp, by decide⟩

/-- An item with the fields an agent reports and no others. -/
def plain_metric : Evidence Str where
  source_agent := "obs".toList
  signal_type := "metric".toList
  timestamp := []
  strength := "forte".toList
  summary := "errors at 12%".toList

theorem copy_counted :
    ¬ ∀ (evidences : List (Evidence Str)) (x : Evidence Str), x ∈ evidences →
      count_independent (evidences ++ [x]) = count_independent evidences := by
  intro h
  have htwice : count_independent ([plain_metric] ++ [plain_metric]) = 2 := by rfl
  have honce : count_independent [plain_metric] = 1 := by rfl
  have hsame := h [plain_metric] plain_metric (by simp)
  rw [htwice, honce] at hsame
  omega

/-- What makes an item depend on its own copy. -/
theorem dependent_self_iff (x : Evidence V) :
    dependent x x = true ↔ is_set x.trace_id = true ∨
      (is_set x.derivation_source = true ∧ x.derivation_source = some x.id) ∨
      (x.causal_layer ≠ [] ∧ x.fault_domain ≠ []) := by
  have hpair : derivation_pair x x = false := by
    have hnone : ∀ p ∈ DERIVATION_PAIRS, p.1 ≠ p.2 := by decide
    have hcontains : DERIVATION_PAIRS.contains (x.signal_subtype, x.signal_subtype) = false := by
      rw [Bool.eq_false_iff]
      intro h
      exact hnone _ (List.contains_iff_mem.mp h) rfl
    rw [derivation_pair, hcontains, Bool.or_self, Bool.false_and]
  rw [dependent_iff, are_derived, hpair, Bool.or_false, Bool.or_self, shared_trace, derivation_link,
    ShareLayerAndDomain]
  simp only [Bool.or_eq_true, Bool.and_eq_true, beq_iff_eq, and_self, and_true, true_and]
  tauto

/-! ### Evidence read from an answer -/

theorem unannotated_independent (a b : Evidence V) (ha : Unannotated a) (hb : Unannotated b) :
    dependent a b = false := by
  have hpair : DERIVATION_PAIRS.contains (([] : Str), ([] : Str)) = false := by decide
  have hset : is_set none = false := rfl
  rw [dependent, are_derived, derivation_link, derivation_link, shared_trace, derivation_pair,
    same_layer_and_domain, ha.derivation_source, hb.derivation_source, ha.trace_id,
    ha.causal_layer, ha.signal_subtype, hb.signal_subtype, hpair, hset]
  simp

/-- Items without annotations count one for one, copies included. -/
theorem count_unannotated (evidences : List (Evidence V)) (h : ∀ e ∈ evidences, Unannotated e) :
    count_independent evidences = evidences.length := by
  rw [count_independent_eq]
  induction evidences with
  | nil => simp [groups, components]
  | cons e evidences ih =>
    have hjoined : joined_groups evidences e = 0 := by
      rw [joined_groups_eq_zero_iff]
      intro a ha
      exact unannotated_independent e a (h e List.mem_cons_self) (h a (List.mem_cons_of_mem e ha))
    have hinsert := groups_insert [] evidences e
    rw [List.nil_append, List.nil_append, hjoined, ih fun a ha => h a (List.mem_cons_of_mem e ha)]
      at hinsert
    rw [List.length_cons]
    exact hinsert

theorem count_parsed (py : Runtime) (text source_agent : Str) (parsed : List (Evidence Json))
    (h : parse_evidence py text source_agent = .ok parsed) :
    count_independent parsed = parsed.length :=
  count_unannotated parsed (parse_evidence_unannotated py text source_agent parsed h)

end AigentSquad.IndependentSignals

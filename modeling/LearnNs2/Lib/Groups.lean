import Mathlib.Algebra.BigOperators.Group.List.Basic
import Mathlib.Data.List.Chain

/-!
# Runs of equal keys

A list cut into maximal runs of consecutive elements with one key: how the cut
grows with the list, that there is only one, and what it says of the elements
with a given key when these stand together.
-/

namespace Groups

set_option autoImplicit false

universe u v w

variable {α : Type u} {κ : Type v} {key : α → κ}

/-- `gs` are the maximal runs of `l`, each with its key. -/
structure Cut (key : α → κ) (l : List α) (gs : List (κ × List α)) : Prop where
  flatten : gs.flatMap Prod.snd = l
  nonempty : ∀ g ∈ gs, g.2 ≠ []
  constant : ∀ g ∈ gs, ∀ a ∈ g.2, key a = g.1
  maximal : (gs.map Prod.fst).IsChain fun k k' => k ≠ k'

section Grow

variable {l g : List α} {gs : List (κ × List α)} {k : κ} {x : α}

theorem cut_singleton (x : α) : Cut key [x] [(key x, [x])] :=
  ⟨rfl, by simp, by simp, .singleton _⟩

/-- One more element with the key of the last run. -/
theorem Cut.extend (h : Cut key l (gs ++ [(k, g)])) (hx : key x = k) :
    Cut key (l ++ [x]) (gs ++ [(k, g ++ [x])]) := by
  refine ⟨?_, ?_, ?_, ?_⟩
  · rw [← h.flatten]
    simp
  · intro r hr
    rcases List.mem_append.mp hr with hr | hr
    · exact h.nonempty r (List.mem_append_left _ hr)
    · rw [List.mem_singleton.mp hr]
      simp
  · intro r hr a ha
    rcases List.mem_append.mp hr with hr | hr
    · exact h.constant r (List.mem_append_left _ hr) a ha
    · rw [List.mem_singleton.mp hr] at ha ⊢
      rcases List.mem_append.mp ha with ha | ha
      · exact h.constant (k, g) (by simp) a ha
      · rw [List.mem_singleton.mp ha, hx]
  · have hmaximal := h.maximal
    rw [List.map_append] at hmaximal ⊢
    exact hmaximal

/-- One more element with another key. -/
theorem Cut.start (h : Cut key l (gs ++ [(k, g)])) (hx : key x ≠ k) :
    Cut key (l ++ [x]) (gs ++ [(k, g)] ++ [(key x, [x])]) := by
  refine ⟨?_, ?_, ?_, ?_⟩
  · rw [← h.flatten]
    simp
  · intro r hr
    rcases List.mem_append.mp hr with hr | hr
    · exact h.nonempty r hr
    · rw [List.mem_singleton.mp hr]
      simp
  · intro r hr a ha
    rcases List.mem_append.mp hr with hr | hr
    · exact h.constant r hr a ha
    · rw [List.mem_singleton.mp hr] at ha ⊢
      rw [List.mem_singleton.mp ha]
  · rw [List.map_append]
    apply List.isChain_append.mpr
    refine ⟨h.maximal, .singleton _, ?_⟩
    intro k' hk' k'' hk''
    have hk : k' = k := by simpa using hk'.symm
    have hkx : k'' = key x := by simpa using hk''.symm
    rw [hk, hkx]
    exact Ne.symm hx

end Grow

section Unique

variable {l : List α} {gs gs' rest : List (κ × List α)} {k k' : κ} {g c : List α}

theorem Cut.tail (h : Cut key l ((k, g) :: rest)) : Cut key (rest.flatMap Prod.snd) rest := by
  refine ⟨rfl, ?_, ?_, ?_⟩
  · exact fun r hr => h.nonempty r (List.mem_cons_of_mem _ hr)
  · exact fun r hr => h.constant r (List.mem_cons_of_mem _ hr)
  · have hmaximal := h.maximal
    rw [List.map_cons] at hmaximal
    exact hmaximal.tail

theorem Cut.key_head (h : Cut key l gs) {a : α} (ha : a ∈ l.head?) :
    ∃ g rest, gs = (key a, g) :: rest ∧ a ∈ g.head? := by
  cases gs with
  | nil =>
    rw [← h.flatten] at ha
    cases ha
  | cons r rest =>
    obtain ⟨k, g⟩ := r
    obtain ⟨b, g', hg⟩ := List.exists_cons_of_ne_nil (h.nonempty (k, g) List.mem_cons_self)
    change g = b :: g' at hg
    subst g
    rw [← h.flatten] at ha
    obtain rfl : b = a := by simpa using ha
    have hk : key b = k := h.constant (k, b :: g') List.mem_cons_self b List.mem_cons_self
    exact ⟨b :: g', rest, by rw [hk], by simp⟩

/-- What follows the first run has another key there. -/
theorem Cut.tail_head_ne (h : Cut key l ((k, g) :: rest)) {a : α}
    (ha : a ∈ (rest.flatMap Prod.snd).head?) : key a ≠ k := by
  obtain ⟨g', rest', rfl, -⟩ := h.tail.key_head ha
  have hmaximal := h.maximal
  simp only [List.map_cons, List.isChain_cons_cons] at hmaximal
  exact Ne.symm hmaximal.1

/-- The first run cannot be longer in one cut than in another. -/
theorem Cut.append_eq_nil {l' post : List α} {g' : List α} {rest' : List (κ × List α)}
    (h : Cut key l ((k, g) :: rest)) (h' : Cut key l' ((k, g') :: rest')) (hg : g' = g ++ c)
    (heq : rest.flatMap Prod.snd = c ++ post) : c = [] := by
  cases c with
  | nil => rfl
  | cons a c =>
    have hmem : a ∈ g' := by
      rw [hg]
      simp
    refine absurd (h'.constant _ List.mem_cons_self a hmem) (h.tail_head_ne ?_)
    rw [heq]
    simp

theorem Cut.unique (h : Cut key l gs) (h' : Cut key l gs') : gs = gs' := by
  induction gs generalizing l gs' with
  | nil =>
    cases gs' with
    | nil => rfl
    | cons r rest =>
      have hnil : l = [] := h.flatten.symm
      have hflat := h'.flatten
      rw [hnil, List.flatMap_cons, List.append_eq_nil_iff] at hflat
      exact absurd hflat.1 (h'.nonempty r List.mem_cons_self)
  | cons r rest ih =>
    obtain ⟨k, g⟩ := r
    obtain ⟨a, g₁, rfl⟩ := List.exists_cons_of_ne_nil (h.nonempty (k, g) List.mem_cons_self)
    have hhead : a ∈ l.head? := by
      rw [← h.flatten]
      simp
    obtain ⟨g', rest', rfl, -⟩ := h'.key_head hhead
    have hk : key a = k := h.constant _ List.mem_cons_self a List.mem_cons_self
    rw [hk] at h' ⊢
    have hflat := h.flatten.trans h'.flatten.symm
    rw [List.flatMap_cons, List.flatMap_cons] at hflat
    change (a :: g₁) ++ _ = g' ++ _ at hflat
    rcases List.append_eq_append_iff.mp hflat with ⟨c, hg, hrest⟩ | ⟨c, hg, hrest⟩
    · obtain rfl := h.append_eq_nil h' hg hrest
      rw [List.append_nil] at hg
      rw [List.nil_append] at hrest
      rw [hg, ih h.tail (hrest ▸ h'.tail)]
    · obtain rfl := h'.append_eq_nil h hg hrest
      rw [List.append_nil] at hg
      rw [List.nil_append] at hrest
      rw [hg, ih h.tail (hrest ▸ h'.tail)]

end Unique

section Keys

variable {l : List α} {gs : List (κ × List α)} {k : κ}

theorem Cut.mem_keys_iff (h : Cut key l gs) : k ∈ gs.map Prod.fst ↔ ∃ a ∈ l, key a = k := by
  constructor
  · intro hk
    obtain ⟨g, hg, rfl⟩ := List.mem_map.mp hk
    obtain ⟨a, rest, ha⟩ := List.exists_cons_of_ne_nil (h.nonempty g hg)
    have hmem : a ∈ g.2 := by
      rw [ha]
      exact List.mem_cons_self
    refine ⟨a, ?_, h.constant g hg a hmem⟩
    rw [← h.flatten]
    exact List.mem_flatMap.mpr ⟨g, hg, hmem⟩
  · rintro ⟨a, ha, rfl⟩
    rw [← h.flatten] at ha
    obtain ⟨g, hg, hmem⟩ := List.mem_flatMap.mp ha
    exact List.mem_map.mpr ⟨g, hg, (h.constant g hg a hmem).symm⟩

theorem Cut.sum_eq {M : Type w} [AddMonoid M] (h : Cut key l gs) (f : α → M) :
    (gs.map fun g => (g.2.map f).sum).sum = (l.map f).sum := by
  rw [← h.flatten, List.map_flatMap, List.flatMap_def, List.sum_flatten, List.map_map]
  rfl

/-- Between two elements with one key there is no other key. -/
def Contiguous (key : α → κ) (l : List α) : Prop :=
  ∀ a b c, [a, b, c].Sublist l → key a = key c → key b = key a

theorem Cut.nodup_keys (h : Cut key l gs) (hc : Contiguous key l) :
    (gs.map Prod.fst).Nodup := by
  induction gs generalizing l with
  | nil => exact .nil
  | cons r rest ih =>
    obtain ⟨k, g⟩ := r
    have hl : g ++ rest.flatMap Prod.snd = l := h.flatten
    rw [List.map_cons, List.nodup_cons]
    constructor
    · intro hk
      obtain ⟨a, ha⟩ := List.exists_mem_of_ne_nil g (h.nonempty (k, g) List.mem_cons_self)
      cases rest with
      | nil => cases hk
      | cons r' rest' =>
        obtain ⟨k', g'⟩ := r'
        have hmaximal := h.maximal
        simp only [List.map_cons, List.isChain_cons_cons] at hmaximal
        rcases List.mem_cons.mp hk with hk | hk
        · exact hmaximal.1 hk
        · -- the run of `k'` stands between two elements with the key `k`
          obtain ⟨b, hb⟩ := List.exists_mem_of_ne_nil g' (h.tail.nonempty (k', g') List.mem_cons_self)
          obtain ⟨c, hcmem, hck⟩ := h.tail.tail.mem_keys_iff.mp hk
          have hsub : [a, b, c].Sublist l := by
            rw [← hl]
            exact (List.singleton_sublist.mpr ha).append
              ((List.singleton_sublist.mpr hb).append (List.singleton_sublist.mpr hcmem))
          have hak : key a = k := h.constant _ List.mem_cons_self a ha
          have hbk : key b = k' := h.tail.constant _ List.mem_cons_self b hb
          have hba := hc a b c hsub (hak.trans hck.symm)
          rw [hak, hbk] at hba
          exact hmaximal.1 hba.symm
    · apply ih h.tail
      intro a b c hsub
      apply hc a b c
      rw [← hl]
      exact hsub.trans (List.sublist_append_right _ _)

theorem filter_flatMap_eq_nil [DecidableEq κ] (hconst : ∀ g ∈ gs, ∀ a ∈ g.2, key a = g.1)
    (hk : k ∉ gs.map Prod.fst) : (gs.flatMap Prod.snd).filter (fun a => key a = k) = [] := by
  apply List.filter_eq_nil_iff.mpr
  intro a ha
  obtain ⟨g, hg, hmem⟩ := List.mem_flatMap.mp ha
  rw [hconst g hg a hmem, decide_eq_true_eq]
  rintro rfl
  exact hk (List.mem_map.mpr ⟨g, hg, rfl⟩)

/-- If no key has two runs, a run holds all the elements with its key. -/
theorem Cut.filter_eq [DecidableEq κ] (h : Cut key l gs) (hd : (gs.map Prod.fst).Nodup)
    {g : κ × List α} (hg : g ∈ gs) : l.filter (fun a => key a = g.1) = g.2 := by
  obtain ⟨pre, post, rfl⟩ := List.append_of_mem hg
  have hconst := h.constant
  rw [List.map_append, List.map_cons, List.nodup_append, List.nodup_cons] at hd
  obtain ⟨-, ⟨hpost, -⟩, hpre⟩ := hd
  have hkpre : g.1 ∉ pre.map Prod.fst := fun hk => hpre g.1 hk g.1 List.mem_cons_self rfl
  have hself : g.2.filter (fun a => key a = g.1) = g.2 := by
    apply List.filter_eq_self.mpr
    exact fun a ha => decide_eq_true (hconst g hg a ha)
  have hleft := filter_flatMap_eq_nil
    (fun r hr => hconst r (List.mem_append_left _ hr)) hkpre
  have hright := filter_flatMap_eq_nil
    (fun r hr => hconst r (List.mem_append_right _ (List.mem_cons_of_mem g hr))) hpost
  rw [← h.flatten, List.flatMap_append, List.flatMap_cons, List.filter_append, List.filter_append,
    hleft, hself, hright, List.nil_append, List.append_nil]

end Keys

end Groups

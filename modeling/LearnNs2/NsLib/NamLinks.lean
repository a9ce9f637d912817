import Mathlib.Data.List.Nodup
import Mathlib.Logic.Function.Basic
import LearnNs2.Lib.Runs

/-!
# The links that nam is told of

`ns-lib.tcl` makes a duplex link of two simplex links, and nam is to draw it once.
`linkConfigList_` holds the link object that stands for each pair of nodes, in
the order in which nam creates them.
-/

namespace LearnNs2.NamLinks

set_option autoImplicit false

open LabelledRuns

/-- The id of a node. -/
abbrev Node := Nat

/-- A link object: they are numbered as they are made. -/
abbrev Link := Nat

/-- What the simulator holds of links. `link` is `link_`; `config` is
`linkConfigList_`, which does not exist at first. -/
structure State where
  link : Node × Node → Option Link
  ends : Link → Node × Node
  orientation : Link → String
  made : Nat
  config : Option (List Link)

def State.init : State := ⟨fun _ => none, fun _ => (0, 0), fun _ => "", 0, none⟩

def State.list (s : State) : List Link := s.config.getD []

/-- The reverse simplex link, if it is registered. -/
def State.reverse (s : State) (l : Link) : Option Link :=
  match s.link (s.ends l).swap with
  | some r => if r ∈ s.list then some r else none
  | none => none

def registerNamLinkconfig (s : State) (l : Link) : State :=
  match s.config with
  | some list =>
    match s.reverse l with
    | some r =>
      if s.orientation r = "" ∧ s.orientation l ≠ "" then
        { s with config := some ((list.erase r).erase l ++ [l]) }
      else s
    | none => { s with config := some (list.erase l ++ [l]) }
  | none => { s with config := some [l] }

/-- It fails where it reads an element of `link_` that does not exist. -/
def removeNamLinkconfig (s : State) (i₁ i₂ : Node) : Option State :=
  match s.config with
  | none => some s
  | some list =>
    match s.link (i₁, i₂) with
    | none => none
    | some l =>
      if l ∈ list then some { s with config := some (list.erase l) }
      else
        match s.link (i₂, i₁) with
        | none => none
        | some r => some { s with config := some (list.erase r) }

/-- `new SimpleLink` and its kin, in `link_`. -/
def State.newLink (s : State) (e : Node × Node) : State :=
  { s with
    link := Function.update s.link e (some s.made)
    ends := Function.update s.ends s.made e
    orientation := Function.update s.orientation s.made ""
    made := s.made + 1 }

/-- `simplex-link`: the new link object, and its registration. -/
def simplexLink (s : State) (n₁ n₂ : Node) : State :=
  registerNamLinkconfig (s.newLink (n₁, n₂)) s.made

def duplexLink (s : State) (n₁ n₂ : Node) : Option State :=
  let removed := if (s.link (n₁, n₂)).isSome then removeNamLinkconfig s n₁ n₂ else some s
  removed.map fun s => simplexLink (simplexLink s n₁ n₂) n₂ n₁

/-- Scripts make links, set the `ORIENTATION` of link objects, and register the
link object of a pair of nodes again, to have it drawn later. -/
inductive Op where
  | simplex (n₁ n₂ : Node)
  | duplex (n₁ n₂ : Node)
  | orientation (l : Link) (ori : String)
  | register (n₁ n₂ : Node)
  deriving Repr, DecidableEq

def exec (s : State) : Op → Option State
  | .simplex n₁ n₂ => some (simplexLink s n₁ n₂)
  | .duplex n₁ n₂ => duplexLink s n₁ n₂
  | .orientation l ori => some { s with orientation := Function.update s.orientation l ori }
  | .register n₁ n₂ => (s.link (n₁, n₂)).map (registerNamLinkconfig s)

/-- The list stands for a directed pair. -/
def State.Listed (s : State) (e : Node × Node) : Prop := ∃ l, s.link e = some l ∧ l ∈ s.list

structure Sound (s : State) : Prop where
  ends : ∀ e l, s.link e = some l → s.ends l = e ∧ l < s.made
  nodup : s.list.Nodup
  current : ∀ l ∈ s.list, s.link (s.ends l) = some l
  once : ∀ e, e.swap ≠ e → s.Listed e → ¬ s.Listed e.swap

/-- Each link is drawn, in one direction or the other. -/
def Complete (s : State) : Prop := ∀ e, (s.link e).isSome → s.Listed e ∨ s.Listed e.swap

/-- nam draws each link once. -/
def Right (s : State) : Prop := Sound s ∧ Complete s

/-- The list holds a link object that `link_` has forgotten. -/
def Stale (s : State) : Prop := ∃ l ∈ s.list, ∀ e, s.link e ≠ some l

theorem Stale.not_right {s : State} (h : Stale s) : ¬ Right s := by
  obtain ⟨l, hl, hnone⟩ := h
  exact fun hright => hnone _ (hright.1.current l hl)

/-- No duplex link from a node to itself, no simplex link over one that is
listed, no duplex link over a lone simplex link the other way, and a link that
is registered again exists. -/
def Proper (s : State) : Op → Prop
  | .simplex n₁ n₂ => ¬ s.Listed (n₁, n₂)
  | .duplex n₁ n₂ => n₁ ≠ n₂ ∧ ((s.link (n₁, n₂)).isSome ∨ ¬ s.Listed (n₂, n₁))
  | .orientation _ _ => True
  | .register n₁ n₂ => (s.link (n₁, n₂)).isSome

section Registering

variable {s s' : State} {l r : Link} {e : Node × Node}

theorem State.reverse_eq_some_iff :
    s.reverse l = some r ↔ s.link (s.ends l).swap = some r ∧ r ∈ s.list := by
  unfold State.reverse
  cases s.link (s.ends l).swap with
  | none => simp
  | some m =>
    by_cases hm : m ∈ s.list
    · simp only [hm, if_true, Option.some.injEq]
      constructor
      · rintro rfl
        exact ⟨rfl, hm⟩
      · exact And.left
    · simp only [hm, if_false, Option.some.injEq]
      constructor
      · intro h
        cases h
      · rintro ⟨rfl, h⟩
        exact absurd h hm

/-- What registering a link object does to the list: nothing, if the reverse
link stays in it; else the object is in it and the reverse link is not. -/
theorem register_cases (hnodup : s.list.Nodup) (l : Link) :
    (registerNamLinkconfig s l = s ∧ s.Listed (s.ends l).swap) ∨
    ∃ list, registerNamLinkconfig s l = { s with config := some list } ∧ list.Nodup ∧
      ∀ m, m ∈ list ↔ m = l ∨ m ∈ s.list ∧ s.link (s.ends l).swap ≠ some m := by
  unfold registerNamLinkconfig
  cases hconfig : s.config with
  | none =>
    have hlist : s.list = [] := by rw [State.list, hconfig]; rfl
    exact .inr ⟨[l], rfl, List.nodup_singleton l, fun m => by simp [hlist]⟩
  | some list =>
    have hlist : s.list = list := by rw [State.list, hconfig]; rfl
    rw [hlist] at hnodup
    dsimp only
    cases hreverse : s.reverse l with
    | none =>
      refine .inr ⟨_, rfl, ?_, fun m => ?_⟩
      · exact (hnodup.erase l).append (List.nodup_singleton l) (by simp [hnodup.mem_erase_iff])
      · have hout : m ∈ list → s.link (s.ends l).swap ≠ some m := by
          intro hm heq
          have hsome : s.reverse l = some m := State.reverse_eq_some_iff.mpr ⟨heq, hlist ▸ hm⟩
          rw [hreverse] at hsome
          cases hsome
        rw [List.mem_append, List.mem_singleton, hnodup.mem_erase_iff, hlist]
        tauto
    | some r =>
      obtain ⟨hr, hmem⟩ := State.reverse_eq_some_iff.mp hreverse
      dsimp only
      split_ifs with hori
      · refine .inr ⟨_, rfl, ?_, fun m => ?_⟩
        · exact ((hnodup.erase r).erase l).append (List.nodup_singleton l)
            (by simp [(hnodup.erase r).mem_erase_iff])
        · have hne : some r ≠ some m ↔ m ≠ r := by simp [eq_comm]
          rw [List.mem_append, List.mem_singleton, (hnodup.erase r).mem_erase_iff,
            hnodup.mem_erase_iff, hlist, hr, hne]
          tauto
      · exact .inl ⟨rfl, r, hr, hmem⟩

/-- The pairs that the list stands for, before and after. -/
structure Registered (s : State) (e : Node × Node) (s' : State) : Prop where
  sound : Sound s'
  link : s'.link = s.link
  pairs : s' = s ∧ s.Listed e.swap ∨ ∀ x, s'.Listed x ↔ x = e ∨ s.Listed x ∧ x ≠ e.swap

theorem Sound.listed_iff (hs : Sound s) {list : List Link} (hl : s.link e = some l)
    (hmem : ∀ m, m ∈ list ↔ m = l ∨ m ∈ s.list ∧ s.link e.swap ≠ some m) (x : Node × Node) :
    State.Listed { s with config := some list } x ↔ x = e ∨ s.Listed x ∧ x ≠ e.swap := by
  constructor
  · rintro ⟨m, hm, hin⟩
    rcases (hmem m).mp hin with rfl | ⟨hold, hne⟩
    · exact .inl ((hs.ends x m hm).1.symm.trans (hs.ends e m hl).1)
    · refine .inr ⟨⟨m, hm, hold⟩, ?_⟩
      rintro rfl
      exact hne hm
  · rintro (rfl | ⟨⟨m, hm, hold⟩, hne⟩)
    · exact ⟨l, hl, (hmem l).mpr (.inl rfl)⟩
    · refine ⟨m, hm, (hmem m).mpr (.inr ⟨hold, fun hswap => hne ?_⟩)⟩
      exact (hs.ends x m hm).1.symm.trans (hs.ends e.swap m hswap).1

theorem Sound.register (hs : Sound s) (hl : s.link e = some l) :
    Registered s e (registerNamLinkconfig s l) := by
  have he : s.ends l = e := (hs.ends e l hl).1
  rcases register_cases hs.nodup l with ⟨hsame, hrev⟩ | ⟨list, heq, hnodup, hmem⟩
  · rw [hsame]
    exact ⟨hs, rfl, .inl ⟨rfl, he ▸ hrev⟩⟩
  · rw [he] at hmem
    have hlisted := hs.listed_iff hl hmem
    rw [heq]
    refine ⟨⟨hs.ends, hnodup, fun m hm => ?_, fun x hx hin hswap => ?_⟩, rfl, .inr hlisted⟩
    · rcases (hmem m).mp hm with rfl | ⟨hold, -⟩
      · exact he.symm ▸ hl
      · exact hs.current m hold
    · rcases (hlisted x).mp hin with rfl | ⟨hold, hne⟩
      · rcases (hlisted x.swap).mp hswap with h | ⟨-, h⟩
        · exact hx h
        · exact h rfl
      · rcases (hlisted x.swap).mp hswap with h | ⟨h, -⟩
        · exact hne (by rw [← h, Prod.swap_swap])
        · exact hs.once x hx hold h

/-- Registering one of two reverse links leaves one of them listed, and does not
touch the others. -/
theorem Registered.one (h : Registered s e s') : s'.Listed e ∨ s'.Listed e.swap := by
  rcases h.pairs with ⟨rfl, hrev⟩ | hpairs
  · exact .inr hrev
  · exact .inl ((hpairs e).mpr (.inl rfl))

theorem Registered.others (h : Registered s e s') {x : Node × Node} (hx : x ≠ e)
    (hx' : x ≠ e.swap) : s'.Listed x ↔ s.Listed x := by
  rcases h.pairs with ⟨rfl, -⟩ | hpairs
  · exact Iff.rfl
  · rw [hpairs]
    tauto

/-- All links but those between two nodes are drawn. -/
def CompleteExcept (s : State) (e : Node × Node) : Prop :=
  ∀ x, x ≠ e → x ≠ e.swap → (s.link x).isSome → s.Listed x ∨ s.Listed x.swap

theorem Registered.complete (h : Registered s e s') (hc : CompleteExcept s e) : Complete s' := by
  intro x hx
  by_cases hxe : x = e
  · rw [hxe]
    exact h.one
  by_cases hxs : x = e.swap
  · rw [hxs, Prod.swap_swap]
    exact h.one.symm
  · have hswap : x.swap ≠ e := fun heq => hxs (by rw [← heq, Prod.swap_swap])
    have hswap' : x.swap ≠ e.swap := fun heq => hxe (Prod.swap_inj.mp heq)
    rw [h.others hxe hxs, h.others hswap hswap']
    exact hc x hxe hxs (h.link ▸ hx)

end Registering

section Making

variable {s s' : State} {e : Node × Node}

theorem Sound.lt_made (hs : Sound s) {l : Link} (hl : l ∈ s.list) : l < s.made :=
  (hs.ends _ l (hs.current l hl)).2

theorem newLink_link_self : (s.newLink e).link e = some s.made := Function.update_self _ _ _

theorem newLink_link_of_ne {x : Node × Node} (hx : x ≠ e) : (s.newLink e).link x = s.link x :=
  Function.update_of_ne hx _ _

/-- The new link object is not listed yet. -/
theorem Sound.listed_newLink_iff (hs : Sound s) (hout : ¬ s.Listed e) (x : Node × Node) :
    (s.newLink e).Listed x ↔ s.Listed x := by
  by_cases hx : x = e
  · subst hx
    refine ⟨?_, fun h => absurd h hout⟩
    rintro ⟨l, hl, hmem⟩
    rw [newLink_link_self] at hl
    cases hl
    exact absurd (hs.lt_made hmem) (lt_irrefl _)
  · unfold State.Listed
    rw [newLink_link_of_ne hx]
    rfl

theorem Sound.newLink (hs : Sound s) (hout : ¬ s.Listed e) : Sound (s.newLink e) := by
  have hends : ∀ l, l < s.made → (s.newLink e).ends l = s.ends l :=
    fun l hl => Function.update_of_ne hl.ne _ _
  refine ⟨fun x l hl => ?_, hs.nodup, fun l hl => ?_, fun x hx hin => ?_⟩
  · by_cases hx : x = e
    · subst hx
      rw [newLink_link_self] at hl
      cases hl
      exact ⟨Function.update_self _ _ _, Nat.lt_succ_self _⟩
    · rw [newLink_link_of_ne hx] at hl
      obtain ⟨hxl, hlt⟩ := hs.ends x l hl
      exact ⟨(hends l hlt).trans hxl, Nat.lt_succ_of_lt hlt⟩
  · have hcurrent := hs.current l hl
    rw [hends l (hs.lt_made hl), newLink_link_of_ne]
    · exact hcurrent
    · rintro rfl
      exact hout ⟨l, hcurrent, hl⟩
  · rw [hs.listed_newLink_iff hout] at hin ⊢
    exact hs.once x hx hin

theorem Sound.simplex (hs : Sound s) {n₁ n₂ : Node} (hout : ¬ s.Listed (n₁, n₂)) :
    Registered (s.newLink (n₁, n₂)) (n₁, n₂) (simplexLink s n₁ n₂) :=
  (hs.newLink hout).register newLink_link_self

theorem CompleteExcept.newLink (hs : Sound s) (hout : ¬ s.Listed e) (hc : CompleteExcept s e) :
    CompleteExcept (s.newLink e) e := by
  intro x hx hx' hlink
  rw [newLink_link_of_ne hx] at hlink
  rw [hs.listed_newLink_iff hout, hs.listed_newLink_iff hout]
  exact hc x hx hx' hlink

theorem Complete.except (hc : Complete s) (e : Node × Node) : CompleteExcept s e :=
  fun x _ _ => hc x

theorem CompleteExcept.swap (hc : CompleteExcept s e) : CompleteExcept s e.swap :=
  fun x hx hx' => hc x (by rwa [Prod.swap_swap] at hx') hx

/-- Where nothing stands for two nodes, both links are made and one is listed. -/
theorem right_simplexLink_twice (hs : Sound s) {n₁ n₂ : Node} (hne : n₁ ≠ n₂)
    (hout : ¬ s.Listed (n₁, n₂)) (hout' : ¬ s.Listed (n₂, n₁))
    (hc : CompleteExcept s (n₁, n₂)) : Right (simplexLink (simplexLink s n₁ n₂) n₂ n₁) := by
  have hfirst := hs.simplex hout
  have hout₁ : ¬ (simplexLink s n₁ n₂).Listed (n₂, n₁) := by
    rcases hfirst.pairs with ⟨-, hrev⟩ | hpairs
    · exact absurd ((hs.listed_newLink_iff hout _).mp hrev) hout'
    · rw [hpairs]
      rintro (h | ⟨-, h⟩)
      · exact hne (congrArg Prod.snd h)
      · exact h rfl
  have hsecond := hfirst.sound.simplex hout₁
  have hcomplete := hfirst.complete (hc.newLink hs hout)
  exact ⟨hsecond.sound, hsecond.complete ((hcomplete.except _).newLink hfirst.sound hout₁)⟩

/-- The link object that the new one takes the place of stays in the list. -/
theorem Sound.stale_simplex (hs : Sound s) {n₁ n₂ : Node} (hin : s.Listed (n₁, n₂)) :
    Stale (simplexLink s n₁ n₂) := by
  obtain ⟨l, hl, hmem⟩ := hin
  have hlt : l < s.made := hs.lt_made hmem
  have hends : (s.newLink (n₁, n₂)).ends l = (n₁, n₂) :=
    (Function.update_of_ne hlt.ne _ _).trans (hs.ends _ l hl).1
  have hlink : ∀ x, (s.newLink (n₁, n₂)).link x ≠ some l := by
    intro x hx
    by_cases hxe : x = (n₁, n₂)
    · subst hxe
      rw [newLink_link_self] at hx
      cases hx
      exact lt_irrefl _ hlt
    · rw [newLink_link_of_ne hxe] at hx
      exact hxe ((hs.ends x l hx).1.symm.trans (hs.ends _ l hl).1)
  have hin' : l ∈ (s.newLink (n₁, n₂)).list := hmem
  unfold simplexLink
  rcases register_cases hs.nodup (s := s.newLink (n₁, n₂)) s.made with
    ⟨heq, -⟩ | ⟨list, heq, -, hmem'⟩
  · rw [heq]
    exact ⟨l, hin', hlink⟩
  · rw [heq]
    exact ⟨l, (hmem' l).mpr (.inr ⟨hin', hlink _⟩), hlink⟩

/-- The new link is not registered beside its reverse: it has no orientation. -/
theorem Sound.simplex_of_reverse (hs : Sound s) {n₁ n₂ : Node}
    (hout : s.link (n₁, n₂) = none) (hin : s.Listed (n₂, n₁)) :
    simplexLink s n₁ n₂ = s.newLink (n₁, n₂) := by
  have hnot : ¬ s.Listed (n₁, n₂) := by
    rintro ⟨l, hl, -⟩
    rw [hout] at hl
    cases hl
  have hends : (s.newLink (n₁, n₂)).ends s.made = (n₁, n₂) := Function.update_self _ _ _
  obtain ⟨r, hr, hmem⟩ := (hs.listed_newLink_iff hnot (n₂, n₁)).mpr hin
  have hreverse : (s.newLink (n₁, n₂)).reverse s.made = some r :=
    State.reverse_eq_some_iff.mpr ⟨by rw [hends]; exact hr, hmem⟩
  have hori : (s.newLink (n₁, n₂)).orientation s.made = "" := Function.update_self _ _ _
  unfold simplexLink registerNamLinkconfig
  cases hconfig : (s.newLink (n₁, n₂)).config with
  | none =>
    rw [State.list, hconfig] at hmem
    cases hmem
  | some list =>
    dsimp only
    rw [hreverse]
    dsimp only
    rw [if_neg fun h => h.2 hori]

end Making

section Removing

variable {s s' : State} {e : Node × Node} {m : Link}

theorem Sound.erase (hs : Sound s) (hm : s.link e = some m) :
    let s' : State := { s with config := some (s.list.erase m) }
    Sound s' ∧ ∀ x, s'.Listed x ↔ s.Listed x ∧ x ≠ e := by
  have hmem : ∀ l, l ∈ s.list.erase m ↔ l ≠ m ∧ l ∈ s.list := fun l => hs.nodup.mem_erase_iff
  have hlisted : ∀ x, State.Listed { s with config := some (s.list.erase m) } x ↔
      s.Listed x ∧ x ≠ e := by
    intro x
    constructor
    · rintro ⟨l, hl, hin⟩
      obtain ⟨hne, hold⟩ := (hmem l).mp hin
      refine ⟨⟨l, hl, hold⟩, ?_⟩
      rintro rfl
      exact hne (Option.some.inj (hl.symm.trans hm))
    · rintro ⟨⟨l, hl, hold⟩, hne⟩
      refine ⟨l, hl, (hmem l).mpr ⟨?_, hold⟩⟩
      rintro rfl
      exact hne ((hs.ends x l hl).1.symm.trans (hs.ends e l hm).1)
  refine ⟨⟨hs.ends, hs.nodup.erase m, fun l hl => ?_, fun x hx hin hswap => ?_⟩, hlisted⟩
  · exact hs.current l ((hmem l).mp hl).2
  · exact hs.once x hx ((hlisted x).mp hin).1 ((hlisted x.swap).mp hswap).1

/-- An existing link can be removed from the list: then nothing stands for its
two nodes. -/
theorem Right.remove (h : Right s) {i₁ i₂ : Node} (hlink : (s.link (i₁, i₂)).isSome) :
    ∃ s', removeNamLinkconfig s i₁ i₂ = some s' ∧ Sound s' ∧ CompleteExcept s' (i₁, i₂) ∧
      ¬ s'.Listed (i₁, i₂) ∧ ¬ s'.Listed (i₂, i₁) := by
  obtain ⟨hs, hc⟩ := h
  have hrest : ∀ {e m}, s.link e = some m → (e = (i₁, i₂) ∨ e = (i₂, i₁)) → s.Listed e →
      ∃ s', some { s with config := some (s.list.erase m) } = some s' ∧ Sound s' ∧
        CompleteExcept s' (i₁, i₂) ∧ ¬ s'.Listed (i₁, i₂) ∧ ¬ s'.Listed (i₂, i₁) := by
    intro e m hm he hin
    obtain ⟨hs', hlisted⟩ := hs.erase hm
    refine ⟨_, rfl, hs', fun x hx hx' hsome => ?_, ?_, ?_⟩
    · have hxe : x ≠ e ∧ x.swap ≠ e := by
        rcases he with rfl | rfl
        · exact ⟨hx, fun h => hx' (by rw [← h, Prod.swap_swap])⟩
        · exact ⟨hx', fun h => hx (by rw [← Prod.swap_swap x, h]; rfl)⟩
      rw [hlisted, hlisted, and_iff_left hxe.1, and_iff_left hxe.2]
      exact hc x hsome
    · rw [hlisted]
      rintro ⟨hin', hne⟩
      rcases he with rfl | rfl
      · exact hne rfl
      · exact hs.once (i₂, i₁) hne hin hin'
    · rw [hlisted]
      rintro ⟨hin', hne⟩
      rcases he with rfl | rfl
      · exact hs.once (i₁, i₂) hne hin hin'
      · exact hne rfl
  unfold removeNamLinkconfig
  obtain ⟨l, hl⟩ := Option.isSome_iff_exists.mp hlink
  cases hconfig : s.config with
  | none =>
    have hlist : s.list = [] := by rw [State.list, hconfig]; rfl
    rcases hc _ hlink with ⟨m, -, hmem⟩ | ⟨m, -, hmem⟩
    · rw [hlist] at hmem
      cases hmem
    · rw [hlist] at hmem
      cases hmem
  | some list =>
    have hlist : s.list = list := by rw [State.list, hconfig]; rfl
    rw [hl]
    dsimp only
    split_ifs with hmem
    · exact hlist ▸ hrest hl (.inl rfl) ⟨l, hl, hlist ▸ hmem⟩
    · have hin : s.Listed (i₂, i₁) := by
        rcases hc _ hlink with ⟨m, hm, hin⟩ | hin
        · rw [hl] at hm
          cases hm
          exact absurd (hlist ▸ hin) hmem
        · exact hin
      obtain ⟨r, hr, hrmem⟩ := hin
      rw [hr]
      exact hlist ▸ hrest hr (.inr rfl) ⟨r, hr, hrmem⟩

end Removing

section Steps

variable {s s' : State} {op : Op} {ops : List Op}

theorem not_listed_of_none {e : Node × Node} (h : s.link e = none) : ¬ s.Listed e := by
  rintro ⟨l, hl, -⟩
  rw [h] at hl
  cases hl

theorem Right.simplex (h : Right s) {n₁ n₂ : Node} (hout : ¬ s.Listed (n₁, n₂)) :
    Right (simplexLink s n₁ n₂) := by
  have hreg := h.1.simplex hout
  exact ⟨hreg.sound, hreg.complete ((h.2.except _).newLink h.1 hout)⟩

theorem Right.step (h : Right s) (hop : Proper s op) : ∃ s', exec s op = some s' ∧ Right s' := by
  cases op with
  | simplex n₁ n₂ => exact ⟨_, rfl, h.simplex hop⟩
  | duplex n₁ n₂ =>
    obtain ⟨hne, hlone⟩ := hop
    by_cases hlink : (s.link (n₁, n₂)).isSome
    · obtain ⟨s', hremove, hs', hc', hout, hout'⟩ := h.remove hlink
      refine ⟨_, by rw [exec, duplexLink, if_pos hlink, hremove]; rfl, ?_⟩
      exact right_simplexLink_twice hs' hne hout hout' hc'
    · refine ⟨_, by rw [exec, duplexLink, if_neg hlink]; rfl, ?_⟩
      exact right_simplexLink_twice h.1 hne (not_listed_of_none (by simpa using hlink))
        (hlone.resolve_left hlink) (h.2.except _)
  | orientation l ori =>
    exact ⟨_, rfl, ⟨h.1.ends, h.1.nodup, h.1.current, h.1.once⟩, h.2⟩
  | register n₁ n₂ =>
    obtain ⟨l, hl⟩ := Option.isSome_iff_exists.mp hop
    have hreg := h.1.register hl
    exact ⟨_, by rw [exec, hl]; rfl, hreg.sound, hreg.complete (h.2.except _)⟩

/-- A duplex link that goes wrong: its second half finds itself in the list. -/
theorem Right.stale_duplex (h : Right s) {n₁ n₂ : Node}
    (hbad : n₁ = n₂ ∨ s.link (n₁, n₂) = none ∧ s.Listed (n₂, n₁)) :
    ∃ s', duplexLink s n₁ n₂ = some s' ∧ Stale s' := by
  rcases hbad with rfl | ⟨hnone, hin⟩
  · have hfrom : ∀ {t}, Sound t → ¬ t.Listed (n₁, n₁) →
        Stale (simplexLink (simplexLink t n₁ n₁) n₁ n₁) := by
      intro t ht hout
      have hreg := ht.simplex hout
      exact hreg.sound.stale_simplex (hreg.one.elim id id)
    by_cases hlink : (s.link (n₁, n₁)).isSome
    · obtain ⟨t, hremove, ht, -, hout, -⟩ := h.remove hlink
      exact ⟨_, by rw [duplexLink, if_pos hlink, hremove]; rfl, hfrom ht hout⟩
    · have hout : ¬ s.Listed (n₁, n₁) := not_listed_of_none (by simpa using hlink)
      exact ⟨_, by rw [duplexLink, if_neg hlink]; rfl, hfrom h.1 hout⟩
  · have hlink : ¬ (s.link (n₁, n₂)).isSome := by simp [hnone]
    have hout := not_listed_of_none hnone
    refine ⟨_, by rw [duplexLink, if_neg hlink]; rfl, ?_⟩
    dsimp only
    rw [h.1.simplex_of_reverse hnone hin]
    exact (h.1.newLink hout).stale_simplex ((h.1.listed_newLink_iff hout _).mpr hin)

/-- What an improper operation does to a right list, if it does not fail. -/
theorem Right.improper (h : Right s) (hop : ¬ Proper s op) :
    (exec s op = none ∧ ∃ n₁ n₂, op = .register n₁ n₂) ∨
      ∃ s', exec s op = some s' ∧ Stale s' := by
  cases op with
  | simplex n₁ n₂ => exact .inr ⟨_, rfl, h.1.stale_simplex (not_not.mp hop)⟩
  | duplex n₁ n₂ =>
    refine .inr (h.stale_duplex ?_)
    by_cases heq : n₁ = n₂
    · exact .inl heq
    · have hlone : ¬ ((s.link (n₁, n₂)).isSome ∨ ¬ s.Listed (n₂, n₁)) :=
        fun hlone => hop ⟨heq, hlone⟩
      rw [not_or, not_not] at hlone
      exact .inr ⟨by simpa using hlone.1, hlone.2⟩
  | orientation l ori => exact absurd trivial hop
  | register n₁ n₂ =>
    have hnone : s.link (n₁, n₂) = none := by simpa [Proper] using hop
    exact .inl ⟨by rw [exec, hnone]; rfl, n₁, n₂, rfl⟩

/-- From a right list, the proper operations are those that leave a right one.
Any other fails, for want of a link to register, or leaves a dropped link object
in the list. -/
theorem right_step_iff (h : Right s) (op : Op) :
    ((∃ s', exec s op = some s' ∧ Right s') ↔ Proper s op) ∧
    (¬ Proper s op → (exec s op = none ∧ ∃ n₁ n₂, op = .register n₁ n₂) ∨
      ∃ s', exec s op = some s' ∧ ∃ l ∈ s'.list, ∀ e, s'.link e ≠ some l) := by
  refine ⟨⟨?_, h.step⟩, fun hop => h.improper hop⟩
  rintro ⟨s', hexec, hright⟩
  by_contra hop
  rcases h.improper hop with ⟨hnone, -⟩ | ⟨s'', hexec', hstale⟩
  · rw [hnone] at hexec
    cases hexec
  · rw [hexec, Option.some.injEq] at hexec'
    exact hstale.not_right (hexec' ▸ hright)

def Step (s : State) (op : Op) (s' : State) : Prop := Proper s op ∧ exec s op = some s'

theorem right_init : Right .init := by
  refine ⟨⟨fun e l h => ?_, List.nodup_nil, fun l h => absurd h List.not_mem_nil, fun e _ h => ?_⟩,
    fun e h => ?_⟩
  · cases h
  · exact absurd h (not_listed_of_none rfl)
  · cases h

/-- Whatever links a script makes, orients and registers by these rules, nam is
told of each pair of linked nodes once, by a link object that is still in use. -/
theorem right_run (run : Run Step .init ops s) : Right s := by
  refine run.invariant Right right_init ?_
  rintro s op s' - h ⟨hop, hexec⟩
  obtain ⟨s'', hexec', h'⟩ := h.step hop
  rw [hexec] at hexec'
  cases hexec'
  exact h'

/-- A duplex link that is oriented the other way round, and then made anew. -/
def remade : List Op :=
  [.duplex 0 1, .orientation 1 "right", .register 1 0, .duplex 0 1, .simplex 2 0]

theorem exists_run_remade : ∃ s, Run Step .init remade s ∧ s.list = [2, 4] :=
  ⟨_, .cons ⟨⟨by decide, .inr (not_listed_of_none rfl)⟩, rfl⟩ (.cons ⟨trivial, rfl⟩
    (.cons ⟨rfl, rfl⟩ (.cons ⟨⟨by decide, .inl rfl⟩, rfl⟩
      (.cons ⟨not_listed_of_none rfl, rfl⟩ (.nil _))))), by decide⟩

theorem right_run_remade : ∃ s, Right s ∧ s.list = [2, 4] := by
  obtain ⟨s, run, hlist⟩ := exists_run_remade
  exact ⟨s, right_run run, hlist⟩

/-- A simplex link is in the list. It is made again, or a duplex link is laid over
it the other way, or beside it one from a node to itself. -/
theorem right_step_iff_lone :
    let s := simplexLink .init 1 0
    s.list = [0] ∧ (∃ s', exec s (.duplex 1 2) = some s' ∧ Right s') ∧
      ∀ op ∈ [Op.simplex 1 0, .duplex 0 1, .duplex 2 2],
        ∃ s', exec s op = some s' ∧ ∃ l ∈ s'.list, ∀ e, s'.link e ≠ some l := by
  intro s
  have hright : Right s := right_init.simplex (not_listed_of_none rfl)
  have hlisted : s.Listed (1, 0) := ⟨0, rfl, by decide⟩
  have hstale : ∀ op, ¬ Proper s op → (∀ n₁ n₂, op ≠ .register n₁ n₂) →
      ∃ s', exec s op = some s' ∧ ∃ l ∈ s'.list, ∀ e, s'.link e ≠ some l := by
    intro op hop hne
    rcases (right_step_iff hright op).2 hop with ⟨-, n₁, n₂, h⟩ | h
    · exact absurd h (hne n₁ n₂)
    · exact h
  refine ⟨by decide, (right_step_iff hright _).1.mpr ?_, ?_⟩
  · exact ⟨by decide, .inr (not_listed_of_none rfl)⟩
  · intro op hop
    simp only [List.mem_cons, List.not_mem_nil, or_false] at hop
    rcases hop with rfl | rfl | rfl
    · exact hstale _ (fun h => h hlisted) (by simp)
    · refine hstale _ (fun h => ?_) (by simp)
      exact h.2.elim (by decide) fun hnot => hnot hlisted
    · exact hstale _ (fun h => h.1 rfl) (by simp)

end Steps

end LearnNs2.NamLinks

import Mathlib.Order.Interval.Set.Nat
import LearnNs2.Common.Ownership

/-!
# Runs of the pool

The view of a heap shows the packets whose `fflag_` is set. The free list holds
the others, each once, and no write of a client reaches them, although the list
goes through a field that the clients use.
-/

namespace LearnNs2.Pool

set_option autoImplicit false

open Chains LabelledRuns

universe u v

variable {δ : Type u} {σ : Type v}

namespace Heap

variable {env : Elsewhere δ σ} {h h' : Heap δ σ} {p q : Ptr} {c : Cell δ σ} {x : Content δ σ}

def view (h : Heap δ σ) : Store δ σ := fun p =>
  if (h.cells p).fflag then some (h.cells p).toContent else none

structure Sound (h : Heap δ σ) : Prop where
  list : ∃ l, Chain (fun p => (h.cells p).next) h.freeList l ∧
    ∀ p, p ∈ l ↔ p < h.size ∧ (h.cells p).fflag = false
  made : ∀ p, (h.cells p).fflag = true → p < h.size
  clean : ∀ p, (h.cells p).fflag = false →
    (h.cells p).refCount = 0 ∧ (h.cells p).data = none

/-- How the number of packets changes: a new one only when all are in use. -/
def Grows (h h' : Heap δ σ) : Prop :=
  h'.size = h.size ∨ h'.size = h.size + 1 ∧ ∀ q < h'.size, h'.view q ≠ none

theorem view_eq_some_iff :
    h.view p = some x ↔ (h.cells p).fflag = true ∧ (h.cells p).toContent = x := by
  unfold view
  split_ifs with hf <;> simp [hf]

theorem view_eq_none_iff : h.view p = none ↔ (h.cells p).fflag = false := by
  unfold view
  split_ifs with hf <;> simp [hf]

@[simp] theorem set_cells_self : (h.set p c).cells p = c := Function.update_self _ _ _

theorem set_cells_of_ne (hq : q ≠ p) : (h.set p c).cells q = h.cells q :=
  Function.update_of_ne hq _ _

theorem view_set : (h.set p c).view =
    Function.update h.view p (if c.fflag then some c.toContent else none) := by
  funext q
  by_cases hq : q = p
  · subst hq
    rw [Function.update_self, view, set_cells_self]
  · rw [Function.update_of_ne hq, view, view, set_cells_of_ne hq]

namespace Sound

theorem empty : (Heap.empty env).Sound where
  list := ⟨[], .nil, fun p => by simp [Heap.empty]⟩
  made p hp := by simp [Heap.empty, Heap.new] at hp
  clean p _ := ⟨rfl, rfl⟩

/-- Only one cell is new: what is left to show is the free list. -/
theorem replace (hs : h.Sound) (hcells : ∀ q, q ≠ p → h'.cells q = h.cells q)
    (hsize : h.size ≤ h'.size) (hp : p < h'.size)
    (hclean : (h'.cells p).fflag = false → (h'.cells p).refCount = 0 ∧ (h'.cells p).data = none)
    (list : ∃ l, Chain (fun p => (h'.cells p).next) h'.freeList l ∧
      ∀ q, q ∈ l ↔ q < h'.size ∧ (h'.cells q).fflag = false) : h'.Sound := by
  refine ⟨list, fun q hq => ?_, fun q hq => ?_⟩
  · by_cases hqp : q = p
    · rwa [hqp]
    · rw [hcells q hqp] at hq
      exact (hs.made q hq).trans_le hsize
  · by_cases hqp : q = p
    · subst hqp
      exact hclean hq
    · rw [hcells q hqp] at hq ⊢
      exact hs.clean q hq

/-- Clients write to packets in use, so the free list stays as it is. -/
theorem set (hs : h.Sound) (hp : (h.cells p).fflag = true) (hc : c.fflag = true) :
    (h.set p c).Sound := by
  obtain ⟨l, hl, hmem⟩ := hs.list
  have hne : ∀ q ∈ l, q ≠ p := by
    rintro q hq rfl
    rw [((hmem q).mp hq).2] at hp
    cases hp
  refine hs.replace (fun q => set_cells_of_ne) le_rfl (hs.made p hp) ?_ ⟨l, ?_, fun q => ?_⟩
  · rw [set_cells_self, hc]
    intro hf
    cases hf
  · exact hl.congr fun q hq => by rw [set_cells_of_ne (hne q hq)]
  · by_cases hq : q = p
    · subst hq
      have hout : q ∉ l := fun hmem => hne q hmem rfl
      simp [hout, hc]
    · rw [set_cells_of_ne hq]
      exact hmem q

/-- The free list is empty: `alloc` makes a packet, and then all are in use. -/
theorem alloc_of_none (hs : h.Sound) (hfree : h.freeList = none) :
    ∃ h', h.alloc env = some (h.size, h') ∧ h'.Sound ∧ h.view h.size = none ∧
      h'.view = Function.update h.view h.size (some (.fresh env.stamp)) ∧ Grows h h' := by
  obtain ⟨l, hl, hmem⟩ := hs.list
  rw [hfree] at hl
  obtain rfl := hl.of_none
  have hidle : h.view h.size = none := by
    rw [view_eq_none_iff]
    by_contra hf
    exact lt_irrefl _ (hs.made h.size (by simpa using hf))
  let h' : Heap δ σ := { h.set h.size (ready (new env)) with size := h.size + 1 }
  have hself : h'.cells h.size = ready (new env) := set_cells_self
  have hother : ∀ q, q ≠ h.size → h'.cells q = h.cells q := fun q => set_cells_of_ne
  have hall : ∀ q < h.size + 1, (h'.cells q).fflag = true := by
    intro q hq
    by_cases hqs : q = h.size
    · rw [hqs, hself]
      rfl
    · rw [hother q hqs]
      by_contra hf
      exact List.not_mem_nil ((hmem q).mpr ⟨lt_of_le_of_ne (Nat.le_of_lt_succ hq) hqs, by simpa using hf⟩)
  refine ⟨h', by rw [Heap.alloc, hfree], ?_, hidle, view_set, .inr ⟨rfl, fun q hq => ?_⟩⟩
  · refine hs.replace hother (Nat.le_succ _) (Nat.lt_succ_self _) ?_ ⟨[], ?_, fun q => ?_⟩
    · rw [hself]
      intro hf
      cases hf
    · change Chain _ h.freeList _
      rw [hfree]
      exact .nil
    · simp only [List.not_mem_nil, false_iff, not_and, Bool.not_eq_false]
      exact hall q
  · rw [Ne, view_eq_none_iff, hall q hq]
    exact Bool.true_eq_false.mp

/-- `alloc` takes the first packet of the free list. -/
theorem alloc_of_some (hs : h.Sound) (hfree : h.freeList = some p) :
    ∃ h', h.alloc env = some (p, h') ∧ h'.Sound ∧ h.view p = none ∧
      h'.view = Function.update h.view p (some (.fresh (h.cells p).txinfo)) ∧ Grows h h' := by
  obtain ⟨l, hl, hmem⟩ := hs.list
  rw [hfree] at hl
  obtain ⟨t, rfl, ht⟩ := hl.of_some
  obtain ⟨hlt, hidle⟩ := (hmem p).mp List.mem_cons_self
  obtain ⟨hcount, hdata⟩ := hs.clean p hidle
  let c := ready { h.cells p with uid := 0 }
  let h' : Heap δ σ := { h.set p c with freeList := (h.cells p).next }
  have hself : h'.cells p = c := set_cells_self
  have hother : ∀ q, q ≠ p → h'.cells q = h.cells q := fun q => set_cells_of_ne
  have hsize : h'.size = h.size := rfl
  have hfresh : c.toContent = .fresh (h.cells p).txinfo := by
    simp only [c, ready, hcount, hdata]
    rfl
  refine ⟨h', by simp [Heap.alloc, hfree, hidle, hdata, h', c], ?_, view_eq_none_iff.mpr hidle,
    hfresh ▸ view_set, .inl rfl⟩
  refine hs.replace hother le_rfl hlt ?_ ⟨t, ?_, fun q => ?_⟩
  · rw [hself]
    intro hf
    cases hf
  · refine ht.congr fun q hq => ?_
    have hqp : q ≠ p := by
      rintro rfl
      exact hl.not_mem_tail hq
    exact congrArg (fun c => c.next) (hother q hqp)
  · by_cases hqp : q = p
    · subst hqp
      rw [hself]
      simpa [c, ready] using hl.not_mem_tail
    · rw [hother q hqp]
      simpa only [List.mem_cons, hqp, false_or, hsize] using hmem q

theorem alloc (env : Elsewhere δ σ) (hs : h.Sound) :
    ∃ p t h', h.alloc env = some (p, h') ∧ h'.Sound ∧ h.view p = none ∧
      h'.view = Function.update h.view p (some (.fresh t)) ∧ Grows h h' := by
  cases hfree : h.freeList with
  | none => exact ⟨_, _, hs.alloc_of_none hfree⟩
  | some p => exact ⟨_, _, hs.alloc_of_some hfree⟩

/-- The last reference is gone: the packet becomes the first of the free list. -/
theorem free_of_last (hs : h.Sound) (hp : h.view p = some x) (hcount : x.refCount = 0)
    (huid : x.uid ≤ 0) :
    ∃ h', h.free p = some h' ∧ h'.Sound ∧ h'.view = Function.update h.view p none ∧
      Grows h h' := by
  obtain ⟨hflag, rfl⟩ := view_eq_some_iff.mp hp
  obtain ⟨l, hl, hmem⟩ := hs.list
  have hout : p ∉ l := by
    intro hin
    rw [((hmem p).mp hin).2] at hflag
    cases hflag
  let c : Cell δ σ :=
    { h.cells p with data := none, bits := .zero, next := h.freeList, fflag := false }
  let h' : Heap δ σ := { h.set p c with freeList := some p }
  have hself : h'.cells p = c := set_cells_self
  have hother : ∀ q, q ≠ p → h'.cells q = h.cells q := fun q => set_cells_of_ne
  have hsize : h'.size = h.size := rfl
  refine ⟨h', by simp [Heap.free, hflag, hcount, huid, h', c], ?_, view_set, .inl rfl⟩
  refine hs.replace hother le_rfl (hs.made p hflag) ?_ ⟨p :: l, ?_, fun q => ?_⟩
  · rw [hself]
    exact fun _ => ⟨hcount, rfl⟩
  · refine hl.push ?_ fun q hq => ?_
    · rw [hself]
    · rw [hother q (by rintro rfl; exact hout hq)]
  · by_cases hqp : q = p
    · subst hqp
      simpa [hself, c, hsize] using hs.made q hflag
    · rw [hother q hqp]
      simpa only [List.mem_cons, hqp, false_or, hsize] using hmem q

/-- A client writes to a packet in use. -/
theorem write (hs : h.Sound) (hp : h.view p = some x) (hc : c.fflag = true) :
    (h.set p c).Sound ∧ (h.set p c).view = Function.update h.view p (some c.toContent) := by
  have hflag := (view_eq_some_iff.mp hp).1
  refine ⟨hs.set hflag hc, ?_⟩
  rw [view_set, if_pos hc]

/-- What `alloc` handed out is written to before anyone else has it. -/
theorem write_new (hs : h'.Sound) (hview : h'.view = Function.update h.view p (some x))
    (hgrows : Grows h h') (hc : c.fflag = true) :
    (h'.set p c).Sound ∧ (h'.set p c).view = Function.update h.view p (some c.toContent) ∧
      Grows h (h'.set p c) := by
  have hp : h'.view p = some x := by rw [hview, Function.update_self]
  obtain ⟨hsound, hview'⟩ := hs.write hp hc
  refine ⟨hsound, by rw [hview', hview, Function.update_idem], ?_⟩
  rcases hgrows with hsize | ⟨hsize, hall⟩
  · exact .inl hsize
  · refine .inr ⟨hsize, fun q hq => ?_⟩
    rw [hview']
    by_cases hqp : q = p
    · rw [hqp, Function.update_self]
      exact Option.some_ne_none _
    · rw [Function.update_of_ne hqp]
      exact hall q hq

/-- A call by the rules succeeds, and does to the packets in use what the store
says of it. -/
theorem exec (env : Elsewhere δ σ) (hs : h.Sound) {call : Call δ} (hcall : h.view.Allows call) :
    ∃ r h', h.exec env call = some (r, h') ∧ h'.Sound ∧
      Store.Step env h.view (call, r) h'.view ∧ Grows h h' := by
  have hwrite : ∀ {p x} {c : Cell δ σ}, h.view p = some x → c.fflag = true →
      ∃ h', h.set p c = h' ∧ h'.Sound ∧
        h'.view = Function.update h.view p (some c.toContent) ∧ Grows h h' :=
    fun hp hc => ⟨_, rfl, (hs.write hp hc).1, (hs.write hp hc).2, .inl rfl⟩
  cases call with
  | alloc =>
    obtain ⟨p, t, h', hexec, hs', hnone, hview, hgrows⟩ := hs.alloc env
    refine ⟨some p, h', by simp [Heap.exec, hexec], hs', ?_, hgrows⟩
    exact hview ▸ .alloc hnone
  | allocn n =>
    obtain ⟨p, t, h', hexec, hs', hnone, hview, hgrows⟩ := hs.alloc env
    have hp : h'.view p = some (.fresh t) := by rw [hview, Function.update_self]
    obtain ⟨hflag, hcell⟩ := view_eq_some_iff.mp hp
    have hstep : Store.Step env h.view (.allocn n, some p) _ := .allocn (t := t) hnone
    by_cases hn : 0 < n
    · have hdata : (h'.cells p).data = none := congrArg Content.data hcell
      let c : Cell δ σ := { h'.cells p with data := some (.packetData (.new n)) }
      have hc : c.toContent =
          { (Content.fresh t : Content δ σ) with data := some (.packetData (.new n)) } := by
        rw [← hcell]
      obtain ⟨hs'', hview', hgrows'⟩ := hs'.write_new (c := c) hview hgrows hflag
      refine ⟨some p, h'.set p c, ?_, hs'', ?_, hgrows'⟩
      · simp [Heap.exec, Heap.allocn, hexec, hn, allocdata, hdata, c]
      · rw [if_pos hn, ← hc, ← hview'] at hstep
        exact hstep
    · refine ⟨some p, h', by simp [Heap.exec, Heap.allocn, hexec, hn], hs', ?_, hgrows⟩
      rw [if_neg hn] at hstep
      exact hview ▸ hstep
  | copy p =>
    obtain ⟨x, hx⟩ := hcall
    obtain ⟨q, t, h', hexec, hs', hnone, hview, hgrows⟩ := hs.alloc env
    have hpq : p ≠ q := by
      rintro rfl
      rw [hx] at hnone
      cases hnone
    have hp : h'.view p = some x := by rw [hview, Function.update_of_ne hpq, hx]
    have hq : h'.view q = some (.fresh t) := by rw [hview, Function.update_self]
    obtain ⟨-, hthis⟩ := view_eq_some_iff.mp hp
    obtain ⟨hflag, hcell⟩ := view_eq_some_iff.mp hq
    let c : Cell δ σ := { h'.cells q with
      bits := (h'.cells p).bits
      data := ((h'.cells p).data.map env.copyData).or (h'.cells q).data
      txinfo := env.init (h'.cells q).txinfo (h'.cells p).txinfo }
    have hc : c.toContent = { (Content.fresh (env.init t x.txinfo) : Content δ σ) with
        bits := x.bits, data := x.data.map env.copyData } := by
      simp only [c]
      rw [hcell, ← hthis]
      simp [Content.fresh]
    obtain ⟨hs'', hview', hgrows'⟩ := hs'.write_new (c := c) hview hgrows hflag
    refine ⟨some q, h'.set q c, by simp [Heap.exec, Heap.copy, hexec, c], hs'', ?_, hgrows'⟩
    rw [hview', hc]
    exact .copy hx hnone
  | refcopy p =>
    obtain ⟨x, hx⟩ := hcall
    obtain ⟨hflag, rfl⟩ := view_eq_some_iff.mp hx
    obtain ⟨h', hexec, hs', hview, hgrows⟩ := hwrite (c := { h.cells p with
      refCount := (h.cells p).refCount + 1 }) hx hflag
    exact ⟨some p, h', by simp [Heap.exec, Heap.refcopy, hexec], hs', hview ▸ .refcopy hx, hgrows⟩
  | free p =>
    obtain ⟨x, hx, huid⟩ := hcall
    obtain ⟨hflag, rfl⟩ := view_eq_some_iff.mp hx
    by_cases hcount : (h.cells p).refCount = 0
    · obtain ⟨h', hexec, hs', hview, hgrows⟩ := hs.free_of_last hx hcount (huid hcount)
      exact ⟨none, h', by simp [Heap.exec, hexec], hs', hview ▸ .last hx hcount, hgrows⟩
    · obtain ⟨h', rfl, hs', hview, hgrows⟩ := hwrite (c := { h.cells p with
        refCount := (h.cells p).refCount - 1 }) hx hflag
      refine ⟨none, _, ?_, hs', hview ▸ .release hx hcount, hgrows⟩
      simp only [Heap.exec, Heap.free, if_pos hflag, if_neg hcount]
      rfl
  | allocdata p n =>
    obtain ⟨x, hx, hdata⟩ := hcall
    obtain ⟨hflag, rfl⟩ := view_eq_some_iff.mp hx
    obtain ⟨h', hexec, hs', hview, hgrows⟩ := hwrite (c := { h.cells p with
      data := some (.packetData (.new n)) }) hx hflag
    refine ⟨none, h', ?_, hs', hview ▸ .allocdata hx, hgrows⟩
    simp [Heap.exec, Heap.allocdata, hdata, hexec]
  | setdata p d =>
    obtain ⟨x, hx⟩ := hcall
    obtain ⟨hflag, rfl⟩ := view_eq_some_iff.mp hx
    obtain ⟨h', hexec, hs', hview, hgrows⟩ := hwrite (c := { h.cells p with data := d }) hx hflag
    exact ⟨none, h', by simp [Heap.exec, hexec], hs', hview ▸ .setdata hx, hgrows⟩
  | write p bits =>
    obtain ⟨x, hx⟩ := hcall
    obtain ⟨hflag, rfl⟩ := view_eq_some_iff.mp hx
    obtain ⟨h', hexec, hs', hview, hgrows⟩ :=
      hwrite (c := { h.cells p with bits := bits }) hx hflag
    exact ⟨none, h', by simp [Heap.exec, hexec], hs', hview ▸ .write hx, hgrows⟩
  | link p next =>
    obtain ⟨x, hx⟩ := hcall
    obtain ⟨hflag, rfl⟩ := view_eq_some_iff.mp hx
    obtain ⟨h', hexec, hs', hview, hgrows⟩ :=
      hwrite (c := { h.cells p with next := next }) hx hflag
    exact ⟨none, h', by simp [Heap.exec, hexec], hs', hview ▸ .link hx, hgrows⟩
  | schedule p uid =>
    obtain ⟨x, hx⟩ := hcall
    obtain ⟨hflag, rfl⟩ := view_eq_some_iff.mp hx
    obtain ⟨h', hexec, hs', hview, hgrows⟩ :=
      hwrite (c := { h.cells p with uid := uid }) hx hflag
    exact ⟨none, h', by simp [Heap.exec, hexec], hs', hview ▸ .schedule hx, hgrows⟩

end Sound

/-- One call of a client that keeps the rules. -/
def Uses (env : Elsewhere δ σ) (h : Heap δ σ) (l : Label δ) (h' : Heap δ σ) : Prop :=
  h.view.Allows l.1 ∧ h.exec env l.1 = some (l.2, h')

variable {l : Label δ} {es fs : List (Label δ)}

theorem Uses.spec (hu : Uses env h l h') (hs : h.Sound) :
    h'.Sound ∧ Store.Step env h.view l h'.view ∧ Grows h h' := by
  obtain ⟨r, h'', hexec, hs', hstep, hgrows⟩ := hs.exec env hu.1
  obtain ⟨hr, rfl⟩ : l.2 = r ∧ h' = h'' := by simpa [hu.2] using hexec
  subst hr
  exact ⟨hs', hstep, hgrows⟩

theorem view_empty : (Heap.empty env).view = fun _ => none := by
  funext p
  exact view_eq_none_iff.mpr rfl

/-- User data that copies as it is, and no stamps. -/
def plain : Elsewhere Unit Unit := ⟨id, (), fun t _ => t⟩

/-- A packet gets a second reference and a copy; both references are given back,
and the packet is handed out again. -/
def recycled : List (Label Unit) :=
  [(.alloc, some 0), (.refcopy 0, some 0), (.copy 0, some 1), (.free 0, none), (.free 0, none),
    (.alloc, some 0)]

theorem exists_run_recycled :
    ∃ h, Run (Uses plain) (Heap.empty plain) recycled h ∧ h.size = 2 :=
  ⟨_, .cons ⟨trivial, rfl⟩ (.cons ⟨⟨_, rfl⟩, rfl⟩ (.cons ⟨⟨_, rfl⟩, rfl⟩
    (.cons ⟨⟨_, rfl, by decide⟩, rfl⟩ (.cons ⟨⟨_, rfl, by decide⟩, rfl⟩
      (.cons ⟨trivial, rfl⟩ (.nil _)))))), rfl⟩

/-- The books of the pool agree with the history of calls. -/
structure Accounts (es : List (Label δ)) (h : Heap δ σ) : Prop extends Sound h where
  references : ∀ p, Store.references (h.view p) + released es p = granted es p
  size : ∀ p, p < h.size ↔ 0 < granted es p

namespace Accounts

theorem used (ha : Accounts es h) (p : Ptr) : (h.cells p).fflag = true ↔ p ∈ inUse es := by
  have hcount := ha.references p
  unfold inUse view Store.references at *
  split_ifs at hcount with hf
  · simp only [Option.elim_some] at hcount
    simp only [hf, true_iff, Set.mem_ofPred_eq]
    omega
  · simp only [Option.elim_none] at hcount
    simp only [hf, Set.mem_ofPred_eq]
    simp
    omega

theorem inUse_subset (ha : Accounts es h) : inUse es ⊆ Set.Iio h.size :=
  fun p hp => ha.made p ((ha.used p).mpr hp)

theorem ncard_inUse_le (ha : Accounts es h) : (inUse es).ncard ≤ h.size := by
  have hle := Set.ncard_le_ncard ha.inUse_subset (Set.finite_Iio _)
  rwa [Set.ncard_Iio_nat] at hle

theorem empty : Accounts [] (Heap.empty env) where
  toSound := .empty
  references p := by rw [view_empty]; rfl
  size p := by simp [Heap.empty, granted]

theorem step (ha : Accounts es h) (hu : Uses env h l h') : Accounts (es ++ [l]) h' := by
  obtain ⟨hs, hstep, hgrows⟩ := hu.spec ha.toSound
  have hreferences : ∀ p, Store.references (h'.view p) + released (es ++ [l]) p =
      granted (es ++ [l]) p := by
    intro p
    have hbalance := hstep.balance p
    have hbefore := ha.references p
    rw [granted_append, released_append]
    omega
  have hgranted : ∀ p, 0 < granted es p → 0 < granted (es ++ [l]) p := by
    intro p hp
    rw [granted_append]
    omega
  refine ⟨hs, hreferences, fun p => ⟨fun hp => ?_, fun hp => ?_⟩⟩
  · rcases hgrows with hsize | ⟨-, hall⟩
    · rw [hsize] at hp
      exact hgranted p ((ha.size p).mp hp)
    · obtain ⟨x, hx⟩ := Option.ne_none_iff_exists'.mp (hall p hp)
      have hcount := hreferences p
      rw [hx, Store.references, Option.elim_some] at hcount
      omega
  · have hle : h.size ≤ h'.size := by
      rcases hgrows with hsize | ⟨hsize, -⟩ <;> omega
    rw [granted_append, granted_singleton] at hp
    split_ifs at hp with hout
    · obtain ⟨x, hx⟩ := hstep.handsOut hout
      exact hs.made p (view_eq_some_iff.mp hx).1
    · exact ((ha.size p).mpr hp).trans_le hle

end Accounts

theorem accounts_run (run : Run (Uses env) (Heap.empty env) es h) : Accounts es h := by
  refine run.induct Accounts .empty ?_
  intro pre s l t _ ha hu
  exact ha.step hu

/-- The reference counts, the flags and the free list are right at any time: a
packet is free exactly when each reference handed out has been given back, and
then it is on the free list once. -/
theorem pool_counts_references (run : Run (Uses env) (Heap.empty env) es h) :
    (∀ p, (h.cells p).fflag = true ↔ released es p < granted es p) ∧
    (∀ p, released es p < granted es p →
      (h.cells p).refCount + 1 + released es p = granted es p) ∧
    ∃ l, Chain (fun p => (h.cells p).next) h.freeList l ∧ l.Nodup ∧
      ∀ p, p ∈ l ↔ 0 < granted es p ∧ released es p = granted es p := by
  have ha := accounts_run run
  refine ⟨ha.used, fun p hp => ?_, ?_⟩
  · have hcount := ha.references p
    rw [view, if_pos ((ha.used p).mpr hp)] at hcount
    exact hcount
  · obtain ⟨l, hl, hmem⟩ := ha.list
    refine ⟨l, hl, hl.nodup, fun p => ?_⟩
    rw [hmem, ha.size]
    refine and_congr_right fun _ => ?_
    have hle : released es p ≤ granted es p := by
      have hcount := ha.references p
      omega
    rw [← Bool.not_eq_true, ha.used, inUse, Set.mem_ofPred_eq]
    omega

theorem pool_counts_references_recycled : ∃ h, Run (Uses plain) (Heap.empty plain) recycled h ∧
    (h.cells 0).refCount + 1 + released recycled 0 = granted recycled 0 := by
  obtain ⟨h, run, -⟩ := exists_run_recycled
  exact ⟨h, run, (pool_counts_references run).2.1 0 (by decide)⟩

/-- The number of packets made, before and after a call. -/
theorem Accounts.size_step (ha : Accounts es h) (hu : Uses env h l h') :
    h'.size = max (inUse (es ++ [l])).ncard h.size := by
  have ha' := ha.step hu
  have hle := ha'.ncard_inUse_le
  rcases (hu.spec ha.toSound).2.2 with hsize | ⟨hsize, hall⟩
  · rw [← hsize, max_eq_right hle]
  · have hsub : Set.Iio h'.size ⊆ inUse (es ++ [l]) := by
      intro q hq
      obtain ⟨x, hx⟩ := Option.ne_none_iff_exists'.mp (hall q hq)
      exact (ha'.used q).mp (view_eq_some_iff.mp hx).1
    have heq : inUse (es ++ [l]) = Set.Iio h'.size := Set.Subset.antisymm ha'.inUse_subset hsub
    rw [heq, Set.ncard_Iio_nat, hsize, max_eq_left (Nat.le_succ _)]

/-- The pool makes as many packets as are ever in use at one time. -/
theorem pool_size_is_peak (run : Run (Uses env) (Heap.empty env) es h) :
    IsGreatest {n | ∃ pre, pre <+: es ∧ n = (inUse pre).ncard} h.size := by
  have hrun : Accounts es h ∧
      IsGreatest {n | ∃ pre, pre <+: es ∧ n = (inUse pre).ncard} h.size := by
    refine run.induct (fun es h => Accounts es h ∧
      IsGreatest {n | ∃ pre, pre <+: es ∧ n = (inUse pre).ncard} h.size) ⟨.empty, ?_⟩ ?_
    · have hnil : (inUse ([] : List (Label δ))).ncard = 0 := by simp [inUse, granted, released]
      refine ⟨⟨[], List.prefix_rfl, hnil.symm⟩, ?_⟩
      rintro n ⟨pre, hpre, rfl⟩
      rw [List.prefix_nil.mp hpre, hnil]
      exact le_rfl
    · rintro pre s l t _ ⟨ha, hpeak⟩ hu
      refine ⟨ha.step hu, ?_⟩
      have hset : {n | ∃ p, p <+: pre ++ [l] ∧ n = (inUse p).ncard} =
          insert (inUse (pre ++ [l])).ncard {n | ∃ p, p <+: pre ∧ n = (inUse p).ncard} := by
        ext n
        simp only [List.prefix_concat_iff, Set.mem_insert_iff, Set.mem_ofPred_eq, or_and_right,
          exists_or, exists_eq_left]
      rw [hset, ha.size_step hu]
      exact hpeak.insert _
  exact hrun.2

theorem pool_size_is_peak_recycled :
    IsGreatest {n | ∃ pre, pre <+: recycled ∧ n = (inUse pre).ncard} 2 := by
  obtain ⟨h, run, hsize⟩ := exists_run_recycled
  exact hsize ▸ pool_size_is_peak run

end Heap

end LearnNs2.Pool

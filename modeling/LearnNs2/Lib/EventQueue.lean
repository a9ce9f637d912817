import Mathlib.Data.List.Basic
import Mathlib.Order.Lattice

/-!
# Event queues

What a scheduler may run next. `Due` takes off any of the earliest entries; a
`Fifo` keeps its entries in order of time, and entries of one time in the order
in which they came.
-/

namespace EventQueue

set_option autoImplicit false

universe u v

variable {τ : Type u} {ε : Type v} [LinearOrder τ]

/-- The entry `e` at `t` is taken off, and none of the others is earlier. -/
structure Due (agenda : List (τ × ε)) (t : τ) (e : ε) (rest : List (τ × ε)) : Prop where
  perm : agenda.Perm ((t, e) :: rest)
  earliest : ∀ x ∈ rest, t ≤ x.1

theorem Due.mem {agenda rest : List (τ × ε)} {t : τ} {e : ε} (h : Due agenda t e rest) :
    (t, e) ∈ agenda :=
  h.perm.mem_iff.mpr List.mem_cons_self

theorem Due.mem_of_mem {agenda rest : List (τ × ε)} {t : τ} {e : ε} (h : Due agenda t e rest)
    {x : τ × ε} (hx : x ∈ rest) : x ∈ agenda :=
  h.perm.mem_iff.mpr (List.mem_cons_of_mem _ hx)

def InOrder (q : List (τ × ε)) : Prop := q.Pairwise fun x y => x.1 ≤ y.1

/-- Behind everything that is not later. -/
def enqueue (t : τ) (e : ε) : List (τ × ε) → List (τ × ε)
  | [] => [(t, e)]
  | x :: q => if x.1 ≤ t then x :: enqueue t e q else (t, e) :: x :: q

section Enqueue

variable {t : τ} {e : ε} {q : List (τ × ε)} {p : τ × ε → Bool}

theorem mem_enqueue_iff {x : τ × ε} : x ∈ enqueue t e q ↔ x = (t, e) ∨ x ∈ q := by
  induction q with
  | nil => simp [enqueue]
  | cons y q ih =>
    rw [enqueue]
    split_ifs
    · rw [List.mem_cons, ih, List.mem_cons, or_left_comm]
    · rw [List.mem_cons]

theorem inOrder_enqueue (h : InOrder q) : InOrder (enqueue t e q) := by
  induction q with
  | nil => simp [enqueue, InOrder]
  | cons y q ih =>
    obtain ⟨hy, hq⟩ := List.pairwise_cons.mp h
    rw [enqueue]
    split_ifs with hle
    · refine List.pairwise_cons.mpr ⟨?_, ih hq⟩
      intro x hx
      rcases mem_enqueue_iff.mp hx with rfl | hx
      · exact hle
      · exact hy x hx
    · have hlt := (not_le.mp hle).le
      refine List.pairwise_cons.mpr ⟨?_, h⟩
      intro x hx
      rcases List.mem_cons.mp hx with rfl | hx
      · exact hlt
      · exact hlt.trans (hy x hx)

theorem filter_enqueue_of_neg (h : p (t, e) = false) : (enqueue t e q).filter p = q.filter p := by
  induction q with
  | nil => simp [enqueue, h]
  | cons y q ih =>
    rw [enqueue]
    split_ifs
    · rw [List.filter_cons, ih, List.filter_cons]
    · rw [List.filter_cons_of_neg (Bool.eq_false_iff.mp h)]

theorem enqueue_of_lt (h : ∀ x ∈ q, t < x.1) : enqueue t e q = (t, e) :: q := by
  cases q with
  | nil => rfl
  | cons y q =>
    rw [enqueue, if_neg]
    exact not_le.mpr (h y List.mem_cons_self)

theorem enqueue_append (h : ∀ x ∈ q, x.1 ≤ t) (r : List (τ × ε)) :
    enqueue t e (q ++ r) = q ++ enqueue t e r := by
  induction q with
  | nil => rfl
  | cons y q ih =>
    rw [List.forall_mem_cons] at h
    rw [List.cons_append, enqueue, if_pos h.1, ih h.2, List.cons_append]

theorem enqueue_of_le (h : ∀ x ∈ q, x.1 ≤ t) : enqueue t e q = q ++ [(t, e)] := by
  have hlast := enqueue_append (e := e) h []
  rwa [List.append_nil] at hlast

/-- The entries of a kind are a queue of their own. -/
theorem filter_enqueue (h : p (t, e)) (hq : InOrder q) :
    (enqueue t e q).filter p = enqueue t e (q.filter p) := by
  induction q with
  | nil => simp [enqueue, h]
  | cons y q ih =>
    obtain ⟨hy, hq⟩ := List.pairwise_cons.mp hq
    rw [enqueue]
    split_ifs with hle
    · rw [List.filter_cons, List.filter_cons, ih hq]
      split_ifs
      · rw [enqueue, if_pos hle]
      · rfl
    · have hlt : ∀ x ∈ (y :: q).filter p, t < x.1 := by
        intro x hx
        have hyt := not_le.mp hle
        rcases List.mem_cons.mp (List.mem_of_mem_filter hx) with rfl | hx
        · exact hyt
        · exact hyt.trans_le (hy x hx)
      rw [List.filter_cons_of_pos h, enqueue_of_lt hlt]

theorem foldl_enqueue {es : List (τ × ε)} (h : InOrder (q ++ es)) :
    es.foldl (fun q e => enqueue e.1 e.2 q) q = q ++ es := by
  induction es generalizing q with
  | nil => rw [List.foldl_nil, List.append_nil]
  | cons e es ih =>
    have hle : ∀ x ∈ q, x.1 ≤ e.1 := fun x hx =>
      (List.pairwise_append.mp h).2.2 x hx e List.mem_cons_self
    rw [List.append_cons] at h
    rw [List.foldl_cons, enqueue_of_le hle]
    exact (ih h).trans (List.append_cons q e es).symm

end Enqueue

/-- The queue of a scheduler that runs events of one time as they were scheduled. -/
structure Fifo (τ : Type u) (ε : Type v) [LinearOrder τ] where
  entries : List (τ × ε)
  inOrder : InOrder entries

namespace Fifo

def empty : Fifo τ ε := ⟨[], List.Pairwise.nil⟩

def insert (q : Fifo τ ε) (t : τ) (e : ε) : Fifo τ ε :=
  ⟨enqueue t e q.entries, inOrder_enqueue q.inOrder⟩

def insertAll (q : Fifo τ ε) (es : List (τ × ε)) : Fifo τ ε :=
  es.foldl (fun q e => q.insert e.1 e.2) q

/-- What is left when the first entry is taken off. -/
def tail (q : Fifo τ ε) : Fifo τ ε := ⟨q.entries.tail, q.inOrder.tail⟩

variable {q : Fifo τ ε} {p : τ × ε → Bool} {es : List (τ × ε)}

theorem entries_tail {x : τ × ε} {rest : List (τ × ε)} (h : q.entries = x :: rest) :
    q.tail.entries = rest :=
  congrArg List.tail h

theorem filter_insertAll : (q.insertAll es).entries.filter p =
    (es.filter p).foldl (fun q e => enqueue e.1 e.2 q) (q.entries.filter p) := by
  induction es generalizing q with
  | nil => rfl
  | cons e es ih =>
    have htail := ih (q := q.insert e.1 e.2)
    rw [insertAll, List.foldl_cons]
    by_cases he : p e
    · have hhead : (q.insert e.1 e.2).entries.filter p = enqueue e.1 e.2 (q.entries.filter p) :=
        filter_enqueue he q.inOrder
      rw [List.filter_cons_of_pos he, List.foldl_cons, ← hhead]
      exact htail
    · have hhead : (q.insert e.1 e.2).entries.filter p = q.entries.filter p :=
        filter_enqueue_of_neg (Bool.eq_false_iff.mpr he)
      rw [List.filter_cons_of_neg he, ← hhead]
      exact htail

theorem filter_insertAll_of_neg (h : ∀ e ∈ es, p e = false) :
    (q.insertAll es).entries.filter p = q.entries.filter p := by
  have hnone : es.filter p = [] :=
    List.filter_eq_nil_iff.mpr fun e he => Bool.eq_false_iff.mp (h e he)
  rw [filter_insertAll, hnone, List.foldl_nil]

end Fifo

end EventQueue

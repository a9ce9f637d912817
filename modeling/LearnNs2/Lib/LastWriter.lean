import Mathlib.Data.List.Basic
import Mathlib.Data.List.Induction
import Mathlib.Logic.Basic

/-!
# The last writer of a key

What a keyed table means in terms of the operations performed on it: a key has
the value of the last operation that put one there, if no later operation took
it away. Any implementation with the right laws for single operations has this
meaning over every history.
-/

namespace LastWriter

set_option autoImplicit false

universe u v w

variable {κ : Type u} {ν : Type v}

inductive Op (κ : Type u) (ν : Type v) where
  | put (k : κ) (x : ν)
  | remove (k : κ)
  | clear
  deriving Repr, DecidableEq

/-- The operations that settle what is known of a key. -/
def Op.Touches (d : κ) : Op κ ν → Prop
  | put k _ => k = d
  | remove k => k = d
  | clear => True

/-- After `ops` the value of `d` is `x`. -/
def Live (ops : List (Op κ ν)) (d : κ) (x : ν) : Prop :=
  ∃ pre post, ops = pre ++ .put d x :: post ∧ ∀ op ∈ post, ¬ op.Touches d

section Live

variable {ops : List (Op κ ν)} {op : Op κ ν} {d : κ} {x y : ν}

theorem not_live_nil (d : κ) (x : ν) : ¬ Live ([] : List (Op κ ν)) d x := by
  rintro ⟨pre, post, h, -⟩
  simp at h

theorem live_append_singleton :
    Live (ops ++ [op]) d x ↔ op = .put d x ∨ (¬ op.Touches d ∧ Live ops d x) := by
  constructor
  · rintro ⟨pre, post, h, hpost⟩
    rcases List.eq_nil_or_concat' post with rfl | ⟨post, last, rfl⟩
    · left
      obtain ⟨-, hop⟩ := List.append_inj' h rfl
      exact List.singleton_inj.mp hop
    · right
      rw [← List.cons_append, ← List.append_assoc] at h
      obtain ⟨hops, hop⟩ := List.append_inj' h rfl
      obtain rfl : op = last := List.singleton_inj.mp hop
      refine ⟨hpost op (by simp), pre, post, hops, ?_⟩
      exact fun o ho => hpost o (List.mem_append_left _ ho)
  · rintro (rfl | ⟨hop, pre, post, rfl, hpost⟩)
    · exact ⟨ops, [], rfl, by simp⟩
    · refine ⟨pre, post ++ [op], by simp, ?_⟩
      intro o ho
      rcases List.mem_append.mp ho with ho | ho
      · exact hpost o ho
      · rwa [List.mem_singleton.mp ho]

/-- In a history that puts every key once, each put is the last one. -/
theorem live_puts_iff {es : List (κ × ν)} (h : (es.map Prod.fst).Nodup) :
    Live (es.map fun e => Op.put e.1 e.2) d x ↔ (d, x) ∈ es := by
  constructor
  · rintro ⟨pre, post, heq, -⟩
    have hmem : Op.put d x ∈ es.map fun e => Op.put e.1 e.2 := by
      rw [heq]
      simp
    obtain ⟨e, he, hput⟩ := List.mem_map.mp hmem
    cases hput
    exact he
  · intro hmem
    obtain ⟨pre, post, rfl⟩ := List.append_of_mem hmem
    refine ⟨pre.map fun e => .put e.1 e.2, post.map fun e => .put e.1 e.2, by simp, ?_⟩
    intro op hop htouch
    obtain ⟨e, he, rfl⟩ := List.mem_map.mp hop
    rw [List.map_append, List.map_cons] at h
    have hnot := (List.nodup_cons.mp (List.nodup_append.mp h).2.1).1
    exact hnot (List.mem_map.mpr ⟨e, he, htouch⟩)

end Live

/-- What single operations must do to the value under each key. -/
structure Laws [DecidableEq κ] {M : Type w} (apply : M → Op κ ν → M) (get : M → κ → Option ν) :
    Prop where
  put : ∀ m k x d, get (apply m (.put k x)) d = if k = d then some x else get m d
  remove : ∀ m k d, get (apply m (.remove k)) d = if k = d then none else get m d
  clear : ∀ m d, get (apply m .clear) d = none

section Laws

variable [DecidableEq κ] {M : Type w} {apply : M → Op κ ν → M} {get : M → κ → Option ν}
  (laws : Laws apply get) {m : M}

include laws

theorem get_apply_eq_some_iff (op : Op κ ν) (d : κ) (x : ν) :
    get (apply m op) d = some x ↔ op = .put d x ∨ (¬ op.Touches d ∧ get m d = some x) := by
  cases op with
  | put k y =>
    rw [laws.put]
    by_cases hk : k = d
    · simp [hk, Op.Touches]
    · simp [hk, Op.Touches]
  | remove k =>
    rw [laws.remove]
    by_cases hk : k = d
    · simp [hk, Op.Touches]
    · simp [hk, Op.Touches]
  | clear => simp [laws.clear, Op.Touches]

/-- The value under a key is that of its last writer. -/
theorem get_foldl_eq_some_iff (start : ∀ d, get m d = none) (ops : List (Op κ ν)) (d : κ) (x : ν) :
    get (ops.foldl apply m) d = some x ↔ Live ops d x := by
  induction ops using List.reverseRecOn with
  | nil => simp [start, not_live_nil]
  | append_singleton ops op ih =>
    rw [List.foldl_append, List.foldl_cons, List.foldl_nil, get_apply_eq_some_iff laws, ih,
      live_append_singleton]

theorem get_foldl_eq_none_iff (start : ∀ d, get m d = none) (ops : List (Op κ ν)) (d : κ) :
    get (ops.foldl apply m) d = none ↔ ∀ x, ¬ Live ops d x := by
  rw [Option.eq_none_iff_forall_ne_some]
  exact forall_congr' fun x => not_congr (get_foldl_eq_some_iff laws start ops d x)

end Laws

end LastWriter

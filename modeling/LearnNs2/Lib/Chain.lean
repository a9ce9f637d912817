import Mathlib.Data.List.Nodup
import Mathlib.Logic.Function.Basic

/-!
# Chains of pointers

`Chain next h l`: from the head pointer `h`, following `next` until it is null
visits the cells of `l` in this order. A pointer field makes at most one list,
and that list has no cell twice, so what the field says of the other cells of
the heap does not matter. `Segment next h l t` is the part of a walk up to the
pointer `t`, for pointers that may lead back.
-/

namespace Chains

set_option autoImplicit false

universe u

variable {α : Type u} {next next' : α → Option α} {h : Option α} {a : α} {l m : List α}

inductive Chain (next : α → Option α) : Option α → List α → Prop where
  | nil : Chain next none []
  | cons {a : α} {l : List α} : Chain next (next a) l → Chain next (some a) (a :: l)

namespace Chain

theorem of_none (hl : Chain next none l) : l = [] := by
  cases hl
  rfl

theorem of_some (hl : Chain next (some a) l) : ∃ t, l = a :: t ∧ Chain next (next a) t := by
  cases hl with
  | cons ht => exact ⟨_, rfl, ht⟩

theorem unique (hl : Chain next h l) (hm : Chain next h m) : l = m := by
  induction hl generalizing m with
  | nil => exact hm.of_none.symm
  | @cons a l _ ih =>
    obtain ⟨t, rfl, ht⟩ := hm.of_some
    rw [ih ht]

/-- The cells from any cell of the chain on are the chain of that cell. -/
theorem suffix (hl : Chain next h (l ++ a :: m)) : Chain next (some a) (a :: m) := by
  induction l generalizing h with
  | nil =>
    cases hl with
    | cons ht => exact .cons ht
  | cons b l ih =>
    cases hl with
    | cons ht => exact ih ht

theorem not_mem_tail (hl : Chain next h (a :: l)) : a ∉ l := by
  intro hmem
  obtain ⟨s, t, rfl⟩ := List.append_of_mem hmem
  have hfirst : Chain next (some a) (a :: (s ++ a :: t)) := suffix (l := []) hl
  have hagain : Chain next (some a) (a :: t) := suffix (l := a :: s) hl
  have hlen := congrArg List.length (hfirst.unique hagain)
  simp only [List.length_cons, List.length_append] at hlen
  omega

theorem nodup (hl : Chain next h l) : l.Nodup := by
  induction hl with
  | nil => exact List.nodup_nil
  | cons ht ih => exact List.nodup_cons.mpr ⟨not_mem_tail (.cons ht), ih⟩

theorem congr (hl : Chain next h l) (hsame : ∀ a ∈ l, next' a = next a) : Chain next' h l := by
  induction hl with
  | nil => exact .nil
  | @cons a l _ ih =>
    have htail := ih fun b hb => hsame b (List.mem_cons_of_mem a hb)
    rw [← hsame a List.mem_cons_self] at htail
    exact .cons htail

/-- A new first cell, whatever it pointed to before. -/
theorem push (hl : Chain next h l) (ha : next' a = h) (hsame : ∀ b ∈ l, next' b = next b) :
    Chain next' (some a) (a :: l) :=
  .cons (by rw [ha]; exact hl.congr hsame)

end Chain

inductive Segment (next : α → Option α) : Option α → List α → Option α → Prop where
  | nil (t : Option α) : Segment next t [] t
  | cons {a : α} {l : List α} {t : Option α} :
      Segment next (next a) l t → Segment next (some a) (a :: l) t

namespace Segment

variable {t : Option α}

theorem chain (hl : Segment next h l none) : Chain next h l := by
  generalize ht : (none : Option α) = t at hl
  induction hl with
  | nil =>
    subst ht
    exact .nil
  | cons _ ih => exact .cons (ih ht)

theorem congr (hl : Segment next h l t) (hsame : ∀ a ∈ l, next' a = next a) :
    Segment next' h l t := by
  induction hl with
  | nil t => exact .nil t
  | @cons a l t _ ih =>
    have htail := ih fun b hb => hsame b (List.mem_cons_of_mem a hb)
    rw [← hsame a List.mem_cons_self] at htail
    exact .cons htail

/-- The walk as far as a cell that it comes to. -/
theorem before (hl : Segment next h (l ++ a :: m) t) : Segment next h l (some a) := by
  induction l generalizing h with
  | nil =>
    cases hl with
    | cons _ => exact .nil (some a)
  | cons b l ih =>
    cases hl with
    | cons hrest => exact .cons (ih hrest)

/-- Each cell of the walk points to a cell of it, or to where it ends. -/
theorem next_mem (hl : Segment next h l t) (ha : a ∈ l) : next a = t ∨ ∃ b ∈ l, next a = some b := by
  induction hl with
  | nil => cases ha
  | @cons c l t hrest ih =>
    rcases List.mem_cons.mp ha with rfl | ha
    · generalize next a = target at hrest
      cases hrest with
      | nil => exact .inl rfl
      | cons => exact .inr ⟨_, List.mem_cons_of_mem a List.mem_cons_self, rfl⟩
    · rcases ih ha with heq | ⟨b, hb, heq⟩
      · exact .inl heq
      · exact .inr ⟨b, List.mem_cons_of_mem c hb, heq⟩

end Segment

end Chains

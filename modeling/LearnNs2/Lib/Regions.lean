import Mathlib.Data.List.Basic

/-!
# Regions of a flat memory

Reading and writing a run of cells of a list. What is written outside a region
does not change it, and what is written inside it is a write to the region.
-/

namespace Regions

set_option autoImplicit false

universe u

variable {α : Type u} {m data : List α} {off len off' k i : Nat}

def load (m : List α) (off len : Nat) : List α := (m.drop off).take len

def store (m : List α) (off : Nat) (data : List α) : List α :=
  m.take off ++ data ++ m.drop (off + data.length)

theorem getElem?_load (m : List α) (off len i : Nat) :
    (load m off len)[i]? = if i < len then m[off + i]? else none := by
  rw [load, List.getElem?_take]
  split_ifs
  · rw [List.getElem?_drop]
  · rfl

theorem getElem?_store (h : off + data.length ≤ m.length) (i : Nat) :
    (store m off data)[i]? =
      if off ≤ i ∧ i < off + data.length then data[i - off]? else m[i]? := by
  have htake : (m.take off).length = off := List.length_take_of_le (by omega)
  rw [store, List.append_assoc]
  by_cases hbefore : i < off
  · rw [List.getElem?_append_left (by omega), List.getElem?_take, if_pos hbefore,
      if_neg (by omega)]
  · rw [List.getElem?_append_right (by omega), htake]
    by_cases hin : i < off + data.length
    · rw [List.getElem?_append_left (by omega), if_pos ⟨by omega, hin⟩]
    · rw [List.getElem?_append_right (by omega), List.getElem?_drop, if_neg (by omega)]
      congr 1
      omega

theorem length_store (h : off + data.length ≤ m.length) :
    (store m off data).length = m.length := by
  simp only [store, List.length_append, List.length_take, List.length_drop]
  omega

theorem length_load (h : off + len ≤ m.length) : (load m off len).length = len := by
  rw [load, List.length_take, List.length_drop]
  omega

theorem load_store_of_apart (h : off' + data.length ≤ m.length)
    (hapart : off + len ≤ off' ∨ off' + data.length ≤ off) :
    load (store m off' data) off len = load m off len := by
  apply List.ext_getElem?
  intro i
  rw [getElem?_load, getElem?_load]
  split_ifs with hi
  · rw [getElem?_store h, if_neg (by omega)]
  · rfl

theorem load_store_within (h : off + len ≤ m.length) (hk : k + data.length ≤ len) :
    load (store m (off + k) data) off len = store (load m off len) k data := by
  apply List.ext_getElem?
  intro i
  rw [getElem?_load, getElem?_store (by omega), getElem?_store (by rwa [length_load h]),
    getElem?_load]
  by_cases hi : i < len
  · rw [if_pos hi, if_pos hi]
    by_cases hin : k ≤ i ∧ i < k + data.length
    · rw [if_pos (by omega), if_pos hin]
      congr 1
      omega
    · rw [if_neg (by omega), if_neg hin]
  · rw [if_neg hi, if_neg hi, if_neg (by omega)]

theorem load_replicate {n : Nat} (x : α) (h : off + len ≤ n) :
    load (List.replicate n x) off len = List.replicate len x := by
  rw [load, List.drop_replicate, List.take_replicate, Nat.min_eq_left (by omega)]

end Regions

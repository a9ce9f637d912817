import LearnNs2.Lib.Format
import LearnNs2.Simple.Routes
import Mathlib.Data.FinEnum
import Mathlib.Data.Set.Card

/-!
# The routing table after any history

`lookup`, `size` and `print` against the history of the table. The map has no
duplicate keys and keeps them in order, so its entries are the live ones, printed
by destination. `size` counts them in 32 bits, which is one number too few for a
table with an entry for every address.
-/

namespace LearnNs2

open Decimal LastWriter

set_option autoImplicit false

def Arg.int? : Arg → Option ℤ
  | .int i => some i
  | _ => none

/-- The line in the trace buffer, if `%d` is its only conversion. -/
def Printf.text (l : Printf) : List Char := sprintf l.fmt.toList (l.args.filterMap Arg.int?)

namespace SimpleRtable

/-- The lines of `print` after its heading, as they are dumped. -/
def lines (t : SimpleRtable) : List (List Char) := (t.print.drop 1).map Printf.text

/-- A line read as `add_entry(dest, next)`. -/
def readEntry (line : List Char) : Option RouteOp :=
  match integers line with
  | [dest, next] => some (.put (Int32.ofInt dest) (Int32.ofInt next))
  | _ => none

/-- A table made of the printed lines. -/
def rebuilt (lines : List (List Char)) : SimpleRtable := after (lines.filterMap readEntry)

def destination (line : List Char) : Option ℤ := (integers line).head?

def entryLine (dest next : Nsaddr) : List Char :=
  sprintf "P\t%d\t%d".toList [dest.toInt, next.toInt]

section Lines

variable (t : SimpleRtable)

theorem lines_eq : t.lines = t.rt.toList.map fun e => entryLine e.1 e.2 := by
  rw [lines, print, List.drop_one, List.tail_cons, List.map_map]
  apply List.map_congr_left
  intro e _
  simp only [Function.comp_apply, Printf.text, entryLine, List.filterMap_cons, List.filterMap_nil,
    Arg.int?]

theorem integers_entryLine (dest next : Nsaddr) :
    integers (entryLine dest next) = [dest.toInt, next.toInt] :=
  integers_sprintf (by decide) rfl

theorem rebuilt_lines : rebuilt t.lines = after (t.rt.toList.map fun e => .put e.1 e.2) := by
  have hread : ∀ e : Nsaddr × Nsaddr, readEntry (entryLine e.1 e.2) = some (.put e.1 e.2) := by
    intro e
    simp only [readEntry, integers_entryLine, Int32.ofInt_toInt]
  rw [rebuilt, lines_eq, List.filterMap_map, ← List.filterMap_eq_map]
  congr 1
  apply List.filterMap_congr
  intro e _
  exact hread e

theorem ordered_toList : t.rt.toList.Pairwise fun e f => e.1 < f.1 :=
  t.rt.ordered_keys_toList.imp fun h => Std.compare_eq_lt.mp h

theorem nodup_destinations : (t.rt.toList.map Prod.fst).Nodup := by
  rw [List.Nodup, List.pairwise_map]
  exact t.ordered_toList.imp fun h => Int32.ne_of_lt h

theorem getElem?_rebuilt (d : Nsaddr) : (rebuilt t.lines).rt[d]? = t.rt[d]? := by
  rw [rebuilt_lines]
  apply Option.ext
  intro next
  rw [getElem?_after, live_puts_iff t.nodup_destinations]
  exact Std.TreeMap.mem_toList_iff_getElem?_eq_some

theorem ordered_lines : (t.lines.map destination).Pairwise fun a b =>
    ∃ d e, a = some d ∧ b = some e ∧ d < e := by
  rw [lines_eq, List.map_map, List.pairwise_map]
  apply t.ordered_toList.imp
  intro e f h
  refine ⟨e.1.toInt, f.1.toInt, ?_, ?_, Int32.lt_iff_toInt_lt.mp h⟩
  · rw [Function.comp_apply, destination, integers_entryLine, List.head?_cons]
  · rw [Function.comp_apply, destination, integers_entryLine, List.head?_cons]

theorem length_lines : t.lines.length = t.rt.size := by
  rw [lines_eq, List.length_map, Std.TreeMap.length_toList]

end Lines

def liveKeys (ops : List RouteOp) : Set Nsaddr := {d | ∃ next, Live ops d next}

section Sizes

variable (ops : List RouteOp)

theorem mem_liveKeys_iff (d : Nsaddr) :
    d ∈ liveKeys ops ↔ d ∈ (after ops).rt.toList.map Prod.fst := by
  constructor
  · rintro ⟨next, h⟩
    have hmem := Std.TreeMap.mem_toList_iff_getElem?_eq_some.mpr ((getElem?_after ops d next).mpr h)
    exact List.mem_map.mpr ⟨_, hmem, rfl⟩
  · intro h
    obtain ⟨e, he, rfl⟩ := List.mem_map.mp h
    exact ⟨e.2, (getElem?_after ops e.1 e.2).mp (Std.TreeMap.mem_toList_iff_getElem?_eq_some.mp he)⟩

theorem ncard_liveKeys : (liveKeys ops).ncard = (after ops).rt.size := by
  have hset : liveKeys ops = ((after ops).rt.toList.map Prod.fst).toFinset := by
    ext d
    rw [mem_liveKeys_iff, Finset.mem_coe, List.mem_toFinset]
  rw [hset, Set.ncard_coe_finset, List.toFinset_card_of_nodup (after ops).nodup_destinations,
    List.length_map, Std.TreeMap.length_toList]

theorem card_nsaddr : Nat.card Nsaddr = 2 ^ 32 := by
  rw [Nat.card_eq_fintype_card, ← FinEnum.card_eq_fintypeCard, FinEnum.card_Int32]

/-- One address without an entry is enough for the count to fit. -/
theorem toNat_size_iff : (after ops).size.toNat = (liveKeys ops).ncard ↔
    ∃ d, ∀ next, ¬ Live ops d next := by
  rw [size, UInt32.toNat_ofNat', ← ncard_liveKeys]
  constructor
  · intro h
    by_contra hall
    push Not at hall
    have huniv : liveKeys ops = Set.univ := Set.eq_univ_of_forall hall
    rw [huniv, Set.ncard_univ, card_nsaddr, Nat.mod_self] at h
    exact absurd h (by norm_num)
  · rintro ⟨d, hd⟩
    apply Nat.mod_eq_of_lt
    rw [← card_nsaddr]
    apply Set.ncard_lt_card
    intro huniv
    obtain ⟨next, hlive⟩ := Set.eq_univ_iff_forall.mp huniv d
    exact hd next hlive

end Sizes

section Histories

variable (ops : List RouteOp)

/-- What the table answers after a history. -/
structure LastWriterWins : Prop where
  found : ∀ d next, Live ops d next → (after ops).lookup d = next
  missing : ∀ d, (∀ next, ¬ Live ops d next) → (after ops).lookup d = ipBroadcast.toInt32
  others : ∀ op d, ¬ Op.Touches d op → (after (ops ++ [op])).lookup d = (after ops).lookup d
  size : (after ops).size.toNat = (liveKeys ops).ncard
  heading : (after ops).print.head? = some ⟨"P\tdest\tnext", []⟩
  length : (after ops).lines.length = (after ops).size.toNat
  ordered : ((after ops).lines.map destination).Pairwise fun a b =>
    ∃ d e, a = some d ∧ b = some e ∧ d < e
  rebuilds : ∀ d : Nsaddr, (rebuilt (after ops).lines).rt[d]? = (after ops).rt[d]?

theorem lookup_after_of_not_live {d : Nsaddr} (h : ∀ next, ¬ Live ops d next) :
    (after ops).lookup d = ipBroadcast.toInt32 :=
  (lookup_after_eq_broadcast_iff ops d).mpr (Or.inl h)

theorem lookup_after_append {op : RouteOp} {d : Nsaddr} (h : ¬ op.Touches d) :
    (after (ops ++ [op])).lookup d = (after ops).lookup d := by
  have hget : (after (ops ++ [op])).rt[d]? = (after ops).rt[d]? := by
    apply Option.ext
    intro next
    rw [getElem?_after, getElem?_after, live_append_singleton]
    constructor
    · rintro (rfl | ⟨-, hlive⟩)
      · exact absurd rfl h
      · exact hlive
    · exact fun hlive => Or.inr ⟨h, hlive⟩
  rw [lookup, lookup, hget]

/-- The table is the map that its history says, but for a size of `2 ^ 32`. -/
theorem lastWriterWins_iff : LastWriterWins ops ↔ ∃ d, ∀ next, ¬ Live ops d next := by
  constructor
  · intro h
    exact (toNat_size_iff ops).mp h.size
  · intro hfree
    have hsize := (toNat_size_iff ops).mpr hfree
    refine ⟨?_, ?_, ?_, hsize, rfl, ?_, ?_, ?_⟩
    · exact fun d next hlive => lookup_after_of_live hlive
    · exact fun d hno => lookup_after_of_not_live ops hno
    · exact fun op d hop => lookup_after_append ops hop
    · rw [hsize, ncard_liveKeys, length_lines]
    · exact ordered_lines _
    · exact getElem?_rebuilt _

end Histories

/-- With an entry for every address the size is zero. -/
theorem lastWriterWins_fails_at_every_address :
    let ops : List RouteOp := (FinEnum.toList Nsaddr).map fun d => .put d 0
    (after ops).size = 0 ∧ (liveKeys ops).ncard = 2 ^ 32 ∧ ¬ LastWriterWins ops := by
  intro ops
  have hputs : ops = ((FinEnum.toList Nsaddr).map fun d => (d, (0 : Nsaddr))).map
      fun e => Op.put e.1 e.2 := by
    rw [List.map_map]
    rfl
  have hnodup : (((FinEnum.toList Nsaddr).map fun d => (d, (0 : Nsaddr))).map Prod.fst).Nodup := by
    rw [List.map_map]
    exact (List.map_id _).symm ▸ FinEnum.nodup_toList
  have hlive : ∀ d, Live ops d 0 := by
    intro d
    rw [hputs, live_puts_iff hnodup]
    exact List.mem_map.mpr ⟨d, FinEnum.mem_toList d, rfl⟩
  have hcard : (liveKeys ops).ncard = 2 ^ 32 := by
    have huniv : liveKeys ops = Set.univ := Set.eq_univ_of_forall fun d => ⟨0, hlive d⟩
    rw [huniv, Set.ncard_univ, card_nsaddr]
  refine ⟨?_, hcard, ?_⟩
  · rw [size, ← ncard_liveKeys, hcard]
    rfl
  · intro h
    obtain ⟨d, hno⟩ := (toNat_size_iff ops).mp h.size
    exact hno 0 (hlive d)

end SimpleRtable

end LearnNs2

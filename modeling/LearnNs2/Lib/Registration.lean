import Mathlib.Data.List.Induction
import Mathlib.Data.List.ReduceOption
import Mathlib.Data.List.TakeWhile
import LearnNs2.Lib.Chain

/-!
# Registration at the head of a list

Objects with a `next` pointer of their own register by pointing to the head and
becoming the head. A query walks from the head until an object stops it. An
object that registers again makes the walk come back to it, and what registered
before it, and not since, is lost.
-/

namespace Registration

set_option autoImplicit false

open Chains

universe u v

variable {α : Type u} {β : Type v}

/-- A walk: each object sees what those before it left, and stops it or not.
It has no answer within its fuel, or the last result and whether it was stopped. -/
def walk (visit : α → β → Bool × β) (next : α → Option α) :
    Nat → Option α → β → Option (Bool × β)
  | 0, _, _ => none
  | _ + 1, none, x => some (false, x)
  | fuel + 1, some a, x =>
    let r := visit a x
    if r.1 then some r else walk visit next fuel (next a) r.2

/-- The walk as the objects make it, each passing the query on to its `next`. -/
def ask (visit : α → β → Bool × β) (next : α → Option α) :
    Nat → α → β → Option (Bool × β)
  | 0, _, _ => none
  | fuel + 1, a, x =>
    let r := visit a x
    if r.1 then some r
    else
      match next a with
      | some b => ask visit next fuel b r.2
      | none => some r

/-- A query is put to the head, if there is one. -/
def query (visit : α → β → Bool × β) (next : α → Option α) (fuel : Nat) (head : Option α)
    (x : β) : Option (Bool × β) :=
  match head with
  | some a => ask visit next fuel a x
  | none => some (false, x)

/-- The same walk over a list. -/
def walkList (visit : α → β → Bool × β) : List α → β → Bool × β
  | [], x => (false, x)
  | a :: l, x =>
    let r := visit a x
    if r.1 then r else walkList visit l r.2

section Walks

variable {visit : α → β → Bool × β} {next : α → Option α} {h t : Option α} {l : List α}

theorem walk_segment (visit : α → β → Bool × β) (hl : Segment next h l t) (n : Nat) (x : β) :
    walk visit next (n + l.length) h x =
      if (walkList visit l x).1 then some (walkList visit l x)
      else walk visit next n t (walkList visit l x).2 := by
  induction hl generalizing x with
  | nil => rfl
  | @cons a l t _ ih =>
    rw [List.length_cons, ← Nat.add_assoc, walk, walkList]
    split_ifs with hstop hrest
    · rfl
    · rw [ih, if_pos hrest]
    · rw [ih, if_neg hrest]

theorem walk_add (n k : Nat) {x : β} {r : Bool × β} (hr : walk visit next n h x = some r) :
    walk visit next (n + k) h x = some r := by
  induction n generalizing h x with
  | zero => cases hr
  | succ n ih =>
    rw [Nat.succ_add]
    cases h with
    | none => exact hr
    | some a =>
      simp only [walk] at hr ⊢
      split_ifs at hr ⊢ with hstop
      · exact hr
      · exact ih hr

theorem walk_unique {n k : Nat} {x : β} {r s : Bool × β} (hr : walk visit next n h x = some r)
    (hs : walk visit next k h x = some s) : r = s := by
  have hrs := walk_add k n hs
  rw [Nat.add_comm, walk_add n k hr] at hrs
  exact Option.some.inj hrs

theorem walk_of_ask {n : Nat} {a : α} {x : β} {r : Bool × β}
    (hr : ask visit next n a x = some r) : walk visit next (n + 1) (some a) x = some r := by
  induction n generalizing a x with
  | zero => cases hr
  | succ n ih =>
    rw [walk]
    unfold ask at hr
    dsimp only at hr
    split_ifs at hr ⊢ with hstop
    · exact hr
    · cases hnext : next a with
      | none =>
        rw [hnext] at hr
        obtain rfl := Option.some.inj hr
        exact congrArg some (Prod.ext (Bool.eq_false_iff.mpr hstop).symm rfl)
      | some b =>
        rw [hnext] at hr
        exact ih hr

theorem ask_of_walk {n : Nat} {a : α} {x : β} {r : Bool × β}
    (hr : walk visit next n (some a) x = some r) : ask visit next n a x = some r := by
  induction n generalizing a x with
  | zero => cases hr
  | succ n ih =>
    rw [walk] at hr
    unfold ask
    dsimp only
    split_ifs at hr ⊢ with hstop
    · exact hr
    · cases hnext : next a with
      | none =>
        rw [hnext] at hr
        cases n with
        | zero => cases hr
        | succ n =>
          obtain rfl := Option.some.inj hr
          exact congrArg some (Prod.ext (Bool.eq_false_iff.mpr hstop) rfl)
      | some b =>
        rw [hnext] at hr
        exact ih hr

theorem exists_query_iff {x : β} {r : Bool × β} :
    (∃ n, query visit next n h x = some r) ↔ ∃ n, walk visit next n h x = some r := by
  constructor
  · rintro ⟨n, hn⟩
    cases h with
    | none => exact ⟨1, hn⟩
    | some a => exact ⟨n + 1, walk_of_ask hn⟩
  · rintro ⟨n, hn⟩
    cases h with
    | none =>
      cases n with
      | zero => cases hn
      | succ n => exact ⟨0, hn⟩
    | some a => exact ⟨n, ask_of_walk hn⟩

theorem not_stops_of_walkList (hvisit : ∀ a x y, (visit a x).1 = (visit a y).1) {x : β}
    (hl : (walkList visit l x).1 = false) : ∀ a ∈ l, ∀ y, (visit a y).1 = false := by
  induction l generalizing x with
  | nil => exact fun a ha => absurd ha List.not_mem_nil
  | cons b l ih =>
    rw [walkList] at hl
    split_ifs at hl with hstop
    · exact absurd hl (by rw [hstop]; exact Bool.true_eq_false.mp)
    · intro a ha y
      rcases List.mem_cons.mp ha with rfl | ha
      · rw [hvisit a y x]
        exact Bool.eq_false_iff.mpr hstop
      · exact ih hl a ha y

/-- Among objects that point to each other, none of which stops a walk. -/
theorem walk_of_closed {S : List α} (hS : ∀ a ∈ S, ∃ b ∈ S, next a = some b)
    (hvisit : ∀ a ∈ S, ∀ y, (visit a y).1 = false) {a : α} (ha : a ∈ S) (n : Nat) (x : β) :
    walk visit next n (some a) x = none := by
  induction n generalizing a x with
  | zero => rfl
  | succ n ih =>
    obtain ⟨b, hb, hab⟩ := hS a ha
    simp only [walk]
    rw [if_neg (by rw [hvisit a ha x]; exact Bool.false_ne_true), hab]
    exact ih hb _

end Walks

structure Registry (α : Type u) where
  next : α → Option α
  head : Option α

def Registry.empty : Registry α := ⟨fun _ => none, none⟩

section Histories

variable [DecidableEq α]

def Registry.register (r : Registry α) (a : α) : Registry α :=
  ⟨Function.update r.next a r.head, some a⟩

/-- Registering a null pointer does nothing. -/
def Registry.add (r : Registry α) : Option α → Registry α
  | none => r
  | some a => r.register a

def registered (history : List α) : Registry α := history.foldl Registry.register .empty

/-- The objects that a walk comes to, the latest first. -/
def reachable (history : List α) : List α :=
  history.foldl (fun vis a => a :: vis.takeWhile (· ≠ a)) []

theorem Registry.register_next_self (r : Registry α) (a : α) :
    (r.register a).next a = r.head := Function.update_self _ _ _

theorem Registry.register_next_of_ne (r : Registry α) {a b : α} (h : b ≠ a) :
    (r.register a).next b = r.next b := Function.update_of_ne h _ _

theorem foldl_add (history : List (Option α)) :
    history.foldl Registry.add .empty = registered history.reduceOption := by
  have hfrom : ∀ r : Registry α, history.foldl Registry.add r =
      history.reduceOption.foldl Registry.register r := by
    induction history with
    | nil => exact fun r => rfl
    | cons o history ih =>
      intro r
      cases o with
      | none =>
        rw [List.foldl_cons, List.reduceOption_cons_of_none]
        exact ih r
      | some a =>
        rw [List.foldl_cons, List.reduceOption_cons_of_some]
        exact ih _
  exact hfrom .empty

theorem registered_append_singleton (history : List α) (a : α) :
    registered (history ++ [a]) = (registered history).register a := by
  rw [registered, List.foldl_append]
  rfl

theorem reachable_append_singleton (history : List α) (a : α) :
    reachable (history ++ [a]) = a :: (reachable history).takeWhile (· ≠ a) := by
  rw [reachable, List.foldl_append]
  rfl

theorem reachable_subset (history : List α) : reachable history ⊆ history := by
  induction history using List.reverseRecOn with
  | nil => exact List.Subset.refl _
  | append_singleton history a ih =>
    rw [reachable_append_singleton]
    intro b hb
    rcases List.mem_cons.mp hb with rfl | hb
    · simp
    · exact List.mem_append_left _ (ih ((List.takeWhile_sublist _).subset hb))

theorem reachable_of_nodup {history : List α} (h : history.Nodup) :
    reachable history = history.reverse := by
  induction history using List.reverseRecOn with
  | nil => rfl
  | append_singleton history a ih =>
    rw [List.nodup_append] at h
    have hfresh : ∀ b ∈ history.reverse, decide (b ≠ a) = true := by
      intro b hb
      simpa using h.2.2 b (List.mem_reverse.mp hb) a
    rw [reachable_append_singleton, ih h.1, List.takeWhile_eq_self_iff.mpr hfresh,
      List.reverse_append]
    rfl

/-- Where the walk ends: nowhere, if some object has registered twice. -/
theorem segment_registered (history : List α) :
    ∃ t, Segment (registered history).next (registered history).head (reachable history) t ∧
      ((history.Nodup ∧ t = none) ∨ (¬ history.Nodup ∧ ∃ b ∈ reachable history, t = some b)) := by
  induction history using List.reverseRecOn with
  | nil => exact ⟨none, .nil none, .inl ⟨List.nodup_nil, rfl⟩⟩
  | append_singleton history a ih =>
    obtain ⟨t, hseg, hend⟩ := ih
    rw [registered_append_singleton, reachable_append_singleton]
    by_cases ha : a ∈ reachable history
    · obtain ⟨u, w, heq, hu⟩ := List.eq_append_cons_of_mem ha
      have hne : ∀ b ∈ u, decide (b ≠ a) = true := by
        intro b hb
        have hba : b ≠ a := by
          rintro rfl
          exact hu hb
        simpa using hba
      have hvis : (reachable history).takeWhile (· ≠ a) = u := by
        rw [heq, List.takeWhile_append_of_pos hne]
        simp
      have hnodup : ¬ (history ++ [a]).Nodup := by
        intro h
        exact (List.nodup_append.mp h).2.2 a (reachable_subset history ha) a (by simp) rfl
      rw [heq] at hseg
      rw [hvis]
      refine ⟨some a, .cons ?_, .inr ⟨hnodup, a, List.mem_cons_self, rfl⟩⟩
      rw [Registry.register_next_self]
      refine hseg.before.congr fun b hb => Registry.register_next_of_ne _ ?_
      simpa using hne b hb
    · have hne : ∀ b ∈ reachable history, b ≠ a := by
        rintro b hb rfl
        exact ha hb
      rw [List.takeWhile_eq_self_iff.mpr fun b hb => by simpa using hne b hb]
      refine ⟨t, .cons ?_, ?_⟩
      · rw [Registry.register_next_self]
        exact hseg.congr fun b hb => Registry.register_next_of_ne _ (hne b hb)
      · rcases hend with ⟨hnodup, rfl⟩ | ⟨hnodup, b, hb, rfl⟩
        · refine .inl ⟨?_, rfl⟩
          rw [reachable_of_nodup hnodup, List.mem_reverse] at ha
          exact List.Nodup.append hnodup (List.nodup_singleton a) (by simpa using ha)
        · refine .inr ⟨fun h => hnodup (List.nodup_append.mp h).1, b, ?_, rfl⟩
          exact List.mem_cons_of_mem a hb

end Histories

section Queries

variable [DecidableEq α] {visit : α → β → Bool × β} (history : List α)

/-- Objects that register once each are asked from the latest on. -/
theorem walk_registered_of_nodup (hnodup : history.Nodup) (x : β) :
    walk visit (registered history).next (history.length + 1) (registered history).head x =
      some (walkList visit history.reverse x) := by
  obtain ⟨t, hseg, ⟨-, rfl⟩ | ⟨h, -⟩⟩ := segment_registered history
  · rw [reachable_of_nodup hnodup] at hseg
    have hwalk := walk_segment visit hseg 1 x
    rw [List.length_reverse, Nat.add_comm 1] at hwalk
    rw [hwalk]
    split_ifs with hstop
    · rfl
    · rw [walk]
      exact congrArg some (Prod.ext (Bool.eq_false_iff.mpr hstop).symm rfl)
  · exact absurd hnodup h

theorem walk_registered_of_stop {x : β} (hstop : (walkList visit (reachable history) x).1 = true) :
    walk visit (registered history).next (reachable history).length (registered history).head x =
      some (walkList visit (reachable history) x) := by
  obtain ⟨t, hseg, -⟩ := segment_registered history
  have hwalk := walk_segment visit hseg 0 x
  rwa [Nat.zero_add, if_pos hstop] at hwalk

/-- A walk that nobody stops does not end, once some object has registered
again. -/
theorem walk_registered_of_not_nodup (hnodup : ¬ history.Nodup)
    (hvisit : ∀ a ∈ reachable history, ∀ y, (visit a y).1 = false) (n : Nat) (x : β) :
    walk visit (registered history).next n (registered history).head x = none := by
  obtain ⟨t, hseg, ⟨h, -⟩ | ⟨-, b, hb, rfl⟩⟩ := segment_registered history
  · exact absurd h hnodup
  · have hclosed : ∀ a ∈ reachable history,
        ∃ c ∈ reachable history, (registered history).next a = some c := by
      intro a ha
      rcases hseg.next_mem ha with heq | hin
      · exact ⟨b, hb, heq⟩
      · exact hin
    generalize (registered history).head = h at hseg
    cases hvis : reachable history with
    | nil => simp [hvis] at hb
    | cons a l =>
      rw [hvis] at hseg
      cases hseg with
      | cons => exact walk_of_closed hclosed hvisit (hvis ▸ List.mem_cons_self) n x

/-- Where an object stops each walk or none, these are the walks that end. -/
theorem exists_walk_registered_iff (hvisit : ∀ a x y, (visit a x).1 = (visit a y).1) (x : β)
    (r : Bool × β) :
    (∃ n, walk visit (registered history).next n (registered history).head x = some r) ↔
      r = walkList visit (reachable history) x ∧ (history.Nodup ∨ r.1 = true) := by
  constructor
  · rintro ⟨n, hn⟩
    by_cases hnodup : history.Nodup
    · refine ⟨?_, .inl hnodup⟩
      rw [reachable_of_nodup hnodup]
      exact walk_unique hn (walk_registered_of_nodup history hnodup x)
    · cases hstop : (walkList visit (reachable history) x).1 with
      | true =>
        obtain rfl := walk_unique hn (walk_registered_of_stop history hstop)
        exact ⟨rfl, .inr hstop⟩
      | false =>
        have hnever := not_stops_of_walkList hvisit hstop
        rw [walk_registered_of_not_nodup history hnodup hnever] at hn
        cases hn
  · rintro ⟨rfl, hnodup | hstop⟩
    · rw [reachable_of_nodup hnodup]
      exact ⟨_, walk_registered_of_nodup history hnodup x⟩
    · exact ⟨_, walk_registered_of_stop history hstop⟩

end Queries

end Registration

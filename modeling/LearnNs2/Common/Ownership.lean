import Mathlib.Data.Set.Card
import Mathlib.Order.Bounds.Basic
import LearnNs2.Common.Pool
import LearnNs2.Lib.Runs

/-!
# Packets in use

What the pool is for, stated without the free list: a store that gives each
packet in use to those who hold it, and nothing for the others. The pool is
compared with it over whole runs of clients that keep the rules: a packet that
nobody holds is not touched, the last reference is not dropped while the packet
is in the event queue, and `allocdata` is for packets without data.
-/

namespace LearnNs2.Pool

set_option autoImplicit false

open Chains LabelledRuns

universe u v

variable {δ : Type u} {σ : Type v}

abbrev Store (δ : Type u) (σ : Type v) := Ptr → Option (Content δ σ)

/-- A call and the packet that it hands out. -/
abbrev Label (δ : Type u) := Call δ × Option Ptr

/-- The packet whose content a call changes. Copying a packet only reads it. -/
def Call.changed : Call δ → Option Ptr
  | .alloc | .allocn _ | .copy _ => none
  | .refcopy p | .free p | .allocdata p _ | .setdata p _ | .write p _ | .link p _
  | .schedule p _ => some p

/-- The packet of which a call gives one reference back. -/
def Call.freed : Call δ → Option Ptr
  | .free p => some p
  | _ => none

def granted (es : List (Label δ)) (p : Ptr) : Nat := es.countP fun l => l.2 = some p

def released (es : List (Label δ)) (p : Ptr) : Nat := es.countP fun l => l.1.freed = some p

theorem granted_append (es fs : List (Label δ)) (p : Ptr) :
    granted (es ++ fs) p = granted es p + granted fs p := List.countP_append

theorem released_append (es fs : List (Label δ)) (p : Ptr) :
    released (es ++ fs) p = released es p + released fs p := List.countP_append

theorem granted_singleton (l : Label δ) (p : Ptr) :
    granted [l] p = if l.2 = some p then 1 else 0 := by simp [granted, List.countP_singleton]

theorem released_singleton (l : Label δ) (p : Ptr) :
    released [l] p = if l.1.freed = some p then 1 else 0 := by
  simp [released, List.countP_singleton]

def inUse (es : List (Label δ)) : Set Ptr := {p | released es p < granted es p}

/-- A packet as `alloc` hands it out. The stamp is not cleared: it is what the
last owner left, if there was one. -/
def Content.fresh (t : σ) : Content δ σ where
  bits := { Packet.alloc with lastHop := -2 }
  data := none
  refCount := 0
  next := none
  uid := 0
  txinfo := t

namespace Store

def Allows (s : Store δ σ) : Call δ → Prop
  | .alloc | .allocn _ => True
  | .free p => ∃ c, s p = some c ∧ (c.refCount = 0 → c.uid ≤ 0)
  | .allocdata p _ => ∃ c, s p = some c ∧ c.data = none
  | .copy p | .refcopy p | .setdata p _ | .write p _ | .link p _ | .schedule p _ =>
    ∃ c, s p = some c

/-- The meaning of the calls. A packet that is handed out is any packet that
nobody holds. -/
inductive Step (env : Elsewhere δ σ) (s : Store δ σ) : Label δ → Store δ σ → Prop where
  | alloc {r : Ptr} {t : σ} : s r = none →
      Step env s (.alloc, some r) (Function.update s r (some (.fresh t)))
  | allocn {n : Int} {r : Ptr} {t : σ} : s r = none →
      Step env s (.allocn n, some r) (Function.update s r (some
        { (Content.fresh t : Content δ σ) with data := if 0 < n then some (.packetData (.new n)) else none }))
  | copy {p r : Ptr} {c : Content δ σ} {t : σ} : s p = some c → s r = none →
      Step env s (.copy p, some r) (Function.update s r (some
        { (Content.fresh (env.init t c.txinfo) : Content δ σ) with
          bits := c.bits, data := c.data.map env.copyData }))
  | refcopy {p : Ptr} {c : Content δ σ} : s p = some c →
      Step env s (.refcopy p, some p)
        (Function.update s p (some { c with refCount := c.refCount + 1 }))
  | release {p : Ptr} {c : Content δ σ} : s p = some c → c.refCount ≠ 0 →
      Step env s (.free p, none)
        (Function.update s p (some { c with refCount := c.refCount - 1 }))
  | last {p : Ptr} {c : Content δ σ} : s p = some c → c.refCount = 0 →
      Step env s (.free p, none) (Function.update s p none)
  | allocdata {p : Ptr} {n : Int} {c : Content δ σ} : s p = some c →
      Step env s (.allocdata p n, none)
        (Function.update s p (some { c with data := some (.packetData (.new n)) }))
  | setdata {p : Ptr} {d : Option (AppData δ)} {c : Content δ σ} : s p = some c →
      Step env s (.setdata p d, none) (Function.update s p (some { c with data := d }))
  | write {p : Ptr} {bits : Bits} {c : Content δ σ} : s p = some c →
      Step env s (.write p bits, none) (Function.update s p (some { c with bits := bits }))
  | link {p : Ptr} {next : Option Ptr} {c : Content δ σ} : s p = some c →
      Step env s (.link p next, none) (Function.update s p (some { c with next := next }))
  | schedule {p : Ptr} {uid : Int} {c : Content δ σ} : s p = some c →
      Step env s (.schedule p uid, none) (Function.update s p (some { c with uid := uid }))

variable {env : Elsewhere δ σ} {s s' : Store δ σ} {l : Label δ} {p : Ptr} {c : Content δ σ}

/-- How many references there are to a packet that is found as `x`. -/
def references (x : Option (Content δ σ)) : Nat := x.elim 0 fun c => c.refCount + 1

/-- What any step does: it changes one packet, which is the one it names or one
that nobody holds, and counts its references. -/
structure Changes (s : Store δ σ) (l : Label δ) (s' : Store δ σ) (r : Ptr) : Prop where
  only : ∀ q ≠ r, s' q = s q ∧ l.2 ≠ some q ∧ l.1.freed ≠ some q
  named : s r = none ∨ l.1.changed = some r
  counted : references (s r) + (if l.2 = some r then 1 else 0) =
    references (s' r) + (if l.1.freed = some r then 1 else 0)

theorem Step.changes (h : Step env s l s') : ∃ r, Changes s l s' r := by
  cases h with
  | alloc hr | allocn hr | copy _ hr =>
    refine ⟨_, ⟨fun q hq => ⟨Function.update_of_ne hq _ _, ?_, ?_⟩, .inl hr, ?_⟩⟩
    · exact fun he => hq (Option.some.inj he).symm
    · simp [Call.freed]
    · simp [references, Content.fresh, Call.freed, hr]
  | refcopy hr =>
    refine ⟨_, ⟨fun q hq => ⟨Function.update_of_ne hq _ _, ?_, ?_⟩, .inr rfl, ?_⟩⟩
    · exact fun he => hq (Option.some.inj he).symm
    · simp [Call.freed]
    · simp [references, Call.freed, hr]
  | release hr hc =>
    refine ⟨_, ⟨fun q hq => ⟨Function.update_of_ne hq _ _, ?_, ?_⟩, .inr rfl, ?_⟩⟩
    · simp
    · exact fun he => hq (Option.some.inj he).symm
    · simp only [references, Call.freed, hr, Function.update_self, Option.elim_some,
        reduceCtorEq, if_false, if_true]
      omega
  | last hr hc =>
    refine ⟨_, ⟨fun q hq => ⟨Function.update_of_ne hq _ _, ?_, ?_⟩, .inr rfl, ?_⟩⟩
    · simp
    · exact fun he => hq (Option.some.inj he).symm
    · simp [references, Call.freed, hr, hc]
  | allocdata hr | setdata hr | write hr | link hr | schedule hr =>
    refine ⟨_, ⟨fun q hq => ⟨Function.update_of_ne hq _ _, ?_, ?_⟩, .inr rfl, ?_⟩⟩
    · simp
    · simp [Call.freed]
    · simp [references, Call.freed, hr]

theorem Step.handsOut (h : Step env s l s') (hl : l.2 = some p) : ∃ c, s' p = some c := by
  cases h with
  | alloc | allocn | copy | refcopy =>
    obtain rfl := Option.some.inj hl
    exact ⟨_, Function.update_self _ _ _⟩
  | release | last | allocdata | setdata | write | link | schedule => cases hl

theorem Step.balance (h : Step env s l s') (p : Ptr) :
    references (s p) + granted [l] p = references (s' p) + released [l] p := by
  obtain ⟨r, hr⟩ := h.changes
  rw [granted_singleton, released_singleton]
  by_cases hpr : p = r
  · subst hpr
    exact hr.counted
  · obtain ⟨hsame, hout, hfreed⟩ := hr.only p hpr
    rw [hsame, if_neg hout, if_neg hfreed]

end Store

end LearnNs2.Pool

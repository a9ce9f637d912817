import LearnNs2.Cmu.CmuTrace
import LearnNs2.Lib.Registration

/-!
# Classes of packet types

`p_info::classify` knows some packet types and asks the registered classifiers
about the others. Libraries register their classifiers as they are loaded.
-/

namespace LearnNs2.PacketInfo

set_option autoImplicit false

open Registration

def ptAudio : PacketT := 3

def ptVideo : PacketT := 4

def ptTelnet : PacketT := 26

def ptSctpApp1 : PacketT := 56

def ptHdlc : PacketT := 59

inductive PacketClass where
  | unclassified
  | routing
  | dataPkt
  deriving Repr, DecidableEq

/-- The address of a `PacketClassifier` object. -/
abbrev Classifier := Nat

/-- `p_info::addPacketClassifier`. The registry holds the `next_` pointers and
`pc_`. -/
def addPacketClassifier : Registry Classifier → Option Classifier → Registry Classifier :=
  Registry.add

/-- `PacketClassifier::classify`. -/
def classifyFrom (getClass : Classifier → PacketT → PacketClass)
    (next : Classifier → Option Classifier) :
    Nat → Classifier → PacketT → Option PacketClass
  | 0, _, _ => none
  | fuel + 1, this, type =>
    let c := getClass this type
    if c = .unclassified then
      match next this with
      | some pc => classifyFrom getClass next fuel pc type
      | none => some c
    else some c

def isRouting (type : PacketT) : Bool :=
  type = ptDsr || type = ptMessage || type = ptTora || type = ptAodv

/-- `p_info::data_packet`, which asks no classifier. -/
def dataPacket (type : PacketT) : Bool :=
  type = ptTcp || type = ptTelnet || type = ptCbr || type = ptAudio || type = ptVideo ||
    type = ptAck || type = ptSctp || type = ptSctpApp1 || type = ptHdlc

/-- `p_info::classify`. -/
def classify (getClass : Classifier → PacketT → PacketClass) (r : Registry Classifier)
    (fuel : Nat) (type : PacketT) : Option PacketClass :=
  if isRouting type then some .routing
  else if dataPacket type then some .dataPkt
  else
    match r.head with
    | some pc => classifyFrom getClass r.next fuel pc type
    | none => some .unclassified

variable {getClass : Classifier → PacketT → PacketClass} {type : PacketT}

/-- What a classifier does on the way of a query. -/
def visit (getClass : Classifier → PacketT → PacketClass) (type : PacketT) (pc : Classifier)
    (_ : PacketClass) : Bool × PacketClass :=
  (getClass pc type ≠ .unclassified, getClass pc type)

theorem classifyFrom_eq (next : Classifier → Option Classifier) (fuel : Nat) (pc : Classifier)
    (x : PacketClass) : classifyFrom getClass next fuel pc type =
      (ask (visit getClass type) next fuel pc x).map Prod.snd := by
  induction fuel generalizing pc x with
  | zero => rfl
  | succ fuel ih =>
    unfold classifyFrom ask
    by_cases hclass : getClass pc type = .unclassified
    · simp only [visit, hclass, ne_eq, not_true_eq_false, decide_false, if_true,
        Bool.false_eq_true, if_false]
      cases next pc with
      | none => rfl
      | some q => exact ih q _
    · simp [visit, hclass]

def known (getClass : Classifier → PacketT → PacketClass) (type : PacketT) (pc : Classifier) :
    Option PacketClass :=
  if getClass pc type = .unclassified then none else some (getClass pc type)

theorem walkList_visit (l : List Classifier) :
    walkList (visit getClass type) l .unclassified =
      match l.findSome? (known getClass type) with
      | some c => (true, c)
      | none => (false, .unclassified) := by
  induction l with
  | nil => rfl
  | cons pc l ih =>
    rw [walkList, List.findSome?_cons, known]
    by_cases hclass : getClass pc type = .unclassified
    · rw [if_neg (by simp [visit, hclass]), if_pos hclass]
      simpa only [visit, hclass] using ih
    · rw [if_pos (by simp [visit, hclass]), if_neg hclass]
      simp [visit, hclass]

/-- The class of a packet type after some registrations, if asking for it comes
to an end: that of `p_info`, or of the latest reachable classifier that knows
it. If none does, the query ends only where nobody has registered twice. -/
def classAfter (getClass : Classifier → PacketT → PacketClass) (objs : List Classifier)
    (type : PacketT) : Option PacketClass :=
  if isRouting type then some .routing
  else if dataPacket type then some .dataPkt
  else
    match (reachable objs).findSome? (known getClass type) with
    | some c => some c
    | none => if objs.Nodup then some .unclassified else none

theorem classify_eq (r : Registry Classifier) (hrouting : ¬ isRouting type = true)
    (hdata : ¬ dataPacket type = true) (fuel : Nat) : classify getClass r fuel type =
      (query (visit getClass type) r.next fuel r.head .unclassified).map Prod.snd := by
  rw [classify, if_neg hrouting, if_neg hdata]
  unfold query
  cases r.head with
  | none => rfl
  | some pc => exact classifyFrom_eq r.next fuel pc .unclassified

theorem exists_classify_iff (r : Registry Classifier) (hrouting : ¬ isRouting type = true)
    (hdata : ¬ dataPacket type = true) (c : PacketClass) :
    (∃ fuel, classify getClass r fuel type = some c) ↔
      ∃ b fuel, walk (visit getClass type) r.next fuel r.head .unclassified = some (b, c) := by
  simp only [classify_eq r hrouting hdata, Option.map_eq_some_iff, Prod.exists,
    ← exists_query_iff]
  constructor
  · rintro ⟨fuel, b, c, hquery, rfl⟩
    exact ⟨b, fuel, hquery⟩
  · rintro ⟨b, fuel, hquery⟩
    exact ⟨fuel, b, c, hquery, rfl⟩

/-- Asking for the class of a type, after any history of registrations. -/
theorem classify_registered (getClass : Classifier → PacketT → PacketClass)
    (history : List (Option Classifier)) (type : PacketT) (c : PacketClass) :
    (∃ fuel, classify getClass (history.foldl addPacketClassifier .empty) fuel type = some c) ↔
      classAfter getClass history.reduceOption type = some c := by
  rw [addPacketClassifier, foldl_add, classAfter]
  generalize history.reduceOption = objs
  by_cases hrouting : isRouting type = true
  · simp [classify, hrouting]
  by_cases hdata : dataPacket type = true
  · simp [classify, hrouting, hdata]
  rw [if_neg hrouting, if_neg hdata, exists_classify_iff _ hrouting hdata]
  have hwalk : ∀ b, (∃ fuel, walk (visit getClass type) (registered objs).next fuel
      (registered objs).head .unclassified = some (b, c)) ↔
      (b, c) = walkList (visit getClass type) (reachable objs) .unclassified ∧
        (objs.Nodup ∨ b = true) :=
    fun b => exists_walk_registered_iff objs (fun _ _ _ => rfl) .unclassified (b, c)
  simp only [hwalk, walkList_visit]
  cases (reachable objs).findSome? (known getClass type) with
  | some c' => simp [eq_comm]
  | none =>
    by_cases hnodup : objs.Nodup
    · simp [hnodup, eq_comm]
    · simp [hnodup]

end LearnNs2.PacketInfo

import LearnNs2.Cmu.CmuTrace
import LearnNs2.Lib.Registration

/-!
# The tracers as objects

`pktTrc_` and the `next_` pointers of the registered tracers, beside the list
that stands for them in `CMUTrace::format`. The list is right as long as no
object registers twice.
-/

namespace LearnNs2.TracerChain

set_option autoImplicit false

open Registration

/-- The address of a `PacketTracer` object. -/
abbrev Tracer := Nat

/-- `CMUTrace::addPacketTracer`, with the pointers that it sets. -/
def addTracer : Registry Tracer → Option Tracer → Registry Tracer := Registry.add

/-- `PacketTracer::format_unknow`, called on an object. -/
def formatUnknowFrom (objs : Tracer → PacketTracer) (next : Tracer → Option Tracer) (p : Packet)
    (offset : Nat) (newtrace : Int) : Nat → Tracer → List Char → Option (Bool × List Char)
  | 0, _, _ => none
  | fuel + 1, this, buffer =>
    let r := (objs this).format p offset buffer newtrace
    let buffer := sprintfAt buffer offset r.2
    if r.1 ≠ 0 then some (true, buffer)
    else
      match next this with
      | some pt => formatUnknowFrom objs next p offset newtrace fuel pt buffer
      | none => some (false, buffer)

/-- What the label `default` does with the chain: nothing without `pktTrc_`. -/
def formatRegistered (objs : Tracer → PacketTracer) (r : Registry Tracer) (p : Packet)
    (offset : Nat) (newtrace : Int) (fuel : Nat) (buffer : List Char) :
    Option (Bool × List Char) :=
  match r.head with
  | some pt => formatUnknowFrom objs r.next p offset newtrace fuel pt buffer
  | none => some (false, buffer)

section Objects

variable (objs : Tracer → PacketTracer) (p : Packet) (offset : Nat) (newtrace : Int)

def visit (pt : Tracer) (buffer : List Char) : Bool × List Char :=
  let r := (objs pt).format p offset buffer newtrace
  (r.1 ≠ 0, sprintfAt buffer offset r.2)

theorem formatUnknowFrom_eq (next : Tracer → Option Tracer) (fuel : Nat) (pt : Tracer)
    (buffer : List Char) : formatUnknowFrom objs next p offset newtrace fuel pt buffer =
      ask (visit objs p offset newtrace) next fuel pt buffer := by
  induction fuel generalizing pt buffer with
  | zero => rfl
  | succ fuel ih =>
    unfold formatUnknowFrom ask
    by_cases hr : ((objs pt).format p offset buffer newtrace).1 = 0
    · simp only [visit, hr, ne_eq, not_true_eq_false, decide_false, if_false, Bool.false_eq_true]
      cases next pt with
      | none => rfl
      | some q => exact ih q _
    · simp [visit, hr]

/-- The list model of the chain is a walk over the objects of the list. -/
theorem walkList_eq_formatUnknow (l : List Tracer) (buffer : List Char) :
    walkList (visit objs p offset newtrace) l buffer =
      let r := formatUnknow p offset newtrace (l.map objs) buffer
      (r.1, r.2.buffer) := by
  induction l generalizing buffer with
  | nil => rfl
  | cons pt l ih =>
    rw [walkList, List.map_cons, formatUnknow]
    by_cases hr : ((objs pt).format p offset buffer newtrace).1 = 0
    · simp [visit, hr, ← ih]
    · simp [visit, hr]

theorem formatRegistered_eq (r : Registry Tracer) (fuel : Nat) (buffer : List Char) :
    formatRegistered objs r p offset newtrace fuel buffer =
      query (visit objs p offset newtrace) r.next fuel r.head buffer := by
  unfold formatRegistered query
  cases r.head with
  | none => rfl
  | some pt => exact formatUnknowFrom_eq objs p offset newtrace r.next fuel pt buffer

end Objects

theorem foldl_addPacketTracer (objs : Tracer → PacketTracer) (history : List (Option Tracer)) :
    history.foldl (fun l pt => addPacketTracer (pt.map objs) l) [] =
      history.reduceOption.reverse.map objs := by
  have hfrom : ∀ l, history.foldl (fun l pt => addPacketTracer (pt.map objs) l) l =
      history.reduceOption.reverse.map objs ++ l := by
    induction history with
    | nil => exact fun l => rfl
    | cons o history ih =>
      intro l
      cases o with
      | none =>
        rw [List.foldl_cons, List.reduceOption_cons_of_none]
        exact ih l
      | some pt =>
        rw [List.foldl_cons, List.reduceOption_cons_of_some, ih]
        simp [addPacketTracer]
  rw [hfrom, List.append_nil]

/-- With objects that register once each, the walk along the pointers leaves what
the list model leaves. An object that registers twice makes a packet that nobody
knows a call without end. -/
theorem tracers_registered (objs : Tracer → PacketTracer) (p : Packet) (offset : Nat)
    (newtrace : Int) (history : List (Option Tracer)) (buffer : List Char) :
    (history.reduceOption.Nodup → ∃ fuel,
      formatRegistered objs (history.foldl addTracer .empty) p offset newtrace fuel buffer =
        let r := formatUnknow p offset newtrace
          (history.foldl (fun l pt => addPacketTracer (pt.map objs) l) []) buffer
        some (r.1, r.2.buffer)) ∧
    (¬ history.reduceOption.Nodup →
      (∀ pt ∈ reachable history.reduceOption, ∀ text,
        ((objs pt).format p offset text newtrace).1 = 0) → ∀ fuel,
      formatRegistered objs (history.foldl addTracer .empty) p offset newtrace fuel buffer =
        none) := by
  rw [foldl_addPacketTracer, addTracer, foldl_add]
  generalize history.reduceOption = pts
  simp only [formatRegistered_eq]
  constructor
  · intro hnodup
    rw [exists_query_iff]
    refine ⟨_, (walk_registered_of_nodup pts hnodup buffer).trans ?_⟩
    rw [walkList_eq_formatUnknow]
  · intro hnodup hformat fuel
    have hnever : ∀ n, walk (visit objs p offset newtrace) (registered pts).next n
        (registered pts).head buffer = none := fun n =>
      walk_registered_of_not_nodup pts hnodup (fun pt hpt text => by simp [visit, hformat pt hpt]) n
        buffer
    by_contra hne
    obtain ⟨result, hresult⟩ := Option.ne_none_iff_exists'.mp hne
    obtain ⟨n, hn⟩ := exists_query_iff.mp ⟨fuel, hresult⟩
    rw [hnever n] at hn
    cases hn

/-- Object 1 knows every packet, and it is asked behind object 2. Without it, and
with object 2 registered again, the call does not end. -/
theorem tracers_registered_two :
    let objs : Tracer → PacketTracer := fun pt =>
      ⟨fun _ _ _ _ => if pt = 1 then (1, ['k']) else (0, ['u'])⟩
    (∃ fuel, formatRegistered objs ([some 1, none, some 2].foldl addTracer .empty) .alloc 0 0 fuel
      [] = some (true, ['k'])) ∧
    ∀ fuel, formatRegistered objs ([some 2, some 3, some 2].foldl addTracer .empty) .alloc 0 0 fuel
      [] = none := by
  intro objs
  constructor
  · exact (tracers_registered objs .alloc 0 0 [some 1, none, some 2] []).1 (by decide)
  · refine (tracers_registered objs .alloc 0 0 [some 2, some 3, some 2] []).2 (by decide) ?_
    intro pt hpt text
    have hne : ∀ pt ∈ reachable [2, 3, 2], pt ≠ 1 := by decide
    simp [objs, hne pt hpt]

end LearnNs2.TracerChain

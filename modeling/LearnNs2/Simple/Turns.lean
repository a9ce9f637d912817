import LearnNs2.Lib.Runs
import LearnNs2.Simple.Command
import LearnNs2.Simple.Recv

/-!
# One agent on its own

What ns-2 asks of one agent: a command, a packet, a timer. A turn records the
agent before the request, and a run is a sequence of turns in any order.
-/

namespace LearnNs2

open LabelledRuns

set_option autoImplicit false

inductive Request where
  | command (env : TclEnv) (argv : List String)
  | recv (p : Packet)
  | expire (p : Packet) (uniform : ℚ)

/-- `recv` and `expire` return nothing, which counts as no error. -/
def Simple.respond (a : Simple) : Request → Reply
  | .command env argv => a.command env argv
  | .recv p => ⟨a, .ok, a.recv p⟩
  | .expire p uniform => ⟨(a.expire p uniform).1, .ok, (a.expire p uniform).2⟩

structure Turn where
  agent : Simple
  request : Request

def Turn.reply (x : Turn) : Reply := x.agent.respond x.request

def TurnStep (a : Simple) (x : Turn) (b : Simple) : Prop := x.agent = a ∧ b = x.reply.agent

theorem turnStep_respond (a : Simple) (r : Request) :
    TurnStep a ⟨a, r⟩ (a.respond r).agent := ⟨rfl, rfl⟩

section Effects

variable {a : Simple} {x : Turn}

theorem packets_command (env : TclEnv) (a : Simple) (argv : List String) :
    packets (a.command env argv).effects = [] := by
  have h := Simple.command_outcome env a argv
  generalize a.command env argv = r at h
  cases h with
  | printed =>
    unfold Simple.printRtable
    cases a.logtarget with
    | none => rfl
    | some out => simp [packets]
  | _ => rfl

theorem sent_subset_packets (es : List Effect) : ∀ q ∈ sent es, q ∈ packets es := by
  intro q hq
  obtain ⟨e, he, hs⟩ := List.mem_filterMap.mp hq
  apply List.mem_filterMap.mpr
  refine ⟨e, he, ?_⟩
  cases e with
  | schedule o p delay => exact hs
  | _ => cases hs

theorem delivered_subset_packets (es : List Effect) :
    ∀ y ∈ delivered es, y.2 ∈ packets es := by
  rintro ⟨d, q⟩ hq
  obtain ⟨e, he, hs⟩ := List.mem_filterMap.mp hq
  apply List.mem_filterMap.mpr
  refine ⟨e, he, ?_⟩
  cases e with
  | dmuxRecv o p =>
    cases hs
    rfl
  | _ => cases hs

theorem sent_command (env : TclEnv) (a : Simple) (argv : List String) :
    sent (a.command env argv).effects = [] := by
  apply List.eq_nil_iff_forall_not_mem.mpr
  intro q hq
  have h := sent_subset_packets _ q hq
  rw [packets_command] at h
  cases h

/-- Only `recv` passes anything to `dmux_`, and it goes through the pointer the
agent holds at that time. -/
theorem mem_delivered_turn {d : Option TclObject} {q : Packet}
    (h : (d, q) ∈ delivered x.reply.effects) : d = x.agent.dmux := by
  obtain ⟨a, r⟩ := x
  cases r with
  | command env argv =>
    have hp := delivered_subset_packets _ _ h
    rw [Turn.reply, Simple.respond, packets_command] at hp
    cases hp
  | recv p => exact (Simple.mem_delivered_recv h).2.2.2.2.1
  | expire p uniform => simp [Turn.reply, Simple.respond, Simple.expire, Simple.sendSimplePkt,
      Simple.resetSimplePktTimer] at h

end Effects

end LearnNs2

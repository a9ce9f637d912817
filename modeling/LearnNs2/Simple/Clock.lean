import LearnNs2.Simple.Turns
import Mathlib.Algebra.Order.Field.Rat
import Mathlib.Tactic.Linarith

/-!
# The timer of one agent

The turns of an agent with the times at which the scheduler runs them. What is
pending of `pkt_timer_` is due before time goes on, and `TimerHandler::resched`
cancels it, if there is any, before it schedules anew. Times are exact.
-/

namespace LearnNs2

open LabelledRuns

set_option autoImplicit false

structure Clocked where
  agent : Simple
  now : ℚ
  /-- The times of the pending expiries of `pkt_timer_`. -/
  pending : List ℚ

structure Tick where
  time : ℚ
  turn : Turn

@[simp] def Effect.delay? : Effect → Option ℚ
  | .resched delay => some delay
  | _ => none

/-- `TimerHandler::resched`: the cancelled expiry is dropped for the new one. -/
def resched (time : ℚ) (pending : List ℚ) (delay : ℚ) : List ℚ :=
  (time + delay) :: pending.drop 1

/-- The calls of `resched` among the effects of a turn, in their order. -/
def reschedAll (time : ℚ) (pending : List ℚ) (es : List Effect) : List ℚ :=
  (es.filterMap Effect.delay?).foldl (resched time) pending

namespace Clocked

/-- The state after a request at `time`, with `rest` still pending before it. -/
def serve (u : Clocked) (time : ℚ) (rest : List ℚ) (r : Request) : Clocked where
  agent := (u.agent.respond r).agent
  now := time
  pending := reschedAll time rest (u.agent.respond r).effects

/-- Time may go on to `time`: not back, and not past a pending expiry. -/
def Reaches (u : Clocked) (time : ℚ) : Prop := u.now ≤ time ∧ ∀ d ∈ u.pending, time ≤ d

end Clocked

/-- `Random::uniform` draws from 0 inclusive to 1 exclusive. -/
inductive ClockStep : Clocked → Tick → Clocked → Prop where
  | command (u : Clocked) {time : ℚ} (h : u.Reaches time) (env : TclEnv) (argv : List String) :
      ClockStep u ⟨time, u.agent, .command env argv⟩ (u.serve time u.pending (.command env argv))
  | recv (u : Clocked) {time : ℚ} (h : u.Reaches time) (p : Packet) :
      ClockStep u ⟨time, u.agent, .recv p⟩ (u.serve time u.pending (.recv p))
  | expire (u : Clocked) {time : ℚ} (h : u.Reaches time) {pre post : List ℚ}
      (hp : u.pending = pre ++ time :: post) (p : Packet) {uniform : ℚ} (h0 : 0 ≤ uniform)
      (h1 : uniform < 1) :
      ClockStep u ⟨time, u.agent, .expire p uniform⟩
        (u.serve time (pre ++ post) (.expire p uniform))

def Request.isStart : Request → Bool
  | .command _ [_, cmd] => strcasecmpEq cmd "start"
  | _ => false

def Request.isExpiry : Request → Bool
  | .expire _ _ => true
  | _ => false

def Tick.isStart (x : Tick) : Bool := x.turn.request.isStart

/-- The timer expires, and the agent runs `send_simple_pkt`. -/
def Tick.isExpiry (x : Tick) : Bool := x.turn.request.isExpiry

/-- Times apart, a timed run is a run of turns. -/
theorem clockStep_turnStep {u v : Clocked} {x : Tick} (h : ClockStep u x v) :
    TurnStep u.agent x.turn v.agent := by
  cases h with
  | command _ env argv => exact turnStep_respond u.agent (.command env argv)
  | recv _ p => exact turnStep_respond u.agent (.recv p)
  | expire _ _ p => exact turnStep_respond u.agent (.expire p _)

section Delays

variable {es : List Effect}

theorem delays_recv (a : Simple) (p : Packet) : (a.recv p).filterMap Effect.delay? = [] := by
  have h := a.recv_outcome p
  generalize a.recv p = es at h
  cases h <;> rfl

theorem delays_printRtable (a : Simple) : a.printRtable.filterMap Effect.delay? = [] := by
  unfold Simple.printRtable
  cases a.logtarget with
  | none => rfl
  | some out => simp

theorem isStart_command_iff (env : TclEnv) (argv : List String) :
    (Request.command env argv).isStart ↔
      ∃ self cmd, argv = [self, cmd] ∧ strcasecmpEq cmd "start" := by
  constructor
  · intro h
    unfold Request.isStart at h
    split at h
    · rename_i self cmd heq
      cases heq
      exact ⟨self, cmd, rfl, h⟩
    · cases h
  · rintro ⟨self, cmd, rfl, h⟩
    exact h

/-- Among the commands only `start` touches the timer. -/
theorem delays_command (env : TclEnv) (a : Simple) (argv : List String) :
    (a.command env argv).effects.filterMap Effect.delay? =
      if (Request.command env argv).isStart then [0] else [] := by
  by_cases hs : (Request.command env argv).isStart
  · obtain ⟨self, cmd, rfl, hcmd⟩ := (isStart_command_iff env argv).mp hs
    have he : (a.command env [self, cmd]).effects = [.resched 0] := by
      unfold Simple.command
      simp only [hcmd, if_true]
    rw [if_pos hs, he]
    rfl
  · rw [if_neg hs]
    have h := Simple.command_outcome env a argv
    generalize a.command env argv = r at h
    cases h with
    | start h => exact absurd h hs
    | printed => exact delays_printRtable a
    | _ => rfl

theorem command_seqNum (env : TclEnv) (a : Simple) (argv : List String) :
    (a.command env argv).agent.seqNum = a.seqNum := by
  have h := Simple.command_outcome env a argv
  generalize a.command env argv = r at h
  cases h <;> rfl

end Delays

section Steps

variable {s t u v : Clocked} {x : Tick} {es : List Tick}

/-- What one tick does to the timer and to the counter of the agent. -/
inductive TimerOutcome (u : Clocked) (x : Tick) (v : Clocked) : Prop where
  | start (hs : x.isStart) (he : ¬ x.isExpiry) (hp : v.pending = resched x.time u.pending 0)
      (hn : v.agent.seqNum = u.agent.seqNum)
  | expiry (hs : ¬ x.isStart) (he : x.isExpiry) (pre post : List ℚ)
      (hdue : u.pending = pre ++ x.time :: post) (hp : v.pending = resched x.time (pre ++ post) 5)
      (hn : v.agent.seqNum = u.agent.seqNum + 1)
  | other (hs : ¬ x.isStart) (he : ¬ x.isExpiry) (hp : v.pending = u.pending)
      (hn : v.agent.seqNum = u.agent.seqNum)

theorem clockStep_outcome (h : ClockStep u x v) : TimerOutcome u x v := by
  cases h with
  | @command time _ env argv =>
    have hp := delays_command env u.agent argv
    have hn := command_seqNum env u.agent argv
    by_cases hs : (Request.command env argv).isStart
    · rw [if_pos hs] at hp
      refine .start hs (fun he => Bool.false_ne_true he) ?_ hn
      change ((u.agent.command env argv).effects.filterMap Effect.delay?).foldl _ _ = _
      rw [hp]
      rfl
    · rw [if_neg hs] at hp
      refine .other hs (fun he => Bool.false_ne_true he) ?_ hn
      change ((u.agent.command env argv).effects.filterMap Effect.delay?).foldl _ _ = _
      rw [hp]
      rfl
  | @recv time _ p =>
    refine .other Bool.false_ne_true Bool.false_ne_true ?_ rfl
    change ((u.agent.recv p).filterMap Effect.delay?).foldl _ _ = _
    rw [delays_recv]
    rfl
  | expire _ hdue p => exact .expiry Bool.false_ne_true rfl _ _ hdue rfl rfl

theorem clockStep_now (h : ClockStep u x v) : u.Reaches x.time ∧ v.now = x.time := by
  cases h with
  | command h => exact ⟨h, rfl⟩
  | recv h => exact ⟨h, rfl⟩
  | expire h => exact ⟨h, rfl⟩

/-- One expiry is pending, at most five seconds ahead. -/
def Ticking (u : Clocked) : Prop := ∃ d, u.pending = [d] ∧ u.now ≤ d ∧ d ≤ u.now + 5

/-- Nothing is pending, and nothing has happened to the timer. -/
def Idle (es : List Tick) (u : Clocked) : Prop :=
  u.pending = [] ∧ ∀ x ∈ es, ¬ x.isStart ∧ ¬ x.isExpiry

theorem ticking_start (h : ClockStep u x v) (hone : u.pending.length ≤ 1)
    (hp : v.pending = resched x.time u.pending 0) : Ticking v := by
  obtain ⟨-, hnow⟩ := clockStep_now h
  have hdrop : u.pending.drop 1 = [] := List.drop_eq_nil_of_le hone
  refine ⟨x.time, ?_, hnow.le, by rw [hnow]; linarith⟩
  rw [hp, resched, hdrop, add_zero]

theorem singleton_eq_append_cons {d time : ℚ} {pre post : List ℚ}
    (h : [d] = pre ++ time :: post) : pre = [] ∧ d = time ∧ post = [] := by
  cases pre with
  | nil => simpa using h
  | cons y pre => simp at h

theorem ticking_step (h : ClockStep u x v) (hu : Ticking u) : Ticking v := by
  obtain ⟨hreach, hnow⟩ := clockStep_now h
  obtain ⟨d, hd, hle, hahead⟩ := hu
  cases clockStep_outcome h with
  | start _ _ hp => exact ticking_start h (by rw [hd, List.length_singleton]) hp
  | expiry _ _ pre post hdue hp =>
    rw [hd] at hdue
    obtain ⟨rfl, rfl, rfl⟩ := singleton_eq_append_cons hdue
    refine ⟨x.time + 5, hp, ?_, ?_⟩
    · rw [hnow]
      linarith
    · rw [hnow]
  | other _ _ hp =>
    refine ⟨d, hp.trans hd, ?_, ?_⟩
    · rw [hnow]
      exact hreach.2 d (by rw [hd]; simp)
    · rw [hnow]
      linarith [hreach.1]

theorem idle_step (h : ClockStep u x v) (hu : Idle es u) :
    Idle (es ++ [x]) v ∨ (Ticking v ∧ x.isStart) := by
  cases clockStep_outcome h with
  | start hs _ hp => exact Or.inr ⟨ticking_start h (by rw [hu.1]; simp) hp, hs⟩
  | expiry _ _ pre post hdue =>
    rw [hu.1] at hdue
    simp at hdue
  | other hs he hp =>
    left
    refine ⟨hp.trans hu.1, ?_⟩
    intro y hy
    rcases List.mem_append.mp hy with hy | hy
    · exact hu.2 y hy
    · rw [List.mem_singleton.mp hy]
      exact ⟨hs, he⟩

/-- The timer is idle until the first start and ticks from then on. -/
theorem run_timer (run : Run ClockStep s es t) (idle : s.pending = []) :
    Idle es t ∨ (Ticking t ∧ ∃ x ∈ es, x.isStart) := by
  apply run.induct (fun pre u => Idle pre u ∨ (Ticking u ∧ ∃ x ∈ pre, x.isStart))
  · exact Or.inl ⟨idle, by simp⟩
  · intro pre u x v _ hu h
    rcases hu with hu | ⟨hu, y, hy, hs⟩
    · rcases idle_step h hu with hv | ⟨hv, hs⟩
      · exact Or.inl hv
      · exact Or.inr ⟨hv, x, by simp, hs⟩
    · exact Or.inr ⟨ticking_step h hu, y, List.mem_append_left _ hy, hs⟩

/-- `create-simple-agent` starts the agent; nothing else is known to it. -/
def startAt (a : Simple) (time : ℚ) : Tick :=
  ⟨time, a, .command ⟨fun _ => none, fun b _ => (b, .error)⟩ ["ragent", "start"]⟩

theorem isStart_startAt (a : Simple) (time : ℚ) : (startAt a time).isStart := by
  simp [startAt, Tick.isStart, Request.isStart, strcasecmpEq]

theorem reaches_now_of_idle (idle : u.pending = []) : u.Reaches u.now :=
  ⟨le_refl _, by simp [idle]⟩

theorem clockStep_startAt (hreach : u.Reaches u.now) (hone : u.pending.length ≤ 1) :
    ClockStep u (startAt u.agent u.now) ⟨u.agent, u.now, [u.now]⟩ := by
  have hpending : reschedAll u.now u.pending [.resched 0] = [u.now] := by
    simp [reschedAll, resched, List.drop_eq_nil_of_le hone]
  have hreply : u.agent.respond (startAt u.agent u.now).turn.request =
      ⟨u.agent, .ok, [.resched 0]⟩ := by
    simp [startAt, Simple.respond, Simple.command, strcasecmpEq]
  have h := ClockStep.command u hreach ⟨fun _ => none, fun b _ => (b, .error)⟩ ["ragent", "start"]
  change ClockStep u (startAt u.agent u.now)
    (u.serve u.now u.pending (startAt u.agent u.now).turn.request) at h
  rwa [Clocked.serve, hreply, hpending] at h

end Steps

end LearnNs2

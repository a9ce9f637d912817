import LearnNs2.Simple.Agent
import Mathlib.Tactic.SplitIfs

/-!
# What one command can do

As with `recv`, the branches of `command` are listed once with their guards.
-/

namespace LearnNs2

set_option autoImplicit false

namespace Simple

variable {env : TclEnv} {a : Simple} {argv : List String}

def IsLogCommand (cmd : String) : Prop := cmd = "log-target" ∨ cmd = "tracetarget"

/-- The commands that set a pointer by name; all others leave both alone. -/
def SetsPointer (argv : List String) : Prop :=
  ∃ self cmd name, argv = [self, cmd, name] ∧ (cmd = "port-dmux" ∨ IsLogCommand cmd)

inductive CommandOutcome (env : TclEnv) (a : Simple) : List String → Reply → Prop where
  | start {self cmd : String} (h : strcasecmpEq cmd "start") :
      CommandOutcome env a [self, cmd] ⟨a, .ok, [.resched 0]⟩
  | printed {self cmd : String} (h : strcasecmpEq cmd "print_rtable") :
      CommandOutcome env a [self, cmd] ⟨a, .ok, a.printRtable⟩
  | muxSet {self name : String} {o : TclObject} (h : env.lookup name = some o) :
      CommandOutcome env a [self, "port-dmux", name] ⟨{ a with dmux := some o }, .ok, []⟩
  | muxLost {self name : String} (h : env.lookup name = none) :
      CommandOutcome env a [self, "port-dmux", name]
        ⟨{ a with dmux := none }, .error,
          [.stderr ⟨"%s: %s lookup of %s failed\n", [.file, .str "port-dmux", .str name]⟩]⟩
  | logSet {self cmd name : String} {o : TclObject} (hc : IsLogCommand cmd)
      (h : env.lookup name = some o) :
      CommandOutcome env a [self, cmd, name] ⟨{ a with logtarget := some o }, .ok, []⟩
  | logLost {self cmd name : String} (hc : IsLogCommand cmd) (h : env.lookup name = none) :
      CommandOutcome env a [self, cmd, name] ⟨{ a with logtarget := none }, .error, []⟩
  | base {argv : List String} (h : ¬ SetsPointer argv) :
      CommandOutcome env a argv (a.toBase env argv)

theorem not_setsPointer_pair (self cmd : String) : ¬ SetsPointer [self, cmd] := by
  rintro ⟨_, _, _, h, _⟩
  simp at h

theorem not_isLogCommand_portDmux : ¬ IsLogCommand "port-dmux" := by
  simp [IsLogCommand]

theorem command_outcome (env : TclEnv) (a : Simple) (argv : List String) :
    CommandOutcome env a argv (a.command env argv) := by
  unfold command
  split
  · rename_i self cmd
    by_cases hs : strcasecmpEq cmd "start"
    · rw [if_pos hs]
      exact .start hs
    rw [if_neg hs]
    by_cases hp : strcasecmpEq cmd "print_rtable"
    · rw [if_pos hp]
      exact .printed hp
    · rw [if_neg hp]
      exact .base (not_setsPointer_pair self cmd)
  · rename_i self cmd name
    by_cases hm : cmd = "port-dmux"
    · subst hm
      rw [if_pos rfl]
      cases hl : env.lookup name with
      | none => exact .muxLost hl
      | some o => exact .muxSet hl
    rw [if_neg hm]
    by_cases hc : cmd = "log-target" ∨ cmd = "tracetarget"
    · rw [if_pos hc]
      cases hl : env.lookup name with
      | none => exact .logLost hc hl
      | some o => exact .logSet hc hl
    · rw [if_neg hc]
      apply CommandOutcome.base
      rintro ⟨_, _, _, he, h⟩
      simp only [List.cons.injEq, and_true] at he
      obtain ⟨rfl, rfl, rfl⟩ := he
      exact h.elim hm hc
  · rename_i h2 h3
    apply CommandOutcome.base
    rintro ⟨self, cmd, name, he, _⟩
    exact h3 self cmd name he

theorem command_raAddr (env : TclEnv) (a : Simple) (argv : List String) :
    (a.command env argv).agent.raAddr = a.raAddr := by
  have h := command_outcome env a argv
  generalize a.command env argv = r at h
  cases h <;> rfl

theorem command_rtable (env : TclEnv) (a : Simple) (argv : List String) :
    (a.command env argv).agent.rtable = a.rtable := by
  have h := command_outcome env a argv
  generalize a.command env argv = r at h
  cases h <;> rfl

end Simple

end LearnNs2

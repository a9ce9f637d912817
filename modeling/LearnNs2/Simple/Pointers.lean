import LearnNs2.Simple.Turns

/-!
# Failed commands and the pointers

`port-dmux`, `log-target` and `tracetarget` assign the result of the lookup
before they test it. A failed lookup therefore returns `TCL_ERROR` with the old
pointer lost, and the next local delivery goes through null.
-/

namespace LearnNs2

open LabelledRuns

set_option autoImplicit false

def installedBy (env : TclEnv) (argv : List String) (code : TclResult) : Option TclObject :=
  match argv with
  | [_, cmd, name] => if cmd = "port-dmux" ∧ code = .ok then env.lookup name else none
  | _ => none

namespace Turn

def installs? (x : Turn) : Option TclObject :=
  match x.request with
  | .command env argv => installedBy env argv x.reply.code
  | _ => none

def Loses (x : Turn) : Prop :=
  ∃ env self cmd name, x.request = .command env [self, cmd, name] ∧ env.lookup name = none ∧
    ((cmd = "port-dmux" ∧ x.agent.dmux ≠ none) ∨
      (Simple.IsLogCommand cmd ∧ x.agent.logtarget ≠ none))

/-- An erroneous command that leaves both pointers alone; other turns qualify. -/
def Atomic (x : Turn) : Prop :=
  x.reply.code = .error →
    x.reply.agent.dmux = x.agent.dmux ∧ x.reply.agent.logtarget = x.agent.logtarget

end Turn

/-- The object of the most recent `port-dmux` that returned `TCL_OK`. -/
def installed (es : List Turn) : Option TclObject := (es.filterMap Turn.installs?).getLast?

/-- No error changes a pointer, and what is delivered goes to the object
installed last, which exists. -/
structure Undisturbed (es : List Turn) : Prop where
  atomic : ∀ x ∈ es, x.Atomic
  deliveries : ∀ pre x post, es = pre ++ x :: post → ∀ d q, (d, q) ∈ delivered x.reply.effects →
    d = installed pre ∧ d.isSome

section Turns

variable {x : Turn} {env : TclEnv} {self cmd name : String}

theorem installed_cons (x : Turn) (es : List Turn) :
    installed (x :: es) = (installed es).or x.installs? := by
  unfold installed
  cases h : x.installs? with
  | none => simp [h]
  | some o =>
    rw [List.filterMap_cons_some h, List.getLast?_cons]
    cases (es.filterMap Turn.installs?).getLast? <;> rfl

theorem installed_append (es : List Turn) (x : Turn) :
    installed (es ++ [x]) = x.installs?.or (installed es) := by
  unfold installed
  rw [List.filterMap_append]
  cases h : x.installs? with
  | none => simp [h]
  | some o => simp [h]

theorem loses_command (a : Simple) (env : TclEnv) (argv : List String) :
    (⟨a, .command env argv⟩ : Turn).Loses ↔
      ∃ self cmd name, argv = [self, cmd, name] ∧ env.lookup name = none ∧
        ((cmd = "port-dmux" ∧ a.dmux ≠ none) ∨
          (Simple.IsLogCommand cmd ∧ a.logtarget ≠ none)) := by
  constructor
  · rintro ⟨_, self, cmd, name, hr, h⟩
    cases hr
    exact ⟨self, cmd, name, rfl, h⟩
  · rintro ⟨self, cmd, name, rfl, h⟩
    exact ⟨env, self, cmd, name, rfl, h⟩

theorem not_loses_of_not_setsPointer {a : Simple} {argv : List String}
    (h : ¬ Simple.SetsPointer argv) : ¬ (⟨a, .command env argv⟩ : Turn).Loses := by
  rw [loses_command]
  rintro ⟨self, cmd, name, rfl, -, hc⟩
  apply h
  refine ⟨self, cmd, name, rfl, ?_⟩
  rcases hc with ⟨rfl, -⟩ | ⟨hc, -⟩
  · exact Or.inl rfl
  · exact Or.inr hc

theorem IsLogCommand.ne_portDmux (h : Simple.IsLogCommand cmd) : cmd ≠ "port-dmux" := by
  rintro rfl
  exact Simple.not_isLogCommand_portDmux h

theorem atomic_command (a : Simple) (env : TclEnv) (argv : List String) :
    ((a.command env argv).code = .error → (a.command env argv).agent.dmux = a.dmux ∧
      (a.command env argv).agent.logtarget = a.logtarget) ↔
      ¬ (⟨a, .command env argv⟩ : Turn).Loses := by
  have h := Simple.command_outcome env a argv
  generalize a.command env argv = r at h
  cases h with
  | start => simp [not_loses_of_not_setsPointer, Simple.not_setsPointer_pair]
  | printed => simp [not_loses_of_not_setsPointer, Simple.not_setsPointer_pair]
  | muxSet hl => simp [loses_command, hl]
  | muxLost hl => simp [loses_command, hl, Simple.not_isLogCommand_portDmux, eq_comm]
  | logSet hc hl => simp [loses_command, hl]
  | logLost hc hl => simp [loses_command, hl, hc, IsLogCommand.ne_portDmux hc, eq_comm]
  | base hs => simp [not_loses_of_not_setsPointer hs, Simple.toBase]

theorem atomic_iff_not_loses (x : Turn) : x.Atomic ↔ ¬ x.Loses := by
  obtain ⟨a, r⟩ := x
  cases r with
  | command env argv => exact atomic_command a env argv
  | recv p =>
    refine ⟨?_, fun _ _ => ⟨rfl, rfl⟩⟩
    rintro - ⟨_, _, _, _, hr, _⟩
    cases hr
  | expire p uniform =>
    refine ⟨?_, fun _ _ => ⟨rfl, rfl⟩⟩
    rintro - ⟨_, _, _, _, hr, _⟩
    cases hr

theorem installedBy_eq_none {argv : List String} (h : ¬ Simple.SetsPointer argv)
    (code : TclResult) : installedBy env argv code = none := by
  unfold installedBy
  split
  · rename_i self cmd name
    apply if_neg
    rintro ⟨hm, -⟩
    exact h ⟨self, cmd, name, rfl, Or.inl hm⟩
  · rfl

theorem dmux_command {a : Simple} {argv : List String}
    (h : ¬ (⟨a, .command env argv⟩ : Turn).Loses) (hset : a.dmux ≠ none) :
    (a.command env argv).agent.dmux =
      (installedBy env argv (a.command env argv).code).or a.dmux := by
  have ho := Simple.command_outcome env a argv
  generalize a.command env argv = r at ho
  cases ho with
  | start => rfl
  | printed => rfl
  | muxSet hl => simp [installedBy, hl]
  | muxLost hl =>
    apply absurd _ h
    rw [loses_command]
    exact ⟨_, _, _, rfl, hl, Or.inl ⟨rfl, hset⟩⟩
  | logSet hc hl => simp [installedBy, IsLogCommand.ne_portDmux hc]
  | logLost hc hl => simp [installedBy, IsLogCommand.ne_portDmux hc]
  | base hs =>
    rw [installedBy_eq_none hs]
    rfl

theorem dmux_of_not_loses (h : ¬ x.Loses) (hset : x.agent.dmux ≠ none) :
    x.reply.agent.dmux = x.installs?.or x.agent.dmux := by
  obtain ⟨a, r⟩ := x
  cases r with
  | command env argv => exact dmux_command h hset
  | recv p => rfl
  | expire p uniform => rfl

theorem dmux_of_installs {o : TclObject} (h : x.installs? = some o) :
    x.reply.agent.dmux = some o ∧ ¬ x.Loses ∧ delivered x.reply.effects = [] := by
  obtain ⟨a, r⟩ := x
  cases r with
  | recv p => cases h
  | expire p uniform => cases h
  | command env argv =>
    have hr : installedBy env argv (a.command env argv).code = some o := h
    have ho := Simple.command_outcome env a argv
    have hatomic := atomic_command a env argv
    change (a.command env argv).agent.dmux = some o ∧ _ ∧
      delivered (a.command env argv).effects = []
    rw [← hatomic]
    clear hatomic h
    generalize a.command env argv = r at ho hr
    cases ho with
    | start => cases hr
    | printed => cases hr
    | @muxSet _ _ o' hl =>
      obtain rfl : o' = o := by simpa [installedBy, hl] using hr
      refine ⟨rfl, ?_, rfl⟩
      intro h
      cases h
    | muxLost => simp [installedBy] at hr
    | logSet hc => simp [installedBy, IsLogCommand.ne_portDmux hc] at hr
    | logLost hc => simp [installedBy] at hr
    | base hs => rw [installedBy_eq_none hs] at hr; cases hr

end Turns

section Runs

variable {a b : Simple} {es : List Turn} {first : Turn} {o : TclObject}

theorem run_installed (run : Run TurnStep a es b) (hset : a.dmux = some o)
    (h : ∀ x ∈ es, ¬ x.Loses) : b.dmux = (installed es).or (some o) := by
  apply run.induct (fun pre u => u.dmux = (installed pre).or (some o)) hset
  intro pre u x v hx hu hstep
  obtain ⟨hagent, rfl⟩ := hstep
  have hne : x.agent.dmux ≠ none := by
    rw [hagent, hu]
    cases installed pre <;> simp
  rw [dmux_of_not_loses (h x hx) hne, hagent, hu, installed_append, Option.or_assoc]

theorem deliveries_of_not_loses (run : Run TurnStep a (first :: es) b)
    (hfirst : first.installs? = some o) (h : ∀ x ∈ es, ¬ x.Loses) {pre post : List Turn} {x : Turn}
    (hes : first :: es = pre ++ x :: post) {d : Option TclObject} {q : Packet}
    (hq : (d, q) ∈ delivered x.reply.effects) : d = installed pre ∧ d.isSome := by
  obtain ⟨hset, -, hsilent⟩ := dmux_of_installs hfirst
  cases pre with
  | nil =>
    obtain ⟨rfl, rfl⟩ : first = x ∧ es = post := by simpa using hes
    rw [hsilent] at hq
    cases hq
  | cons y pre =>
    obtain ⟨rfl, rfl⟩ : first = y ∧ es = pre ++ x :: post := by simpa using hes
    obtain ⟨u, ⟨-, rfl⟩, hrest⟩ := run.of_cons
    obtain ⟨v, hpre, hpost⟩ := hrest.split
    obtain ⟨w, ⟨hagent, -⟩, -⟩ := hpost.of_cons
    have hv := run_installed hpre hset fun z hz => h z (List.mem_append_left _ hz)
    have hd := mem_delivered_turn hq
    rw [hagent, hv] at hd
    rw [installed_cons, hfirst]
    refine ⟨hd, ?_⟩
    rw [hd]
    cases installed pre <;> rfl

/-- After a successful `port-dmux`, errors are harmless in exactly those runs in
which no lookup fails for a pointer that is set. -/
theorem undisturbed_iff_no_loss (run : Run TurnStep a (first :: es) b)
    (hfirst : first.installs? = some o) :
    Undisturbed (first :: es) ↔ ∀ x ∈ es, ¬ x.Loses := by
  constructor
  · intro h x hx
    exact (atomic_iff_not_loses x).mp (h.atomic x (List.mem_cons_of_mem first hx))
  · intro h
    refine ⟨?_, fun pre x post hes d q hq => deliveries_of_not_loses run hfirst h hes hq⟩
    intro x hx
    apply (atomic_iff_not_loses x).mpr
    rcases List.mem_cons.mp hx with rfl | hx
    · exact (dmux_of_installs hfirst).2.1
    · exact h x hx

end Runs

def oneName : TclEnv where
  lookup name := if name = "dmux0" then some ⟨1⟩ else none
  agentCommand a _ := (a, .error)

/-- A misspelt second `port-dmux`: it fails, and the packet that follows is
passed to a null pointer. -/
theorem undisturbed_fails_after_unknown_name :
    let a := Simple.wired 1 []
    let good : Turn := ⟨a, .command oneName ["cmd", "port-dmux", "dmux0"]⟩
    let bad : Turn := ⟨a, .command oneName ["cmd", "port-dmux", "dmux1"]⟩
    let lost : Simple := { a with dmux := none }
    let packet : Turn := ⟨lost, .recv (Packet.fresh 2 1 9).lower⟩
    Run TurnStep a [good, bad, packet] lost ∧ good.installs? = some ⟨1⟩ ∧
      bad.reply.code = .error ∧ (delivered packet.reply.effects).map Prod.fst = [none] ∧
      ¬ Undisturbed [good, bad, packet] := by
  intro a good bad lost packet
  have h1 : TurnStep a good a := ⟨rfl, rfl⟩
  have h2 : TurnStep a bad lost := ⟨rfl, rfl⟩
  have h3 : TurnStep lost packet lost := ⟨rfl, rfl⟩
  refine ⟨.cons h1 (.cons h2 (.single h3)), rfl, rfl, by decide, ?_⟩
  intro h
  have hbad := (h.atomic bad (by simp) rfl).1
  cases hbad

/-- A trace file that does not exist, before any has been set: the command fails,
and nothing is lost by it. -/
theorem undisturbed_iff_no_loss_failed :
    let a := Simple.wired 1 []
    let good : Turn := ⟨a, .command oneName ["cmd", "port-dmux", "dmux0"]⟩
    let failed : Turn := ⟨a, .command oneName ["cmd", "log-target", "trace0"]⟩
    let packet : Turn := ⟨a, .recv (Packet.fresh 2 1 9).lower⟩
    failed.reply.code = .error ∧ (delivered packet.reply.effects).map Prod.fst = [some ⟨1⟩] ∧
      Undisturbed [good, failed, packet] := by
  intro a good failed packet
  have h1 : TurnStep a good a := ⟨rfl, rfl⟩
  have h2 : TurnStep a failed a := ⟨rfl, rfl⟩
  have h3 : TurnStep a packet a := ⟨rfl, rfl⟩
  have hfailed : ¬ failed.Loses := by
    rw [loses_command]
    rintro ⟨_, _, _, hargv, -, ⟨hmux, -⟩ | ⟨-, hlog⟩⟩
    · rw [hmux] at hargv
      simp at hargv
    · exact hlog rfl
  have hpacket : ¬ packet.Loses := by
    rintro ⟨_, _, _, _, hr, -⟩
    cases hr
  refine ⟨rfl, by decide, (undisturbed_iff_no_loss (.cons h1 (.cons h2 (.single h3)))
    (o := ⟨1⟩) rfl).mpr ?_⟩
  simp [hfailed, hpacket]

end LearnNs2

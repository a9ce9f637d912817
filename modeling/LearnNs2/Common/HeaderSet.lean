import Mathlib.Data.Finset.Basic

/-!
# Which packet headers a simulation has

The procedures of `ns-packet.tcl` that scripts call before they create the
simulator. `tab_` is an array of `PacketHeaderManager`; only its indices matter.
A script stops at the first command that fails.
-/

namespace LearnNs2.HeaderSet

set_option autoImplicit false

/-- The indices of `tab_`. -/
abbrev Tab := Finset String

def indexOf (cl : String) : String := "PacketHeader/" ++ cl

/-- A procedure writes warnings, and fails when it unsets what is not there. -/
structure Done where
  tab : Tab
  warnings : List String := []
  failed : Option String := none
  deriving DecidableEq

def addPacketHeader (tab : Tab) (args : List String) : Tab :=
  args.foldl (fun tab cl => insert (indexOf cl) tab) tab

def addAllPacketHeaders (subclasses : List String) (tab : Tab) : Tab :=
  subclasses.foldl (fun tab cl => if cl ∈ tab then insert cl tab else tab) tab

def removePacketHeader (tab : Tab) : List String → Done
  | [] => { tab }
  | cl :: args =>
    if cl = "Common" then
      let done := removePacketHeader tab args
      { done with warnings := "Cannot exclude common packet header." :: done.warnings }
    else if indexOf cl ∈ tab then removePacketHeader (tab.erase (indexOf cl)) args
    else { tab, failed := some (indexOf cl) }

def removeAllPacketHeaders (subclasses : List String) (tab : Tab) : Tab :=
  subclasses.foldl (fun tab cl =>
    if cl ≠ "PacketHeader/Common" then if cl ∈ tab then tab.erase cl else tab else tab) tab

/-- The commands of a script. What `PacketHeader info subclass` answers is given
with the commands that ask, since loading a library can add classes. -/
inductive Command where
  | add (args : List String)
  | addAll (subclasses : List String)
  | remove (args : List String)
  | removeAll (subclasses : List String)
  deriving Repr, DecidableEq

def Command.eval (tab : Tab) : Command → Done
  | add args => { tab := addPacketHeader tab args }
  | addAll subclasses => { tab := addAllPacketHeaders subclasses tab }
  | remove args => removePacketHeader tab args
  | removeAll subclasses => { tab := removeAllPacketHeaders subclasses tab }

/-- The table at the end of a script, and whether the script got there. -/
def source (tab : Tab) : List Command → Done
  | [] => { tab }
  | c :: script =>
    let done := c.eval tab
    if done.failed.isNone then
      let rest := source done.tab script
      { rest with warnings := done.warnings ++ rest.warnings }
    else done

theorem indexOf_inj {cl cl' : String} : indexOf cl = indexOf cl' ↔ cl = cl' := by
  constructor
  · intro h
    have hlist := congrArg String.toList h
    simp only [indexOf, String.toList_append] at hlist
    exact String.toList_injective (List.append_cancel_left hlist)
  · exact congrArg indexOf

section Procedures

variable {tab : Tab} {args subclasses : List String} {cl x : String}

theorem mem_addPacketHeader :
    indexOf cl ∈ addPacketHeader tab args ↔ cl ∈ args ∨ indexOf cl ∈ tab := by
  induction args generalizing tab with
  | nil => simp [addPacketHeader]
  | cons a args ih =>
    rw [addPacketHeader, List.foldl_cons, ← addPacketHeader, ih, Finset.mem_insert, indexOf_inj,
      List.mem_cons]
    tauto

/-- It sets again what is set, and activates nothing. -/
theorem addAllPacketHeaders_eq : addAllPacketHeaders subclasses tab = tab := by
  induction subclasses with
  | nil => rfl
  | cons cl subclasses ih =>
    rw [addAllPacketHeaders, List.foldl_cons]
    split_ifs with h
    · rw [Finset.insert_eq_of_mem h]
      exact ih
    · exact ih

theorem mem_removeAllPacketHeaders :
    x ∈ removeAllPacketHeaders subclasses tab ↔
      x ∈ tab ∧ (x ∈ subclasses → x = "PacketHeader/Common") := by
  induction subclasses generalizing tab with
  | nil => simp [removeAllPacketHeaders]
  | cons cl subclasses ih =>
    rw [removeAllPacketHeaders, List.foldl_cons, ← removeAllPacketHeaders, ih, List.mem_cons]
    by_cases hcommon : cl = "PacketHeader/Common"
    · simp only [hcommon, ne_eq, not_true_eq_false, if_false]
      tauto
    · rw [if_pos hcommon]
      by_cases hmem : cl ∈ tab
      · rw [if_pos hmem, Finset.mem_erase]
        by_cases hx : x = cl
        · simp [hx, hcommon]
        · simp [hx]
      · rw [if_neg hmem]
        by_cases hx : x = cl
        · simp [hx, hmem]
        · simp [hx]

theorem mem_removePacketHeader (hdone : (removePacketHeader tab args).failed = none) :
    indexOf cl ∈ (removePacketHeader tab args).tab ↔
      indexOf cl ∈ tab ∧ (cl ∈ args → cl = "Common") := by
  induction args generalizing tab with
  | nil => simp [removePacketHeader]
  | cons a args ih =>
    unfold removePacketHeader at hdone ⊢
    split_ifs at hdone ⊢ with hcommon hmem
    · rw [ih hdone, List.mem_cons]
      refine and_congr_right fun _ => ⟨fun h hcl => ?_, fun h hcl => h (.inr hcl)⟩
      rcases hcl with rfl | hcl
      · exact hcommon
      · exact h hcl
    · rw [ih hdone, Finset.mem_erase, Ne, indexOf_inj, List.mem_cons]
      by_cases hcl : cl = a
      · simp [hcl, hcommon]
      · simp [hcl]

/-- The common header is not removed, not even by a command that fails. -/
theorem common_mem_removePacketHeader (h : indexOf "Common" ∈ tab) :
    indexOf "Common" ∈ (removePacketHeader tab args).tab := by
  induction args generalizing tab with
  | nil => exact h
  | cons a args ih =>
    unfold removePacketHeader
    split_ifs with hcommon hmem
    · exact ih h
    · refine ih (Finset.mem_erase.mpr ⟨fun heq => hcommon (indexOf_inj.mp heq).symm, h⟩)
    · exact h

/-- The arguments that can be removed: `Common` is passed over, and any other
header must be there, once for each time it is named. -/
def Removable (has : String → Prop) (args : List String) : Prop :=
  (args.filter (· ≠ "Common")).Nodup ∧ ∀ cl ∈ args, cl ≠ "Common" → has cl

theorem removePacketHeader_done_iff :
    (removePacketHeader tab args).failed = none ↔ Removable (fun cl => indexOf cl ∈ tab) args := by
  induction args generalizing tab with
  | nil => simp [removePacketHeader, Removable]
  | cons a args ih =>
    unfold removePacketHeader
    split_ifs with hcommon hmem
    · rw [ih, Removable, Removable, List.filter_cons_of_neg (by simpa using hcommon)]
      simp [hcommon]
    · rw [ih, Removable, Removable, List.filter_cons_of_pos (by simpa using hcommon),
        List.nodup_cons]
      simp only [Finset.mem_erase, Ne, indexOf_inj, List.mem_cons, List.mem_filter,
        forall_eq_or_imp, decide_eq_true_eq]
      constructor
      · rintro ⟨hnodup, hall⟩
        refine ⟨⟨fun h => (hall a h.1 h.2).1 rfl, hnodup⟩, fun _ => hmem, fun cl hcl hne => ?_⟩
        exact (hall cl hcl hne).2
      · rintro ⟨⟨hout, hnodup⟩, -, hall⟩
        refine ⟨hnodup, fun cl hcl hne => ⟨?_, hall cl hcl hne⟩⟩
        rintro rfl
        exact hout ⟨hcl, hne⟩
    · simp [Removable, hcommon, hmem]

end Procedures

/-- What a command does to a header, if it has a say in it. -/
def Command.decides (cl : String) : Command → Option Bool
  | add args => if cl ∈ args then some true else none
  | addAll _ => none
  | remove args => if cl ∈ args ∧ cl ≠ "Common" then some false else none
  | removeAll subclasses =>
    if indexOf cl ∈ subclasses ∧ cl ≠ "Common" then some false else none

/-- Whether a header is there after a script: the last command with a say in it
decides. -/
def active (tab : Tab) (script : List Command) (cl : String) : Bool :=
  (script.reverse.findSome? (Command.decides cl)).getD (indexOf cl ∈ tab)

section Scripts

variable {tab : Tab} {c : Command} {script : List Command} {cl : String}

theorem mem_eval (hdone : (c.eval tab).failed = none) :
    indexOf cl ∈ (c.eval tab).tab ↔ (c.decides cl).getD (indexOf cl ∈ tab) = true := by
  cases c with
  | add args =>
    rw [Command.eval, mem_addPacketHeader, Command.decides]
    split_ifs with h <;> simp [h]
  | addAll subclasses => simp [Command.eval, addAllPacketHeaders_eq, Command.decides]
  | remove args =>
    rw [Command.eval, mem_removePacketHeader hdone, Command.decides]
    split_ifs with h
    · simp [h]
    · simp only [Option.getD_none, decide_eq_true_eq]
      tauto
  | removeAll subclasses =>
    have hcommon : indexOf cl = "PacketHeader/Common" ↔ cl = "Common" :=
      (show "PacketHeader/Common" = indexOf "Common" by decide) ▸ indexOf_inj
    rw [Command.eval, mem_removeAllPacketHeaders, hcommon, Command.decides]
    split_ifs with h
    · simp [h]
    · simp only [Option.getD_none, decide_eq_true_eq]
      tauto

theorem active_cons (hdone : (c.eval tab).failed = none) :
    active tab (c :: script) cl = active (c.eval tab).tab script cl := by
  have hmem : decide (indexOf cl ∈ (c.eval tab).tab) =
      (c.decides cl).getD (indexOf cl ∈ tab) := by
    rw [Bool.eq_iff_iff, decide_eq_true_eq]
    exact mem_eval hdone
  rw [active, active, List.reverse_cons, List.findSome?_append, hmem, Option.getD_or]
  simp

theorem failed_source_cons : (source tab (c :: script)).failed = none ↔
    (c.eval tab).failed = none ∧ (source (c.eval tab).tab script).failed = none := by
  rw [source]
  cases hfailed : (c.eval tab).failed with
  | none => simp
  | some x => simp [hfailed]

theorem tab_source_cons (hdone : (c.eval tab).failed = none) :
    (source tab (c :: script)).tab = (source (c.eval tab).tab script).tab := by
  rw [source, hdone]
  rfl

/-- After a script that runs to its end, a header is there exactly if the last
command with a say in it added it. -/
theorem last_command_decides (tab : Tab) (script : List Command) (cl : String)
    (hdone : (source tab script).failed = none) :
    indexOf cl ∈ (source tab script).tab ↔ active tab script cl = true := by
  induction script generalizing tab with
  | nil => simp [source, active]
  | cons c script ih =>
    obtain ⟨hc, hrest⟩ := failed_source_cons.mp hdone
    rw [tab_source_cons hc, ih _ hrest, active_cons hc]

/-- Two header classes besides the common one. -/
def threeHeaders : List String :=
  ["PacketHeader/Common", "PacketHeader/AODV", "PacketHeader/ARP"]

/-- To include only AODV, as the usage guide has it. -/
def onlyAodv : List Command := [.removeAll threeHeaders, .add ["AODV"]]

theorem last_command_decides_onlyAodv :
    indexOf "ARP" ∈ (source threeHeaders.toFinset onlyAodv).tab ↔
      active threeHeaders.toFinset onlyAodv "ARP" = true :=
  last_command_decides threeHeaders.toFinset onlyAodv "ARP" (by decide)

/-- The common header is there after any script, also after one that fails. -/
theorem common_mem_source (h : indexOf "Common" ∈ tab) :
    indexOf "Common" ∈ (source tab script).tab := by
  induction script generalizing tab with
  | nil => exact h
  | cons c script ih =>
    have hc : indexOf "Common" ∈ (c.eval tab).tab := by
      cases c with
      | add args => exact mem_addPacketHeader.mpr (.inr h)
      | addAll subclasses => rwa [Command.eval, addAllPacketHeaders_eq]
      | remove args => exact common_mem_removePacketHeader h
      | removeAll subclasses => exact mem_removeAllPacketHeaders.mpr ⟨h, fun _ => by decide⟩
    rw [source]
    split_ifs
    · exact ih hc
    · exact hc

/-- A script runs to its end exactly if each `remove-packet-header` in it names
headers that the commands before it have left there, each once. -/
theorem script_completes_iff (tab : Tab) (script : List Command) :
    (source tab script).failed = none ↔ ∀ pre args post, script = pre ++ .remove args :: post →
      Removable (fun cl => active tab pre cl = true) args := by
  induction script generalizing tab with
  | nil => simp [source]
  | cons c script ih =>
    rw [failed_source_cons, ih]
    constructor
    · rintro ⟨hc, hrest⟩ pre args post heq
      cases pre with
      | nil =>
        obtain ⟨rfl, -⟩ := List.cons.inj heq
        simpa [active] using removePacketHeader_done_iff.mp hc
      | cons c' pre =>
        obtain ⟨rfl, rfl⟩ := List.cons.inj heq
        simpa only [active_cons hc] using hrest pre args post rfl
    · intro h
      have hc : (c.eval tab).failed = none := by
        cases c with
        | remove args =>
          refine removePacketHeader_done_iff.mpr ?_
          simpa [active] using h [] args script rfl
        | add | addAll | removeAll => rfl
      refine ⟨hc, fun pre args post heq => ?_⟩
      simpa only [active_cons hc] using h (c :: pre) args post (by rw [heq]; rfl)

end Scripts

end LearnNs2.HeaderSet

import LearnNs2.Cmu.NamTrace

/-!
# Energy levels and what a call writes of them

The levels follow the energy of a node, and a call of a trace object writes a
colour exactly if the level is not the one it remembers.
-/

namespace LearnNs2.Nam

open Binary64

set_option autoImplicit false

section Levels

variable {em : EnergyModel} {e : ℚ}

/-- A node as it is set up: its energy within the initial one, and the two levels
of `energy-color-change` in their order. -/
structure EnergyModel.WellSet (em : EnergyModel) : Prop where
  pos : 0 < em.initialenergy
  le : em.energy ≤ em.initialenergy
  levels : em.level2 ≤ em.level1

/-- The level that packets of the node are traced with, and zero if none are. -/
def EnergyModel.level (em : EnergyModel) : ℕ := if 0 < em.energy then em.energyLevel else 0

theorem EnergyModel.energyLeft_of_pos (hset : em.WellSet) (he : 0 < em.energy) :
    em.energyLeft = some (nearest (em.energy / em.initialenergy)) := by
  have hq := div_pos he hset.pos
  rw [energyLeft, if_neg hset.pos.ne', if_neg hq.not_gt]

theorem EnergyModel.levelAt_le (l1 l2 x : ℚ) : levelAt l1 l2 x ≤ 3 := by
  unfold levelAt
  dsimp only
  split_ifs <;> omega

theorem EnergyModel.level_le (em : EnergyModel) : em.level ≤ 3 := by
  unfold level energyLevel
  split_ifs
  · cases em.energyLeft with
    | none => exact Nat.zero_le 3
    | some x => exact levelAt_le _ _ x
  · exact Nat.zero_le 3

/-- With the levels in their order the three tests exclude each other. -/
theorem EnergyModel.levelAt_eq {l1 l2 x : ℚ} (hl : l2 ≤ l1) (hx : x ≤ 1) :
    levelAt l1 l2 x = if l1 ≤ x then 3 else if l2 ≤ x then 2 else if 0 < x then 1 else 0 := by
  unfold levelAt
  dsimp only
  by_cases h1 : l1 ≤ x
  · have h2 : ¬ (l2 ≤ x ∧ x < l1) := fun h => h.2.not_ge h1
    have h3 : ¬ (0 < x ∧ x < l2) := fun h => h.2.not_ge (hl.trans h1)
    rw [if_neg h3, if_neg h2, if_pos ⟨hx, h1⟩, if_pos h1]
  · rw [if_neg h1, if_neg (fun h => h1 h.2 : ¬ (x ≤ 1 ∧ l1 ≤ x))]
    by_cases h2 : l2 ≤ x
    · have h3 : ¬ (0 < x ∧ x < l2) := fun h => h.2.not_ge h2
      rw [if_neg h3, if_pos ⟨h2, not_le.mp h1⟩, if_pos h2]
    · rw [if_neg (fun h => h2 h.1 : ¬ (l2 ≤ x ∧ x < l1)), if_neg h2]
      simp [not_le.mp h2]

theorem EnergyModel.levelAt_mono {l1 l2 x y : ℚ} (hl : l2 ≤ l1) (hxy : x ≤ y) (hy : y ≤ 1) :
    levelAt l1 l2 x ≤ levelAt l1 l2 y := by
  rw [levelAt_eq hl (hxy.trans hy), levelAt_eq hl hy]
  split_ifs with hx1 hy1 hy2 hy3
  all_goals first | omega | (exfalso; linarith)

theorem nearest_le_one {q : ℚ} (hq : 0 < q) (h : q ≤ 1) : nearest q ≤ 1 := by
  have hone := nearest_natCast (k := 1) (by norm_num)
  rw [Nat.cast_one] at hone
  rw [← hone]
  exact nearest_mono hq h

/-- The quotient stays within one if it is rounded. -/
theorem EnergyModel.energyLeft_le (hset : em.WellSet) (he : 0 < em.energy) :
    nearest (em.energy / em.initialenergy) ≤ 1 :=
  nearest_le_one (div_pos he hset.pos) ((div_le_one hset.pos).mpr hset.le)

theorem EnergyModel.WellSet.fall (hset : em.WellSet) (hle : e ≤ em.energy) :
    EnergyModel.WellSet { em with energy := e } :=
  ⟨hset.pos, hle.trans hset.le, hset.levels⟩

theorem EnergyModel.level_mono (hset : em.WellSet) (hle : e ≤ em.energy) :
    EnergyModel.level { em with energy := e } ≤ em.level := by
  by_cases he : 0 < e
  · have hnew := energyLeft_of_pos (hset.fall hle) he
    have hold := energyLeft_of_pos hset (he.trans_le hle)
    have hmono := nearest_mono (div_pos he hset.pos)
      (div_le_div_of_nonneg_right hle hset.pos.le)
    unfold level
    rw [if_pos he, if_pos (he.trans_le hle), energyLevel, energyLevel, hnew, hold]
    exact levelAt_mono hset.levels hmono (energyLeft_le hset (he.trans_le hle))
  · have hzero : EnergyModel.level { em with energy := e } = 0 := if_neg he
    rw [hzero]
    exact Nat.zero_le _

/-- A packet is never traced at level zero, the one of a depleted node, unless the
quotient is too small for a normal double. -/
theorem EnergyModel.energyLevel_pos (hset : em.WellSet) (he : 0 < em.energy)
    (hnormal : 2 ^ (-1022 : ℤ) ≤ em.energy / em.initialenergy) : 0 < em.energyLevel := by
  have hpos := nearest_pos hnormal
  rw [energyLevel, energyLeft_of_pos hset he]
  dsimp only
  rw [levelAt_eq hset.levels (energyLeft_le hset he)]
  split_ifs <;> omega

end Levels

section Calls

variable {tables : Tables} {t t' : CmuTrace} {clock : ℚ} {p : Packet} {node : Option EnergyModel}
  {lines : List Line}

def Line.colorOf (n : ℕ) : Line → Option String
  | .color _ m c => if m = n then some c else none
  | .event .. => none

/-- The colours that lines give a node. -/
def colorLines (n : ℕ) (lines : List Line) : List String := lines.filterMap (Line.colorOf n)

theorem colorLines_append (n : ℕ) (pre post : List Line) :
    colorLines n (pre ++ post) = colorLines n pre ++ colorLines n post :=
  List.filterMap_append

theorem colorLines_event (n : ℕ) (ops : List Char) :
    colorLines n (ops.map (t.eventLine tables clock p)) = [] := by
  induction ops with
  | nil => rfl
  | cons op ops ih => exact ih

/-- A call that gets as far as the test of the colour. -/
structure CmuTrace.Checks (tables : Tables) (t : CmuTrace) (p : Packet)
    (node : Option EnergyModel) (em : EnergyModel) : Prop where
  node : node = some em
  energy : 0 < em.energy
  channel : t.namchannel = true
  late : ¬ t.returnsEarly tables p

def CmuTrace.recolored (t : CmuTrace) (level : ℕ) : CmuTrace :=
  { t with nodeColor := Function.update t.nodeColor t.src level }

theorem CmuTrace.recolored_of_eq {level : ℕ} (h : t.nodeColor t.src = level) :
    t.recolored level = t := by
  rw [recolored, ← h, Function.update_eq_self]

/-- What a call does to the colours. -/
structure Effect (tables : Tables) (t : CmuTrace) (p : Packet) (node : Option EnergyModel)
    (lines : List Line) (t' : CmuTrace) : Prop where
  checked : ∀ em, t.Checks tables p node em → t' = t.recolored em.energyLevel ∧
    ∀ n, colorLines n lines =
      if t.src = n ∧ t.nodeColor n ≠ em.energyLevel then [colors em.energyLevel] else []
  unchecked : (∀ em, ¬ t.Checks tables p node em) → t' = t ∧ ∀ n, colorLines n lines = []

/-- The lines of a send before the one that every event has. -/
def CmuTrace.hopOps (t : CmuTrace) : List Char := if t.namOp = 'h' then ['+', '-'] else []

theorem CmuTrace.namFormat_eq (h : t.type ≠ .eot) : t.namFormat tables clock p node =
    if t.returnsEarly tables p then (t.hopOps.map (t.eventLine tables clock p), some t)
    else
      match node.filter (fun em => em.energy ≠ -1) with
      | none => ((t.hopOps ++ [t.namOp]).map (t.eventLine tables clock p), some t)
      | some em =>
        if maxNode ≤ t.src then (t.hopOps.map (t.eventLine tables clock p), none)
        else if t.nodeColor t.src ≠ em.energyLevel then
          (t.hopOps.map (t.eventLine tables clock p) ++
            .color clock t.src (colors em.energyLevel) ::
              [t.namOp].map (t.eventLine tables clock p),
            some (t.recolored em.energyLevel))
        else ((t.hopOps ++ [t.namOp]).map (t.eventLine tables clock p), some t) := by
  have hhop : (if t.namOp = 'h' then
      [t.eventLine tables clock p '+', t.eventLine tables clock p '-'] else []) =
        t.hopOps.map (t.eventLine tables clock p) := by
    unfold hopOps
    split_ifs <;> rfl
  unfold namFormat
  rw [if_neg h, hhop]
  simp only [List.map_append, List.map_cons, List.map_nil]
  rfl

/-- A call that leaves the object as it was and writes events only. -/
theorem Effect.silent (clock : ℚ) (ops : List Char) (h : ∀ em, t.Checks tables p node em →
    t.nodeColor t.src = em.energyLevel) :
    Effect tables t p node (ops.map (t.eventLine tables clock p)) t := by
  refine ⟨?_, fun _ => ⟨rfl, fun n => colorLines_event n ops⟩⟩
  intro em hc
  refine ⟨(CmuTrace.recolored_of_eq (h em hc)).symm, fun n => ?_⟩
  rw [if_neg, colorLines_event]
  rintro ⟨rfl, hne⟩
  exact hne (h em hc)

theorem CmuTrace.namFormat_effect (hpos : nodeEnergy node = true) (hchannel : t.namchannel = true)
    (h : t.namFormat tables clock p node = (lines, some t')) :
    Effect tables t p node lines t' := by
  have htype : t.type ≠ .eot := by
    intro he
    rw [namFormat, if_pos he] at h
    cases h
  rw [namFormat_eq htype] at h
  by_cases hearly : t.returnsEarly tables p
  · rw [if_pos hearly] at h
    cases h
    exact Effect.silent clock _ fun em hc => absurd hearly hc.late
  rw [if_neg hearly] at h
  cases node with
  | none =>
    cases h
    exact Effect.silent clock _ fun em hc => by cases hc.node
  | some em =>
    have hem : 0 < em.energy := by simpa [nodeEnergy] using hpos
    have hne : em.energy ≠ -1 := by
      intro heq
      rw [heq] at hem
      norm_num at hem
    rw [Option.filter_some, if_pos (decide_eq_true hne)] at h
    dsimp only at h
    split_ifs at h with hmax hcolor
    · cases h
    · cases h
      refine ⟨?_, fun hno => absurd ⟨rfl, hem, hchannel, hearly⟩ (hno em)⟩
      intro em' hc
      obtain rfl : em = em' := Option.some.inj hc.node
      refine ⟨rfl, fun n => ?_⟩
      rw [colorLines_append, colorLines_event, List.nil_append]
      by_cases hn : t.src = n
      · subst hn
        rw [if_pos ⟨rfl, hcolor⟩]
        simp [colorLines, Line.colorOf, eventLine]
      · rw [if_neg fun hand => hn hand.1]
        simp [colorLines, Line.colorOf, eventLine, hn]
    · cases h
      refine Effect.silent clock _ fun em' hc => ?_
      obtain rfl : em = em' := Option.some.inj hc.node
      exact not_not.mp hcolor

theorem CmuTrace.traced_effect (hpos : nodeEnergy node = true)
    (h : t.traced tables clock p node = (lines, some t')) : Effect tables t p node lines t' := by
  unfold traced at h
  split_ifs at h with hchannel
  · exact namFormat_effect hpos hchannel h
  · cases h
    exact Effect.silent 0 [] fun em hc => absurd hc.channel hchannel

theorem Effect.freed (h : CmuTrace.nodeEnergy node = false) : Effect tables t p node [] t := by
  refine Effect.silent 0 [] fun em hc => ?_
  rw [hc.node] at h
  exact absurd hc.energy (by simpa [CmuTrace.nodeEnergy] using h)

theorem CmuTrace.recv_effect (h : (t.recv tables clock p node).trace = some t') :
    Effect tables t p node (t.recv tables clock p node).lines t' := by
  unfold recv at h ⊢
  split_ifs at h ⊢ with hpos hinit
  · obtain rfl := Option.some.inj h
    exact Effect.freed (by simpa using hpos)
  · exact traced_effect (by simpa using hpos) (Prod.ext rfl h)

theorem CmuTrace.recvWhy_effect (h : (t.recvWhy tables clock p node).trace = some t') :
    Effect tables t p node (t.recvWhy tables clock p node).lines t' := by
  unfold recvWhy at h ⊢
  split_ifs at h ⊢ with hinit hpos
  · obtain rfl := Option.some.inj h
    exact Effect.freed (by simpa using hpos)
  · exact traced_effect (by simpa using hpos) (Prod.ext rfl h)

/-- What a call needs in order to return. -/
structure CmuTrace.Ready (t : CmuTrace) : Prop where
  initialized : t.initialized = true
  type : t.type ≠ .eot
  src : t.src < maxNode

theorem CmuTrace.Ready.exists_trace (h : t.Ready) (tables : Tables) (clock : ℚ) (p : Packet)
    (node : Option EnergyModel) : ∃ o, (t.recv tables clock p node).trace = some o := by
  have hformat : ∃ o, (t.namFormat tables clock p node).2 = some o := by
    rw [namFormat_eq h.type]
    by_cases hearly : t.returnsEarly tables p
    · rw [if_pos hearly]
      exact ⟨t, rfl⟩
    rw [if_neg hearly]
    cases node.filter (fun em => em.energy ≠ -1) with
    | none => exact ⟨t, rfl⟩
    | some em =>
      dsimp only
      rw [if_neg h.src.not_ge]
      split_ifs
      · exact ⟨_, rfl⟩
      · exact ⟨t, rfl⟩
  have htraced : ∃ o, (t.traced tables clock p node).2 = some o := by
    unfold traced
    split_ifs
    · exact hformat
    · exact ⟨t, rfl⟩
  unfold recv
  rw [h.initialized, Bool.not_true, if_neg Bool.false_ne_true]
  split_ifs
  · exact ⟨t, rfl⟩
  · exact htraced

end Calls

end LearnNs2.Nam

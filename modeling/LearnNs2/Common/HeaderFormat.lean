import Mathlib.Data.Int.Bitwise
import Mathlib.Data.Nat.Bitwise
import Mathlib.Data.List.Induction
import Mathlib.Data.List.Pairwise
import Mathlib.Algebra.BigOperators.Ring.List
import Mathlib.Logic.Function.Basic
import LearnNs2.Common.HeaderSet
import LearnNs2.Lib.Regions

/-!
# The packet format

`create_packetformat` lays the active headers out in the bytes of a packet, and
`Packet::access` gives a pointer to one of them. A model of packets as records
of headers stands for such bytes: no header reaches into another.
-/

namespace LearnNs2.HeaderFormat

set_option autoImplicit false

open HeaderSet Regions

/-- A class `PacketHeader/cl`, with the size of its structure. -/
structure HeaderClass where
  cl : String
  hdrlen : Nat
  deriving Repr, DecidableEq

def HeaderClass.name (c : HeaderClass) : String := indexOf c.cl

/-- The total length, and the offset that each class is told. -/
structure Format where
  hdrlen : Int
  offset : String → Int

/-- `PacketHeaderManager allochdr`: the base of the header, and the new length. -/
def allochdr (hdrlen size : Int) : Int × Int :=
  let nsAlign := 8
  let incr := Int.land (size + (nsAlign - 1)) (~~~(nsAlign - 1))
  (hdrlen, hdrlen + incr)

def Format.add (tab : Tab) (fm : Format) (cl : HeaderClass) : Format :=
  if cl.name ∈ tab then
    let (off, hdrlen) := allochdr fm.hdrlen cl.hdrlen
    ⟨hdrlen, Function.update fm.offset cl.name off⟩
  else fm

/-- `create_packetformat`: a new manager starts at length 0, the classes have
the offsets of their initialization. -/
def createPacketformat (tab : Tab) (offset : String → Int) (subclasses : List HeaderClass) :
    Format :=
  subclasses.foldl (Format.add tab) ⟨0, offset⟩

/-- `Packet::access`: a negative offset aborts. -/
def access (fm : Format) (cl : HeaderClass) : Option Nat :=
  if fm.offset cl.name < 0 then none else some (fm.offset cl.name).toNat

/-- A write to a field, some bytes after the start of the structure. -/
structure Write where
  cl : HeaderClass
  field : Nat
  bytes : List UInt8
  deriving DecidableEq

/-- Bytes that are not part of the packet are not written. -/
def write (fm : Format) (bits : List UInt8) (w : Write) : Option (List UInt8) :=
  (access fm w.cl).bind fun off =>
    if off + w.field + w.bytes.length ≤ bits.length then
      some (store bits (off + w.field) w.bytes)
    else none

def read (fm : Format) (bits : List UInt8) (cl : HeaderClass) : Option (List UInt8) :=
  (access fm cl).bind fun off =>
    if off + cl.hdrlen ≤ bits.length then some (load bits off cl.hdrlen) else none

def activeClasses (tab : Tab) (subclasses : List HeaderClass) : List HeaderClass :=
  subclasses.filter (·.name ∈ tab)

/-- What `allochdr` rounds a size up to. -/
def rounded (size : Nat) : Nat := (size + 7) / 8 * 8

theorem ldiff_seven (m : Nat) : Nat.ldiff m 7 = m / 8 * 8 := by
  apply Nat.eq_of_testBit_eq
  intro i
  have h7 : 7 = 2 ^ 3 - 1 := rfl
  have h8 : m / 8 * 8 = 2 ^ 3 * (m / 2 ^ 3) := Nat.mul_comm _ _
  rw [Nat.testBit_ldiff, h8, h7, Nat.testBit_two_pow_sub_one, Nat.testBit_two_pow_mul,
    Nat.testBit_div_two_pow]
  by_cases hi : i < 3
  · simp [hi]
  · simp [hi, Nat.not_lt.mp hi]

theorem allochdr_eq (hdrlen : Int) (size : Nat) :
    allochdr hdrlen size = (hdrlen, hdrlen + rounded size) := by
  rw [rounded, ← ldiff_seven]
  rfl

/-- Where the headers are: inside the packet, aligned, in the order of the
classes without overlap, and with no more room than the alignment takes. -/
structure Layout (fm : Format) (active : List HeaderClass) : Prop where
  inside : ∀ a ∈ active, 0 ≤ fm.offset a.name ∧ fm.offset a.name + a.hdrlen ≤ fm.hdrlen
  aligned : ∀ a ∈ active, 8 ∣ fm.offset a.name
  apart : active.Pairwise fun a b => fm.offset a.name + a.hdrlen ≤ fm.offset b.name
  total : fm.hdrlen = (active.map fun a => rounded a.hdrlen).sum

theorem activeClasses_append_singleton (tab : Tab) (pre : List HeaderClass) (cl : HeaderClass) :
    activeClasses tab (pre ++ [cl]) =
      activeClasses tab pre ++ if cl.name ∈ tab then [cl] else [] := by
  rw [activeClasses, List.filter_append, ← activeClasses]
  split_ifs with h <;> simp [h]

theorem createPacketformat_append_singleton (tab : Tab) (offset : String → Int)
    (pre : List HeaderClass) (cl : HeaderClass) :
    createPacketformat tab offset (pre ++ [cl]) =
      (createPacketformat tab offset pre).add tab cl := by
  rw [createPacketformat, List.foldl_append]
  rfl

theorem le_rounded (size : Nat) : size ≤ rounded size := by
  unfold rounded
  omega

theorem Layout.dvd_hdrlen {fm : Format} {active : List HeaderClass} (hl : Layout fm active) :
    8 ∣ fm.hdrlen := by
  have hsum : 8 ∣ (active.map fun a => rounded a.hdrlen).sum := by
    refine List.dvd_sum fun x hx => ?_
    obtain ⟨a, -, rfl⟩ := List.mem_map.mp hx
    exact Nat.dvd_mul_left 8 _
  rw [hl.total]
  exact Int.natCast_dvd_natCast.mpr hsum

theorem Layout.snoc {fm : Format} {active : List HeaderClass} (hl : Layout fm active)
    (cl : HeaderClass) (hfresh : ∀ a ∈ active, a.name ≠ cl.name) :
    Layout ⟨fm.hdrlen + rounded cl.hdrlen, Function.update fm.offset cl.name fm.hdrlen⟩
      (active ++ [cl]) := by
  have hold : ∀ a ∈ active, Function.update fm.offset cl.name fm.hdrlen a.name =
      fm.offset a.name := fun a ha => Function.update_of_ne (hfresh a ha) _ _
  have hnew : Function.update fm.offset cl.name fm.hdrlen cl.name = fm.hdrlen :=
    Function.update_self _ _ _
  have hround := le_rounded cl.hdrlen
  have hpos : 0 ≤ fm.hdrlen := by
    rw [hl.total]
    exact Int.natCast_nonneg _
  refine ⟨fun a ha => ?_, fun a ha => ?_, ?_, ?_⟩
  · rcases List.mem_append.mp ha with ha | ha
    · obtain ⟨hbase, hend⟩ := hl.inside a ha
      dsimp only
      rw [hold a ha]
      omega
    · obtain rfl := List.mem_singleton.mp ha
      dsimp only
      rw [hnew]
      omega
  · rcases List.mem_append.mp ha with ha | ha
    · dsimp only
      rw [hold a ha]
      exact hl.aligned a ha
    · obtain rfl := List.mem_singleton.mp ha
      dsimp only
      rw [hnew]
      exact hl.dvd_hdrlen
  · rw [List.pairwise_append]
    refine ⟨hl.apart.imp_of_mem fun ha hb hab => ?_, List.pairwise_singleton _ _, ?_⟩
    · dsimp only
      rwa [hold _ ha, hold _ hb]
    · intro a ha b hb
      obtain rfl := List.mem_singleton.mp hb
      dsimp only
      rw [hold a ha, hnew]
      exact (hl.inside a ha).2
  · rw [List.map_append, List.sum_append, Nat.cast_add, ← hl.total]
    simp

/-- Each active header has its own part of the packet. -/
theorem packet_layout (tab : Tab) (offset : String → Int) (subclasses : List HeaderClass)
    (hnodup : (subclasses.map HeaderClass.name).Nodup) :
    Layout (createPacketformat tab offset subclasses) (activeClasses tab subclasses) := by
  induction subclasses using List.reverseRecOn with
  | nil => exact ⟨by simp [activeClasses], by simp [activeClasses], by simp [activeClasses], rfl⟩
  | append_singleton pre cl ih =>
    rw [List.map_append, List.nodup_append] at hnodup
    have hfresh : ∀ a ∈ activeClasses tab pre, a.name ≠ cl.name := by
      intro a ha
      exact hnodup.2.2 a.name (List.mem_map_of_mem (List.mem_of_mem_filter ha)) cl.name (by simp)
    rw [createPacketformat_append_singleton, activeClasses_append_singleton, Format.add]
    split_ifs with hactive
    · rw [allochdr_eq]
      exact (ih hnodup.1).snoc cl hfresh
    · simpa using ih hnodup.1

/-- A class that is not active is told nothing. -/
theorem offset_of_inactive (tab : Tab) (offset : String → Int) (subclasses : List HeaderClass)
    {name : String} (h : name ∉ tab) :
    (createPacketformat tab offset subclasses).offset name = offset name := by
  induction subclasses using List.reverseRecOn with
  | nil => rfl
  | append_singleton pre cl ih =>
    rw [createPacketformat_append_singleton, Format.add]
    split_ifs with hactive
    · have hne : name ≠ cl.name := fun heq => h (heq ▸ hactive)
      exact (Function.update_of_ne hne _ _).trans ih
    · exact ih

/-- A script chooses the headers: those that it leaves active get their parts of
the packet, whatever else it did, and no other class gets an offset. -/
theorem scripted_layout (tab : Tab) (script : List Command) (offset : String → Int)
    (subclasses : List HeaderClass) (hdone : (source tab script).failed = none)
    (hnodup : (subclasses.map HeaderClass.name).Nodup) :
    Layout (createPacketformat (source tab script).tab offset subclasses)
        (subclasses.filter fun c => active tab script c.cl) ∧
      ∀ c : HeaderClass, ¬ active tab script c.cl →
        (createPacketformat (source tab script).tab offset subclasses).offset c.name =
          offset c.name := by
  have htab : ∀ c : HeaderClass, c.name ∈ (source tab script).tab ↔ active tab script c.cl :=
    fun c => last_command_decides tab script c.cl hdone
  have hactive : activeClasses (source tab script).tab subclasses =
      subclasses.filter fun c => active tab script c.cl := by
    refine List.filter_congr fun c _ => ?_
    rw [Bool.eq_iff_iff, decide_eq_true_eq]
    exact htab c
  constructor
  · rw [← hactive]
    exact packet_layout _ offset subclasses hnodup
  · intro c hc
    exact offset_of_inactive _ offset subclasses (mt (htab c).mp hc)

/-- Three classes, with sizes that need rounding. -/
def threeClasses : List HeaderClass := [⟨"Common", 140⟩, ⟨"ARP", 28⟩, ⟨"AODV", 30⟩]

/-- The offset of the class that is left out is the negative one it began with. -/
theorem scripted_layout_onlyAodv :
    let fm := createPacketformat (source threeHeaders.toFinset onlyAodv).tab (fun _ => -1)
      threeClasses
    Layout fm [⟨"Common", 140⟩, ⟨"AODV", 30⟩] ∧ fm.offset (indexOf "ARP") = -1 := by
  intro fm
  obtain ⟨hlayout, hother⟩ := scripted_layout threeHeaders.toFinset onlyAodv (fun _ => -1)
    threeClasses (by decide) (by decide)
  exact ⟨hlayout, hother ⟨"ARP", 28⟩ (by decide)⟩

section Bytes

variable {fm : Format} {active : List HeaderClass} {bits : List UInt8} {w : Write}

theorem Layout.access_eq (hl : Layout fm active) {a : HeaderClass} (ha : a ∈ active) :
    access fm a = some (fm.offset a.name).toNat :=
  if_neg (by have := (hl.inside a ha).1; omega)

/-- A write inside the structure of an active header. -/
def Write.Inside (active : List HeaderClass) (w : Write) : Prop :=
  w.cl ∈ active ∧ w.field + w.bytes.length ≤ w.cl.hdrlen

instance (w : Write) : Decidable (w.Inside active) := inferInstanceAs (Decidable (_ ∧ _))

def Format.Apart (fm : Format) (a b : HeaderClass) : Prop :=
  fm.offset a.name + a.hdrlen ≤ fm.offset b.name ∨ fm.offset b.name + b.hdrlen ≤ fm.offset a.name

instance : Std.Symm fm.Apart := ⟨fun _ _ => Or.symm⟩

theorem Layout.apart_of_ne (hl : Layout fm active) {a b : HeaderClass} (ha : a ∈ active)
    (hb : b ∈ active) (hne : a ≠ b) : fm.Apart a b := by
  have hpairwise : active.Pairwise fm.Apart := hl.apart.imp Or.inl
  exact hpairwise.forall ha hb hne

/-- The part of the packet that is an active header. -/
theorem Layout.read_eq (hl : Layout fm active) (hbits : bits.length = fm.hdrlen.toNat)
    {a : HeaderClass} (ha : a ∈ active) :
    (fm.offset a.name).toNat + a.hdrlen ≤ bits.length ∧
      read fm bits a = some (load bits (fm.offset a.name).toNat a.hdrlen) := by
  have hend : (fm.offset a.name).toNat + a.hdrlen ≤ bits.length := by
    have hin := hl.inside a ha
    omega
  refine ⟨hend, ?_⟩
  rw [read, hl.access_eq ha, Option.bind_some, if_pos hend]

/-- One write, seen from any header. -/
theorem Layout.write_eq (hl : Layout fm active) (hbits : bits.length = fm.hdrlen.toNat)
    (hw : w.Inside active) :
    ∃ bits', write fm bits w = some bits' ∧ bits'.length = fm.hdrlen.toNat ∧
      ∀ a ∈ active, ∀ h, read fm bits a = some h →
        read fm bits' a = some (if w.cl = a then store h w.field w.bytes else h) := by
  obtain ⟨hcl, hfield⟩ := hw
  obtain ⟨hend, -⟩ := hl.read_eq hbits hcl
  have hfit : (fm.offset w.cl.name).toNat + w.field + w.bytes.length ≤ bits.length := by omega
  have hlength := (length_store hfit).trans hbits
  refine ⟨_, by rw [write, hl.access_eq hcl, Option.bind_some, if_pos hfit], hlength, ?_⟩
  intro a ha h hread
  obtain ⟨hend', hread'⟩ := hl.read_eq hbits ha
  obtain rfl := Option.some.inj (hread'.symm.trans hread)
  rw [(hl.read_eq hlength ha).2]
  split_ifs with heq
  · subst heq
    rw [load_store_within hend hfield]
  · have happart := hl.apart_of_ne hcl ha heq
    unfold Format.Apart at happart
    have hw := hl.inside w.cl hcl
    have ha' := hl.inside a ha
    rw [load_store_of_apart hfit (by omega)]

/-- The headers of a packet behave as separate structures: whatever writes are
made through the pointers of `access`, in any order, none is out of bounds, and
each header reads as if only the writes to it had happened. -/
theorem headers_independent (tab : Tab) (offset : String → Int) (subclasses : List HeaderClass)
    (ws : List Write) (hnodup : (subclasses.map HeaderClass.name).Nodup)
    (hws : ∀ w ∈ ws, w.Inside (activeClasses tab subclasses)) :
    let fm := createPacketformat tab offset subclasses
    ∃ bits, ws.foldlM (write fm) (List.replicate fm.hdrlen.toNat 0) = some bits ∧
      ∀ a ∈ activeClasses tab subclasses, read fm bits a = some
        ((ws.filter (·.cl = a)).foldl (fun h w => store h w.field w.bytes)
          (List.replicate a.hdrlen 0)) := by
  intro fm
  have hl : Layout fm (activeClasses tab subclasses) := packet_layout tab offset subclasses hnodup
  have hrun : ∃ bits, ws.foldlM (write fm) (List.replicate fm.hdrlen.toNat 0) = some bits ∧
      bits.length = fm.hdrlen.toNat ∧
      ∀ a ∈ activeClasses tab subclasses, read fm bits a = some
        ((ws.filter (·.cl = a)).foldl (fun h w => store h w.field w.bytes)
          (List.replicate a.hdrlen 0)) := by
    induction ws using List.reverseRecOn with
    | nil =>
      refine ⟨_, rfl, List.length_replicate, fun a ha => ?_⟩
      obtain ⟨hend, hread⟩ := hl.read_eq List.length_replicate ha
      rw [List.length_replicate] at hend
      rw [hread, load_replicate 0 hend]
      rfl
    | append_singleton ws w ih =>
      obtain ⟨bits, hfold, hlength, hread⟩ := ih fun w hw => hws w (List.mem_append_left _ hw)
      obtain ⟨bits', hwrite, hlength', hread'⟩ := hl.write_eq hlength (hws w (by simp))
      refine ⟨bits', ?_, hlength', fun a ha => ?_⟩
      · rw [List.foldlM_append, hfold]
        simpa using hwrite
      · rw [hread' a ha _ (hread a ha), List.filter_append, List.foldl_append]
        congr 1
        split_ifs with heq <;> simp [heq]
  obtain ⟨bits, hfold, -, hread⟩ := hrun
  exact ⟨bits, hfold, hread⟩

/-- Fields of two headers, the second of them written twice. -/
theorem headers_independent_threeClasses :
    let fm := createPacketformat threeHeaders.toFinset (fun _ => 0) threeClasses
    let ws : List Write := [⟨⟨"AODV", 30⟩, 28, [1, 2]⟩, ⟨⟨"ARP", 28⟩, 0, [3]⟩,
      ⟨⟨"AODV", 30⟩, 29, [4]⟩]
    ∃ bits, ws.foldlM (write fm) (List.replicate fm.hdrlen.toNat 0) = some bits ∧
      ∀ a ∈ activeClasses threeHeaders.toFinset threeClasses, read fm bits a = some
        ((ws.filter (·.cl = a)).foldl (fun h w => store h w.field w.bytes)
          (List.replicate a.hdrlen 0)) :=
  headers_independent threeHeaders.toFinset (fun _ => 0) threeClasses _ (by decide)
    (by decide)

end Bytes

end LearnNs2.HeaderFormat

import LearnNs2.Cmu.RecordReading

/-!
# The chunks of an SCTP packet

The loop over the chunks never moves its offset, so each chunk is printed over
the one before it.
-/

namespace LearnNs2.RecordText

open Printf

set_option autoImplicit false

universe u

variable {D : Type u} {o : Recorder D} {p : Packet} {why : String}

theorem sprintfAt_sprintfAt {buffer : List Char} {offset : ℕ} (h : offset ≤ buffer.length)
    (text text' : List Char) :
    sprintfAt (sprintfAt buffer offset text) offset text' = sprintfAt buffer offset text' := by
  have hlen : (buffer.take offset).length = offset := List.length_take_of_le h
  rw [sprintfAt, sprintfAt, List.take_append_of_le_length hlen.ge, List.take_take, min_self]
  rfl

/-- Every chunk has a letter. -/
def Lettered (chunks : List SctpChunk) : Prop := ∀ c ∈ chunks, c.eType ≠ .other

instance (chunks : List SctpChunk) : Decidable (Lettered chunks) :=
  inferInstanceAs (Decidable (∀ c ∈ chunks, _))

/-- The letter of a chunk, if it has one. -/
def letterOf (c : SctpChunk) : Char := (Recorder.chunkType c.eType).getD ' '

theorem chunkType_eq_some {c : SctpChunk} (h : c.eType ≠ .other) :
    Recorder.chunkType c.eType = some (letterOf c) := by
  unfold letterOf
  cases hc : c.eType <;> first | rfl | exact absurd hc h

/-- The text of the last chunk. -/
def Recorder.lastChunk (o : Recorder D) (p : Packet) (chunks : List SctpChunk) : List Char :=
  match chunks.getLast? with
  | none => []
  | some c => (o.formatChunk p c (letterOf c)).text o.fl

theorem lastChunk_cons_cons (o : Recorder D) (p : Packet) (c d : SctpChunk)
    (chunks : List SctpChunk) : o.lastChunk p (c :: d :: chunks) = o.lastChunk p (d :: chunks) := by
  rw [Recorder.lastChunk, List.getLast?_cons_cons]
  rfl

theorem sctpLoop_of_not_lettered {chunks : List SctpChunk} (h : ¬ Lettered chunks) (offset : ℕ)
    (buffer : List Char) : o.sctpLoop p offset chunks buffer = none := by
  induction chunks generalizing buffer with
  | nil => exact absurd (by simp [Lettered]) h
  | cons c chunks ih =>
    unfold Recorder.sctpLoop
    by_cases hc : c.eType = .other
    · rw [hc]
      rfl
    · rw [chunkType_eq_some hc]
      apply ih
      intro hrest
      apply h
      intro d hd
      rcases List.mem_cons.mp hd with rfl | hd
      · exact hc
      · exact hrest d hd

/-- After the loop the buffer is as if the last chunk had been the only one. -/
theorem sctpLoop_of_lettered {c : SctpChunk} {chunks : List SctpChunk}
    (h : Lettered (c :: chunks)) {offset : ℕ} {buffer : List Char} (hlen : offset ≤ buffer.length) :
    o.sctpLoop p offset (c :: chunks) buffer =
      some (sprintfAt buffer offset (o.lastChunk p (c :: chunks))) := by
  induction chunks generalizing c buffer with
  | nil =>
    rw [Recorder.sctpLoop, chunkType_eq_some (h c List.mem_cons_self)]
    rfl
  | cons d chunks ih =>
    have hrest : Lettered (d :: chunks) := fun e he => h e (List.mem_cons_of_mem c he)
    have hlen' : offset ≤
        (sprintfAt buffer offset ((o.formatChunk p c (letterOf c)).text o.fl)).length := by
      rw [sprintfAt, List.length_append, List.length_take_of_le hlen]
      exact Nat.le_add_right _ _
    rw [Recorder.sctpLoop, chunkType_eq_some (h c List.mem_cons_self)]
    dsimp only
    rw [ih hrest hlen', sprintfAt_sprintfAt hlen, lastChunk_cons_cons]

/-- The loop, wherever in the buffer the record has got to. -/
theorem formatSctp_eq (o : Recorder D) (p : Packet) (buffer : List Char) :
    o.formatSctp p buffer.length buffer =
      if Lettered (o.headers.sctp p) then some (buffer ++ o.lastChunk p (o.headers.sctp p))
      else none := by
  unfold Recorder.formatSctp
  split_ifs with h
  · cases hc : o.headers.sctp p with
    | nil =>
      rw [Recorder.sctpLoop, Recorder.lastChunk]
      exact congrArg some (List.append_nil buffer).symm
    | cons c chunks =>
      rw [hc] at h
      rw [sctpLoop_of_lettered h (le_refl _), sprintfAt_length]
  · exact sctpLoop_of_not_lettered h _ _

/-- The record of an SCTP packet names its last chunk only, and one chunk of an
unknown type ends the simulator, wherever it stands. -/
theorem sctp_record (o : Recorder D) (pktTrc : List PacketTracer) (p : Packet) (why : String)
    (hp : p.cmn.ptype = ptSctp) :
    (o.toCmuTrace.format pktTrc p why).map LearnNs2.Record.buffer =
      if Lettered (o.headers.sctp p) then
        some ((o.formatMacCommon p why).text o.fl ++ (o.formatIp p).text o.fl ++
          o.lastChunk p (o.headers.sctp p))
      else none := by
  have hswitch : innerSwitch ptSctp = .header .sctp := by decide
  have hmac : ¬ (ptSctp = ptMac ∨ ptSctp = ptSmac) := by decide
  have harp : ¬ ptSctp = ptArp := by decide
  have hmacText : o.toCmuTrace.formatMacCommon p why = (o.formatMacCommon p why).text o.fl := rfl
  have hipText : o.toCmuTrace.formatIp p = (o.formatIp p).text o.fl := rfl
  have hheader : o.toCmuTrace.formatHeader .sctp p = o.formatSctp p ([] : List Char).length [] :=
    rfl
  unfold CmuTrace.format
  simp only [hp, hswitch, hmac, harp, if_false, hmacText, hipText, sprintfAt_length]
  rw [CmuTrace.formatOne, hheader, formatSctp_eq]
  split_ifs
  · rw [Option.map_some, Option.map_some, sprintfAt_length, List.nil_append]
  · rfl

/-- A data chunk and a SACK: the data chunk leaves no trace. -/
theorem sctp_record_two :
    let o : Recorder ℤ := { cbrRecorder with
      headers.sctp := fun _ => [⟨.data, 5, 1, 1⟩, ⟨.sack, 9, 0, 0⟩], name := fun _ => "sctp" }
    let p : Packet := { Packet.fresh 1 2 32 with cmn.ptype := ptSctp }
    (o.toCmuTrace.format [] p "---").map LearnNs2.Record.buffer =
      some ((o.formatMacCommon p "---").text o.fl ++ (o.formatIp p).text o.fl ++
        "[2 S 9 0 0] 0 0".toList) := by
  intro o p
  have hlettered : Lettered (o.headers.sctp p) := by decide
  have hchunk : o.lastChunk p (o.headers.sctp p) = "[2 S 9 0 0] 0 0".toList := by decide
  rw [sctp_record o [] p "---" rfl, if_pos hlettered, hchunk]

end LearnNs2.RecordText

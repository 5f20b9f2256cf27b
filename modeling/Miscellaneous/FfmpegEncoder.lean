import Mathlib.Tactic

/-!
# Encoding a frame

`EncoderH264::encode` hands a frame to the encoder, writes out every packet
the encoder has ready, and returns `true` only if the encoder reports the end
of the stream.  An encoder that merely waits for the next frame reports
`EAGAIN`, so a frame encoded without any error answers `false`.
-/

namespace Miscellaneous.FfmpegEncoder

/-! ## The calls of the library -/

/-- `AVERROR(EAGAIN)`. -/
def averrorEagain : ℤ := -11

/-- `FFERRTAG('E', 'O', 'F', ' ')`. -/
def averrorEof : ℤ := -541478725

structure AVRational where
  num : ℤ
  den : ℤ
  deriving DecidableEq

structure AVPacket where
  pts : ℤ
  dts : ℤ
  duration : ℤ
  streamIndex : ℤ
  data : List UInt8
  deriving DecidableEq

/-- The functions of the library which only compute; `avStrerror` answers
`none` where it finds no text. -/
structure Library where
  avStrerror : ℤ → Option String
  avPacketRescaleTs : AVPacket → AVRational → AVRational → AVPacket

/-- The calls of `encode`, with what they return.  A packet variable lives for
one round of the loop, and is named by what it holds. -/
inductive Call (Frame : Type*) where
  | sendFrame (frame : Frame) (ret : ℤ)
  | receivePacket (ret : ℤ) (pkt : Option AVPacket)
  | writeFrame (pkt : AVPacket) (ret : ℤ)
  | unref (pkt : AVPacket)
  | print (text : String)
  deriving DecidableEq

/-- What the library answers while the encoder is drained: packets, each with
the result of writing it, and then a call that gives no packet. -/
inductive Drain where
  | ended (ret : ℤ) (hret : ret < 0)
  | packet (received : ℤ) (hreceived : 0 ≤ received) (pkt : AVPacket)
      (written : ℤ) (rest : Drain)

structure Answers where
  sent : ℤ
  drain : Drain

/-! ## The encoder -/

structure Outcome (Frame : Type*) where
  calls : List (Call Frame)
  result : Bool

def Outcome.behind {Frame : Type*} (calls : List (Call Frame))
    (outcome : Outcome Frame) : Outcome Frame :=
  { outcome with calls := calls ++ outcome.calls }

/-- The members that `encode` reads. -/
structure EncoderH264 where
  codecTimeBase : AVRational
  streamTimeBase : AVRational
  streamIndex : ℤ

def avStrError (library : Library) (errnum : ℤ) : String :=
  match library.avStrerror errnum with
  | some buf => buf
  | none => "Unkown errnum: " ++ toString errnum

variable {Frame : Type*} (library : Library) (encoder : EncoderH264)

/-- The packet with the timestamps and the index of the stream. -/
def EncoderH264.stamp (pkt : AVPacket) : AVPacket :=
  { library.avPacketRescaleTs pkt encoder.codecTimeBase encoder.streamTimeBase
    with streamIndex := encoder.streamIndex }

/-- One round of the loop for every packet. -/
def EncoderH264.drainPackets : Drain → Outcome Frame
  | .ended ret _ =>
      if ret = averrorEagain ∨ ret = averrorEof then
        -- the status that has ended the loop decides the result
        ⟨[.receivePacket ret none], if ret = averrorEof then true else false⟩
      else
        ⟨[.receivePacket ret none,
          .print ("Error encoding a frame: " ++ avStrError library ret ++ "\n")],
          false⟩
  | .packet received _ pkt written rest =>
      let stamped := encoder.stamp library pkt
      let calls := [.receivePacket received (some pkt),
        .writeFrame stamped written, .unref stamped]
      if written < 0 then
        ⟨calls ++ [.print ("Error while writing output packet: " ++
          avStrError library written ++ "\n")], false⟩
      else
        (drainPackets rest).behind calls

def EncoderH264.encode (inputFrame : Frame) (answers : Answers) :
    Outcome Frame :=
  if answers.sent < 0 then
    ⟨[.sendFrame inputFrame answers.sent,
      .print ("Error sending a frame to encoder: " ++
        avStrError library answers.sent ++ "\n")], false⟩
  else
    (encoder.drainPackets library answers.drain).behind
      [.sendFrame inputFrame answers.sent]

/-! ## What the calls report -/

/-- `EAGAIN` and the end of the stream end the draining, and are no errors. -/
def Call.ReportsError : Call Frame → Prop
  | .sendFrame _ ret => ret < 0
  | .receivePacket ret _ => ret < 0 ∧ ret ≠ averrorEagain ∧ ret ≠ averrorEof
  | .writeFrame _ ret => ret < 0
  | .unref _ => False
  | .print _ => False

def Call.packet : Call Frame → Option AVPacket
  | .sendFrame _ _ => none
  | .receivePacket _ pkt => pkt
  | .writeFrame pkt _ => some pkt
  | .unref pkt => some pkt
  | .print _ => none

/-- Every packet received is stamped, written and unreferenced before anything
else happens, and no other packet is written or unreferenced. -/
inductive PacketsHandled (stamp : AVPacket → AVPacket) :
    List (Call Frame) → Prop
  | nil : PacketsHandled stamp []
  | other {call : Call Frame} {calls : List (Call Frame)}
      (hcall : call.packet = none) (hcalls : PacketsHandled stamp calls) :
      PacketsHandled stamp (call :: calls)
  | packet {received written : ℤ} {pkt : AVPacket} {calls : List (Call Frame)}
      (hcalls : PacketsHandled stamp calls) :
      PacketsHandled stamp (.receivePacket received (some pkt) ::
        .writeFrame (stamp pkt) written :: .unref (stamp pkt) :: calls)

structure Outcome.Correct (stamp : AVPacket → AVPacket)
    (outcome : Outcome Frame) : Prop where
  result_eq_false_iff :
    outcome.result = false ↔ ∃ call ∈ outcome.calls, call.ReportsError
  handled : PacketsHandled stamp outcome.calls

/-- The encoder runs out of packets and asks for the next frame. -/
def Drain.EndsWaiting : Drain → Prop
  | .ended ret _ => ret = averrorEagain
  | .packet _ _ _ written rest => 0 ≤ written ∧ rest.EndsWaiting

/-- The frame and all packets are accepted, and the encoder asks for the next
frame. -/
def Answers.EndWaiting (answers : Answers) : Prop :=
  0 ≤ answers.sent ∧ answers.drain.EndsWaiting

/-! ## Packets -/

section Packets

variable {stamp : AVPacket → AVPacket}

theorem packetsHandled_of_forall {calls : List (Call Frame)}
    (hcalls : ∀ call ∈ calls, call.packet = none) :
    PacketsHandled stamp calls := by
  induction calls with
  | nil => exact .nil
  | cons call calls ih =>
      rw [List.forall_mem_cons] at hcalls
      exact .other hcalls.1 (ih hcalls.2)

end Packets

theorem packetsHandled_drainPackets (drain : Drain) :
    PacketsHandled (encoder.stamp library)
      (encoder.drainPackets library drain : Outcome Frame).calls := by
  induction drain with
  | ended ret hret =>
      rw [EncoderH264.drainPackets]
      split
      · exact packetsHandled_of_forall (by simp [Call.packet])
      · exact packetsHandled_of_forall (by simp [Call.packet])
  | packet received hreceived pkt written rest ih =>
      rw [EncoderH264.drainPackets]
      split
      · -- the packet is unreferenced before the result of the write is tested
        exact .packet (packetsHandled_of_forall (by simp [Call.packet]))
      · exact .packet ih

theorem packetsHandled_encode (inputFrame : Frame) (answers : Answers) :
    PacketsHandled (encoder.stamp library)
      (encoder.encode library inputFrame answers).calls := by
  rw [EncoderH264.encode]
  split
  · exact packetsHandled_of_forall (by simp [Call.packet])
  · exact .other rfl (packetsHandled_drainPackets library encoder answers.drain)

/-! ## The result -/

/-- A call without an error in front changes nothing about the result. -/
theorem result_iff_behind {calls : List (Call Frame)} {outcome : Outcome Frame}
    (hcalls : ∀ call ∈ calls, ¬call.ReportsError) :
    ((outcome.behind calls).result = false ↔
        ∃ call ∈ (outcome.behind calls).calls, call.ReportsError) ↔
      (outcome.result = false ↔
        ∃ call ∈ outcome.calls, call.ReportsError) := by
  have herror : (∃ call ∈ calls ++ outcome.calls, call.ReportsError) ↔
      ∃ call ∈ outcome.calls, call.ReportsError := by
    constructor
    · rintro ⟨call, hmem, hreports⟩
      rcases List.mem_append.mp hmem with hcall | hcall
      · exact absurd hreports (hcalls call hcall)
      · exact ⟨call, hcall, hreports⟩
    · rintro ⟨call, hmem, hreports⟩
      exact ⟨call, List.mem_append_right calls hmem, hreports⟩
  simp only [Outcome.behind, herror]

/-- After an error the loop answers `false`, and behind the end of the stream
`true`; waiting is the case that is wrong. -/
theorem drainPackets_result_iff (drain : Drain) :
    ((encoder.drainPackets library drain : Outcome Frame).result = false ↔
        ∃ call ∈ (encoder.drainPackets library drain : Outcome Frame).calls,
          call.ReportsError) ↔
      ¬drain.EndsWaiting := by
  induction drain with
  | ended ret hret =>
      rw [EncoderH264.drainPackets, Drain.EndsWaiting]
      have hdistinct : averrorEagain ≠ averrorEof := by decide
      by_cases heagain : ret = averrorEagain
      · simp [heagain, hdistinct, Call.ReportsError]
      · by_cases heof : ret = averrorEof
        · simp [heof, hdistinct.symm, Call.ReportsError]
        · simp [heagain, heof, hret, Call.ReportsError]
  | packet received hreceived pkt written rest ih =>
      rw [EncoderH264.drainPackets, Drain.EndsWaiting]
      split
      · next hwritten =>
        simp [hwritten, hwritten.not_ge, Call.ReportsError]
      · next hwritten =>
        rw [result_iff_behind, ih]
        · simp [not_lt.mp hwritten]
        · simp [Call.ReportsError, hwritten, hreceived.not_gt]

/-- When `encode` is correct; the packets are handled in any case. -/
theorem encode_correct_iff (inputFrame : Frame) (answers : Answers) :
    ((encoder.encode library inputFrame answers).Correct
        (encoder.stamp library) ↔ ¬answers.EndWaiting) ∧
      PacketsHandled (encoder.stamp library)
        (encoder.encode library inputFrame answers).calls := by
  have hhandled := packetsHandled_encode library encoder inputFrame answers
  have hresult : ((encoder.encode library inputFrame answers).result = false ↔
      ∃ call ∈ (encoder.encode library inputFrame answers).calls,
        call.ReportsError) ↔ ¬answers.EndWaiting := by
    rw [EncoderH264.encode, Answers.EndWaiting]
    split
    · next hsent => simp [hsent, hsent.not_ge, Call.ReportsError]
    · next hsent =>
      rw [result_iff_behind, drainPackets_result_iff]
      · simp [not_lt.mp hsent]
      · simp [Call.ReportsError, not_lt.mp hsent]
  refine ⟨?_, hhandled⟩
  rw [← hresult]
  exact ⟨Outcome.Correct.result_eq_false_iff, fun h => ⟨h, hhandled⟩⟩

def oneFrame : Answers where
  sent := 0
  drain := .packet 0 le_rfl ⟨0, 0, 1, 0, [0, 0, 0, 1]⟩ 0
    (.ended averrorEagain (by decide))

/-- Both time bases are `1/25`, and timestamps stay as they are. -/
theorem not_encode_correct :
    ¬((EncoderH264.mk ⟨1, 25⟩ ⟨1, 25⟩ 0).encode
        ⟨fun _ => none, fun pkt _ _ => pkt⟩ () oneFrame).Correct
      ((EncoderH264.mk ⟨1, 25⟩ ⟨1, 25⟩ 0).stamp
        ⟨fun _ => none, fun pkt _ _ => pkt⟩) := by
  intro hcorrect
  rcases hcorrect.result_eq_false_iff.mp rfl with ⟨call, hmem, hreports⟩
  simp [EncoderH264.encode, EncoderH264.drainPackets, Outcome.behind,
    oneFrame] at hmem
  rcases hmem with rfl | rfl | rfl | rfl | rfl <;>
    simp [Call.ReportsError] at hreports

end Miscellaneous.FfmpegEncoder

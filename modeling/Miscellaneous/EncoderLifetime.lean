import Miscellaneous.FfmpegEncoder
import Miscellaneous.ResourceLedgers
import Mathlib.Tactic

/-!
# The life of an encoder

An `EncoderH264` is set up by `addStream`, `openVideo`, `openOutputFile` and
`writeHeader`, used by `encode` and ended by `writeTrailer`; the first of them
that returns `false` is the last one called.  Wherever the calls stop, the
destructor releases no resource twice.  It reads `m_outFmt` without a test, which
is null as long as no format context has been allocated.
-/

namespace Miscellaneous.EncoderLifetime

open FfmpegEncoder ResourceLedgers

/-! ## The members -/

inductive CodecId where
  | h264
  | other (id : ℕ)
  deriving DecidableEq

/-- `AVFMT_NOFILE` of `flags`, and `video_codec`, which may be
`AV_CODEC_ID_NONE`. -/
structure OutputFormat where
  noFile : Bool
  videoCodec : Option CodecId

structure FormatContext where
  handle : ℕ
  oformat : OutputFormat
  pb : Option ℕ

/-- Pointers are null or the number of what they point to; `m_codec` and
`m_stream` are never released. -/
structure Encoder where
  outFile : String
  fmtCtx : Option FormatContext
  codecCtx : Option ℕ
  outFmt : Option OutputFormat
  codec : Bool
  stream : Bool
  opt : Option ℕ
  ledger : Ledger
  cout : List String

def initial (filename : String) : Encoder where
  outFile := filename
  fmtCtx := none
  codecCtx := none
  outFmt := none
  codec := false
  stream := false
  opt := none
  ledger := .empty
  cout := []

namespace Encoder

variable (encoder : Encoder)

def print (text : String) : Encoder :=
  { encoder with cout := encoder.cout ++ [text] }

/-! ## The calls of the library -/

/-- `avformat_alloc_output_context2`, which finds a format or fails. -/
def allocOutputContext : Option OutputFormat → Encoder
  | none => { encoder with fmtCtx := none }
  | some oformat =>
      { encoder with
        fmtCtx := some ⟨encoder.ledger.fresh, oformat, none⟩
        ledger := encoder.ledger.allocate }

def allocCodecContext : Bool → Encoder
  | false => { encoder with codecCtx := none }
  | true =>
      { encoder with
        codecCtx := some encoder.ledger.fresh
        ledger := encoder.ledger.allocate }

/-- `av_dict_set(&m_opt, ..)` makes a dictionary if there is none. -/
def dictSet (stored : Bool) : Encoder :=
  if stored = true ∧ encoder.opt = none then
    { encoder with
      opt := some encoder.ledger.fresh
      ledger := encoder.ledger.allocate }
  else encoder

end Encoder

/-- What a call does to the dictionary that it gets by reference: nothing, or it
is replaced by one of the entries that were not used, if any are left. -/
inductive OptionsChange where
  | untouched
  | replaced (left : Bool)

def Encoder.changeOptions (encoder : Encoder) : OptionsChange → Encoder
  | .untouched => encoder
  | .replaced left =>
      match encoder.opt with
      | none => encoder
      | some handle =>
          let ledger := encoder.ledger.release handle
          if left then
            { encoder with opt := some ledger.fresh, ledger := ledger.allocate }
          else { encoder with opt := none, ledger := ledger }

/-! ## The methods -/

/-- The found encoder tells whether it is one for videos. -/
structure AddStream where
  context : Option OutputFormat
  codec : Option Bool
  stream : Bool
  codecContext : Bool
  preset : Bool
  tune : Bool

structure OpenVideo where
  opened : ℤ
  options : OptionsChange
  copied : ℤ

structure WriteHeader where
  ret : ℤ
  options : OptionsChange

section Methods

variable (library : Library) (avcodecGetName : CodecId → String)

/-- A method answers its result and the encoder after it, or nothing where the
process does not get to its end. -/
abbrev Method := Option (Bool × Encoder)

def Encoder.addStream (encoder : Encoder) (answers : AddStream) : Method :=
  let encoder := encoder.allocOutputContext answers.context
  match encoder.fmtCtx with
  | none =>
      some (false, encoder.print
        ("Could not deduce output format from file extension: " ++
          encoder.outFile ++ "\n"))
  | some fmtCtx =>
      let encoder := { encoder with outFmt := some fmtCtx.oformat }
      match fmtCtx.oformat.videoCodec with
      | none =>
          some (false, encoder.print
            ("No valid codec ID match the input file: " ++ encoder.outFile ++
              "\n"))
      | some videoCodec =>
          let encoder := { encoder with codec := answers.codec.isSome }
          match answers.codec with
          | none =>
              some (false, encoder.print
                ("Could not find encoder for " ++ avcodecGetName videoCodec ++
                  "\n"))
          | some isVideo =>
              let encoder := { encoder with stream := answers.stream }
              if !answers.stream then
                some (false, encoder.print "Could not allocate stream\n")
              else
                let encoder := encoder.allocCodecContext answers.codecContext
                if encoder.codecCtx.isNone then
                  some (false, encoder.print
                    "Could not allocate an encoding context\n")
                -- `assert(m_codec->type == AVMEDIA_TYPE_VIDEO)`
                else if !isVideo then none
                else if videoCodec = .h264 then
                  some (true,
                    (encoder.dictSet answers.preset).dictSet answers.tune)
                else some (true, encoder)

def Encoder.openVideo (encoder : Encoder) (answers : OpenVideo) : Method :=
  let encoder := encoder.changeOptions answers.options
  if answers.opened < 0 then
    some (false, encoder.print ("Could not open video codec: " ++
      avStrError library answers.opened ++ "\n"))
  else if !encoder.stream then none
  else if answers.copied < 0 then
    some (false, encoder.print "Could not copy the stream parameters\n")
  else some (true, encoder)

/-- A format that needs no file has nothing to open, and the answer is
`false`. -/
def Encoder.openOutputFile (encoder : Encoder) (ret : ℤ) : Method :=
  match encoder.outFmt, encoder.fmtCtx with
  | some outFmt, some fmtCtx =>
      if !outFmt.noFile then
        if ret < 0 then
          some (false, { encoder with
            fmtCtx := some { fmtCtx with pb := none } }.print
              ("Could not open " ++ encoder.outFile ++
                avStrError library ret ++ "\n"))
        else
          some (true, { encoder with
            fmtCtx := some { fmtCtx with pb := some encoder.ledger.fresh }
            ledger := encoder.ledger.allocate })
      else some (false, encoder)
  | _, _ => none

def Encoder.writeHeader (encoder : Encoder) (answers : WriteHeader) : Method :=
  let encoder := encoder.changeOptions answers.options
  if answers.ret < 0 then
    some (false, encoder.print ("Error occured when open file: " ++
      avStrError library answers.ret ++ "\n"))
  else some (true, encoder)

variable {Frame : Type*}

def printed (outcome : Outcome Frame) : List String :=
  outcome.calls.filterMap fun
    | .print text => some text
    | _ => none

/-- `encode`, with the time bases and the index that it reads through
`m_codecCtx` and `m_stream`. -/
def Encoder.encode (encoder : Encoder) (members : EncoderH264)
    (inputFrame : Frame) (answers : Answers) : Method :=
  if encoder.codecCtx.isNone || !encoder.stream then none
  else
    let outcome := members.encode library inputFrame answers
    some (outcome.result,
      { encoder with cout := encoder.cout ++ printed outcome })

def Encoder.writeTrailer (encoder : Encoder) : Method := some (true, encoder)

end Methods

/-! ## The destructor -/

/-- `avio_closep(&m_fmtCtx->pb)`. -/
def Encoder.closeOutput (encoder : Encoder) (fmtCtx : FormatContext) : Encoder :=
  { encoder with
    fmtCtx := some { fmtCtx with pb := none }
    ledger := encoder.ledger.releaseIfSome fmtCtx.pb }

/-- The three resources that are released behind a test, `m_opt` before the
output and the others after it. -/
def Encoder.freeOptions (encoder : Encoder) : Encoder :=
  { encoder with
    opt := none
    ledger := encoder.ledger.releaseIfSome encoder.opt }

def Encoder.freeCodecContext (encoder : Encoder) : Encoder :=
  { encoder with
    codecCtx := none
    ledger := encoder.ledger.releaseIfSome encoder.codecCtx }

def Encoder.freeContext (encoder : Encoder) : Encoder :=
  { encoder with
    ledger := encoder.ledger.releaseIfSome
      (encoder.fmtCtx.map FormatContext.handle) }

/-- What is left when the destructor is done, or nothing where it dereferences
null. -/
def Encoder.destroy (encoder : Encoder) : Option Encoder :=
  let encoder := encoder.freeOptions
  match encoder.outFmt with
  | none => none
  | some outFmt =>
      if !outFmt.noFile then
        match encoder.fmtCtx with
        | none => none
        | some fmtCtx =>
            some (encoder.closeOutput fmtCtx).freeCodecContext.freeContext
      else some encoder.freeCodecContext.freeContext

/-! ## Sequences of calls -/

inductive MethodCall (Frame : Type*) where
  | addStream (answers : AddStream)
  | openVideo (answers : OpenVideo)
  | openOutputFile (ret : ℤ)
  | writeHeader (answers : WriteHeader)
  | encode (members : EncoderH264) (inputFrame : Frame) (answers : Answers)
  | writeTrailer

section Runs

variable (library : Library) (avcodecGetName : CodecId → String)
variable {Frame : Type*}

def Encoder.call (encoder : Encoder) : MethodCall Frame → Method
  | .addStream answers => encoder.addStream avcodecGetName answers
  | .openVideo answers => encoder.openVideo library answers
  | .openOutputFile ret => encoder.openOutputFile library ret
  | .writeHeader answers => encoder.writeHeader library answers
  | .encode members inputFrame answers =>
      encoder.encode library members inputFrame answers
  | .writeTrailer => encoder.writeTrailer

/-- The calls one after another, up to the first that returns `false`. -/
def Encoder.run (encoder : Encoder) : List (MethodCall Frame) → Option Encoder
  | [] => some encoder
  | call :: calls =>
      match encoder.call library avcodecGetName call with
      | none => none
      | some (false, next) => some next
      | some (true, next) => next.run calls

end Runs

/-- The whole sequence of calls, with all that the library answers. -/
structure Script (Frame : Type*) where
  addStream : AddStream
  openVideo : OpenVideo
  openOutputFile : ℤ
  writeHeader : WriteHeader
  frames : List (EncoderH264 × Frame × Answers)

def Script.calls {Frame : Type*} (script : Script Frame) :
    List (MethodCall Frame) :=
  .addStream script.addStream :: .openVideo script.openVideo ::
    .openOutputFile script.openOutputFile :: .writeHeader script.writeHeader ::
      script.frames.map (fun frame => .encode frame.1 frame.2.1 frame.2.2) ++
        [.writeTrailer]

/-- The destructor dereferences no null pointer, and no resource is released
more than once. -/
def Encoder.SafelyDestroyed (encoder : Encoder) : Prop :=
  ∃ final, encoder.destroy = some final ∧ final.ledger.released.Nodup

/-! ## Nothing is released twice -/

def Encoder.handles (encoder : Encoder) : Multiset ℕ :=
  held encoder.opt + held (encoder.fmtCtx.bind FormatContext.pb) +
    held encoder.codecCtx + held (encoder.fmtCtx.map FormatContext.handle)

def Encoder.Owned (encoder : Encoder) : Prop :=
  encoder.ledger.Owns encoder.handles

theorem initial_owned (filename : String) : (initial filename).Owned := .empty

namespace Encoder.Owned

variable {encoder next : Encoder} (howned : encoder.Owned)
include howned

theorem print (text : String) : (encoder.print text).Owned := howned

theorem allocOutputContext (context : Option OutputFormat) :
    (encoder.allocOutputContext context).Owned := by
  let lost := held (encoder.fmtCtx.bind FormatContext.pb) +
    held (encoder.fmtCtx.map FormatContext.handle)
  cases context with
  | none =>
      apply @Ledger.Owns.forget _ _ _ lost howned
      simp only [Encoder.handles, Encoder.allocOutputContext, Option.bind_none,
        Option.map_none, held_none, lost]
      abel
  | some oformat =>
      apply @Ledger.Owns.forget _ _ _ lost howned.allocate
      simp only [Encoder.handles, Encoder.allocOutputContext, Option.bind_some,
        Option.map_some, held_none, held_some, lost]
      abel

theorem allocCodecContext (allocated : Bool) :
    (encoder.allocCodecContext allocated).Owned := by
  cases allocated with
  | false =>
      apply @Ledger.Owns.forget _ _ _ (held encoder.codecCtx) howned
      simp only [Encoder.handles, Encoder.allocCodecContext, held_none]
      abel
  | true =>
      apply @Ledger.Owns.forget _ _ _ (held encoder.codecCtx) howned.allocate
      simp only [Encoder.handles, Encoder.allocCodecContext, held_some]
      abel

theorem dictSet (stored : Bool) : (encoder.dictSet stored).Owned := by
  unfold Encoder.dictSet
  split_ifs with hstored
  · apply @Ledger.Owns.forget _ _ _ 0 howned.allocate
    simp only [Encoder.handles, hstored.2, held_none, held_some]
    abel
  · exact howned

theorem changeOptions (change : OptionsChange) :
    (encoder.changeOptions change).Owned := by
  cases change with
  | untouched => exact howned
  | replaced left =>
      cases hopt : encoder.opt with
      | none => simpa only [Encoder.changeOptions, hopt] using howned
      | some handle =>
          have hreleased := howned
          unfold Encoder.Owned Encoder.handles at hreleased
          rw [hopt, held_some, add_assoc, add_assoc] at hreleased
          cases left with
          | false =>
              simpa [Encoder.Owned, Encoder.handles, Encoder.changeOptions,
                hopt, add_assoc] using hreleased.release
          | true =>
              simpa [Encoder.Owned, Encoder.handles, Encoder.changeOptions,
                hopt, add_assoc] using hreleased.release.allocate

theorem addStream {avcodecGetName : CodecId → String} {answers : AddStream}
    {result : Bool}
    (hcall : encoder.addStream avcodecGetName answers = some (result, next)) :
    next.Owned := by
  have hcontext := howned.allocOutputContext answers.context
  simp only [Encoder.addStream] at hcall
  split at hcall
  · cases hcall
    exact hcontext
  · split at hcall
    · cases hcall
      exact hcontext
    · split at hcall
      · cases hcall
        exact hcontext
      · split_ifs at hcall
        · cases hcall
          exact hcontext
        · cases hcall
          refine print (allocCodecContext ?_ _) _
          exact hcontext
        · cases hcall
          refine dictSet (dictSet (allocCodecContext ?_ _) _) _
          exact hcontext
        · cases hcall
          refine allocCodecContext ?_ _
          exact hcontext

theorem openOutputFile {library : Library} {ret : ℤ} {result : Bool}
    (hcall : encoder.openOutputFile library ret = some (result, next)) :
    next.Owned := by
  unfold Encoder.openOutputFile at hcall
  split at hcall
  · next outFmt fmtCtx _ hfmtCtx =>
      split_ifs at hcall
      · cases hcall
        apply @Ledger.Owns.forget _ _ _ (held fmtCtx.pb) howned
        simp only [Encoder.handles, Encoder.print, hfmtCtx, Option.bind_some,
          Option.map_some, held_none]
        abel
      · cases hcall
        apply @Ledger.Owns.forget _ _ _ (held fmtCtx.pb) howned.allocate
        simp only [Encoder.handles, hfmtCtx, Option.bind_some, Option.map_some,
          held_some]
        abel
      · cases hcall
        exact howned
  · cases hcall

/-- A method keeps what it holds apart from what was released. -/
theorem call {library : Library} {avcodecGetName : CodecId → String}
    {Frame : Type*} {call : MethodCall Frame} {result : Bool}
    (hcall : encoder.call library avcodecGetName call = some (result, next)) :
    next.Owned := by
  cases call with
  | addStream answers => exact howned.addStream hcall
  | openVideo answers =>
      simp only [Encoder.call, Encoder.openVideo] at hcall
      have hchanged := howned.changeOptions answers.options
      split_ifs at hcall
      all_goals
        cases hcall
        exact hchanged
  | openOutputFile ret => exact howned.openOutputFile hcall
  | writeHeader answers =>
      simp only [Encoder.call, Encoder.writeHeader] at hcall
      have hchanged := howned.changeOptions answers.options
      split_ifs at hcall
      all_goals
        cases hcall
        exact hchanged
  | encode members inputFrame answers =>
      simp only [Encoder.call, Encoder.encode] at hcall
      split_ifs at hcall
      cases hcall
      exact howned
  | writeTrailer =>
      cases hcall
      exact howned

theorem run {library : Library} {avcodecGetName : CodecId → String}
    {Frame : Type*} {calls : List (MethodCall Frame)}
    (hrun : encoder.run library avcodecGetName calls = some next) :
    next.Owned := by
  induction calls generalizing encoder with
  | nil =>
      cases hrun
      exact howned
  | cons call calls ih =>
      unfold Encoder.run at hrun
      split at hrun
      · cases hrun
      · next hcall =>
          cases hrun
          exact howned.call hcall
      · next after hcall => exact ih (howned.call hcall) hrun

theorem freeOptions : encoder.freeOptions.Owned := by
  unfold Encoder.Owned Encoder.handles at howned
  rw [add_assoc, add_assoc] at howned
  simpa [Encoder.Owned, Encoder.handles, Encoder.freeOptions, add_assoc]
    using howned.releaseIfSome

theorem closeOutput {fmtCtx : FormatContext}
    (hfmtCtx : encoder.fmtCtx = some fmtCtx) :
    (encoder.closeOutput fmtCtx).Owned := by
  unfold Encoder.Owned Encoder.handles at howned
  rw [hfmtCtx, Option.bind_some, add_comm (held encoder.opt), add_assoc,
    add_assoc] at howned
  simpa [Encoder.Owned, Encoder.handles, Encoder.closeOutput, add_assoc]
    using howned.releaseIfSome

theorem freeCodecContext : encoder.freeCodecContext.Owned := by
  unfold Encoder.Owned Encoder.handles at howned
  rw [add_comm _ (held encoder.codecCtx), add_assoc] at howned
  simpa [Encoder.Owned, Encoder.handles, Encoder.freeCodecContext]
    using howned.releaseIfSome

theorem freeContext : encoder.freeContext.ledger.released.Nodup := by
  unfold Encoder.Owned Encoder.handles at howned
  rw [add_comm] at howned
  exact howned.releaseIfSome.releasedOnce

end Encoder.Owned

/-! ## The format context -/

def Encoder.HasContext (encoder : Encoder) : Prop :=
  (∃ outFmt, encoder.outFmt = some outFmt) ∧
    ∃ fmtCtx, encoder.fmtCtx = some fmtCtx

/-- All that the methods after `addStream` dereference. -/
structure Encoder.Ready (encoder : Encoder) : Prop where
  context : encoder.HasContext
  codecCtx : encoder.codecCtx.isNone = false
  stream : encoder.stream = true

def MethodCall.AfterAddStream {Frame : Type*} : MethodCall Frame → Prop
  | .addStream _ => False
  | _ => True

structure Encoder.SamePointers (encoder next : Encoder) : Prop where
  outFmt : next.outFmt = encoder.outFmt
  fmtCtx : next.fmtCtx = encoder.fmtCtx
  codecCtx : next.codecCtx = encoder.codecCtx
  stream : next.stream = encoder.stream

namespace Encoder

theorem HasContext.of_same {encoder next : Encoder}
    (hcontext : encoder.HasContext) (hsame : encoder.SamePointers next) :
    next.HasContext := by
  unfold HasContext
  rw [hsame.outFmt, hsame.fmtCtx]
  exact hcontext

theorem Ready.of_same {encoder next : Encoder} (hready : encoder.Ready)
    (hsame : encoder.SamePointers next) : next.Ready where
  context := hready.context.of_same hsame
  codecCtx := by rw [hsame.codecCtx, hready.codecCtx]
  stream := by rw [hsame.stream, hready.stream]

theorem samePointers_dictSet (encoder : Encoder) (stored : Bool) :
    encoder.SamePointers (encoder.dictSet stored) := by
  unfold dictSet
  split_ifs
  · exact ⟨rfl, rfl, rfl, rfl⟩
  · exact ⟨rfl, rfl, rfl, rfl⟩

theorem samePointers_changeOptions (encoder : Encoder)
    (change : OptionsChange) :
    encoder.SamePointers (encoder.changeOptions change) := by
  cases change with
  | untouched => exact ⟨rfl, rfl, rfl, rfl⟩
  | replaced left =>
      simp only [changeOptions]
      split
      · exact ⟨rfl, rfl, rfl, rfl⟩
      · split_ifs
        · exact ⟨rfl, rfl, rfl, rfl⟩
        · exact ⟨rfl, rfl, rfl, rfl⟩

theorem HasContext.allocCodecContext {encoder : Encoder}
    (hcontext : encoder.HasContext) (allocated : Bool) :
    (encoder.allocCodecContext allocated).HasContext := by
  cases allocated <;> exact hcontext

theorem allocCodecContext_stream (encoder : Encoder) (allocated : Bool) :
    (encoder.allocCodecContext allocated).stream = encoder.stream := by
  cases allocated <;> rfl

end Encoder

theorem addStream_of_none (avcodecGetName : CodecId → String)
    (encoder : Encoder) {answers : AddStream}
    (hcontext : answers.context = none) :
    ∃ next, encoder.addStream avcodecGetName answers = some (false, next) ∧
      next.outFmt = encoder.outFmt := by
  simp only [Encoder.addStream, hcontext, Encoder.allocOutputContext]
  exact ⟨_, rfl, rfl⟩

/-- With a format context, `addStream` leaves both pointers set, and where it
returns `true` the others as well. -/
theorem addStream_of_some {avcodecGetName : CodecId → String}
    {encoder next : Encoder} {answers : AddStream} {oformat : OutputFormat}
    {result : Bool} (hcontext : answers.context = some oformat)
    (hcall : encoder.addStream avcodecGetName answers = some (result, next)) :
    next.HasContext ∧ (result = true → next.Ready) := by
  have hboth {next : Encoder} (hready : next.Ready) :
      next.HasContext ∧ (true = true → next.Ready) :=
    ⟨hready.context, fun _ => hready⟩
  simp only [Encoder.addStream, hcontext, Encoder.allocOutputContext] at hcall
  split at hcall
  · cases hcall
    exact ⟨⟨⟨_, rfl⟩, _, rfl⟩, by simp⟩
  · split at hcall
    · cases hcall
      exact ⟨⟨⟨_, rfl⟩, _, rfl⟩, by simp⟩
    · split_ifs at hcall with hstream hcodecCtx _ _
      · cases hcall
        exact ⟨⟨⟨_, rfl⟩, _, rfl⟩, by simp⟩
      · cases hcall
        refine ⟨?_, by simp⟩
        exact Encoder.HasContext.allocCodecContext ⟨⟨_, rfl⟩, _, rfl⟩ _
      · cases hcall
        refine hboth (Encoder.Ready.of_same (Encoder.Ready.of_same ?_
          (Encoder.samePointers_dictSet _ _)) (Encoder.samePointers_dictSet _ _))
        exact ⟨Encoder.HasContext.allocCodecContext ⟨⟨_, rfl⟩, _, rfl⟩ _,
          Bool.eq_false_iff.mpr hcodecCtx,
          by simpa [Encoder.allocCodecContext_stream] using hstream⟩
      · cases hcall
        apply hboth
        exact ⟨Encoder.HasContext.allocCodecContext ⟨⟨_, rfl⟩, _, rfl⟩ _,
          Bool.eq_false_iff.mpr hcodecCtx,
          by simpa [Encoder.allocCodecContext_stream] using hstream⟩

/-- A method after `addStream` does not end the process, and leaves the pointers
set. -/
theorem Encoder.Ready.call {library : Library}
    {avcodecGetName : CodecId → String} {Frame : Type*} {encoder : Encoder}
    (hready : encoder.Ready) {call : MethodCall Frame}
    (hafter : call.AfterAddStream) :
    ∃ result next, encoder.call library avcodecGetName call =
      some (result, next) ∧ next.Ready := by
  have hchanged (change : OptionsChange) : (encoder.changeOptions change).Ready :=
    hready.of_same (samePointers_changeOptions encoder change)
  cases call with
  | addStream answers => exact hafter.elim
  | openVideo answers =>
      have hstream := (hchanged answers.options).stream
      simp only [Encoder.call, openVideo, hstream, Bool.not_true,
        Bool.false_eq_true, if_false]
      split_ifs
      · exact ⟨_, _, rfl, (hchanged answers.options).of_same ⟨rfl, rfl, rfl, rfl⟩⟩
      · exact ⟨_, _, rfl, (hchanged answers.options).of_same ⟨rfl, rfl, rfl, rfl⟩⟩
      · exact ⟨_, _, rfl, hchanged answers.options⟩
  | openOutputFile ret =>
      rcases hready.context with ⟨⟨outFmt, houtFmt⟩, fmtCtx, hfmtCtx⟩
      simp only [Encoder.call, openOutputFile, houtFmt, hfmtCtx]
      split_ifs
      · exact ⟨_, _, rfl, ⟨⟨_, rfl⟩, _, rfl⟩, hready.codecCtx, hready.stream⟩
      · exact ⟨_, _, rfl, ⟨⟨_, rfl⟩, _, rfl⟩, hready.codecCtx, hready.stream⟩
      · exact ⟨_, _, rfl, hready⟩
  | writeHeader answers =>
      simp only [Encoder.call, writeHeader]
      split_ifs
      · exact ⟨_, _, rfl, (hchanged answers.options).of_same ⟨rfl, rfl, rfl, rfl⟩⟩
      · exact ⟨_, _, rfl, hchanged answers.options⟩
  | encode members inputFrame answers =>
      simp only [Encoder.call, encode, hready.codecCtx, hready.stream]
      exact ⟨_, _, rfl, hready.of_same ⟨rfl, rfl, rfl, hready.stream.symm⟩⟩
  | writeTrailer => exact ⟨_, _, rfl, hready⟩

theorem Encoder.Ready.run {library : Library}
    {avcodecGetName : CodecId → String} {Frame : Type*} {encoder : Encoder}
    (hready : encoder.Ready) {calls : List (MethodCall Frame)}
    (hafter : ∀ call ∈ calls, call.AfterAddStream) :
    ∃ final, encoder.run library avcodecGetName calls = some final ∧
      final.Ready := by
  induction calls generalizing encoder with
  | nil => exact ⟨encoder, rfl, hready⟩
  | cons call calls ih =>
      rw [List.forall_mem_cons] at hafter
      rcases @Encoder.Ready.call library avcodecGetName Frame encoder hready call
        hafter.1 with
        ⟨result, next, hcall, hnext⟩
      unfold Encoder.run
      rw [hcall]
      cases result with
      | false => exact ⟨next, rfl, hnext⟩
      | true => exact ih hnext hafter.2

theorem Script.calls_afterAddStream {Frame : Type*} (script : Script Frame) :
    ∀ call ∈ script.calls.tail, call.AfterAddStream := by
  intro call hcall
  simp only [Script.calls, List.cons_append, List.tail_cons, List.mem_cons,
    List.mem_append, List.mem_map, List.not_mem_nil, or_false] at hcall
  rcases hcall with rfl | rfl | rfl | ⟨frame, _, rfl⟩ | rfl <;> trivial

/-! ## The destructor after any prefix -/

theorem Encoder.not_safelyDestroyed {encoder : Encoder}
    (houtFmt : encoder.outFmt = none) : ¬encoder.SafelyDestroyed := by
  rintro ⟨final, hdestroy, _⟩
  have hfree : encoder.freeOptions.outFmt = none := houtFmt
  simp only [Encoder.destroy, hfree] at hdestroy
  cases hdestroy

theorem Encoder.Owned.safelyDestroyed {encoder : Encoder}
    (howned : encoder.Owned) (hcontext : encoder.HasContext) :
    encoder.SafelyDestroyed := by
  rcases hcontext with ⟨⟨outFmt, houtFmt⟩, fmtCtx, hfmtCtx⟩
  have hfreeFmt : encoder.freeOptions.outFmt = some outFmt := houtFmt
  have hfreeCtx : encoder.freeOptions.fmtCtx = some fmtCtx := hfmtCtx
  unfold Encoder.SafelyDestroyed Encoder.destroy
  simp only [hfreeFmt, hfreeCtx]
  split_ifs
  · exact ⟨_, rfl,
      (howned.freeOptions.closeOutput hfreeCtx).freeCodecContext.freeContext⟩
  · exact ⟨_, rfl, howned.freeOptions.freeCodecContext.freeContext⟩

/-- Wherever the calls stop, the object is destroyed safely exactly when a format
context has been allocated. -/
theorem safelyDestroyed_iff {library : Library}
    {avcodecGetName : CodecId → String} {Frame : Type*} {filename : String}
    {script : Script Frame} {calls : List (MethodCall Frame)}
    (hcalls : calls <+: script.calls) {encoder : Encoder}
    (hrun : (initial filename).run library avcodecGetName calls =
      some encoder) :
    encoder.SafelyDestroyed ↔
      calls ≠ [] ∧ script.addStream.context.isSome = true := by
  cases calls with
  | nil =>
      cases hrun
      exact ⟨fun h => absurd h (Encoder.not_safelyDestroyed rfl),
        fun h => absurd rfl h.1⟩
  | cons call calls =>
      have howned := (initial_owned filename).run hrun
      have hrest : calls <+: script.calls.tail := (List.cons_prefix_cons.mp hcalls).2
      obtain rfl : call = .addStream script.addStream :=
        (List.cons_prefix_cons.mp hcalls).1
      have hafter : ∀ call ∈ calls, call.AfterAddStream :=
        fun other hother => script.calls_afterAddStream other (hrest.subset hother)
      unfold Encoder.run at hrun
      simp only [Encoder.call] at hrun
      cases hcontext : script.addStream.context with
      | none =>
          rcases addStream_of_none avcodecGetName (initial filename) hcontext with
            ⟨next, hcall, houtFmt⟩
          rw [hcall] at hrun
          cases hrun
          exact ⟨fun h => absurd h (Encoder.not_safelyDestroyed houtFmt),
            fun h => by cases h.2⟩
      | some oformat =>
          refine ⟨fun _ => ⟨by simp, rfl⟩, fun _ => howned.safelyDestroyed ?_⟩
          split at hrun
          · cases hrun
          · next hcall =>
              cases hrun
              exact (addStream_of_some hcontext hcall).1
          · next next hcall =>
              have hready := (addStream_of_some hcontext hcall).2 rfl
              rcases hready.run hafter with ⟨final, hfinal, hlast⟩
              rw [hfinal] at hrun
              cases hrun
              exact hlast.context

theorem addStream_eq_none {avcodecGetName : CodecId → String}
    {encoder : Encoder} {answers : AddStream}
    (hcall : encoder.addStream avcodecGetName answers = none) :
    answers.codec = some false := by
  simp only [Encoder.addStream] at hcall
  split at hcall
  · cases hcall
  · split at hcall
    · cases hcall
    · split at hcall
      · cases hcall
      · next isVideo hcodec =>
          split_ifs at hcall with _ _ hnot
          rw [hcodec]
          simpa using hnot

/-- Only the assertion in `addStream` ends the process before the destructor. -/
theorem exists_run (library : Library) (avcodecGetName : CodecId → String)
    {Frame : Type*} (filename : String) {script : Script Frame}
    (hvideo : script.addStream.codec ≠ some false)
    {calls : List (MethodCall Frame)} (hcalls : calls <+: script.calls) :
    ∃ encoder, (initial filename).run library avcodecGetName calls =
      some encoder := by
  cases calls with
  | nil => exact ⟨_, rfl⟩
  | cons call calls =>
      obtain rfl : call = .addStream script.addStream :=
        (List.cons_prefix_cons.mp hcalls).1
      have hrest : calls <+: script.calls.tail :=
        (List.cons_prefix_cons.mp hcalls).2
      unfold Encoder.run
      simp only [Encoder.call]
      cases hcall : (initial filename).addStream avcodecGetName
          script.addStream with
      | none => exact absurd (addStream_eq_none hcall) hvideo
      | some answer =>
          rcases answer with ⟨result, next⟩
          cases result with
          | false => exact ⟨next, rfl⟩
          | true =>
              have hready : next.Ready := by
                cases hcontext : script.addStream.context with
                | none =>
                    rcases addStream_of_none avcodecGetName (initial filename)
                      hcontext with ⟨_, hnone, _⟩
                    rw [hnone] at hcall
                    cases hcall
                | some oformat =>
                    exact (addStream_of_some hcontext hcall).2 rfl
              rcases hready.run fun other hother =>
                script.calls_afterAddStream other (hrest.subset hother) with
                ⟨final, hfinal, _⟩
              exact ⟨final, hfinal⟩

/-- Every call of the library succeeds, for a format that is written to a file. -/
def workingScript : Script Unit where
  addStream := ⟨some ⟨false, some .h264⟩, some true, true, true, true, true⟩
  openVideo := ⟨0, .replaced false, 0⟩
  openOutputFile := 0
  writeHeader := ⟨0, .untouched⟩
  frames := []

theorem safelyDestroyed_open :
    ∃ encoder, (initial "test.h264").run ⟨fun _ => none, fun pkt _ _ => pkt⟩
        (fun _ => "h264") (workingScript.calls.take 3) = some encoder ∧
      encoder.ledger.fresh = 4 ∧ encoder.SafelyDestroyed := by
  have hrun : ∃ encoder, (initial "test.h264").run
      ⟨fun _ => none, fun pkt _ _ => pkt⟩ (fun _ => "h264")
        (workingScript.calls.take 3) = some encoder ∧
      encoder.ledger.fresh = 4 := ⟨_, rfl, rfl⟩
  rcases hrun with ⟨encoder, hrun, hfresh⟩
  refine ⟨encoder, hrun, hfresh,
    (safelyDestroyed_iff (List.take_prefix 3 _) hrun).mpr ⟨?_, rfl⟩⟩
  simp [workingScript, Script.calls]

theorem not_safelyDestroyed_unknown :
    ¬∀ (library : Library) (avcodecGetName : CodecId → String)
      (filename : String) (script : Script Unit)
      (calls : List (MethodCall Unit)) (encoder : Encoder),
      calls <+: script.calls →
        (initial filename).run library avcodecGetName calls = some encoder →
          encoder.SafelyDestroyed := by
  intro hall
  let script : Script Unit :=
    { workingScript with
      addStream := { workingScript.addStream with context := none } }
  rcases hall ⟨fun _ => none, fun pkt _ _ => pkt⟩ (fun _ => "") "unknown" script
    script.calls _ (List.prefix_refl _) rfl with ⟨final, hdestroy, _⟩
  cases hdestroy

end Miscellaneous.EncoderLifetime

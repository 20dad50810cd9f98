import FocusVision.Client.LosslessDelivery
import FocusVision.Driver.DirectMode

/-!
# Skipped frames

From the compositor's `Present` to the client's `FrameAssembler`.  Every `Present` has an
index, also one that sends nothing, and the client takes a missing index for a lost frame.
So nothing is lost as long as every `Present` from the first to the last frame sends one.
-/

namespace FocusVision
namespace Driver

open Engine (FrameFecEncoder Packet RsCrate SubmittedFrame VideoSender)
open Client (FrameAssembler)
open Client.FrameAssembler (Consecutive SentBatches Prompt arrivals heldAfter lossless_delivery
  nothingHeld packetsOf)

/-- The driver and the engine's sender. -/
structure Streaming (crate : RsCrate) where
  driver : DirectModeComponent
  video : VideoSender crate
  framerate : Nat

inductive StreamingEvent where
  | driver (call : DirectModeCall)
  /-- The adaptive redundancy changes between two frames. -/
  | setRedundancy (redundancy : F32)

namespace Streaming

variable {crate : RsCrate}

/-- One event, with the packets that are sent. -/
def step (s : Streaming crate) : StreamingEvent → List (List Packet) × Streaming crate
  | .driver call =>
      let (frame, driver) := s.driver.step call
      match frame with
      | none => ([], { s with driver })
      | some frame =>
          let (batches, video) := s.video.sendFrame frame s.framerate
          (batches, { s with driver, video })
  | .setRedundancy redundancy =>
      ([], { s with video := { s.video with
        fecEncoder := s.video.fecEncoder.setRedundancy redundancy } })

/-- The packets of a run, in order. -/
def packets (s : Streaming crate) (events : List StreamingEvent) : List Packet :=
  (Run.outputs step s events).flatMap List.flatten

/-! ### The Presents that send a frame -/

/-- None of the early returns of `Present` is taken. -/
structure Submits (c : DirectModeComponent) (p : PresentCalls) (nal : List UInt8)
    (isIdr : Bool) : Prop where
  ready : c.m_encoderReady = true
  scene : ∃ scene ∈ c.m_layers.head?, c.readable p.hasView scene.1 = true ∧
    c.readable p.hasView scene.2 = true
  acquired : p.acquired = true
  encoded : p.encoded = some (nal, isIdr)
  nonempty : nal ≠ []

/-- The frame of a `Present`, as the engine takes it. -/
def frameOf (c : DirectModeComponent) (p : PresentCalls) (nal : List UInt8) (isIdr : Bool) :
    SubmittedFrame :=
  { frameIndex := c.m_frameIndex + 1
    nalData := nal.take (UInt32.ofNat nal.length).toNat
    isIdr
    renderOrientation := p.orientation.filter Engine.finiteOrientation }

/-- The `Present` gives the engine a frame that is not too large to be sent. -/
structure Sends (s : Streaming crate) (p : PresentCalls) (nal : List UInt8) (isIdr : Bool) :
    Prop where
  submits : Submits s.driver p nal isIdr
  long : UInt32.ofNat nal.length ≠ 0
  short : ¬UInt32.ofNat nal.length > Engine.MAX_NAL_DATA_LEN
  fits : s.video.fecEncoder.Fits (s.video.payload (frameOf s.driver p nal isIdr))

/-- The event is no `Present` that sends a frame. -/
def Idle (s : Streaming crate) (event : StreamingEvent) : Prop :=
  ∀ p nal isIdr, event = .driver (.present p) → ¬s.Sends p nal isIdr

/-- The event is no `Present` without a frame. -/
def Busy (s : Streaming crate) (event : StreamingEvent) : Prop :=
  ∀ p, event = .driver (.present p) → ∃ nal isIdr, s.Sends p nal isIdr

theorem present_of_submits
    {c : DirectModeComponent} {p : PresentCalls} {nal : List UInt8} {isIdr : Bool}
    (h : Submits c p nal isIdr) :
    (c.present p).1 =
      Engine.fvpSubmitEncodedFrame nal (UInt32.ofNat nal.length) (c.m_frameIndex + 1) isIdr
        p.orientation := by
  obtain ⟨scene, hscene, hleft, hright⟩ := h.scene
  obtain ⟨rest, hlayers⟩ := List.head?_eq_some_iff.mp hscene
  have hnonempty : nal.isEmpty = false := List.isEmpty_eq_false_iff.mpr h.nonempty
  unfold DirectModeComponent.readable at hleft hright
  unfold DirectModeComponent.present DirectModeComponent.readable
  simp only [hlayers, h.ready, hleft, hright, h.acquired, h.encoded, hnonempty]
  rfl

/-- A `Present` that submits something has passed all its checks. -/
theorem submits_of_present
    {c : DirectModeComponent} {p : PresentCalls} {frame : SubmittedFrame}
    (h : (c.present p).1 = some frame) :
    ∃ nal isIdr, Submits c p nal isIdr := by
  unfold DirectModeComponent.present at h
  simp only at h
  cases hlayers : c.m_layers with
  | nil =>
      rw [hlayers] at h
      exact absurd h (by simp)
  | cons scene rest =>
      rw [hlayers] at h
      simp only at h
      split_ifs at h with hready hreadable hacquired
      cases hencoded : p.encoded with
      | none =>
          rw [hencoded] at h
          exact absurd h (by simp)
      | some encoded =>
          obtain ⟨nal, isIdr⟩ := encoded
          rw [hencoded] at h
          simp only at h
          split_ifs at h with hempty
          simp only [not_or, Bool.not_eq_true', Bool.not_eq_false] at hready hreadable hacquired
          exact ⟨nal, isIdr, hready, ⟨scene, by rw [hlayers]; rfl, hreadable⟩, hacquired,
            hencoded, by simpa using hempty⟩

@[simp] theorem present_frameIndex
    (c : DirectModeComponent) (p : PresentCalls) :
    (c.present p).2.m_frameIndex = c.m_frameIndex + 1 := by
  unfold DirectModeComponent.present
  simp only
  cases c.m_layers with
  | nil => rfl
  | cons scene rest =>
      simp only
      split_ifs
      · rfl
      · rfl
      · rfl
      · cases p.encoded with
        | none => rfl
        | some encoded =>
            simp only
            split_ifs <;> rfl

theorem fvpSubmitEncodedFrame_eq_some
    {nal : List UInt8} {nalDataLen frameIndex : UInt32} {isIdr : Bool}
    {orientation : Option (F32 × F32 × F32 × F32)} {frame : SubmittedFrame}
    (h : Engine.fvpSubmitEncodedFrame nal nalDataLen frameIndex isIdr orientation = some frame) :
    nalDataLen ≠ 0 ∧ ¬nalDataLen > Engine.MAX_NAL_DATA_LEN ∧
      frame =
        { frameIndex
          nalData := nal.take nalDataLen.toNat
          isIdr
          renderOrientation := orientation.filter Engine.finiteOrientation } := by
  unfold Engine.fvpSubmitEncodedFrame at h
  split_ifs at h with hzero hlong
  exact ⟨hzero, hlong, (Option.some.inj h).symm⟩

theorem payload_ne_nil
    (v : VideoSender crate) {frame : SubmittedFrame} (h : frame.nalData ≠ []) :
    v.payload frame ≠ [] := by
  unfold VideoSender.payload
  split_ifs
  · exact List.append_ne_nil_of_right_ne_nil _ h
  · exact h

/-- A frame that the sender cannot send leaves no packets. -/
theorem sendFrame_eq_nil
    {v : VideoSender crate} {frame : SubmittedFrame}
    (h : ¬v.fecEncoder.Fits (v.payload frame)) (framerate : Nat) :
    (v.sendFrame frame framerate).1 = [] :=
  FrameFecEncoder.encode_eq_nil (Or.inr h) _ _ _ _

theorem Sends.present
    {s : Streaming crate} {p : PresentCalls} {nal : List UInt8} {isIdr : Bool}
    (h : s.Sends p nal isIdr) :
    (s.driver.present p).1 = some (frameOf s.driver p nal isIdr) := by
  rw [present_of_submits h.submits]
  unfold Engine.fvpSubmitEncodedFrame
  rw [if_neg h.long, if_neg h.short]
  rfl

/-- A `Present` that sends a frame sends all its packets, under its index. -/
theorem Sends.step
    (hcrate : crate.Correct) {s : Streaming crate} (hok : s.video.fecEncoder.Ok)
    {p : PresentCalls} {nal : List UInt8} {isIdr : Bool} (h : s.Sends p nal isIdr) :
    ∃ frame : SentBatches crate,
      (s.step (.driver (.present p))).1 = frame.batches ∧
      frame.sent.frameIndex = s.driver.m_frameIndex + 1 ∧
      frame.sent.sliceCount.toNat =
        (s.video.fecEncoder.layout (s.video.payload (frameOf s.driver p nal isIdr))).slices := by
  have hdata : (frameOf s.driver p nal isIdr).nalData ≠ [] := by
    have hlen : (UInt32.ofNat nal.length).toNat ≠ 0 := fun hzero =>
      h.long (UInt32.toNat_inj.mp hzero)
    simpa [frameOf, h.submits.nonempty] using hlen
  obtain ⟨sent, hsent, hsized, hslices, hresult⟩ :=
    @FrameFecEncoder.encode_sentAs crate s.video.fecEncoder
      (s.video.payload (frameOf s.driver p nal isIdr)) (s.driver.m_frameIndex + 1)
      (UInt32.ofNat (s.video.frameCount * Engine.RTP_CLOCK_RATE / s.framerate)) isIdr
      s.video.sequence hcrate hok (payload_ne_nil s.video hdata) h.fits
  refine ⟨⟨sent, _, hsent, hsized⟩, ?_, congrArg Engine.ReassembledFrame.frameIndex hresult,
    hslices⟩
  simp only [Streaming.step, DirectModeComponent.step, h.present]
  rfl

/-- Any other event sends nothing. -/
theorem Idle.step
    {s : Streaming crate} {event : StreamingEvent} (h : s.Idle event) :
    (s.step event).1 = [] := by
  cases event with
  | setRedundancy redundancy => rfl
  | driver call =>
      cases call with
      | swap call => rfl
      | submitLayer perEye => rfl
      | present p =>
          simp only [Streaming.step, DirectModeComponent.step]
          cases hframe : (s.driver.present p).1 with
          | none => rfl
          | some frame =>
              obtain ⟨nal, isIdr, hsubmits⟩ := submits_of_present hframe
              rw [present_of_submits hsubmits] at hframe
              obtain ⟨hlong, hshort, rfl⟩ := fvpSubmitEncodedFrame_eq_some hframe
              have hfits : ¬s.video.fecEncoder.Fits
                  (s.video.payload (frameOf s.driver p nal isIdr)) :=
                fun hfits => h p nal isIdr rfl ⟨hsubmits, hlong, hshort, hfits⟩
              exact sendFrame_eq_nil hfits s.framerate

/-- The encoder stays in good order. -/
theorem step_ok
    {s : Streaming crate} (h : s.video.fecEncoder.Ok) (event : StreamingEvent) :
    (s.step event).2.video.fecEncoder.Ok := by
  cases event with
  | setRedundancy redundancy => exact h.setRedundancy redundancy
  | driver call =>
      simp only [step]
      cases (s.driver.step call).1 with
      | none => exact h
      | some frame => exact h.encode _ _ _ _ _

theorem step_driver
    (s : Streaming crate) (call : DirectModeCall) :
    (s.step (.driver call)).2.driver = (s.driver.step call).2 := by
  simp only [step]
  cases (s.driver.step call).1 <;> rfl

/-! ### Runs -/

theorem packets_cons
    (s : Streaming crate) (event : StreamingEvent) (events : List StreamingEvent) :
    s.packets (event :: events) = (s.step event).1.flatten ++ (s.step event).2.packets events := by
  unfold packets
  rw [Run.outputs_cons, List.flatMap_cons]

theorem packets_append
    (s : Streaming crate) (events more : List StreamingEvent) :
    s.packets (events ++ more) =
      s.packets events ++ (Run.final step s events).packets more := by
  unfold packets
  rw [Run.outputs_append, List.flatMap_append]

theorem packets_idle
    {s : Streaming crate} {events : List StreamingEvent}
    (h : Run.Along step Idle s events) :
    s.packets events = [] := by
  induction events generalizing s with
  | nil => rfl
  | cons event events ih =>
      rw [packets_cons, Idle.step h.1, ih h.2]
      rfl

/-- The slices and the index of the frame that a `Present` sends. -/
def slices (s : Streaming crate) : StreamingEvent → Option (Nat × UInt32)
  | .driver (.present p) =>
      p.encoded.map fun encoded =>
        ((s.video.fecEncoder.layout
          (s.video.payload (frameOf s.driver p encoded.1 encoded.2))).slices,
          s.driver.m_frameIndex + 1)
  | _ => none

/-- The slices and indices of a run in which every `Present` sends a frame. -/
def slicesOf (s : Streaming crate) (events : List StreamingEvent) : List (Nat × UInt32) :=
  Run.emitted (fun s event => (s.slices event, (s.step event).2)) s events

/-- No slice decoder gets an index that it holds since the indices last came round. -/
def Fresh (old : Nat → UInt32 → Prop) : List (Nat × UInt32) → Prop
  | [] => True
  | (slices, frameIndex) :: frames =>
      (∀ i < slices, ¬old i frameIndex) ∧ Fresh (heldAfter old slices frameIndex) frames

/-- `Present` after `Present`, the frames have consecutive indices. -/
theorem consecutive_of_busy
    (hcrate : crate.Correct) {s : Streaming crate} (hok : s.video.fecEncoder.Ok)
    {old : Nat → UInt32 → Prop} {last : Option UInt32} {events : List StreamingEvent}
    (hbusy : Run.Along step Busy s events) (hfresh : Fresh old (s.slicesOf events))
    (hlast : ∀ frameIndex ∈ last, frameIndex = s.driver.m_frameIndex) :
    ∃ frames : List (SentBatches crate),
      s.packets events = packetsOf frames ∧ Consecutive old last frames := by
  induction events generalizing s old last with
  | nil => exact ⟨[], rfl, trivial⟩
  | cons event events ih =>
      have hokNext := step_ok hok event
      unfold slicesOf at hfresh
      rw [Run.emitted_cons] at hfresh
      rw [packets_cons]
      -- without a frame, the index stays as it is
      have hidle : s.Idle event → s.slices event = none →
          (s.step event).2.driver.m_frameIndex = s.driver.m_frameIndex →
          ∃ frames : List (SentBatches crate),
            (s.step event).1.flatten ++ (s.step event).2.packets events = packetsOf frames ∧
              Consecutive old last frames := by
        intro hidle hslices hindex
        rw [hslices] at hfresh
        rw [Idle.step hidle, List.flatten_nil, List.nil_append]
        exact ih hokNext hbusy.2 hfresh (by rw [hindex]; exact hlast)
      cases event with
      | setRedundancy redundancy =>
          exact hidle (fun p nal isIdr heq => by cases heq) rfl rfl
      | driver call =>
          have hdriver := s.step_driver call
          cases call with
          | swap call => exact hidle (fun p nal isIdr heq => by cases heq) rfl rfl
          | submitLayer perEye =>
              refine hidle (fun p nal isIdr heq => by cases heq) rfl ?_
              rw [hdriver]
              simp only [DirectModeComponent.step, DirectModeComponent.submitLayer]
              split_ifs <;> rfl
          | present p =>
              obtain ⟨nal, isIdr, hsends⟩ := hbusy.1 p rfl
              obtain ⟨frame, hbatches, hindex, hslices⟩ := hsends.step hcrate hok
              simp only [slices, hsends.submits.encoded, Option.map_some, Option.toList_some,
                List.singleton_append, Fresh] at hfresh
              rw [← hslices, ← hindex] at hfresh
              obtain ⟨frames, hpackets, hframes⟩ :=
                @ih (s.step (.driver (.present p))).2 hokNext
                  (heldAfter old frame.sent.sliceCount.toNat frame.sent.frameIndex)
                  (some frame.sent.frameIndex) hbusy.2 hfresh.2 (by
                    intro frameIndex hsome
                    rw [hdriver, ← Option.some.inj hsome, hindex]
                    exact (present_frameIndex s.driver p).symm)
              refine ⟨frame :: frames, ?_, ?_, hfresh.1, hframes⟩
              · rw [hbatches, hpackets]
                rfl
              · intro frameIndex hsome
                rw [hlast frameIndex hsome, hindex]

/-- From the first frame to the last, every `Present` sends one, and the indices do not come
round to one that is still in use. -/
def Unskipped (s : Streaming crate) (events : List StreamingEvent) : Prop :=
  ∃ before during after, events = before ++ (during ++ after) ∧
    Run.Along step Idle s before ∧
    Run.Along step Busy (Run.final step s before) during ∧
    Run.Along step Idle (Run.final step (Run.final step s before) during) after ∧
    Fresh nothingHeld ((Run.final step s before).slicesOf during)

/-- The start of a session. -/
def start (crate : RsCrate) (driver : DirectModeComponent) (framerate : Nat)
    (fecRedundancy : F32) (sliceFecEnabled : Bool) (sliceCount : Nat) (framePose : Bool) :
    Streaming crate :=
  { driver
    video := VideoSender.new fecRedundancy sliceFecEnabled sliceCount framePose
    framerate }

/--
**Skipped frames.**  In a run in which no `Present` between two frames is skipped, the
client that gets all packets in order, and the packets of a frame in time, loses no frame,
and does not wait for a keyframe any more once one came through.
-/
theorem unskipped_not_lost
    (hcrate : crate.Correct) (driver : DirectModeComponent) (framerate : Nat)
    {fecRedundancy : F32} (hunit : Engine.UnitInterval fecRedundancy) (sliceFecEnabled : Bool)
    (sliceCount : Nat) (framePose : Bool) (events : List StreamingEvent)
    (a : FrameAssembler) (calls : List FrameAssembler.Call) :
    let s := start crate driver framerate fecRedundancy sliceFecEnabled sliceCount framePose
    s.Unskipped events → arrivals calls <+: s.packets events →
      Run.Along FrameAssembler.step Prompt a.reset calls →
      (Run.final FrameAssembler.step a.reset calls).m_framesLost = 0 ∧
        ∀ out ∈ Run.outputs FrameAssembler.step a.reset calls, ∀ f ∈ out.frames,
          f.keyframe = true →
            (Run.final FrameAssembler.step a.reset calls).m_waitingForKeyframe = false := by
  rintro s ⟨before, during, after, rfl, hbefore, hduring, hafter, hfresh⟩ harrive hprompt
  have hok : s.video.fecEncoder.Ok := FrameFecEncoder.ok_new hunit sliceFecEnabled sliceCount
  have hokBefore := Run.final_invariant step
    (fun s event (hs : s.video.fecEncoder.Ok) => step_ok hs event) hok before
  obtain ⟨frames, hpackets, hframes⟩ :=
    @consecutive_of_busy crate hcrate _ hokBefore nothingHeld none during hduring hfresh
      (fun _ hnone => absurd hnone (by simp))
  have hall : s.packets (before ++ (during ++ after)) = packetsOf frames := by
    rw [packets_append, packets_append, packets_idle hbefore, packets_idle hafter, hpackets,
      List.nil_append, List.append_nil]
  rw [hall] at harrive
  exact lossless_delivery a hframes calls harrive hprompt

/-! ### A skipped frame -/

/-- A driver whose encoder is ready. -/
def readyDriver : DirectModeComponent :=
  { m_encoderReady := true }

/-- A session of that driver, at half redundancy. -/
def readySession : Streaming Engine.galois8 :=
  start Engine.galois8 readyDriver 90 (f32 1 2) false 4 false

/-- The scene is drawn and encoded. -/
def drawn (isIdr : Bool) : List StreamingEvent :=
  [.driver (.submitLayer (100, 101)),
    .driver (.present
      { hasView := fun _ => true
        acquired := true
        encoded := some ([1, 2, 3], isIdr)
        orientation := none })]

/-- The compositor has no layers. -/
def undrawn : StreamingEvent :=
  .driver (.present
    { hasView := fun _ => true
      acquired := true
      encoded := some ([1, 2, 3], false)
      orientation := none })

/-- A new set of textures. -/
def newTextures : StreamingEvent :=
  .driver (.swap (.create 7 fun i => some (UInt64.ofNat (100 + i))))

/-- All packets of a run, in order and at once. -/
def delivered (events : List StreamingEvent) : List FrameAssembler.Call :=
  (readySession.packets events).map fun packet => .onPacket packet 0

theorem arrivals_delivered
    (events : List StreamingEvent) :
    arrivals (delivered events) = readySession.packets events := by
  unfold arrivals delivered
  rw [List.filterMap_map]
  exact List.filterMap_some

theorem prompt_packets
    (packets : List (List UInt8)) (a : FrameAssembler) :
    Run.Along FrameAssembler.step Prompt a (packets.map fun packet => .onPacket packet 0) := by
  induction packets generalizing a with
  | nil => trivial
  | cons packet packets ih => exact ⟨trivial, ih _⟩

theorem drawn_sends
    {s : Streaming Engine.galois8} {p : PresentCalls} {isIdr : Bool}
    (hsubmits : Submits s.driver p [1, 2, 3] isIdr)
    (hlayout : s.video.fecEncoder.layout (s.video.payload (frameOf s.driver p [1, 2, 3] isIdr)) =
      .bulk) :
    s.Sends p [1, 2, 3] isIdr := by
  refine ⟨hsubmits, by decide, by decide, ?_⟩
  intro hunprotected
  rw [hlayout] at hunprotected
  exact absurd hunprotected (by decide)

/-- Two frames, one after the other. -/
def twoFrames : List StreamingEvent :=
  newTextures :: (drawn true ++ drawn false)

theorem twoFrames_unskipped :
    readySession.Unskipped twoFrames := by
  refine ⟨[], twoFrames, [], rfl, trivial, ?_, trivial, ?_⟩
  · have hother : ∀ (s : Streaming Engine.galois8) event,
        (∀ p, event ≠ .driver (.present p)) → s.Busy event :=
      fun s event hother p hpresent => absurd hpresent (hother p)
    refine ⟨hother _ _ (by simp [newTextures]), hother _ _ (by simp), ?_, hother _ _ (by simp),
      ?_, trivial⟩
    · rintro p ⟨rfl⟩
      exact ⟨_, true, drawn_sends
        ⟨by decide +kernel, ⟨(100, 101), by decide +kernel⟩, rfl, rfl, by decide⟩
        (by decide +kernel)⟩
    · rintro p ⟨rfl⟩
      exact ⟨_, false, drawn_sends
        ⟨by decide +kernel, ⟨(100, 101), by decide +kernel⟩, rfl, rfl, by decide⟩
        (by decide +kernel)⟩
  · have hslices : (readySession.slicesOf twoFrames) = [(0, 1), (0, 2)] := by
      decide +kernel
    rw [Run.final_nil, hslices]
    exact ⟨by simp, by simp, trivial⟩

theorem unskipped_not_lost_twoFrames :
    (Run.final FrameAssembler.step (FrameAssembler.reset {})
      (delivered twoFrames)).m_framesLost = 0 := by
  have hunit : Engine.UnitInterval (f32 1 2) := by
    decide +kernel
  have hprefix : arrivals (delivered twoFrames) <+: readySession.packets twoFrames := by
    rw [arrivals_delivered]
  have h := unskipped_not_lost Engine.galois8_vandermonde.correct readyDriver 90 hunit false 4
    false twoFrames {} (delivered twoFrames)
  refine (h twoFrames_unskipped hprefix ?_).1
  unfold delivered
  generalize readySession.packets twoFrames = packets
  exact prompt_packets packets _

/-- A keyframe, a `Present` without layers, and another frame. -/
def skippedFrame : List StreamingEvent :=
  newTextures :: (drawn true ++ undrawn :: drawn false)

/-- Every packet arrives, and yet a frame is lost. -/
theorem skippedFrame_lost :
    arrivals (delivered skippedFrame) = readySession.packets skippedFrame ∧
      Run.Along FrameAssembler.step Prompt {} (delivered skippedFrame) ∧
      (Run.outputs FrameAssembler.step {} (delivered skippedFrame)).flatMap (fun out =>
        out.frames.map fun f => (f.frameIndex, f.keyframe)) = [(1, true)] ∧
      (Run.final FrameAssembler.step {} (delivered skippedFrame)).m_framesLost = 1 ∧
      (Run.final FrameAssembler.step {} (delivered skippedFrame)).m_waitingForKeyframe =
        true := by
  refine ⟨arrivals_delivered skippedFrame, ?_, ?_⟩
  · unfold delivered
    generalize readySession.packets skippedFrame = packets
    exact prompt_packets packets _
  · decide +kernel

end Streaming

end Driver
end FocusVision

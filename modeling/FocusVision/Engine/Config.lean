import FocusVision.Lib.FloatOps
import FocusVision.Engine.Pairing

/-!
# Config validation

`AppConfig::validate` of the engine's `config.rs`.  Every check returns the
errors it reports and the value it leaves; `validate` runs the checks in the
source's order and is `none` when the code panics.  The sections hold the fields
that `validate` reads; the others (switches, paths, the codec) are left out.
-/

namespace FocusVision
namespace Engine

/-- `ConfigError`. -/
structure ConfigError where
  field : String
  message : String
deriving DecidableEq

def DEFAULT_TCP_PORT : UInt16 := 9944
def DEFAULT_UDP_PORT : UInt16 := 9945
def AUDIO_PORT_OFFSET : UInt16 := 3

def defaultFecRedundancyMin : F32 := f32 5 100
def defaultFecRedundancyMax : F32 := f32 40 100
def defaultFoveaRadius : F32 := f32 15 100
def defaultMidRadius : F32 := f32 35 100
def defaultThermalWarnCelsius : UInt32 := 75
def defaultThermalLimitCelsius : UInt32 := 85
def defaultThermalEmergencyCelsius : UInt32 := 90

/-- `NetworkConfig`. -/
structure NetworkConfig where
  tcpPort : UInt16 := DEFAULT_TCP_PORT
  udpPort : UInt16 := DEFAULT_UDP_PORT
  fecRedundancy : F32 := f32 2 10
  fecRedundancyMin : F32 := defaultFecRedundancyMin
  fecRedundancyMax : F32 := defaultFecRedundancyMax
  congestionControl : String := "gcc"
  sliceCount : UInt8 := 4
deriving DecidableEq

/-- `VideoConfig`. -/
structure VideoConfig where
  bitrateMbps : UInt32 := 80
  framerate : UInt32 := 90
  resolutionScale : F32 := f32 1 1
  resolutionPerEye : UInt32 × UInt32 := (1832, 1920)
  bitratePixelFactor : Option F32 := none
deriving DecidableEq

/-- `DisplayConfig`. -/
structure DisplayConfig where
  ipd : F32 := f32 63 1000
  secondsFromVsyncToPhotons : F32 := f32 11 1000
deriving DecidableEq

/-- `FaceTrackingConfig`. -/
structure FaceTrackingConfig where
  smoothing : F32 := f32 6 10
deriving DecidableEq

/-- `SleepModeConfig`. -/
structure SleepModeConfig where
  timeoutSeconds : UInt32 := 300
  sleepBitrateMbps : UInt32 := 8
  motionThreshold : F32 := f32 2 1000
deriving DecidableEq

/-- `AudioConfig`. -/
structure AudioConfig where
  frameSizeMs : Option UInt32 := none
  sampleRate : Option UInt32 := none
  channels : Option UInt16 := none
  bitrateKbps : UInt32 := 128
  syntheticSource : String := "off"
deriving DecidableEq

/-- `PairingConfig`. -/
structure PairingConfig where
  maxAttempts : UInt8 := 5
  lockoutSeconds : UInt64 := 300
deriving DecidableEq

/-- `MemoryMonitorConfig`. -/
structure MemoryMonitorConfig where
  pollIntervalSeconds : UInt32 := 60
  growthThresholdMb : UInt32 := 50
deriving DecidableEq

/-- `FoveatedConfig`. -/
structure FoveatedConfig where
  foveaRadius : F32 := defaultFoveaRadius
  midRadius : F32 := defaultMidRadius
  midQpOffset : Int32 := 5
  peripheralQpOffset : Int32 := 15
deriving DecidableEq

/-- `ThermalConfig`. -/
structure ThermalConfig where
  warnCelsius : UInt32 := defaultThermalWarnCelsius
  limitCelsius : UInt32 := defaultThermalLimitCelsius
  emergencyCelsius : UInt32 := defaultThermalEmergencyCelsius
  pollIntervalSeconds : UInt32 := 5
  recoverySeconds : UInt32 := 30
deriving DecidableEq

/-- `AppConfig`. -/
structure AppConfig where
  network : NetworkConfig := {}
  video : VideoConfig := {}
  display : DisplayConfig := {}
  faceTracking : FaceTrackingConfig := {}
  sleepMode : SleepModeConfig := {}
  audio : AudioConfig := {}
  pairing : PairingConfig := {}
  memoryMonitor : MemoryMonitorConfig := {}
  foveated : FoveatedConfig := {}
  thermal : ThermalConfig := {}
deriving DecidableEq

/-- A check: report `error` and take `fixed` when the value is bad. -/
def check {α : Type} (bad : Prop) [Decidable bad] (error : ConfigError)
    (fixed value : α) : List ConfigError × α :=
  if bad then ([error], fixed) else ([], value)

/-- `validate_range`. -/
def validateRange {α : Type} [LT α] [DecidableLT α] [ToString α]
    (value min max default : α) (field : String) : List ConfigError × α :=
  check (value < min ∨ max < value)
    ⟨field, s!"{value} out of range [{min}-{max}], clamped to {default}"⟩
    default value

/-- `validate_f32_range`. -/
def validateF32Range (value min max default : F32) (field : String) :
    List ConfigError × F32 :=
  check (value.isNaN = true ∨ value.isInfinite = true ∨ value < min ∨ max < value)
    ⟨field, s!"{value} invalid or out of [{min}, {max}], clamped to {default}"⟩
    default value

/-- The largest `udp_port` that leaves room for the stream ports. -/
def maxUdp : UInt16 := 65535 - AUDIO_PORT_OFFSET

/-- The port checks. -/
def validatePorts (n : NetworkConfig) : List ConfigError × NetworkConfig :=
  let tcp := check (n.tcpPort < 1024)
    ⟨"network.tcp_port", s!"{n.tcpPort} < 1024, clamped to {DEFAULT_TCP_PORT}"⟩
    DEFAULT_TCP_PORT n.tcpPort
  let low := check (n.udpPort < 1024)
    ⟨"network.udp_port", s!"{n.udpPort} < 1024, clamped to {DEFAULT_UDP_PORT}"⟩
    DEFAULT_UDP_PORT n.udpPort
  let high := check (maxUdp < low.2)
    ⟨"network.udp_port",
      s!"{low.2} > {maxUdp} (the streams use it + 1..=3), clamped to {DEFAULT_UDP_PORT}"⟩
    DEFAULT_UDP_PORT low.2
  let udp := check (tcp.2 = high.2)
    ⟨"network.udp_port", s!"== tcp_port ({tcp.2}), offsetting"⟩
    (if tcp.2 < maxUdp then tcp.2 + 1 else tcp.2 - 1) high.2
  (tcp.1 ++ low.1 ++ high.1 ++ udp.1, { n with tcpPort := tcp.2, udpPort := udp.2 })

/-- The FEC redundancy checks; `f32::clamp` panics on an empty range. -/
def validateFec (n : NetworkConfig) : Option (List ConfigError × NetworkConfig) :=
  let lo := check
    (n.fecRedundancyMin < f32 0 1 ∨ f32 1 1 < n.fecRedundancyMin ∨
      n.fecRedundancyMin.isNaN = true)
    ⟨"network.fec_redundancy_min", s!"{n.fecRedundancyMin} invalid, clamped to 0.05"⟩
    defaultFecRedundancyMin n.fecRedundancyMin
  let hi := check
    (n.fecRedundancyMax < lo.2 ∨ f32 1 1 < n.fecRedundancyMax ∨
      n.fecRedundancyMax.isNaN = true)
    ⟨"network.fec_redundancy_max", s!"{n.fecRedundancyMax} invalid, clamped to 0.40"⟩
    defaultFecRedundancyMax n.fecRedundancyMax
  let n' := { n with fecRedundancyMin := lo.2, fecRedundancyMax := hi.2 }
  if n.fecRedundancy.isNaN = true ∨ n.fecRedundancy < lo.2 ∨ hi.2 < n.fecRedundancy then
    match n.fecRedundancy.clamp lo.2 hi.2 with
    | none => none
    | some clamped =>
        some (lo.1 ++ hi.1 ++
          [⟨"network.fec_redundancy",
            s!"{n.fecRedundancy} out of [{lo.2}, {hi.2}], clamped to {clamped}"⟩],
          { n' with fecRedundancy := clamped })
  else some (lo.1 ++ hi.1, n')

/-- The congestion control and slice checks. -/
def validateModes (n : NetworkConfig) : List ConfigError × NetworkConfig :=
  let mode := check (n.congestionControl ≠ "gcc" ∧ n.congestionControl ≠ "loss")
    ⟨"network.congestion_control",
      s!"must be \"gcc\" or \"loss\", got \"{n.congestionControl}\""⟩
    "gcc" n.congestionControl
  let slices := validateRange n.sliceCount 2 15 4 "network.slice_count"
  (mode.1 ++ slices.1, { n with congestionControl := mode.2, sliceCount := slices.2 })

/-- One edge of `resolution_per_eye`: in range, then even. -/
def validateEdge (size default : UInt32) : List ConfigError × UInt32 :=
  let ranged := validateRange size 320 4096 default "video.resolution_per_eye"
  let even := check (ranged.2 % 2 = 1)
    ⟨"video.resolution_per_eye",
      s!"{ranged.2} is odd, rounded down to {ranged.2 - 1}"⟩
    (ranged.2 - 1) ranged.2
  (ranged.1 ++ even.1, even.2)

def validateVideo (v : VideoConfig) : List ConfigError × VideoConfig :=
  let bitrate := validateRange v.bitrateMbps 10 200 80 "video.bitrate_mbps"
  let framerate := validateRange v.framerate 30 120 90 "video.framerate"
  let scale := validateF32Range v.resolutionScale (f32 5 10) (f32 1 1) (f32 1 1)
    "video.resolution_scale"
  let width := validateEdge v.resolutionPerEye.1 1832
  let height := validateEdge v.resolutionPerEye.2 1920
  (bitrate.1 ++ framerate.1 ++ scale.1 ++ width.1 ++ height.1,
    { v with
      bitrateMbps := bitrate.2
      framerate := framerate.2
      resolutionScale := scale.2
      resolutionPerEye := (width.2, height.2) })

def validateDisplay (d : DisplayConfig) : List ConfigError × DisplayConfig :=
  let ipd := validateF32Range d.ipd (f32 40 1000) (f32 90 1000) (f32 63 1000)
    "display.ipd"
  let photons := validateF32Range d.secondsFromVsyncToPhotons (f32 0 1) (f32 1 10)
    (f32 11 1000) "display.seconds_from_vsync_to_photons"
  (ipd.1 ++ photons.1, { ipd := ipd.2, secondsFromVsyncToPhotons := photons.2 })

/-- The deprecated `bitrate_pixel_factor` is taken out. -/
def validatePixelFactor (v : VideoConfig) : List ConfigError × VideoConfig :=
  (if v.bitratePixelFactor.isSome then
    [⟨"video.bitrate_pixel_factor",
      "is deprecated and ignored; the encoder bitrate is video.bitrate_mbps"⟩]
  else [], { v with bitratePixelFactor := none })

def validateFaceTracking (f : FaceTrackingConfig) :
    List ConfigError × FaceTrackingConfig :=
  let smoothing := validateF32Range f.smoothing (f32 0 1) (f32 99 100) (f32 6 10)
    "face_tracking.smoothing"
  (smoothing.1, ⟨smoothing.2⟩)

def validateSleepMode (s : SleepModeConfig) : List ConfigError × SleepModeConfig :=
  let timeout := validateRange s.timeoutSeconds 30 3600 300 "sleep_mode.timeout_seconds"
  let bitrate := validateRange s.sleepBitrateMbps 1 200 8 "sleep_mode.sleep_bitrate_mbps"
  let motion := check
    (s.motionThreshold ≤ f32 0 1 ∨ f32 1 10 < s.motionThreshold ∨
      s.motionThreshold.isNaN = true)
    ⟨"sleep_mode.motion_threshold", s!"{s.motionThreshold} invalid, clamped to 0.002"⟩
    (f32 2 1000) s.motionThreshold
  (timeout.1 ++ bitrate.1 ++ motion.1,
    { timeoutSeconds := timeout.2
      sleepBitrateMbps := bitrate.2
      motionThreshold := motion.2 })

/-- An audio field that is no setting any more: warn about another value. -/
def fixedAudio (field : String) (set : Option UInt32) (fixed : UInt32) :
    List ConfigError :=
  match set with
  | none => []
  | some value =>
      if value ≠ fixed then
        [⟨field, s!"{value} ignored: not a setting, the stream is always {fixed} (10 ms frames of 48 kHz stereo Opus)"⟩]
      else []

def validateAudio (a : AudioConfig) : List ConfigError × AudioConfig :=
  let bitrate := validateRange a.bitrateKbps 32 512 128 "audio.bitrate_kbps"
  (fixedAudio "audio.frame_size_ms" a.frameSizeMs 10 ++
      fixedAudio "audio.sample_rate" a.sampleRate 48000 ++
      fixedAudio "audio.channels" (a.channels.map UInt16.toUInt32) 2 ++ bitrate.1,
    { a with
      frameSizeMs := none
      sampleRate := none
      channels := none
      bitrateKbps := bitrate.2 })

def validatePairing (p : PairingConfig) : List ConfigError × PairingConfig :=
  let attempts := validateRange p.maxAttempts 1 10 5 "pairing.max_attempts"
  let lockout := validateRange p.lockoutSeconds 300 3600 300 "pairing.lockout_seconds"
  (attempts.1 ++ lockout.1, ⟨attempts.2, lockout.2⟩)

def validateMemoryMonitor (m : MemoryMonitorConfig) :
    List ConfigError × MemoryMonitorConfig :=
  let poll := validateRange m.pollIntervalSeconds 10 3600 60
    "memory_monitor.poll_interval_seconds"
  let growth := validateRange m.growthThresholdMb 1 100000 50
    "memory_monitor.growth_threshold_mb"
  (poll.1 ++ growth.1, ⟨poll.2, growth.2⟩)

/-- The values of `audio.synthetic_source`. -/
def syntheticSources : List String := ["off", "silence", "sine", "wav"]

def validateSynthetic (a : AudioConfig) : List ConfigError × AudioConfig :=
  let source := check (a.syntheticSource ∉ syntheticSources)
    ⟨"audio.synthetic_source",
      s!"must be \"off\", \"silence\", \"sine\", or \"wav\", got \"{a.syntheticSource}\""⟩
    "off" a.syntheticSource
  (source.1, { a with syntheticSource := source.2 })

def validateFoveated (f : FoveatedConfig) : List ConfigError × FoveatedConfig :=
  let fovea := check
    (f.foveaRadius ≤ f32 0 1 ∨ f32 5 10 < f.foveaRadius ∨ f.foveaRadius.isNaN = true)
    ⟨"foveated.fovea_radius", s!"{f.foveaRadius} invalid, clamped to 0.15"⟩
    defaultFoveaRadius f.foveaRadius
  let mid := check
    (f.midRadius ≤ fovea.2 ∨ f32 1 1 < f.midRadius ∨ f.midRadius.isNaN = true)
    ⟨"foveated.mid_radius",
      s!"{f.midRadius} invalid (must be > fovea_radius), clamped to 0.35"⟩
    defaultMidRadius f.midRadius
  let midQp := validateRange f.midQpOffset 0 51 5 "foveated.mid_qp_offset"
  let peripheralQp := validateRange f.peripheralQpOffset 0 51 10
    "foveated.peripheral_qp_offset"
  (fovea.1 ++ mid.1 ++ midQp.1 ++ peripheralQp.1,
    { foveaRadius := fovea.2
      midRadius := mid.2
      midQpOffset := midQp.2
      peripheralQpOffset := peripheralQp.2 })

/-- The range checks of the thermal section. -/
def validateThermalRanges (t : ThermalConfig) : List ConfigError × ThermalConfig :=
  let warn := validateRange t.warnCelsius 50 100 defaultThermalWarnCelsius
    "thermal.warn_celsius"
  let limit := validateRange t.limitCelsius 50 105 defaultThermalLimitCelsius
    "thermal.limit_celsius"
  let emergency := validateRange t.emergencyCelsius 50 110 defaultThermalEmergencyCelsius
    "thermal.emergency_celsius"
  let poll := validateRange t.pollIntervalSeconds 1 600 5 "thermal.poll_interval_seconds"
  let recovery := validateRange t.recoverySeconds 1 600 30 "thermal.recovery_seconds"
  (warn.1 ++ limit.1 ++ emergency.1 ++ poll.1 ++ recovery.1,
    { warnCelsius := warn.2
      limitCelsius := limit.2
      emergencyCelsius := emergency.2
      pollIntervalSeconds := poll.2
      recoverySeconds := recovery.2 })

/-- The order of the thermal thresholds. -/
def validateThermalOrder (t : ThermalConfig) : List ConfigError × ThermalConfig :=
  let low := check (t.warnCelsius ≥ t.limitCelsius)
    ⟨"thermal.limit_celsius",
      s!"limit ({t.limitCelsius}) must be > warn ({t.warnCelsius}), reset to defaults"⟩
    { t with
      warnCelsius := defaultThermalWarnCelsius
      limitCelsius := defaultThermalLimitCelsius } t
  let high := check (low.2.limitCelsius ≥ low.2.emergencyCelsius)
    ⟨"thermal.emergency_celsius",
      s!"emergency ({low.2.emergencyCelsius}) must be > limit ({low.2.limitCelsius}), reset to defaults"⟩
    { low.2 with
      limitCelsius := defaultThermalLimitCelsius
      emergencyCelsius := defaultThermalEmergencyCelsius } low.2
  (low.1 ++ high.1, high.2)

/-- `AppConfig::validate`: the errors and the repaired config. -/
def validate (c : AppConfig) : Option (List ConfigError × AppConfig) :=
  let ports := validatePorts c.network
  match validateFec ports.2 with
  | none => none
  | some fec =>
      let modes := validateModes fec.2
      let video := validateVideo c.video
      let display := validateDisplay c.display
      let pixelFactor := validatePixelFactor video.2
      let faceTracking := validateFaceTracking c.faceTracking
      let sleepMode := validateSleepMode c.sleepMode
      let audio := validateAudio c.audio
      let pairing := validatePairing c.pairing
      let memoryMonitor := validateMemoryMonitor c.memoryMonitor
      let synthetic := validateSynthetic audio.2
      let foveated := validateFoveated c.foveated
      let ranges := validateThermalRanges c.thermal
      let thermal := validateThermalOrder ranges.2
      some (ports.1 ++ fec.1 ++ modes.1 ++ video.1 ++ display.1 ++ pixelFactor.1 ++
          faceTracking.1 ++ sleepMode.1 ++ audio.1 ++ pairing.1 ++ memoryMonitor.1 ++
          synthetic.1 ++ foveated.1 ++ ranges.1 ++ thermal.1,
        { network := modes.2
          video := pixelFactor.2
          display := display.2
          faceTracking := faceTracking.2
          sleepMode := sleepMode.2
          audio := synthetic.2
          pairing := pairing.2
          memoryMonitor := memoryMonitor.2
          foveated := foveated.2
          thermal := thermal.2 })

/-- `From<&PairingConfig> for PairingLimits`. -/
def PairingLimits.ofConfig (p : PairingConfig) : PairingLimits :=
  ⟨p.maxAttempts.toNat, p.lockoutSeconds.toNat * MICROS⟩

end Engine
end FocusVision

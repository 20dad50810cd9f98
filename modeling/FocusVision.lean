import FocusVision.Client.AudioPlayer
import FocusVision.Client.DecoderBuffers
import FocusVision.Client.FecDecoderCorrect
import FocusVision.Client.FrameAccounting
import FocusVision.Client.JitterBuffer
import FocusVision.Client.LaunchHandOver
import FocusVision.Client.LossyDelivery
import FocusVision.Client.LossyFrame
import FocusVision.Client.PacketLoss
import FocusVision.Client.PairingProgress
import FocusVision.Client.PoppedChain
import FocusVision.Client.ReceiverSessions
import FocusVision.Client.RenderPoses
import FocusVision.Client.SessionIsolation
import FocusVision.Client.TrustOnFirstUse
import FocusVision.Client.WireAgreement
import FocusVision.Companion.LocalConfigKept
import FocusVision.Companion.MaskedValues
import FocusVision.Companion.SanitizeFaithful
import FocusVision.Driver.IdrRequests
import FocusVision.Driver.SkippedFrames
import FocusVision.Driver.SwapTexturesKept
import FocusVision.Engine.ConfigLayers
import FocusVision.Engine.ConfigSafe
import FocusVision.Engine.ConnectionGuesses
import FocusVision.Engine.ControlFraming
import FocusVision.Engine.DelayGradient
import FocusVision.Engine.FaceExpression
import FocusVision.Engine.FecBoost
import FocusVision.Engine.FecLayout
import FocusVision.Engine.FrameLoopBitrate
import FocusVision.Engine.IdentityKept
import FocusVision.Engine.LossRate
import FocusVision.Engine.OscWire
import FocusVision.Engine.PairedHeadset
import FocusVision.Engine.PairingLockout
import FocusVision.Engine.PairingRate
import FocusVision.Engine.PinLifetime
import FocusVision.Engine.ReassemblerOrder
import FocusVision.Engine.RecordingSurvives
import FocusVision.Engine.ResamplerChunks
import FocusVision.Engine.RtpRoundTrip
import FocusVision.Engine.RtpSequence
import FocusVision.Engine.SettingsKept
import FocusVision.Engine.SliceSizes
import FocusVision.Engine.ThermalCap

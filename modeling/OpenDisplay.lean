import OpenDisplay.Protocol.FramingRoundTrip
import OpenDisplay.Protocol.SpsRoundTrip
import OpenDisplay.Protocol.SpsArithmetic
import OpenDisplay.Protocol.ExpGolomb
import OpenDisplay.Protocol.SpsTrailing
import OpenDisplay.Protocol.FramingBounds
import OpenDisplay.Protocol.SliceHeader
import OpenDisplay.Protocol.ControlStrings
import OpenDisplay.Net.SessionReserialize
import OpenDisplay.Protocol.ControlNumbers
import OpenDisplay.App.SessionHello
import OpenDisplay.App.AdaptiveHello
import OpenDisplay.App.VideoCallback
import OpenDisplay.App.Pipeline
import OpenDisplay.App.LifetimeOnce
import OpenDisplay.App.SessionReap
import OpenDisplay.App.QueueHistory
import OpenDisplay.App.Stats
import OpenDisplay.App.KeyframeRequests
import OpenDisplay.App.LatencyArithmetic
import OpenDisplay.Video.DecoderTimes
import OpenDisplay.Video.DecoderCrop
import OpenDisplay.App.Touch
import OpenDisplay.App.HelloId
import OpenDisplay.App.ConfigSpacing
import OpenDisplay.App.ConfigSize
import OpenDisplay.App.TouchCoordinates
import OpenDisplay.Net.SendControl
import OpenDisplay.Net.SessionCorrupt
import OpenDisplay.Net.SessionHandover
import OpenDisplay.Net.MdnsRestart
import OpenDisplay.Render.PresentRuns
import OpenDisplay.Render.InputMapping
import OpenDisplay.App.LifetimeWaits
import OpenDisplay.Net.MdnsLan
import OpenDisplay.App.ScreenOrder
import OpenDisplay.App.QueueWaiting
import OpenDisplay.App.ControlChannel
import OpenDisplay.Tools.SimSession
import OpenDisplay.App.RoundTrip
import OpenDisplay.App.SimStream

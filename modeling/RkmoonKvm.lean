import RkmoonKvm.Library.Runs
import RkmoonKvm.Library.Await
import RkmoonKvm.Hid.Event
import RkmoonKvm.Hid.Lease
import RkmoonKvm.Hid.Device
import RkmoonKvm.Hid.Tracking
import RkmoonKvm.Hid.Direct
import RkmoonKvm.Hid.Streamed
import RkmoonKvm.Video.Wire
import RkmoonKvm.Video.Annexb
import RkmoonKvm.Video.Nal
import RkmoonKvm.Video.Gate
import RkmoonKvm.Video.Worker
import RkmoonKvm.Video.Bridge
import RkmoonKvm.Hid.Handler
import RkmoonKvm.Hid.Turn
import RkmoonKvm.Hid.Server
import RkmoonKvm.Hid.Shutdown
import RkmoonKvm.Hid.Probe
import RkmoonKvm.Hid.Queues
import RkmoonKvm.Hid.Pipeline
import RkmoonKvm.Client.Window
import RkmoonKvm.Client.Retry
import RkmoonKvm.Video.Display
import RkmoonKvm.Video.Level
import RkmoonKvm.Agreement
import RkmoonKvm.Library.LittleEndian
import RkmoonKvm.Video.Header
import RkmoonKvm.Library.Transfer
import RkmoonKvm.Video.Framing
import RkmoonKvm.Library.Log
import RkmoonKvm.Video.Session
import RkmoonKvm.Video.Rate
import RkmoonKvm.Client.Reconnect
import RkmoonKvm.Library.Base64
import RkmoonKvm.Library.Bucket
import RkmoonKvm.Sunshine.Password
import RkmoonKvm.Client.Auth
import RkmoonKvm.Client.Host
import RkmoonKvm.Hid.Aliases
import RkmoonKvm.Hid.Calm
import RkmoonKvm.Hid.Bounded
import RkmoonKvm.Hid.Motion
import RkmoonKvm.Library.Rounding
import RkmoonKvm.Library.Interval
import RkmoonKvm.Video.Colour
import RkmoonKvm.Library.Buffer
import RkmoonKvm.Video.Pixels
import RkmoonKvm.Video.Staging
import RkmoonKvm.Library.StreamReader
import RkmoonKvm.Hid.WebSocket
import RkmoonKvm.Hid.Flush
import RkmoonKvm.Library.Json
import RkmoonKvm.Hid.LineProtocol
import RkmoonKvm.Library.Fallible
import RkmoonKvm.Video.V4l2
import RkmoonKvm.Video.Drain
import RkmoonKvm.Client.AudioKeys
import RkmoonKvm.Client.Debounce
import RkmoonKvm.Hid.Pacing
import RkmoonKvm.Sunshine.Audio
import RkmoonKvm.Library.Numeral
import RkmoonKvm.Hid.HttpBody
import RkmoonKvm.Tools.Config
import RkmoonKvm.Tools.Overlay
import RkmoonKvm.Video.Credit
import RkmoonKvm.Video.Arguments
import RkmoonKvm.Video.Placeholder
import RkmoonKvm.Sunshine.Cadence
import RkmoonKvm.Sunshine.Keeper
import RkmoonKvm.Hid.Neutral
import RkmoonKvm.Tools.Supervisor
import RkmoonKvm.Library.Signed
import RkmoonKvm.Hid.Payload
import RkmoonKvm.Library.Blocks
import RkmoonKvm.Tools.Edid
import RkmoonKvm.Library.Relay
import RkmoonKvm.Hid.Heartbeat
import RkmoonKvm.Video.Packets
import RkmoonKvm.Library.Query
import RkmoonKvm.Library.RequestHead
import RkmoonKvm.Hid.Request
import RkmoonKvm.Sunshine.Access
import RkmoonKvm.Library.JsonText
import RkmoonKvm.Tools.Package

import MikaAudio.Codec
import MikaAudio.Session.Safety
import MikaAudio.Session.Delivery
import MikaAudio.Session.Ports
import MikaAudio.Session.Modes
import MikaAudio.Session.Toggle
import MikaAudio.Session.Commands
import MikaAudio.Session.Shown
import MikaAudio.Session.Assembly
import MikaAudio.Session.Touches
import MikaAudio.Server.FrameLoop
import MikaAudio.Session.Mirror
import MikaAudio.Server.Screen
import MikaAudio.Server.Debounce
import MikaAudio.Server.Batches
import MikaAudio.Server.IrPace
import MikaAudio.Server.Retry
import MikaAudio.Server.Leaving
import MikaAudio.Server.Stops
import MikaAudio.Server.Exclusive
import MikaAudio.Server.Cleanup
import MikaAudio.Server.Merge
import MikaAudio.Server.Isolation
import MikaAudio.Server.Screens
import MikaAudio.Server.Waiting
import MikaAudio.Server.Shutdown
import MikaAudio.Server.Registry
import MikaAudio.Server.Motion
import MikaAudio.Server.Heartbeat
import MikaAudio.Server.Beats
import MikaAudio.Client.Touch
import MikaAudio.Client.TouchBytes
import MikaAudio.Client.Connect
import MikaAudio.Client.Datagrams
import MikaAudio.Client.Attempts
import MikaAudio.Client.Discovery
import MikaAudio.Client.Buttons
import MikaAudio.Client.Activity
import MikaAudio.Client.Clicks
import MikaAudio.Client.FrameCalls
import MikaAudio.Client.Display
import MikaAudio.Client.Drawing
import MikaAudio.Client.HangUp

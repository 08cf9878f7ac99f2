import Twinkleshine.RingFifo
import Twinkleshine.RingReserve
import Twinkleshine.Parser.Pipeline
import Twinkleshine.Parser.AcceptLanguage
import Twinkleshine.Parser.Finger
import Twinkleshine.Parser.HeaderBytes
import Twinkleshine.Session
import Twinkleshine.Processor.Guppy
import Twinkleshine.Processor.Normalize
import Twinkleshine.Processor.Wrap
import Twinkleshine.Processor.PrintHttp
import Twinkleshine.Processor.PrintGopher
import Twinkleshine.Segments
import Twinkleshine.Encoding
import Twinkleshine.Directive
import Twinkleshine.Output.Open
import Twinkleshine.Output.Names
import Twinkleshine.Output.Account
import Twinkleshine.Server.Messages
import Twinkleshine.Server.Reset
import Twinkleshine.Server.Processing
import Twinkleshine.Server.HighLevel
import Twinkleshine.Server.Limit
import Twinkleshine.Server.Endpoint
import Twinkleshine.Server.Acknowledge
import Twinkleshine.Server.Correction
import Twinkleshine.Server.ErrorPackage
import Twinkleshine.Server.Transmission
import Twinkleshine.Holdings
import Twinkleshine.Server.Shuffle
import Twinkleshine.Server.Serving
import Twinkleshine.Server.Rounds
import Twinkleshine.Server.Intake
import Twinkleshine.Server.Requests
import Twinkleshine.Server.Deadlines
import Twinkleshine.Server.LastWords
import Twinkleshine.Server.Transfer
import Twinkleshine.Server.Listening
import Twinkleshine.GenericBuffer
import Twinkleshine.Random
import Twinkleshine.Processor.Site

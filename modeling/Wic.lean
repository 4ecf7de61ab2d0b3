import Wic.Commons.Base64
import Wic.Commons.Monitor
import Wic.Handshake.Init
import Wic.Handshake.Nonce
import Wic.Handshake.Registration
import Wic.Http.Spans
import Wic.Mbed.Control
import Wic.Mbed.Jobs
import Wic.Mbed.Line
import Wic.Mbed.Verdicts
import Wic.Runs.Arrivals
import Wic.Runs.Attained
import Wic.Runs.Closing
import Wic.Runs.Cuts
import Wic.Runs.Delivery
import Wic.Runs.Ends
import Wic.Runs.Frames
import Wic.Runs.Headers
import Wic.Runs.Leases
import Wic.Runs.Masks
import Wic.Runs.Messages
import Wic.Runs.Outcomes
import Wic.Runs.Polls
import Wic.Runs.Pongs
import Wic.Runs.Texts
import Wic.Sender.Legal
import Wic.Sender.Sizes

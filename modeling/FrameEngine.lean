import FrameEngine.Accumulator
import FrameEngine.Backoff
import FrameEngine.Checksum
import FrameEngine.Deadline
import FrameEngine.Decimal.Layout
import FrameEngine.Decimal.Literal
import FrameEngine.EngineError
import FrameEngine.Framing
import FrameEngine.Framing.Codec
import FrameEngine.Json.Reader
import FrameEngine.Message
import FrameEngine.Metrics
import FrameEngine.SendQueue
import FrameEngine.TokenBucket
import FrameEngine.Toml.Reader
import FrameEngine.Files.Tree
import FrameEngine.Net.SocketAddress
import FrameEngine.Toml.Printer
import FrameEngine.Settings.Loading
import FrameEngine.Handler
import FrameEngine.Handler.Standard
import FrameEngine.Handler.Dispatcher
import FrameEngine.Handler.Plan
import FrameEngine.Connection.Basic
import FrameEngine.Connection.Callbacks
import FrameEngine.Connection.Reading
import FrameEngine.Connection.Writing
import FrameEngine.Connection.Step
import FrameEngine.Bench
import FrameEngine.Bench.Script
import FrameEngine.Net.Link
import FrameEngine.Net.Dialer
import FrameEngine.Server.Basic
import FrameEngine.Server.Step
import FrameEngine.Client.Basic
import FrameEngine.Client.Step
import FrameEngine.Net.Isolated
import FrameEngine.Words
import FrameEngine.Proofs.Framing.RoundTrip
import FrameEngine.Proofs.Framing.Reassembly
import FrameEngine.Proofs.Framing.Progress
import FrameEngine.Proofs.Framing.Corruption
import FrameEngine.Proofs.Text.Utf8
import FrameEngine.Proofs.Json.Tokens
import FrameEngine.Proofs.Decimal.Rounding
import FrameEngine.Proofs.Decimal.Shortest
import FrameEngine.Proofs.Json.Reals
import FrameEngine.Proofs.Json.RoundTrip
import FrameEngine.Proofs.Framing.Body
import FrameEngine.Proofs.Framing.Acceptance
import FrameEngine.Proofs.Connection.Effects
import FrameEngine.Proofs.Connection.Reception
import FrameEngine.Proofs.Connection.Quiet
import FrameEngine.Proofs.Connection.WriteJob
import FrameEngine.Proofs.Connection.Outgoing
import FrameEngine.Proofs.Framing.Resync
import FrameEngine.Proofs.Client.Links
import FrameEngine.Proofs.Connection.Silence
import FrameEngine.Proofs.Connection.Counting
import FrameEngine.Proofs.Connection.Still
import FrameEngine.Proofs.Connection.Intake
import FrameEngine.Proofs.Connection.Delivery
import FrameEngine.Proofs.Net.Link
import FrameEngine.Proofs.Server.Admission
import FrameEngine.Proofs.Connection.Handover
import FrameEngine.Proofs.Server.Shutdown
import FrameEngine.Proofs.Client.Reading
import FrameEngine.Proofs.Connection.Calm
import FrameEngine.Proofs.TokenBucket
import FrameEngine.Proofs.Connection.Ages
import FrameEngine.Proofs.Connection.Idleness
import FrameEngine.Proofs.Connection.Allowance
import FrameEngine.Proofs.Connection.Release
import FrameEngine.Proofs.Connection.Retries
import FrameEngine.Proofs.Server.Totals
import FrameEngine.Proofs.Client.Slot
import FrameEngine.Proofs.Framing.Limits
import FrameEngine.Proofs.Framing.Search
import FrameEngine.Proofs.Connection.Buffer
import FrameEngine.Proofs.Connection.Attempts
import FrameEngine.Proofs.Connection.Origins
import FrameEngine.Proofs.Backoff
import FrameEngine.Proofs.SendQueue
import FrameEngine.Proofs.Connection.Supply
import FrameEngine.Proofs.Server.Broadcast
import FrameEngine.Proofs.Connection.Streaks
import FrameEngine.Proofs.Client.Dialing
import FrameEngine.Proofs.Json.Written
import FrameEngine.Proofs.Json.Reading
import FrameEngine.Proofs.Json.Skipping
import FrameEngine.Proofs.Framing.Spelling
import FrameEngine.Proofs.Decimal.Nearest
import FrameEngine.Proofs.Toml.Strings
import FrameEngine.Proofs.Decimal.Positional
import FrameEngine.Proofs.Toml.Scalars
import FrameEngine.Proofs.Toml.Documents
import FrameEngine.Proofs.Toml.Tables
import FrameEngine.Proofs.Settings.Restriction
import FrameEngine.Proofs.Settings.Saving
import FrameEngine.Proofs.Bench

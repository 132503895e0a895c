import FramedDuplex.Converter.Standard
import FramedDuplex.Schema.Build
import FramedDuplex.Schema.Render
import FramedDuplex.Time.Civil
import FramedDuplex.Key
import FramedDuplex.Message
import FramedDuplex.Codec.Basic
import FramedDuplex.Codec.Serialize
import FramedDuplex.Codec.Decode
import FramedDuplex.Codec.Assembly
import FramedDuplex.Pool.Basic
import FramedDuplex.Pool.Ledger
import FramedDuplex.Link.Lifecycle
import FramedDuplex.Link.Counters
import FramedDuplex.Settings.Error
import FramedDuplex.Link.Error
import FramedDuplex.Codec.Render
import FramedDuplex.Handles
import FramedDuplex.Exchange.Table
import FramedDuplex.Exchange.Basic
import FramedDuplex.Exchange.Run
import FramedDuplex.Text.Digits
import FramedDuplex.Link.Config
import FramedDuplex.Link.Address
import FramedDuplex.Link.Wire
import FramedDuplex.Link.Pipe
import FramedDuplex.Link.Outbox
import FramedDuplex.Link.Basic
import FramedDuplex.Link.Settle
import FramedDuplex.Client.Basic
import FramedDuplex.Client.Send
import FramedDuplex.Client.Run
import FramedDuplex.Yaml.Spot
import FramedDuplex.Yaml.Scalar
import FramedDuplex.Yaml.Word
import FramedDuplex.Yaml.Scope
import FramedDuplex.Yaml.Token
import FramedDuplex.Yaml.Lexer
import FramedDuplex.Yaml.Node
import FramedDuplex.Yaml.Document
import FramedDuplex.Yaml.Meaning
import FramedDuplex.Yaml.Style
import FramedDuplex.Settings.Basic
import FramedDuplex.Settings.File
import FramedDuplex.Settings.Overrides
import FramedDuplex.Proofs.Bytes.LittleEndian
import FramedDuplex.Proofs.Text.Utf8
import FramedDuplex.Proofs.Time.Instant
import FramedDuplex.Proofs.Converter.Restorable
import FramedDuplex.Proofs.Schema.Framed
import FramedDuplex.Proofs.Schema.Fields
import FramedDuplex.Proofs.Codec.Window
import FramedDuplex.Proofs.Codec.RoundTrip
import FramedDuplex.Proofs.Exchange.Table
import FramedDuplex.Proofs.Exchange.Place
import FramedDuplex.Proofs.Exchange.Board
import FramedDuplex.Proofs.Exchange.Answers
import FramedDuplex.Proofs.Exchange.Kept
import FramedDuplex.Proofs.Exchange.Turn
import FramedDuplex.Proofs.Exchange.Shift
import FramedDuplex.Proofs.Exchange.Map
import FramedDuplex.Proofs.Exchange.Once
import FramedDuplex.Proofs.Exchange.Order
import FramedDuplex.Proofs.Codec.Front
import FramedDuplex.Proofs.Codec.Feed
import FramedDuplex.Proofs.Codec.Reader
import FramedDuplex.Proofs.Exchange.Met
import FramedDuplex.Proofs.Exchange.Fifo
import FramedDuplex.Proofs.Exchange.Slots
import FramedDuplex.Proofs.Exchange.Represents
import FramedDuplex.Proofs.Exchange.Layout
import FramedDuplex.Proofs.Exchange.Woken
import FramedDuplex.Proofs.Link.Deed
import FramedDuplex.Proofs.Client.Journal
import FramedDuplex.Proofs.Exchange.Ended
import FramedDuplex.Proofs.Link.Ended
import FramedDuplex.Proofs.Client.FailFast
import FramedDuplex.Proofs.Link.Written
import FramedDuplex.Proofs.Client.Outcome
import FramedDuplex.Proofs.Client.Sent
import FramedDuplex.Proofs.Codec.Stream
import FramedDuplex.Proofs.Link.Intake
import FramedDuplex.Proofs.Link.Idle
import FramedDuplex.Proofs.Client.Delivered
import FramedDuplex.Proofs.Schema.Made
import FramedDuplex.Proofs.Schema.Sound
import FramedDuplex.Proofs.Codec.LaidOut
import FramedDuplex.Proofs.Codec.Grammar
import FramedDuplex.Proofs.Codec.Prepared
import FramedDuplex.Proofs.Exchange.Part
import FramedDuplex.Proofs.Exchange.Attended
import FramedDuplex.Proofs.Exchange.Owners
import FramedDuplex.Proofs.Exchange.Isolated
import FramedDuplex.Proofs.Exchange.Traceless
import FramedDuplex.Proofs.Exchange.Cursors
import FramedDuplex.Proofs.Codec.TextBody
import FramedDuplex.Proofs.Schema.Lengths
import FramedDuplex.Proofs.Codec.Left
import FramedDuplex.Proofs.Codec.Overwritten
import FramedDuplex.Proofs.Codec.Unread
import FramedDuplex.Proofs.Converter.Settled
import FramedDuplex.Proofs.Codec.Settled
import FramedDuplex.Proofs.Exchange.LetGo
import FramedDuplex.Proofs.Client.Apart
import FramedDuplex.Proofs.Client.Precedence
import FramedDuplex.Proofs.Bytes.BigEndian
import FramedDuplex.Proofs.Schema.Unturned
import FramedDuplex.Proofs.Codec.Turning
import FramedDuplex.Proofs.Codec.Reordered
import FramedDuplex.Proofs.Codec.Consulted
import FramedDuplex.Pool.InPlace
import FramedDuplex.Proofs.Pool.InPlace
import FramedDuplex.Proofs.Pool.Limits
import FramedDuplex.Proofs.Pool.Accounts
import FramedDuplex.Proofs.Converter.Timestamps
import FramedDuplex.Proofs.Text.Ascii
import FramedDuplex.Proofs.Text.Digits
import FramedDuplex.Proofs.Settings.Readings
import FramedDuplex.Proofs.Settings.Fields
import FramedDuplex.Proofs.Settings.Layers
import FramedDuplex.Proofs.Yaml.Scalar
import FramedDuplex.Proofs.Yaml.Lines
import FramedDuplex.Proofs.Yaml.Document
import FramedDuplex.Proofs.Settings.Saved

import SshDial.Rehearsal.Play
import SshDial.Rehearsal.Visit
import SshDial.Proofs.Config.Reader
import SshDial.Proofs.Config.Expansion
import SshDial.Proofs.Config.Outline
import SshDial.Proofs.Settings.Resolution
import SshDial.Proofs.Text.Lines
import SshDial.Proofs.Settings.Continuation
import SshDial.Proofs.Settings.Insertion
import SshDial.Proofs.Relay.Act
import SshDial.Proofs.Relay.Move
import SshDial.Proofs.Relay.Exit
import SshDial.Proofs.Relay.Drop
import SshDial.Proofs.Relay.Warning
import SshDial.Proofs.Relay.Escalation
import SshDial.Proofs.Number.Decimal
import SshDial.Proofs.Number.Rounding
import SshDial.Proofs.Proxy.Request
import SshDial.Proofs.Config.Nesting
import SshDial.Proofs.Settings.Precedence
import SshDial.Proofs.Relay.Feed
import SshDial.Proofs.Relay.Delivery
import SshDial.Proofs.Relay.Faithful
import SshDial.Proofs.Relay.InputOrder
import SshDial.Proofs.Log.Masking
import SshDial.Proofs.Log.Named
import SshDial.Proofs.Log.NamedSecret
import SshDial.Proofs.Log.Fence
import SshDial.Proofs.Log.KeyBlock
import SshDial.Proofs.Log.Redaction
import SshDial.Proofs.Proxy.Hop
import SshDial.Proofs.Proxy.JumpCommand
import SshDial.Proofs.Config.Location
import SshDial.Proofs.Relay.Answer
import SshDial.Proofs.Connection.Transport
import SshDial.Proofs.Connection.Cleanup
import SshDial.Proofs.Config.Quoting
import SshDial.Proofs.Config.Writing
import SshDial.Proofs.Config.RoundTrip
import SshDial.Proofs.Settings.LetterCase
import SshDial.Proofs.Config.Limit
import SshDial.Proofs.Config.Concatenation
import SshDial.Proofs.Relay.Life
import SshDial.Proofs.Settings.Lead
import SshDial.Proofs.Settings.Rivals
import SshDial.Proofs.Settings.Paths
import SshDial.Proofs.Template
import SshDial.Proofs.Connection.PortChoice
import SshDial.Proofs.Log.Fields
import SshDial.Proofs.Pattern.Glob
import SshDial.Proofs.Words
import SshDial.Proofs.Proxy.JumpChain
import SshDial.Proofs.Config.Conditions
import SshDial.Proofs.Template.Items
import SshDial.Proofs.Config.Comment
import SshDial.Proofs.Config.Value
import SshDial.Proofs.Config.LineLayout
import SshDial.Proofs.Config.Layout
import SshDial.Proofs.Connection.Settling
import SshDial.Proofs.Config.Inclusion
import SshDial.Proofs.Settings.Aliases

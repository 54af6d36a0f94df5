import Piggy.Core.Codec
import Piggy.Core.Lists
import Piggy.Core.Text
import Piggy.Core.Bits
import Piggy.Core.Prog
import Piggy.Core.Runes
import Piggy.Markl.Format
import Piggy.Markl.Purpose
import Piggy.Markl.Blech32
import Piggy.Markl.Id
import Piggy.Markl.Spelling
import Piggy.Ids.RecipientFile
import Piggy.Box.Error
import Piggy.Box.Wire
import Piggy.Box.PivBox
import Piggy.Box.Part
import Piggy.Box.Template
import Piggy.Box.Ebox
import Piggy.Box.OpenSsl
import Piggy.Box.Seal
import Piggy.Box.Unlock
import Piggy.Box.Stream
import Piggy.Box.HeaderLayout
import Piggy.Box.Sealed
import Piggy.Box.Opening
import Piggy.Box.Frames
import Piggy.Box.RoundTrip
import Piggy.Box.Encryptors
import Piggy.Box.Integrity
import Piggy.Box.Recipients
import Piggy.Box.WireRoundTrip
import Piggy.Pigpen.Hyphence
import Piggy.Pigpen.Document
import Piggy.Pigpen.Marks
import Piggy.Pigpen.Lines
import Piggy.Pigpen.Reserialize
import Piggy.Pigpen.Binding
import Piggy.Pass.Skip
import Piggy.Box.Calls
import Piggy.Card.Session
import Piggy.Card.Oracle
import Piggy.Store.Path
import Piggy.Store.Fs
import Piggy.Batch.Agreement
import Piggy.Batch.Run
import Piggy.Batch.Oracle
import Piggy.Secrets.Reconcile
import Piggy.Batch.OnePrompt
import Piggy.Batch.Report
import Piggy.Secrets.World
import Piggy.Secrets.History
import Piggy.Secrets.Converge
import Piggy.Agent.Presence
import Piggy.Pass.Add
import Piggy.Pass.Remove
import Piggy.Go.Base
import Piggy.Go.Blech32
import Piggy.Go.Decoders
import Piggy.Go.Purpose
import Piggy.Go.Id
import Piggy.Go.Receivers
import Piggy.Go.Conformance
import Piggy.Go.Invariant
import Piggy.Go.Strings
import Piggy.Core.Runs
import Piggy.Agent.Offers
import Piggy.Agent.Locking
import Piggy.Agent.Selection
import Piggy.Agent.Events
import Piggy.Agent.Unseen
import Piggy.Agent.Upstream
import Piggy.Agent.Routing
import Piggy.Clip.Restore
import Piggy.Provision.MgmtKey
import Piggy.Provision.Commands
import Piggy.Provision.Frame
import Piggy.Box.BoxCodec
import Piggy.Box.TemplateCodec
import Piggy.Box.UnlockOrder
import Piggy.Fibby.VirtualCard
import Piggy.Fibby.DataObjects
import Piggy.Fibby.Isolation
import Piggy.Fibby.Waiters
import Piggy.Piv.SessionEnd
import Piggy.Markl.Detection
import Piggy.Pigpen.Payload
import Piggy.Box.RecoverRuns
import Piggy.Go.Lock
import Piggy.Pass.Sync
import Piggy.Provision.Notices
import Piggy.Fibby.PinAlways
import Piggy.Fibby.FactoryReset
import Piggy.Fibby.Provenance
import Piggy.Fibby.Removal
import Piggy.Fibby.Touches
import Piggy.Piv.Chaining
import Piggy.Piv.TlvCodec
import Piggy.Piv.PinDiscipline
import Piggy.Agent.SshSignature
import Piggy.Go.RecipientSet
import Piggy.Pass.Generate
import Piggy.Piv.BitErrors
import Piggy.Age.Unwrap
import Piggy.Ecdh.Agreement
import Piggy.Store.Lookup
import Piggy.Piv.Attested
import Piggy.Store.Labels
import Piggy.Go.Legacy
import Piggy.Go.Open
import Piggy.Secrets.Frame
import Piggy.Pigpen.Backed
import Piggy.Box.Rebox
import Piggy.Ecdh.BoxReads
import Piggy.Agent.Rebox
import Piggy.Agent.Reboxed

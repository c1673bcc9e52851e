import Pickaxe.Bot.Basic
import Pickaxe.Bot.Config
import Pickaxe.Bot.Error
import Pickaxe.Bot.Playing
import Pickaxe.Bot.Remote
import Pickaxe.Client.Inbox
import Pickaxe.Client.Line
import Pickaxe.Client.Login
import Pickaxe.Client.Outbox
import Pickaxe.Client.StatusPing
import Pickaxe.Client.Talk
import Pickaxe.Clock
import Pickaxe.CommandLine.Arguments
import Pickaxe.CommandLine.Invocation
import Pickaxe.CommandLine.Report
import Pickaxe.Component
import Pickaxe.Decimal.Shortest
import Pickaxe.Duration
import Pickaxe.Json.Basic
import Pickaxe.Json.Decoder
import Pickaxe.Json.Document
import Pickaxe.Json.Number
import Pickaxe.Json.Scanner
import Pickaxe.Json.Value
import Pickaxe.Json.Writer
import Pickaxe.Live.Bot
import Pickaxe.Live.Connection
import Pickaxe.Live.Files
import Pickaxe.Main
import Pickaxe.Mining.Config
import Pickaxe.Mining.Machine
import Pickaxe.Mining.Session
import Pickaxe.Mining.Site
import Pickaxe.Mining.State
import Pickaxe.Nbt
import Pickaxe.Negotiation.Candidates
import Pickaxe.Negotiation.Config
import Pickaxe.Negotiation.Controller
import Pickaxe.Negotiation.Error
import Pickaxe.Negotiation.Inquiry
import Pickaxe.Negotiation.Record
import Pickaxe.Negotiation.Script
import Pickaxe.Negotiation.StateDir
import Pickaxe.Negotiation.Store
import Pickaxe.Negotiation.Trial
import Pickaxe.Packet.Configuration
import Pickaxe.Packet.Handshake
import Pickaxe.Packet.Login
import Pickaxe.Packet.Play
import Pickaxe.Packet.Status
import Pickaxe.Play.Command
import Pickaxe.Play.Session
import Pickaxe.Play.Shutdown
import Pickaxe.Proofs.Negotiation.Run
import Pickaxe.Proofs.Negotiation.Store
import Pickaxe.Proofs.Negotiation.Trials
import Pickaxe.Server.Endpoint
import Pickaxe.Server.Status
import Pickaxe.Text.Blank
import Pickaxe.Text.Hex
import Pickaxe.Text.Hidden
import Pickaxe.Text.Lowercase
import Pickaxe.Text.Quoted
import Pickaxe.Text.Utf8
import Pickaxe.Wire.Error
import Pickaxe.Wire.Field
import Pickaxe.Wire.Frame
import Pickaxe.Wire.Reader
import Pickaxe.Wire.Transport
import Pickaxe.Wire.Varint
import Pickaxe.World.Action
import Pickaxe.World.Block
import Pickaxe.World.Event
import Pickaxe.World.Pose
import Pickaxe.Proofs.Negotiation.Walk
import Pickaxe.Proofs.Negotiation.Restore
import Pickaxe.Proofs.Negotiation.Resume
import Pickaxe.Proofs.Negotiation.Ledger
import Pickaxe.Proofs.Negotiation.Visits
import Pickaxe.Proofs.Json.Written
import Pickaxe.Proofs.Negotiation.Alike
import Pickaxe.Proofs.Negotiation.Lawful
import Pickaxe.Proofs.Negotiation.Files
import Pickaxe.Proofs.Negotiation.Account
import Pickaxe.Proofs.Negotiation.Turns
import Pickaxe.Proofs.Negotiation.Authority
import Pickaxe.Proofs.Negotiation.Failures
import Pickaxe.Proofs.Negotiation.Forced
import Pickaxe.Proofs.Negotiation.Cleaning
import Pickaxe.Proofs.Json.Cut
import Pickaxe.Proofs.Json.Line
import Pickaxe.Proofs.Mining.Session
import Pickaxe.Proofs.Negotiation.Answers
import Pickaxe.Proofs.Negotiation.Interrupted
import Pickaxe.Proofs.Mining.Moves
import Pickaxe.Proofs.Mining.Stopping
import Pickaxe.Proofs.Mining.Attendance
import Pickaxe.Proofs.Mining.Wear
import Pickaxe.Proofs.Mining.Leaving
import Pickaxe.Proofs.Play.Moves
import Pickaxe.Proofs.Play.Coherence
import Pickaxe.Proofs.Play.Ending
import Pickaxe.Proofs.Play.Starts
import Pickaxe.Proofs.Play.History
import Pickaxe.Proofs.Play.Events
import Pickaxe.Proofs.Wire.Varint
import Pickaxe.Proofs.Wire.Frame
import Pickaxe.Proofs.Wire.Reader
import Pickaxe.Proofs.Wire.Field
import Pickaxe.Proofs.World.Block
import Pickaxe.Proofs.Client.Line
import Pickaxe.Proofs.Json.Object
import Pickaxe.Proofs.Nbt.Grammar
import Pickaxe.Proofs.Packet.Reading
import Pickaxe.Proofs.Packet.Layout
import Pickaxe.Proofs.Client.Hearing
import Pickaxe.Proofs.Client.Login
import Pickaxe.Proofs.Client.Inbox
import Pickaxe.Proofs.Mining.Phases
import Pickaxe.Proofs.Mining.Trace
import Pickaxe.Proofs.Mining.Digs
import Pickaxe.Proofs.Client.Opening
import Pickaxe.Proofs.Negotiation.Agreement
import Pickaxe.Proofs.Bot.Joining
import Pickaxe.Proofs.Wire.Forms
import Pickaxe.Proofs.Client.Compressed
import Pickaxe.Proofs.Clock.Schedule
import Pickaxe.Proofs.Mining.Reset
import Pickaxe.Proofs.World.Packing
import Pickaxe.Proofs.Packet.Acting
import Pickaxe.Proofs.Wire.Text
import Pickaxe.Proofs.Json.Blank
import Pickaxe.Proofs.Negotiation.Widening
import Pickaxe.Proofs.Negotiation.Appending
import Pickaxe.Proofs.Bot.Mismatch
import Pickaxe.Proofs.Negotiation.Timing
import Pickaxe.Proofs.Client.StatusPing
import Pickaxe.Proofs.Server.Endpoint
import Pickaxe.Proofs.Play.Command
import Pickaxe.Proofs.Mining.Settings
import Pickaxe.Proofs.Bot.Username
import Pickaxe.Proofs.Server.Summary
import Pickaxe.Proofs.Json.Size
import Pickaxe.Proofs.Nbt.Work
import Pickaxe.Proofs.Component.Wrapping
import Pickaxe.Proofs.Wire.Cursor
import Pickaxe.Proofs.Bot.Playing
import Pickaxe.Proofs.Client.Talk
import Pickaxe.Proofs.Negotiation.Inquiry
import Pickaxe.Proofs.Text.Sigma
import Pickaxe.Proofs.Text.Lossy
import Pickaxe.Proofs.Packet.Answering

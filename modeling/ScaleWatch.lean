import ScaleWatch.Text.Hex
import ScaleWatch.Text.Utf8
import ScaleWatch.Key.Reading
import ScaleWatch.Bounds.Slots
import ScaleWatch.Registry.Tenancy
import ScaleWatch.Channel
import ScaleWatch.Monitor
import ScaleWatch.Json
import ScaleWatch.Json.Shape
import ScaleWatch.Wire
import ScaleWatch.Duration
import ScaleWatch.Ingest
import ScaleWatch.Session.Step
import ScaleWatch.Toml.Document
import ScaleWatch.Config.Writing
import ScaleWatch.Main
import ScaleWatch.Proofs.Channel.Front
import ScaleWatch.Proofs.Pressure.SignalLaw
import ScaleWatch.Proofs.Pressure.WithinBounds
import ScaleWatch.Proofs.Registry.Lookup
import ScaleWatch.Proofs.Session.ReadyWork
import ScaleWatch.Proofs.Session.Agenda
import ScaleWatch.Proofs.Session.RearmRefinement
import ScaleWatch.Proofs.Monitor.Effect
import ScaleWatch.Proofs.Pressure.FloorWalk
import ScaleWatch.Proofs.Tcp.Life
import ScaleWatch.Proofs.Channel.Sent
import ScaleWatch.Proofs.Monitor.Journal
import ScaleWatch.Proofs.Monitor.LiveCount
import ScaleWatch.Proofs.Monitor.Provenance
import ScaleWatch.Proofs.Monitor.Separation
import ScaleWatch.Proofs.Channel.Emission
import ScaleWatch.Proofs.Monitor.Accounting
import ScaleWatch.Proofs.Monitor.Delivery
import ScaleWatch.Proofs.Http.Operations
import ScaleWatch.Proofs.Session.Chronicle
import ScaleWatch.Proofs.Session.Attended
import ScaleWatch.Proofs.Session.HeldGates
import ScaleWatch.Proofs.Session.Spacing
import ScaleWatch.Proofs.Registry.Listing
import ScaleWatch.Proofs.Registry.BoundedMap
import ScaleWatch.Proofs.Registry.Handles
import ScaleWatch.Proofs.Session.Account
import ScaleWatch.Proofs.Session.Owed
import ScaleWatch.Proofs.Session.Alike
import ScaleWatch.Proofs.Session.InDebt
import ScaleWatch.Proofs.Session.Renewal
import ScaleWatch.Proofs.Channel.Traffic
import ScaleWatch.Proofs.Channel.RoundRobin
import ScaleWatch.Proofs.Http.Refusals
import ScaleWatch.Proofs.Text.Numerals
import ScaleWatch.Proofs.Json.RoundTrip
import ScaleWatch.Proofs.Wire.Events
import ScaleWatch.Proofs.Ingest.Lines
import ScaleWatch.Proofs.Session.IngestionPaths
import ScaleWatch.Proofs.Session.RunsBelowBounds
import ScaleWatch.Proofs.Pressure.Latching
import ScaleWatch.Proofs.Monitor.Sending
import ScaleWatch.Proofs.Monitor.Undelivered
import ScaleWatch.Proofs.Wire.Signals
import ScaleWatch.Proofs.Session.Printing
import ScaleWatch.Proofs.Toml.Quoted
import ScaleWatch.Proofs.Toml.Settings
import ScaleWatch.Proofs.Config.RoundTrip
import ScaleWatch.Proofs.Bounds.Slots
import ScaleWatch.Proofs.Pressure.WiderBounds
import ScaleWatch.Proofs.Monitor.Changeover
import ScaleWatch.Proofs.Monitor.LargestBalance
import ScaleWatch.Proofs.Monitor.ThresholdWrites
import ScaleWatch.Proofs.Config.Delay
import ScaleWatch.Proofs.Daemon.Capacity
import ScaleWatch.Proofs.Wire.RoundTrip
import ScaleWatch.Proofs.Ingest.Splitting
import ScaleWatch.Proofs.Session.LinesReceived
import ScaleWatch.Proofs.Channel.Fairness
import ScaleWatch.Proofs.Key.Spelling
import ScaleWatch.Proofs.Http.KeySpellings
import ScaleWatch.Proofs.Wire.Tolerance
import ScaleWatch.Proofs.Channel.Receiving
import ScaleWatch.Proofs.Metrics.Exposition

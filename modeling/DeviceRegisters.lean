import DeviceRegisters.Access
import DeviceRegisters.Address
import DeviceRegisters.Definition.Basic
import DeviceRegisters.Definition.Catalog
import DeviceRegisters.Definition.EntryLines
import DeviceRegisters.Definition.Expansion
import DeviceRegisters.Definition.FieldLines
import DeviceRegisters.Definition.Library
import DeviceRegisters.Definition.Problem
import DeviceRegisters.Definition.Words
import DeviceRegisters.Device
import DeviceRegisters.Device.Backend
import DeviceRegisters.Device.Fault
import DeviceRegisters.Device.Memory
import DeviceRegisters.Device.Probe
import DeviceRegisters.Device.Window
import DeviceRegisters.Directory.Basic
import DeviceRegisters.Directory.Build
import DeviceRegisters.Directory.Path
import DeviceRegisters.Directory.Place
import DeviceRegisters.Error
import DeviceRegisters.Log
import DeviceRegisters.Numeral
import DeviceRegisters.Outline.Basic
import DeviceRegisters.Outline.Line
import DeviceRegisters.Outline.Printer
import DeviceRegisters.Outline.Reading
import DeviceRegisters.Packing.Basic
import DeviceRegisters.Packing.Printer
import DeviceRegisters.Packing.Problem
import DeviceRegisters.Packing.Reader
import DeviceRegisters.Peripheral.Basic
import DeviceRegisters.Peripheral.Operation
import DeviceRegisters.Peripheral.Snapshot
import DeviceRegisters.Proofs.Definition.Catalog
import DeviceRegisters.Proofs.Definition.Expansion
import DeviceRegisters.Proofs.Definition.Layout
import DeviceRegisters.Proofs.Definition.Library
import DeviceRegisters.Proofs.Definition.Parts
import DeviceRegisters.Proofs.Definition.Reading
import DeviceRegisters.Proofs.Device.Ledger
import DeviceRegisters.Proofs.Device.Words
import DeviceRegisters.Proofs.Directory.Bounds
import DeviceRegisters.Proofs.Outcome
import DeviceRegisters.Proofs.Outline.Forest
import DeviceRegisters.Proofs.Outline.RoundTrip
import DeviceRegisters.Proofs.Outline.Written
import DeviceRegisters.Proofs.Packing.Registers
import DeviceRegisters.Proofs.Peripheral.Range
import DeviceRegisters.Proofs.Session
import DeviceRegisters.Proofs.Staging.Access
import DeviceRegisters.Proofs.Staging.Batches
import DeviceRegisters.Proofs.Staging.Cached
import DeviceRegisters.Proofs.Staging.Coherence
import DeviceRegisters.Proofs.Staging.Deferral
import DeviceRegisters.Proofs.Staging.Fields
import DeviceRegisters.Proofs.Staging.Flushing
import DeviceRegisters.Proofs.Staging.Pending
import DeviceRegisters.Proofs.Staging.Reachable
import DeviceRegisters.Session
import DeviceRegisters.Staging.Basic
import DeviceRegisters.Staging.Batch
import DeviceRegisters.Staging.Operation
import DeviceRegisters.Text.Blank
import DeviceRegisters.Text.Digits
import DeviceRegisters.Text.Lines
import DeviceRegisters.Text.Pieces
import DeviceRegisters.Word
import DeviceRegisters.WordTable
import DeviceRegisters.Proofs.Definition.Moving
import DeviceRegisters.Proofs.Definition.Likeness
import DeviceRegisters.Proofs.Definition.Inlining
import DeviceRegisters.Proofs.Packing.RoundTrip
import DeviceRegisters.Proofs.Definition.Shifting
import DeviceRegisters.Proofs.Session.Names
import DeviceRegisters.Proofs.Directory.Resolution
import DeviceRegisters.Proofs.Peripheral.Effects
import DeviceRegisters.Proofs.Peripheral.Journal
import DeviceRegisters.Proofs.Definition.Fields
import DeviceRegisters.Proofs.Directory.Views
import DeviceRegisters.Proofs.Peripheral.FieldWrites
import DeviceRegisters.Proofs.Definition.Meaning
import DeviceRegisters.Proofs.Definition.Including
import DeviceRegisters.Proofs.Outline.Family
import DeviceRegisters.Proofs.Outline.Runs
import DeviceRegisters.Proofs.Outline.Account
import DeviceRegisters.Proofs.Outline.Placement
import DeviceRegisters.Proofs.Outline.Insertion
import DeviceRegisters.Proofs.Outline.Discarding
import DeviceRegisters.Proofs.Packing.Bits
import DeviceRegisters.Proofs.Session.Failures
import DeviceRegisters.Proofs.Staging.Bits
import DeviceRegisters.Proofs.Packing.Initial
import DeviceRegisters.Proofs.Staging.Seeding
import DeviceRegisters.Proofs.Peripheral.Snapshots
import DeviceRegisters.Proofs.Peripheral.FieldAnswers
import DeviceRegisters.Proofs.Peripheral.Updates
import DeviceRegisters.Proofs.Device.Windows
import DeviceRegisters.Proofs.Directory.Spelling
import DeviceRegisters.Proofs.Definition.FieldLines
import DeviceRegisters.Proofs.Session.Fields
import DeviceRegisters.Proofs.Directory.Listings
import DeviceRegisters.Proofs.Word.Slices
import DeviceRegisters.Proofs.Numeral
import DeviceRegisters.Proofs.Outline.PassedOver
import DeviceRegisters.Proofs.Directory.Numbers

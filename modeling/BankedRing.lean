import BankedRing.Chunks
import BankedRing.Device.Allocator
import BankedRing.Device.Bank
import BankedRing.Device.Block
import BankedRing.Device.Bytes
import BankedRing.Device.Fault
import BankedRing.Device.Program
import BankedRing.Device.Scratch
import BankedRing.Device.State
import BankedRing.Device.Stream
import BankedRing.Error
import BankedRing.Host.Controller
import BankedRing.Host.FileTree
import BankedRing.Host.Pool
import BankedRing.Host.Registry
import BankedRing.Host.Resident
import BankedRing.Partition
import BankedRing.Polynomial.Arithmetic
import BankedRing.Polynomial.Basic
import BankedRing.Polynomial.Parameters
import BankedRing.Polynomial.Uniform
import BankedRing.Prime.Search
import BankedRing.Prime.Test
import BankedRing.Proofs.Device.Accounting
import BankedRing.Proofs.Device.Allocator
import BankedRing.Proofs.Device.Bank
import BankedRing.Proofs.Device.Block
import BankedRing.Proofs.Device.Checks
import BankedRing.Proofs.Device.Contents
import BankedRing.Proofs.Device.FirstFit
import BankedRing.Proofs.Device.Footprint
import BankedRing.Proofs.Device.Format
import BankedRing.Proofs.Device.Furnishing
import BankedRing.Proofs.Device.Heap
import BankedRing.Proofs.Device.Intact
import BankedRing.Proofs.Device.Launch
import BankedRing.Proofs.Device.Order
import BankedRing.Proofs.Device.Pointwise
import BankedRing.Proofs.Device.Program
import BankedRing.Proofs.Device.Report
import BankedRing.Proofs.Device.Request
import BankedRing.Proofs.Device.State
import BankedRing.Proofs.Device.Stream
import BankedRing.Proofs.Device.Untrapped
import BankedRing.Proofs.Device.Vacancy
import BankedRing.Proofs.Host.Batch
import BankedRing.Proofs.Host.Clients
import BankedRing.Proofs.Host.Failure
import BankedRing.Proofs.Host.Footprint
import BankedRing.Proofs.Host.Homogeneous
import BankedRing.Proofs.Host.Invariant
import BankedRing.Proofs.Host.Isolation
import BankedRing.Proofs.Host.Journal
import BankedRing.Proofs.Host.Layers
import BankedRing.Proofs.Host.Ledger
import BankedRing.Proofs.Host.Lockstep
import BankedRing.Proofs.Host.Occupancy
import BankedRing.Proofs.Host.Pool
import BankedRing.Proofs.Host.Registry
import BankedRing.Proofs.Host.Request
import BankedRing.Proofs.Host.Resident
import BankedRing.Proofs.Host.Staging
import BankedRing.Proofs.Host.Start
import BankedRing.Proofs.Host.Tenancy
import BankedRing.Proofs.Host.Tenure
import BankedRing.Proofs.Host.Towers
import BankedRing.Proofs.Host.Turn
import BankedRing.Proofs.Outcome
import BankedRing.Proofs.Partition
import BankedRing.Proofs.Partition.Default
import BankedRing.Proofs.Partition.Scatter
import BankedRing.Proofs.Partition.Slots
import BankedRing.Proofs.Polynomial.Chain
import BankedRing.Proofs.Polynomial.Construction
import BankedRing.Proofs.Polynomial.Deal
import BankedRing.Proofs.Polynomial.Formed
import BankedRing.Proofs.Polynomial.Negacyclic
import BankedRing.Proofs.Polynomial.Offload
import BankedRing.Proofs.Prime.Root
import BankedRing.Proofs.Prime.Search
import BankedRing.Proofs.Prime.Strong
import BankedRing.Proofs.Prime.Test
import BankedRing.Proofs.Residue.Arithmetic
import BankedRing.Proofs.Residue.Barrett
import BankedRing.Proofs.Residue.CentredLift
import BankedRing.Proofs.Residue.Fermat
import BankedRing.Proofs.Residue.Inverse
import BankedRing.Proofs.Residue.Modulus
import BankedRing.Proofs.Residue.Operation
import BankedRing.Proofs.Residue.Power
import BankedRing.Proofs.Residue.Recoding
import BankedRing.Proofs.Residue.Rounding
import BankedRing.Proofs.Residue.Shoup
import BankedRing.Proofs.Slices
import BankedRing.Proofs.Text.Utf8
import BankedRing.Proofs.Transform.Butterfly
import BankedRing.Proofs.Transform.Evaluation
import BankedRing.Proofs.Transform.InPlace
import BankedRing.Proofs.Transform.Network
import BankedRing.Proofs.Transform.Roots
import BankedRing.Proofs.Transform.Tables
import BankedRing.Proofs.Word.Double
import BankedRing.Proofs.Word.Guarded
import BankedRing.Proofs.Workspace
import BankedRing.Residue.Arithmetic
import BankedRing.Residue.Inverse
import BankedRing.Residue.Modulus
import BankedRing.Residue.Operation
import BankedRing.Residue.Rounding
import BankedRing.Settings
import BankedRing.Text.Blank
import BankedRing.Text.Fields
import BankedRing.Text.Numeral
import BankedRing.Text.Path
import BankedRing.Text.Utf8
import BankedRing.Tower
import BankedRing.Transform.InPlace
import BankedRing.Transform.Network
import BankedRing.Transform.Tables
import BankedRing.Word.Checked
import BankedRing.Word.Double
import BankedRing.Workspace

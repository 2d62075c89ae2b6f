import BoxRuntime.Cli.Run
import BoxRuntime.Main
import BoxRuntime.Program.Setup
import BoxRuntime.Proofs.KeyOrder
import BoxRuntime.Proofs.Cli.Filter
import BoxRuntime.Proofs.Config.Text
import BoxRuntime.Proofs.Program.Course
import BoxRuntime.Proofs.Program.FailureText
import BoxRuntime.Proofs.Program.Report
import BoxRuntime.Proofs.Heap.Ledger
import BoxRuntime.Proofs.Log.Rings
import BoxRuntime.Proofs.Machine.Chronicle
import BoxRuntime.Proofs.Machine.Deallocation
import BoxRuntime.Proofs.Machine.KeyTypes
import BoxRuntime.Proofs.Machine.Leaks
import BoxRuntime.Proofs.Machine.Lists
import BoxRuntime.Proofs.Machine.Numbers
import BoxRuntime.Proofs.Reference.Script
import BoxRuntime.Proofs.Setup.Setups
import BoxRuntime.Proofs.Script.Bindings
import BoxRuntime.Proofs.Script.Limit
import BoxRuntime.Proofs.Script.Text
import BoxRuntime.Proofs.Tree.Contents
import BoxRuntime.Proofs.Tree.Occupancy
import BoxRuntime.Proofs.Tree.Turns
import BoxRuntime.Script.Text
import BoxRuntime.Session.Run

import DynValue.CastError
import DynValue.Container.Collect
import DynValue.Container.Drive
import DynValue.Container.Element
import DynValue.Container.Source
import DynValue.Event
import DynValue.Heap
import DynValue.Logged
import DynValue.Number.Decimal
import DynValue.Number.Float
import DynValue.Number.Integer
import DynValue.Number.Power
import DynValue.Number.Rounding
import DynValue.Number.Shortest
import DynValue.Order
import DynValue.Payload
import DynValue.Ref
import DynValue.Scalar.Convert
import DynValue.Scalar.Number
import DynValue.Schedule.Join
import DynValue.Schedule.Queue
import DynValue.Schedule.Task
import DynValue.Schedule.Window
import DynValue.Session.Activity
import DynValue.Session.Command
import DynValue.Session.Query
import DynValue.Session.State
import DynValue.Text.Hidden
import DynValue.Text.Quoted
import DynValue.Text.Wide
import DynValue.Ty
import DynValue.Variant
import DynValue.Proofs.Schedule.Moves
import DynValue.Proofs.Schedule.Numbering
import DynValue.Proofs.Schedule.Settling
import DynValue.Proofs.Schedule.Outcome
import DynValue.Proofs.Schedule.Soonest
import DynValue.Proofs.Container.Settling
import DynValue.Proofs.Liveness
import DynValue.Proofs.Container.Bounds
import DynValue.Proofs.Container.Sequential
import DynValue.Proofs.Container.Scene
import DynValue.Proofs.Container.Refinement
import DynValue.Proofs.Container.Completion
import DynValue.Proofs.Container.FirstFailure
import DynValue.Proofs.Schedule.Steps
import DynValue.Proofs.Container.Steps
import DynValue.Proofs.Container.ReadDiscipline
import DynValue.Proofs.Schedule.Conservation
import DynValue.Proofs.Container.Load
import DynValue.Proofs.Container.InFlight
import DynValue.Proofs.Number.Exact
import DynValue.Proofs.Scalar.Integer
import DynValue.Proofs.Attainable
import DynValue.Proofs.Scalar.Preflight
import DynValue.Proofs.Session.History
import DynValue.Proofs.Order.Values
import DynValue.Proofs.Order.Variants
import DynValue.Proofs.Session.NormalForm
import DynValue.Proofs.Number.Nearest
import DynValue.Proofs.Number.Digits
import DynValue.Proofs.Retrieval
import DynValue.Proofs.Scalar.Agreement
import DynValue.Proofs.Number.ReadBack
import DynValue.Proofs.Number.CorrectRounding
import DynValue.Proofs.Number.Literals
import DynValue.Proofs.Scalar.TextRoundTrip
import DynValue.Proofs.Scalar.Rounding
import DynValue.Proofs.Scalar.Reading
import DynValue.Proofs.Scalar.ThroughText
import DynValue.Proofs.Text.Transcoding
import DynValue.Proofs.Text.UnitOrder
import DynValue.Proofs.Text.Quoting
import DynValue.Proofs.Scalar.Failure
import DynValue.Proofs.Scalar.Diagnostics
import DynValue.Proofs.Scalar.Optional
import DynValue.Proofs.Scalar.DebugText
import DynValue.Proofs.Schedule.Failing
import DynValue.Proofs.Container.Offender
import DynValue.Proofs.Schedule.Bisimilar
import DynValue.Proofs.Container.Snapshot
import DynValue.Proofs.Session.Snapshot
import DynValue.Proofs.Order.SortKey
import DynValue.Proofs.Order.Identity
import DynValue.Proofs.Order.ByValue
import DynValue.Proofs.Schedule.Lives
import DynValue.Proofs.Container.Lives
import DynValue.Proofs.Container.Diagnosed
import DynValue.Proofs.Container.InMemory
import DynValue.Proofs.Schedule.Prompt
import DynValue.Proofs.Container.Unneeded
import DynValue.Proofs.Container.Extension
import DynValue.Proofs.Container.Verbatim
import DynValue.Proofs.Schedule.Termination
import DynValue.Proofs.Container.Termination
import DynValue.Proofs.Container.Work
import DynValue.Proofs.Container.Balance
import DynValue.Proofs.Session.Holders
import DynValue.Proofs.Session.Ownership

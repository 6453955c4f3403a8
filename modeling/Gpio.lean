import Gpio.Operation
import Gpio.Proofs.Device
import Gpio.Simulation.Fixture
import Gpio.Simulation.Session
import Gpio.Simulation.Trial
import Gpio.Proofs.Execution
import Gpio.Proofs.Invariance
import Gpio.Proofs.Preservation
import Gpio.Proofs.Confinement
import Gpio.Proofs.Isolation
import Gpio.Proofs.Amending
import Gpio.Proofs.Refinement
import Gpio.Proofs.Mapping
import Gpio.Proofs.Initialization
import Gpio.Proofs.SimulatedDomain
import Gpio.Proofs.Acceptance
import Gpio.Proofs.Dispatch
import Gpio.Proofs.Refusals
import Gpio.Proofs.Delivery
import Gpio.Proofs.Likeness
import Gpio.Proofs.Parallel
import Gpio.Proofs.Noninterference
import Gpio.Proofs.Verdicts
import Gpio.Proofs.Independence
import Gpio.Proofs.Binding
import Gpio.Proofs.FlowControl
import Gpio.Proofs.Atomicity
import Gpio.Proofs.Attaching
import Gpio.Proofs.Startup
import Gpio.Proofs.InterruptTable
import Gpio.Proofs.LineWords
import Gpio.Proofs.Debounce
import Gpio.Proofs.DriveOrder
import Gpio.Proofs.Addressing
import Gpio.Proofs.WakeRouting
import Gpio.Proofs.BankAccess
import Gpio.Proofs.MaskedUpdates
import Gpio.Proofs.ReadPaths
import Gpio.Proofs.LogLevels
import Gpio.Proofs.ErrorNotices
import Gpio.Proofs.ByteOverlays
import Gpio.Proofs.LineNumbers
import Gpio.Proofs.Effects

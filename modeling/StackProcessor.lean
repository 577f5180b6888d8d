import StackProcessor.Main
import StackProcessor.Proofs.Machine.Access
import StackProcessor.Proofs.Machine.Execution
import StackProcessor.Proofs.Machine.ListMachine
import StackProcessor.Proofs.Machine.Refinement
import StackProcessor.Proofs.Machine.Interruption
import StackProcessor.Proofs.Machine.ControlFlow
import StackProcessor.Proofs.Simulation.Ending
import StackProcessor.Proofs.Machine.Clock
import StackProcessor.Proofs.Simulation.Watching
import StackProcessor.Proofs.Simulation.Ticks
import StackProcessor.Proofs.Machine.Variation
import StackProcessor.Proofs.Simulation.Course
import StackProcessor.Proofs.Simulation.Lockstep
import StackProcessor.Proofs.Json.Numeral
import StackProcessor.Proofs.Json.Range
import StackProcessor.Proofs.Json.Spelling
import StackProcessor.Proofs.Image.RoundTrip
import StackProcessor.Proofs.Image.Records
import StackProcessor.Proofs.Image.Acceptance
import StackProcessor.Proofs.Assembly.Sites
import StackProcessor.Proofs.Assembly.Lines
import StackProcessor.Proofs.Assembly.Tokens
import StackProcessor.Proofs.Assembly.Grammar
import StackProcessor.Proofs.Assembly.WholeText
import StackProcessor.Proofs.Assembly.CodeGeneration
import StackProcessor.Proofs.Assembly.Object
import StackProcessor.Proofs.Isa.Decoding
import StackProcessor.Proofs.Assembly.DataLayout
import StackProcessor.Proofs.Assembly.OperandShape
import StackProcessor.Proofs.Assembly.JumpTargets
import StackProcessor.Proofs.Machine.Ports
import StackProcessor.Proofs.Machine.TraceLine
import StackProcessor.Proofs.Simulation.Extension
import StackProcessor.Proofs.Simulation.Capacity
import StackProcessor.Proofs.Simulation.Independence
import StackProcessor.Proofs.Simulation.Recording
import StackProcessor.Proofs.Simulation.Transcript
import StackProcessor.Proofs.Simulation.Tracing
import StackProcessor.Proofs.Simulation.Exchange
import StackProcessor.Proofs.Simulation.Logging
import StackProcessor.Proofs.Simulation.Rendering
import StackProcessor.Proofs.Assembly.Readings
import StackProcessor.Proofs.Assembly.Size
import StackProcessor.Proofs.Tools.Folder
import StackProcessor.Proofs.Tools.Requests
import StackProcessor.Proofs.Tools.Toolchain
import StackProcessor.Proofs.Assembly.Admission
import StackProcessor.Proofs.Assembly.FirstError
import StackProcessor.Proofs.Machine.Atomicity
import StackProcessor.Proofs.Isa.Arithmetic
import StackProcessor.Proofs.Isa.Wrapping
import StackProcessor.Proofs.Assembly.Program
import StackProcessor.Proofs.Assembly.Formatting
import StackProcessor.Proofs.Assembly.Written
import StackProcessor.Proofs.Assembly.Literals
import StackProcessor.Proofs.Image.Lines
import StackProcessor.Proofs.Assembly.Trace
import StackProcessor.Proofs.Simulation.Timing
import StackProcessor.Proofs.Programs.Shorthands
import StackProcessor.Proofs.Programs.Greeting
import StackProcessor.Proofs.Programs.Echo
import StackProcessor.Proofs.Programs.Sum
import StackProcessor.Proofs.Programs.Calculation

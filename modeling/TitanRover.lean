import TitanRover.Foundations.Watchdog
import TitanRover.Foundations.Mailbox
import TitanRover.Drive.DiffAlg
import TitanRover.Drive.Loop
import TitanRover.Drive.SignalChecker
import TitanRover.Drive.Commands
import TitanRover.Drive.MiddleWheels
import TitanRover.Arm.Bounds
import TitanRover.Arm.Leftovers
import TitanRover.Drive.Interrupts
import TitanRover.Leap.CommandRange
import TitanRover.Foundations.Snapshot
import TitanRover.Foundations.TwoLink
import TitanRover.Leap.HeldKeys
import TitanRover.Leap.LockMode
import TitanRover.Leap.RateLimit
import TitanRover.Leap.Targets
import TitanRover.Stick.InverseKinematics
import TitanRover.Stick.Limits
import TitanRover.Stick.NoReceiver
import TitanRover.Stick.Titan3DOF
import TitanRover.Drive.Mixing
import TitanRover.Drive.Response
import TitanRover.Stick.Forward
import TitanRover.Stick.Position
import TitanRover.Stick.SolverDomains
import TitanRover.Stick.Titan16Arm
import TitanRover.Training.EndEffector
import TitanRover.Training.Relays
import TitanRover.Drive.Symmetry
import TitanRover.Drive.Titan16Drive
import TitanRover.Foundations.Approach
import TitanRover.Leap.Convergence
import TitanRover.Leap.Saturation
import TitanRover.Drive.Firmware
import TitanRover.PinChange.OnePort
import TitanRover.Arm.Link
import TitanRover.Arm.Aim
import TitanRover.Buffer.ByteBuffer
import TitanRover.Buffer.Deque
import TitanRover.Buffer.Words
import TitanRover.Drive.Silence
import TitanRover.Drive.Titan16Run
import TitanRover.Stick.Posed
import TitanRover.Stick.TwoDOF
import TitanRover.Training.Actuators

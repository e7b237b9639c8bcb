import GuitarraMidi.Lib.Transducer
import GuitarraMidi.Lib.Steps
import GuitarraMidi.Lib.Traced
import GuitarraMidi.Lib.Framing
import GuitarraMidi.Lib.XorSum
import GuitarraMidi.Lib.Mailbox
import GuitarraMidi.Lib.Midi
import GuitarraMidi.Lib.Clock
import GuitarraMidi.Lib.SlotTable
import GuitarraMidi.Lib.TimerTable
import GuitarraMidi.Lib.Debounce
import GuitarraMidi.Lib.OneShot
import GuitarraMidi.Lib.FrameBuffer
import GuitarraMidi.Lib.CleanFrames
import GuitarraMidi.Lib.Relay
import GuitarraMidi.Lib.LittleEndian
import GuitarraMidi.Lib.Binary32
import GuitarraMidi.Wire.ChordMessage
import GuitarraMidi.Emisora.SendPacket
import GuitarraMidi.Emisora.Loop
import GuitarraMidi.Emisora.Correctness.StrumLevel
import GuitarraMidi.Emisora.Correctness.SendDiscipline
import GuitarraMidi.Emisora.Correctness.LedPulse
import GuitarraMidi.Receptora.Bridge
import GuitarraMidi.Receptora.Correctness.Forwarding
import GuitarraMidi.Receptora.Correctness.Suppression
import GuitarraMidi.EduCiaa.Receiver
import GuitarraMidi.EduCiaa.Chords
import GuitarraMidi.EduCiaa.Accesses
import GuitarraMidi.EduCiaa.Lowlevel
import GuitarraMidi.EduCiaa.MidiSdi
import GuitarraMidi.EduCiaa.Player
import GuitarraMidi.EduCiaa.Scheduler
import GuitarraMidi.EduCiaa.MainLoop
import GuitarraMidi.EduCiaa.Correctness.ReceiverSim
import GuitarraMidi.EduCiaa.Correctness.BufferSafety
import GuitarraMidi.EduCiaa.Correctness.Resync
import GuitarraMidi.EduCiaa.Correctness.ByteFaults
import GuitarraMidi.EduCiaa.Correctness.ByteLoss
import GuitarraMidi.EduCiaa.Correctness.BusDiscipline
import GuitarraMidi.EduCiaa.Correctness.MidiStream
import GuitarraMidi.EduCiaa.Correctness.Sounding
import GuitarraMidi.EduCiaa.Correctness.MainLoopOutput
import GuitarraMidi.EduCiaa.Correctness.NotesOff
import GuitarraMidi.EduCiaa.Correctness.SchedulerQueue
import GuitarraMidi.EduCiaa.Correctness.SchedulerTime
import GuitarraMidi.EduCiaa.Correctness.SchedulerOrder
import GuitarraMidi.Pipeline.System
import GuitarraMidi.Pipeline.Faithful
import GuitarraMidi.Pipeline.Rig
import GuitarraMidi.Pipeline.Heard
import GuitarraMidi.TestLatency.Player
import GuitarraMidi.TestLatency.MainLoop
import GuitarraMidi.TestLatency.Emisor
import GuitarraMidi.TestLatency.Correctness.Strums
import GuitarraMidi.TestLatency.Correctness.EventQueue
import GuitarraMidi.TestLatency.Correctness.NoteLength
import GuitarraMidi.TestLatency.Correctness.PulseLoss
import GuitarraMidi.Wire.ImuMessage
import GuitarraMidi.TestLatency.Program
import GuitarraMidi.TestLatency.Correctness.Velocity
import GuitarraMidi.TestLatency.Correctness.ByteLoop
import GuitarraMidi.Lib.Edges
import GuitarraMidi.TestLatency.EmisorLoop
import GuitarraMidi.TestLatency.Correctness.Presses
import GuitarraMidi.TestLatency.Receptor
import GuitarraMidi.TestLatency.System
import GuitarraMidi.TestLatency.Correctness.Delivery
import GuitarraMidi.TestLatency.Correctness.StrumsPlayed
import GuitarraMidi.TestLatency.Correctness.Noise
import GuitarraMidi.Lib.Polling
import GuitarraMidi.Receptora.Correctness.Interrupts
import GuitarraMidi.Lib.Blocks
import GuitarraMidi.UartChords.Program
import GuitarraMidi.UartChords.Correctness.Sounding
import GuitarraMidi.EduCiaa.Correctness.ReadBack
import GuitarraMidi.Lib.Damper
import GuitarraMidi.EduCiaa.Correctness.Pedal
import GuitarraMidi.Pipeline.LossyHeard
import GuitarraMidi.Delay.Correctness.RoundTrip
import GuitarraMidi.EduCiaa.Correctness.UsbLog

import FantasyComputer.Main
import FantasyComputer.Proofs.PositionalNumbers
import FantasyComputer.Proofs.Execution
import FantasyComputer.Proofs.Frames
import FantasyComputer.Proofs.Course
import FantasyComputer.Proofs.FinalPicture
import FantasyComputer.Proofs.Preparation
import FantasyComputer.Proofs.TimeTravel
import FantasyComputer.Proofs.BitStrings
import FantasyComputer.Proofs.Deflation
import FantasyComputer.Proofs.Resumption
import FantasyComputer.Proofs.StackDiscipline
import FantasyComputer.Proofs.Timeline
import FantasyComputer.Proofs.TimerRequests
import FantasyComputer.Proofs.InterruptCadence
import FantasyComputer.Proofs.Halting
import FantasyComputer.Proofs.SaveFormat
import FantasyComputer.Proofs.Commands
import FantasyComputer.Proofs.Reloading
import FantasyComputer.Proofs.Accesses
import FantasyComputer.Proofs.Banks
import FantasyComputer.Proofs.Bounds
import FantasyComputer.Proofs.PaletteMirror
import FantasyComputer.Proofs.FramePacing
import FantasyComputer.Proofs.Loading
import FantasyComputer.Proofs.Surroundings
import FantasyComputer.Proofs.PadButtons
import FantasyComputer.Proofs.Places
import FantasyComputer.Proofs.FileNames
import FantasyComputer.Proofs.SessionFiles
import FantasyComputer.Proofs.TypedLines
import FantasyComputer.Proofs.StepScripts
import FantasyComputer.Proofs.RewindHistory
import FantasyComputer.Proofs.HostButtons
import FantasyComputer.Proofs.FlagEffects
import FantasyComputer.Proofs.StepEffects
import FantasyComputer.Proofs.FrameContract
import FantasyComputer.Proofs.CartridgeLoading
import FantasyComputer.Proofs.PatchedPrograms
import FantasyComputer.Proofs.AbsoluteLoads
import FantasyComputer.Proofs.UndefinedOpcodes
import FantasyComputer.Proofs.FlatMemory
import FantasyComputer.Proofs.Rendering
import FantasyComputer.Proofs.ZlibStreams
import FantasyComputer.Proofs.Codecs
import FantasyComputer.Proofs.PngReading
import FantasyComputer.Proofs.Magnification
import FantasyComputer.Proofs.WindowBuffer
import FantasyComputer.Proofs.PreviewRows
import FantasyComputer.Proofs.AddressTexts
import FantasyComputer.Proofs.AssemblyLines
import FantasyComputer.Proofs.Disassembly
import FantasyComputer.Proofs.CyclicCheck

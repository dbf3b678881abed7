import Oboromi.Lib.FixedArray
import Oboromi.Lib.Framing
import Oboromi.Lib.HashMap
import Oboromi.Lib.HostFile
import Oboromi.Lib.Loop
import Oboromi.Lib.Machine
import Oboromi.Lib.Refinement
import Oboromi.Lib.Reorder
import Oboromi.Lib.Segment
import Oboromi.Lib.Slice
import Oboromi.Lib.Text
import Oboromi.Model.Storage
import Oboromi.Model.Partition
import Oboromi.Model.Process
import Oboromi.Model.Cpu
import Oboromi.Model.Svc
import Oboromi.Model.Kernel
import Oboromi.Model.Keys
import Oboromi.Model.Nca
import Oboromi.Model.Spirv
import Oboromi.Model.SpirvMethods
import Oboromi.Model.Sm86Table
import Oboromi.Model.Sm86
import Oboromi.Interface.FlatArray
import Oboromi.Interface.NandArrays
import Oboromi.Interface.Scheduling
import Oboromi.Interface.KeyFile
import Oboromi.Interface.HeaderLayout
import Oboromi.Interface.KeyLines
import Oboromi.Interface.SpirvGrammar
import Oboromi.Interface.EmitterCalls
import Oboromi.Interface.SpirvLiterals
import Oboromi.Interface.SpirvMachine
import Oboromi.Interface.ShaderRegisters
import Oboromi.Interface.ShaderStream
import Oboromi.Analysis.StorageCalls
import Oboromi.Analysis.StorageRefinement
import Oboromi.Analysis.PartitionCalls
import Oboromi.Analysis.NandRefinement
import Oboromi.Analysis.PartitionConfinement
import Oboromi.Analysis.SchedulerStep
import Oboromi.Analysis.SchedulerSlots
import Oboromi.Analysis.ContextIsolation
import Oboromi.Analysis.EmitterRuns
import Oboromi.Analysis.LiteralEncoding
import Oboromi.Analysis.ModuleValidation
import Oboromi.Analysis.ModuleFraming
import Oboromi.Analysis.BoundPatching
import Oboromi.Analysis.ResultIds
import Oboromi.Analysis.OperandIds
import Oboromi.Analysis.DecoderInit
import Oboromi.Analysis.ShaderEmission
import Oboromi.Analysis.OperandChecks
import Oboromi.Analysis.SpirvExecution
import Oboromi.Analysis.ShaderTranslation
import Oboromi.Analysis.DeclarationOrder
import Oboromi.Analysis.DecoderIds
import Oboromi.Analysis.KeySlots
import Oboromi.Analysis.KeyLineSteps
import Oboromi.Analysis.HexDigits
import Oboromi.Analysis.KeyContents
import Oboromi.Analysis.KeyTables
import Oboromi.Analysis.KeyTotality
import Oboromi.Analysis.KeyOrder
import Oboromi.Analysis.StepFrame
import Oboromi.Analysis.SchedulerProgress
import Oboromi.Interface.KernelRuns
import Oboromi.Analysis.ObjectTable
import Oboromi.Analysis.CodeLoading
import Oboromi.Analysis.SvcOutputs
import Oboromi.Analysis.SvcFallbacks
import Oboromi.Model.Boot
import Oboromi.Analysis.PortHandles
import Oboromi.Analysis.BootLayout
import Oboromi.Interface.XtsCipher
import Oboromi.Analysis.TweakMultiplication
import Oboromi.Analysis.TweakAlgebra
import Oboromi.Analysis.HeaderDecryption
import Oboromi.Analysis.HeaderFields
import Oboromi.Analysis.HeaderRoundTrip
import Oboromi.Analysis.SectionGeometry
import Oboromi.Lib.WordString
import Oboromi.Interface.SpirvInstructions
import Oboromi.Analysis.StringOperands
import Oboromi.Analysis.HeaderWords
import Oboromi.Analysis.InstructionRoundTrip
import Oboromi.Model.DecoderGenerator
import Oboromi.Interface.GeneratedDecoder
import Oboromi.Analysis.DecoderDispatch
import Oboromi.Analysis.DecoderTables
import Oboromi.Interface.DecoderFields
import Oboromi.Analysis.FieldDeposits
import Oboromi.Analysis.SkeletonRuns
import Oboromi.Analysis.SkeletonFields
import Oboromi.Lib.Turns
import Oboromi.Interface.VirtualCores
import Oboromi.Analysis.ReachedKernels
import Oboromi.Analysis.SchedulerRounds
import Oboromi.Model.NcaFile
import Oboromi.Interface.NcaFiles
import Oboromi.Analysis.NcaOpening
import Oboromi.Lib.TextRendering
import Oboromi.Interface.KeyFileText
import Oboromi.Analysis.KeyFileReading
import Oboromi.Model.NandFile
import Oboromi.Interface.NandSessions
import Oboromi.Analysis.NandSessions
import Oboromi.Interface.BootedMachine
import Oboromi.Analysis.BootedMachine
import Oboromi.Analysis.InstalledPackage
import Oboromi.Interface.ModuleListing
import Oboromi.Analysis.ModuleReading
import Oboromi.Interface.ShaderModule
import Oboromi.Analysis.ShaderDeclarations
import Oboromi.Analysis.ShaderModules
import Oboromi.Lib.TextPieces
import Oboromi.Interface.InstructionDump
import Oboromi.Analysis.DumpReading
import Oboromi.Lib.Precedence
import Oboromi.Lib.Tokens
import Oboromi.Interface.DecoderText
import Oboromi.Analysis.DecoderText
import Oboromi.Analysis.GeneratorPipeline
import Oboromi.Interface.Traps
import Oboromi.Analysis.Traps
import Oboromi.Lib.FullPeriod
import Oboromi.Lib.BinaryPolynomials
import Oboromi.Lib.ShiftRegister
import Oboromi.Analysis.TweakPeriod
import Oboromi.Model.Gui
import Oboromi.Interface.Desktop
import Oboromi.Analysis.Desktop
import Oboromi.Interface.CoreMemory
import Oboromi.Analysis.CoreMemory

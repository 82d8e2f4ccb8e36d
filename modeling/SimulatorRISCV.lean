import SimulatorRISCV.InOrderIssue
import SimulatorRISCV.ByteMemory
import SimulatorRISCV.InputStream
import SimulatorRISCV.OutputStream
import SimulatorRISCV.PipelineDecoder
import SimulatorRISCV.PipelineDatapath
import SimulatorRISCV.PipelineSimulator
import SimulatorRISCV.PipelineDataMemory
import SimulatorRISCV.PipelineIssue
import SimulatorRISCV.ElfLoader
import SimulatorRISCV.PipelineRetirement
import SimulatorRISCV.PipelineForwarding
import SimulatorRISCV.PipelineArchitecture
import SimulatorRISCV.Rv32i
import SimulatorRISCV.Rv32iMachine
import SimulatorRISCV.PipelineSemantics
import SimulatorRISCV.PipelineReference
import SimulatorRISCV.PipelineWrongPath
import SimulatorRISCV.PipelineJumps
import SimulatorRISCV.PipelineLinks
import SimulatorRISCV.PipelineExitWord
import SimulatorRISCV.PipelineHalt
import SimulatorRISCV.PipelineHarness
import SimulatorRISCV.PipelinePreciseStop
import SimulatorRISCV.PipelineTrace
import SimulatorRISCV.PipelineSequential
import SimulatorRISCV.PipelineOutput
import SimulatorRISCV.PipelineInstruction
import SimulatorRISCV.PipelineIsa
import SimulatorRISCV.PipelineIsaOutput
import SimulatorRISCV.PipelineExact
import SimulatorRISCV.PipelineUnknowns
import SimulatorRISCV.PipelinePadding
import SimulatorRISCV.PipelineReset
import SimulatorRISCV.ElfHeaders
import SimulatorRISCV.ElfReader
import SimulatorRISCV.ElfImage
import SimulatorRISCV.PipelineMain
import SimulatorRISCV.TraceText

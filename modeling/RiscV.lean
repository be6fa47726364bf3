import RiscV.Lib.Clocked
import RiscV.Lib.InOrder
import RiscV.Lib.WriteLog
import RiscV.Lib.Feedback
import RiscV.Lib.Rv32i
import RiscV.Lib.Formats
import RiscV.Datapath
import RiscV.RegisterFile
import RiscV.Stages
import RiscV.DataMemory
import RiscV.Sequential
import RiscV.StageLemmas
import RiscV.Rv32iFields
import RiscV.Immediates
import RiscV.Decoding
import RiscV.Rv32iSound
import RiscV.Undocumented
import RiscV.Pipeline
import RiscV.Abstraction
import RiscV.PipelineSound
import RiscV.Architectural
import RiscV.Schedule
import RiscV.WrongPath
import RiscV.Alignment
import RiscV.Reset
import RiscV.Hazards
import RiscV.Commits
import RiscV.AddressPairs
import RiscV.SynthTop
import RiscV.Cpu
import RiscV.CpuSettles
import RiscV.CpuAgree
import RiscV.CpuReset
import RiscV.Lib.Machine
import RiscV.Programs
import RiscV.Buses
import RiscV.Timing
import RiscV.Forwarding
import RiscV.Undefined
import RiscV.Periods
import RiscV.WriteFirst
import RiscV.Aliases
import RiscV.HiddenState
import RiscV.InitialMemory
import RiscV.Routines
import RiscV.Throughput
import RiscV.Draining

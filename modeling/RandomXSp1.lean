import RandomXSp1.Loops
import RandomXSp1.Ieee.Grid
import RandomXSp1.Ieee.Binary64
import RandomXSp1.Ieee.Rounding
import RandomXSp1.Ieee.RoundingFunction
import RandomXSp1.Gf256
import RandomXSp1.Common
import RandomXSp1.Reciprocal
import RandomXSp1.SoftFp.Basic
import RandomXSp1.SoftFp.Theorems
import RandomXSp1.SoftFp.CorrectRounding
import RandomXSp1.Superscalar.Execute
import RandomXSp1.Superscalar.ExecuteTheorems
import RandomXSp1.Draw
import RandomXSp1.Superscalar.Generate
import RandomXSp1.Superscalar.GenerateTheorems
import RandomXSp1.Superscalar.ScheduleTheorems
import RandomXSp1.DrawRuns
import RandomXSp1.DrawRounds
import RandomXSp1.Superscalar.Turns
import RandomXSp1.Superscalar.TurnTheorems
import RandomXSp1.Superscalar.RejectionTheorems
import RandomXSp1.Argon2.Core
import RandomXSp1.Argon2.Textbook
import RandomXSp1.Argon2.Theorems
import RandomXSp1.Argon2.Uninit
import RandomXSp1.Aes
import RandomXSp1.Aes.Fips197
import RandomXSp1.Aes.Theorems
import RandomXSp1.Memory
import RandomXSp1.Vm.State
import RandomXSp1.Vm.Machine
import RandomXSp1.Vm.Decode
import RandomXSp1.Vm.Run
import RandomXSp1.Vm.BranchTheorems
import RandomXSp1.Vm.Hash
import RandomXSp1.Vm.Optimized
import RandomXSp1.Vm.OptimizedTheorems
import RandomXSp1.Vm.OptimizedRun
import RandomXSp1.Vm.SafetyTheorems
import RandomXSp1.Vm.Reference
import RandomXSp1.Vm.ReferenceTheorems
import RandomXSp1.Vm.DecoderTheorems
import RandomXSp1.Vm.ReferenceRun
import RandomXSp1.Vm.HashTheorems
import RandomXSp1.Checked
import RandomXSp1.Audit.Monero
import RandomXSp1.Audit.DifficultyTheorems
import RandomXSp1.Strings
import RandomXSp1.Audit.HexTheorems
import RandomXSp1.LeafTree
import RandomXSp1.Audit.TreeHashTheorems
import RandomXSp1.HashChain
import RandomXSp1.Audit.BlobTheorems
import RandomXSp1.Argon2.HprimeTheorems
import RandomXSp1.Superscalar.GeneratorTheorems
import RandomXSp1.Superscalar.LatencyTheorems
import RandomXSp1.SoftFp.Checked
import RandomXSp1.SoftFp.CheckedTheorems
import RandomXSp1.Argon2.UninitTheorems
import RandomXSp1.Ieee.Magnitudes
import RandomXSp1.Vm.LaneArithmetic
import RandomXSp1.Vm.LaneTheorems
import RandomXSp1.Vm.ELaneTheorems
import RandomXSp1.Vm.FLaneTheorems
import RandomXSp1.Vm.RoundingTheorems
import RandomXSp1.DrawPairs
import RandomXSp1.Superscalar.BuildTheorems
import RandomXSp1.SeedMemory
import RandomXSp1.Vm.KeyedHash
import RandomXSp1.WorkerPool
import RandomXSp1.Executor.GasEstimation
import RandomXSp1.Executor.GasEstimationTheorems
import RandomXSp1.Vm.DifferentialAudit
import RandomXSp1.Vm.DifferentialAuditTheorems
import RandomXSp1.Vm.HostRounding
import RandomXSp1.Vm.HostRoundingTheorems
import RandomXSp1.NetworkProver.Requests
import RandomXSp1.NetworkProver.RequestTheorems
import RandomXSp1.Aes.GeneratorTheorems
import RandomXSp1.Audit.Fixtures
import RandomXSp1.Audit.FixtureTheorems
import RandomXSp1.NetworkProver.Input
import RandomXSp1.NetworkProver.InputTheorems
import RandomXSp1.Audit.ChainTheorems

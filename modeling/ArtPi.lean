import ArtPi.Lib.Bytes
import ArtPi.Lib.Framing
import ArtPi.Lib.Leb128
import ArtPi.Lib.Search
import ArtPi.Lib.Runs
import ArtPi.Lib.Owners
import ArtPi.Lib.Memory
import ArtPi.Lib.Single
import ArtPi.Lib.Words
import ArtPi.Lib.Arm64
import ArtPi.Lib.Arm64Branch
import ArtPi.Lib.ModifiedUtf8
import ArtPi.Lib.Utf8
import ArtPi.Lib.Crc
import ArtPi.Lib.Scan
import ArtPi.Lib.Blocks
import ArtPi.Lib.Glob
import ArtPi.Lib.Bits
import ArtPi.Lib.Aapcs
import ArtPi.Hash.Checksums
import ArtPi.Hash.Transform
import ArtPi.Hash.Digest
import ArtPi.Mpack.Basic
import ArtPi.Mpack.RoundTrip
import ArtPi.Mpack.Bounds
import ArtPi.Net.Frames
import ArtPi.Net.Send
import ArtPi.Server.Threads
import ArtPi.Server.Streams
import ArtPi.Server.Closing
import ArtPi.Dex.Scanners
import ArtPi.Dex.Signature
import ArtPi.Dex.Opcode
import ArtPi.Dex.Assemble
import ArtPi.Dex.Invoke
import ArtPi.Dex.Layout
import ArtPi.Dex.Branches
import ArtPi.Dex.Flow
import ArtPi.Dex.StringPool
import ArtPi.Dex.StaticInits
import ArtPi.Dex.CompactItem
import ArtPi.Sandbox.Prescan
import ArtPi.Sandbox.Sweeps
import ArtPi.Sandbox.Registers
import ArtPi.Sandbox.Catch
import ArtPi.Sandbox.Leb
import ArtPi.Sandbox.CodeItem
import ArtPi.Interp.Tracer
import ArtPi.Interp.Runs
import ArtPi.Interp.Pending
import ArtPi.Interp.Budget
import ArtPi.Interp.Once
import ArtPi.Interp.Root
import ArtPi.Interp.Constants
import ArtPi.Interp.Machine
import ArtPi.Interp.Payload
import ArtPi.Interp.Handlers
import ArtPi.Interp.Execute
import ArtPi.Dex.Units
import ArtPi.Dex.Relocate
import ArtPi.Interp.Pipeline
import ArtPi.Interp.Linking
import ArtPi.Interp.Symbolic
import ArtPi.Interp.Arithmetic
import ArtPi.Interp.UsedRegs
import ArtPi.Interp.Overrides
import ArtPi.Dex.Smali
import ArtPi.Dex.SmaliInvoke
import ArtPi.Dex.ParamRegs
import ArtPi.HwHook.Manager
import ArtPi.HwHook.Returns
import ArtPi.HwHook.Slots
import ArtPi.HwHook.Armed
import ArtPi.HwHook.StepOver
import ArtPi.Cli.Payload
import ArtPi.Cli.Walk
import ArtPi.Cli.Repl
import ArtPi.Cli.Requests
import ArtPi.Hook.Method
import ArtPi.Hook.Calls
import ArtPi.Hook.EntryPoint
import ArtPi.Hook.Registry
import ArtPi.Frame.Slots
import ArtPi.Frame.Original
import ArtPi.Frame.Observe
import ArtPi.Frame.Accessors
import ArtPi.Frame.Results
import ArtPi.Agent.JRef
import ArtPi.Agent.Classes
import ArtPi.Agent.Members
import ArtPi.Agent.Sessions
import ArtPi.Agent.Gate
import ArtPi.Agent.CtorRelay
import ArtPi.Agent.Constructors
import ArtPi.Agent.RelayThreads
import ArtPi.Agent.MemoryPatch
import ArtPi.Agent.Invoke
import ArtPi.Agent.Packing
import ArtPi.Agent.Boxing
import ArtPi.Agent.Wildcard
import ArtPi.Cli.Receive
import ArtPi.Cli.JsonList
import ArtPi.Cli.LineEditor
import ArtPi.Agent.Convert
import ArtPi.Agent.NativeDispatch
import ArtPi.Agent.Overloads
import ArtPi.Debug.Commands
import ArtPi.Debug.Stepping
import ArtPi.Debug.CodeInfo
import ArtPi.Debug.NativeStep
import ArtPi.Jni.Trampoline
import ArtPi.Jni.Records
import ArtPi.Jni.Bridge
import ArtPi.Jni.Dispatch
import ArtPi.Inject.Scratch
import ArtPi.Inject.ElfSymbol
import ArtPi.Agent.Integrity
import ArtPi.Hook.GumHandles
import ArtPi.Qbdi.Budget
import ArtPi.Agent.Thunks
import ArtPi.Inject.RemoteCall
import ArtPi.Unity.Preprocess
import ArtPi.Unity.Twice
import ArtPi.Unity.Lexical
import ArtPi.Unity.Verbatim
import ArtPi.HwHook.Ids
import ArtPi.HwHook.DlopenMonitor
import ArtPi.Agent.NativeInvoke
import ArtPi.Lib.Segments
import ArtPi.Jni.Symbol
import ArtPi.Jni.RefNames
import ArtPi.Lib.Numerals
import ArtPi.HwHook.CtorFilter
import ArtPi.Debug.ListingWindow
import ArtPi.Agent.ElfViews
import ArtPi.Lib.Keyed
import ArtPi.Cli.StringLiteral
import ArtPi.Cli.BootConfig
import ArtPi.Lib.StackSearch
import ArtPi.Debug.NativeCfg
import ArtPi.Debug.NativeBlocks
import ArtPi.Debug.NativePartition
import ArtPi.Lib.Listing
import ArtPi.Lib.ProcMaps
import ArtPi.Inject.AppLibDir
import ArtPi.Dex.SmaliLiteral
import ArtPi.Lib.Firsts
import ArtPi.Agent.LoadedModules
import ArtPi.Agent.ModuleByAddress
import ArtPi.Agent.ModuleSymbols
import ArtPi.Agent.DumpDex
import ArtPi.Agent.DumpRuns
import ArtPi.Lib.Utf16
import ArtPi.Unity.Strings
import ArtPi.Unity.Values
import ArtPi.Unity.Fields
import ArtPi.Unity.Invoke
import ArtPi.Lib.AapcsPlace
import ArtPi.Unity.Arguments
import ArtPi.Unity.Names
import ArtPi.Lib.Lines
import ArtPi.Lib.Lockstep
import ArtPi.Lib.Codec
import ArtPi.Lib.Ranking
import ArtPi.Lib.Interning
import ArtPi.Lib.DepthFirst
import ArtPi.Dex.ClassOrder
import ArtPi.Dex.Tables
import ArtPi.Dex.Nodes
import ArtPi.Dex.NodeTables
import ArtPi.Lib.TwosComplement
import ArtPi.Lib.Nesting
import ArtPi.Agent.JavaText
import ArtPi.Agent.MethodExtract

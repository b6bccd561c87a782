import RoomForge.Bytes
import RoomForge.Code.Compile
import RoomForge.Code.Encoding
import RoomForge.Code.Engine
import RoomForge.Code.Fault
import RoomForge.Code.Fragment
import RoomForge.Code.Instruction
import RoomForge.Code.NameTable
import RoomForge.Code.Scope
import RoomForge.CommandLine
import RoomForge.Failure
import RoomForge.Game.Build
import RoomForge.Game.Decoder
import RoomForge.Game.Descriptor
import RoomForge.Game.Disk
import RoomForge.Game.FileTree
import RoomForge.Game.Json
import RoomForge.Game.Load
import RoomForge.Game.Loading
import RoomForge.Game.Path
import RoomForge.Log
import RoomForge.Main
import RoomForge.Picture.Image
import RoomForge.Picture.Mask
import RoomForge.Picture.Palette
import RoomForge.Picture.Strip
import RoomForge.Proofs.Emission
import RoomForge.Proofs.Fallible
import RoomForge.Proofs.Following
import RoomForge.Proofs.Interpreter
import RoomForge.Proofs.Machine
import RoomForge.Proofs.Placement
import RoomForge.Resource.Block
import RoomForge.Resource.Layout
import RoomForge.Room.Basic
import RoomForge.Room.Binding
import RoomForge.Room.Colors
import RoomForge.Room.Registry
import RoomForge.Room.Session
import RoomForge.Script.Fault
import RoomForge.Script.Lexer
import RoomForge.Script.Parser
import RoomForge.Script.Token
import RoomForge.Script.Tree
import RoomForge.Text.Blank
import RoomForge.Text.Decimal
import RoomForge.Text.Quoted
import RoomForge.Text.Unprintable
import RoomForge.Text.Utf8
import RoomForge.Proofs.Naming
import RoomForge.Proofs.Execution
import RoomForge.Proofs.Meaning
import RoomForge.Proofs.Structure
import RoomForge.Proofs.StackDepth
import RoomForge.Proofs.Jumps
import RoomForge.Proofs.BlockFormat
import RoomForge.Proofs.OnePass
import RoomForge.Proofs.Patching
import RoomForge.Proofs.Agreement
import RoomForge.Proofs.Fields
import RoomForge.Proofs.Decoding
import RoomForge.Proofs.Grammar
import RoomForge.Proofs.Recognition
import RoomForge.Proofs.Acceptance
import RoomForge.Proofs.Parsing
import RoomForge.Proofs.Literals
import RoomForge.Proofs.Reports
import RoomForge.Proofs.Linking
import RoomForge.Proofs.Opening
import RoomForge.Proofs.Strips
import RoomForge.Proofs.StripFormat
import RoomForge.Proofs.Loaded
import RoomForge.Proofs.GameFile
import RoomForge.Proofs.Sessions
import RoomForge.Proofs.Assembly
import RoomForge.Proofs.Numbering
import RoomForge.Proofs.Conservation
import RoomForge.Proofs.Renumbering
import RoomForge.Proofs.CallSites
import RoomForge.Proofs.Reordering
import RoomForge.Proofs.Consistency
import RoomForge.Proofs.Callees
import RoomForge.Proofs.Inlining
import RoomForge.Proofs.Relocation
import RoomForge.Proofs.Hygiene
import RoomForge.Proofs.ByteLayout
import RoomForge.Proofs.MergedColors
import RoomForge.Proofs.Shadowing
import RoomForge.Proofs.Allotments
import RoomForge.Proofs.Assignment
import RoomForge.Proofs.Registration
import RoomForge.Proofs.OwnCode
import RoomForge.Proofs.FaultSites
import RoomForge.Proofs.Spelling
import RoomForge.Proofs.MaskPacking
import RoomForge.Proofs.LongestToken
import RoomForge.Proofs.Slices
import RoomForge.Proofs.Lookahead
import RoomForge.Proofs.Prefixes
import RoomForge.Proofs.Printing
import RoomForge.Proofs.SightedReaders
import RoomForge.Proofs.FirstOffense
import RoomForge.Proofs.MaskRows
import RoomForge.Proofs.Integers
import RoomForge.Proofs.Progress
import RoomForge.Proofs.FileChanges
import RoomForge.Proofs.Builds
import RoomForge.Proofs.ScriptFiles
import RoomForge.Proofs.CallSites

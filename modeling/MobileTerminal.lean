import MobileTerminal.Fault
import MobileTerminal.Block
import MobileTerminal.Grid
import MobileTerminal.Lts
import MobileTerminal.Types
import MobileTerminal.Terminal
import MobileTerminal.Stream
import MobileTerminal.Screen
import MobileTerminal.ScreenOps
import MobileTerminal.Resize
import MobileTerminal.Decode
import MobileTerminal.CsiScan
import MobileTerminal.VT100
import MobileTerminal.Frame
import MobileTerminal.RingInv
import MobileTerminal.Rows
import MobileTerminal.ReflowInv
import MobileTerminal.Reachable
import MobileTerminal.Wrap
import MobileTerminal.ReflowRows
import MobileTerminal.ReflowText
import MobileTerminal.ResizeRows
import MobileTerminal.Fresh
import MobileTerminal.Ring
import MobileTerminal.Rewrap
import MobileTerminal.NewLine
import MobileTerminal.Print
import MobileTerminal.ReadBack
import MobileTerminal.CsiParams
import MobileTerminal.Sequence
import MobileTerminal.Scroll
import MobileTerminal.Erase
import MobileTerminal.Continue
import MobileTerminal.Wait
import MobileTerminal.Keeps
import MobileTerminal.Asserts
import MobileTerminal.Margins
import MobileTerminal.Fetch
import MobileTerminal.TokenParams
import MobileTerminal.CursorRow
import MobileTerminal.LastSize
import MobileTerminal.SaveCursor
import MobileTerminal.Scrollback
import MobileTerminal.AltScreen
import MobileTerminal.CommandLine
import MobileTerminal.Dirty
import MobileTerminal.DirtyRange
import MobileTerminal.Confine
import MobileTerminal.MarginsConfine
import MobileTerminal.History
import MobileTerminal.CsiTable
import MobileTerminal.Lines
import MobileTerminal.Overflow
import MobileTerminal.Index
import MobileTerminal.Utf8
import MobileTerminal.RowReads
import MobileTerminal.Alike
import MobileTerminal.Chunks
import MobileTerminal.Embedded
import MobileTerminal.LastWrite
import MobileTerminal.Sgr
import MobileTerminal.SgrCompose
import MobileTerminal.SgrColour
import MobileTerminal.ColorMap
import MobileTerminal.Position
import MobileTerminal.Unsupported
import MobileTerminal.Splice
import MobileTerminal.KeyedCache
import MobileTerminal.Traced
import MobileTerminal.BlankLine
import MobileTerminal.Queue
import MobileTerminal.Splitter
import MobileTerminal.Segments
import MobileTerminal.RowText
import MobileTerminal.Selection
import MobileTerminal.Runs
import MobileTerminal.AttributedRow
import MobileTerminal.EntryPoint
import MobileTerminal.Refine
import MobileTerminal.Progress
import MobileTerminal.Cells
import MobileTerminal.Display
import MobileTerminal.Shows
import MobileTerminal.ShowsText
import MobileTerminal.ShowsRun
import MobileTerminal.Tokens
import MobileTerminal.Written
import MobileTerminal.ShowsStream
import MobileTerminal.MarginsRun
import MobileTerminal.ShowsPlain
import MobileTerminal.ShowsLaws
import MobileTerminal.ShowsClear
import MobileTerminal.ShowsWritten
import MobileTerminal.Coloured
import MobileTerminal.CopyBack
import MobileTerminal.RowView
import MobileTerminal.Keys
import MobileTerminal.Echo
import MobileTerminal.Dispatch

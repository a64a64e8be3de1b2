import LeoEM.Base.Logged
import LeoEM.Base.Python
import LeoEM.Emulator.LinkDelta
import LeoEM.Emulator.Network
import LeoEM.Emulator.Update
import LeoEM.Emulator.Decision
import LeoEM.Emulator.Oracle
import LeoEM.Emulator.Run
import LeoEM.Emulator.Predecessor
import LeoEM.Emulator.Chain
import LeoEM.Emulator.Reports
import LeoEM.Base.Graph
import LeoEM.Base.Text
import LeoEM.Route.Gateway
import LeoEM.Route.Selection
import LeoEM.Route.Writer
import LeoEM.Route.Clock
import LeoEM.Route.Scenario
import LeoEM.Emulator.ReadLinkInfo
import LeoEM.Route.Coverage
import LeoEM.RoundTrip
import LeoEM.Satcp.Relay
import LeoEM.Base.CArray
import LeoEM.Satcp.Payload
import LeoEM.Satcp.Cubic
import LeoEM.Satcp.Target
import LeoEM.Satcp.Recovery
import LeoEM.Base.Table
import LeoEM.Constellation.Delay
import LeoEM.Constellation.Grid
import LeoEM.Constellation.Laser
import LeoEM.Route.BentPipe
import LeoEM.Base.Interleave
import LeoEM.Emulator.Links
import LeoEM.Base.Line
import LeoEM.Switch.Learning
import LeoEM.Switch.Ports
import LeoEM.Switch.Forwarding
import LeoEM.Switch.Delivery
import LeoEM.Base.Tc
import LeoEM.Link.Intf
import LeoEM.Link.Smooth
import LeoEM.Link.Stock
import LeoEM.Emulator.Shaping
import LeoEM.Base.Path
import LeoEM.Emulator.Detour
import LeoEM.Emulator.Groups
import LeoEM.Base.ArgMin
import LeoEM.Route.Nearest
import LeoEM.Base.Horizon
import LeoEM.Route.Elevation
import LeoEM.Route.Fallback
import LeoEM.Route.Period
import LeoEM.Base.Words
import LeoEM.Constellation.Phase
import LeoEM.Satcp.Comparison
import LeoEM.Base.Checked
import LeoEM.Satcp.CubicRoot
import LeoEM.Satcp.Epoch
import LeoEM.Satcp.Origin
import LeoEM.Pipeline
import LeoEM.Satcp.Report
import LeoEM.Base.Ticks
import LeoEM.Satcp.Module
import LeoEM.Satcp.HyStart
import LeoEM.Satcp.Reopen
import LeoEM.Base.Sections
import LeoEM.Satcp.ThreadReports
import LeoEM.Switch.Emulated
import LeoEM.Base.CubicLaw
import LeoEM.Satcp.Law
import LeoEM.Satcp.Reno

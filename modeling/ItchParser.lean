import ItchParser.FlatHashMap.Runs
import ItchParser.Properties.Accounting
import ItchParser.Properties.AddRemove
import ItchParser.Properties.AllOrNothing
import ItchParser.Properties.BookInvariant
import ItchParser.Properties.CleanReport
import ItchParser.Properties.ClosingCross
import ItchParser.Properties.CommandLine
import ItchParser.Properties.Conservation
import ItchParser.Properties.CounterWidth
import ItchParser.Properties.Deletion
import ItchParser.Properties.Exhaustion
import ItchParser.Properties.Headroom
import ItchParser.Properties.IndexCollisions
import ItchParser.Properties.InstrumentState
import ItchParser.Properties.Isolation
import ItchParser.Properties.LogFile
import ItchParser.Properties.LoggerProgress
import ItchParser.Properties.MappedFiles
import ItchParser.Properties.MemorySafety
import ItchParser.Properties.OrderIndex
import ItchParser.Properties.Peaks
import ItchParser.Properties.PoolOwnership
import ItchParser.Properties.Priority
import ItchParser.Properties.Processing
import ItchParser.Properties.Reconstruction
import ItchParser.Properties.Reductions
import ItchParser.Properties.Registration
import ItchParser.Properties.Rejections
import ItchParser.Properties.Replace
import ItchParser.Properties.ReportedBooks
import ItchParser.Properties.Resuming
import ItchParser.Properties.RoundTrip
import ItchParser.Properties.RunReport
import ItchParser.Properties.Volume

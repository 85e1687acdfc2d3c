import TankConvertor.Scan.Resync
import TankConvertor.Scan.Misdated
import TankConvertor.Scan.Locality
import TankConvertor.Scan.Lists
import TankConvertor.Convert.Width
import TankConvertor.Swap.Refusal
import TankConvertor.Sac.Timeline
import TankConvertor.Sac.Codes
import TankConvertor.Sac.Removal
import TankConvertor.Sac.Overlap
import TankConvertor.Sac.Extent
import TankConvertor.Sac.Copy
import TankConvertor.Sac.Names
import TankConvertor.Sac.Reference
import TankConvertor.Sac.TimeSpan
import TankConvertor.Pipeline.Copies
import TankConvertor.Mseed.Borrow
import TankConvertor.Argv.Paths
import TankConvertor.Mseed.Agreement
import TankConvertor.Mseed.SourceId
import TankConvertor.Library.Destutter
import TankConvertor.Library.BitFields
import TankConvertor.Steim.RoundTrip
import TankConvertor.Time.RoundTrip
import TankConvertor.Crc.Correctness
import TankConvertor.Record.Parse
import TankConvertor.Record.Layout
import TankConvertor.Record.Packing
import TankConvertor.Record.RoundTrip
import TankConvertor.Record.Limits
import TankConvertor.Record.TraceList
import TankConvertor.TraceList.Order

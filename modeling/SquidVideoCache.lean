import SquidVideoCache.Client.Revalidate
import SquidVideoCache.Store.LogRun
import SquidVideoCache.Acl.Check
import SquidVideoCache.Acl.Ip
import SquidVideoCache.Acl.Domain
import SquidVideoCache.Vary.Locate
import SquidVideoCache.Reply.Decode
import SquidVideoCache.Request.Body
import SquidVideoCache.Url.Canonical
import SquidVideoCache.Icp.Stale
import SquidVideoCache.Dns.Asked
import SquidVideoCache.Dns.Search
import SquidVideoCache.Ipcache.Parse
import SquidVideoCache.Helper.Once
import SquidVideoCache.MemPool.Meter
import SquidVideoCache.MemObject.Run
import SquidVideoCache.SwapMeta.Read
import SquidVideoCache.Acsm.NonAscii
import SquidVideoCache.VideoReg.Bounds
import SquidVideoCache.Acsm.KeywordFile
import SquidVideoCache.Htcp.Packet
import SquidVideoCache.CleanLog.Newest
import SquidVideoCache.Filemap.Represents
import SquidVideoCache.SwapSize.Attempt
import SquidVideoCache.Vary.Pieces
import SquidVideoCache.Repl.LruPurge
import SquidVideoCache.Range.ContRange
import SquidVideoCache.Range.Complete
import SquidVideoCache.Reply.Splits
import SquidVideoCache.Range.Items
import SquidVideoCache.Header.RoundTrip
import SquidVideoCache.Repl.HeapPurge
import SquidVideoCache.Reply.Strings
import SquidVideoCache.Helper.Stateful
import SquidVideoCache.Message.RequestLine
import SquidVideoCache.Event.Queue
import SquidVideoCache.Digest.Rebuilt
import SquidVideoCache.Refresh.Check
import SquidVideoCache.AccessLog.Quote
import SquidVideoCache.Url.Escape
import SquidVideoCache.Dns.Asked

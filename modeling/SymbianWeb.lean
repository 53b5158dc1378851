import SymbianWeb.HttpCache.SegmentedHeapBufferRuns
import SymbianWeb.HttpCache.LookupTableGrowth
import SymbianWeb.HttpCache.Accounting
import SymbianWeb.HttpCache.SpaceCheck
import SymbianWeb.Feeds.BatchRuns
import SymbianWeb.Feeds.Schedule
import SymbianWeb.HttpCache.Divisors
import SymbianWeb.Cod.ResumedDownload
import SymbianWeb.Favourites.HandleSafety
import SymbianWeb.Favourites.StreamTransfer
import SymbianWeb.Favourites.Atomicity
import SymbianWeb.WidgetRegistry.EntryRoundTrip
import SymbianWeb.HttpCache.PendingWrites
import SymbianWeb.HttpCache.CollectMemory
import SymbianWeb.HttpCache.HeaderFields
import SymbianWeb.HttpCache.Freshness
import SymbianWeb.HttpCache.Cacheable
import SymbianWeb.HttpCache.WhiteList
import SymbianWeb.HttpCache.IndexRoundTrip
import SymbianWeb.HttpCache.OwnBodies
import SymbianWeb.HttpCache.BodyStorage
import SymbianWeb.Cxml.AttributeTokens
import SymbianWeb.Cxml.NodeIteration
import SymbianWeb.Cxml.EBuffer
import SymbianWeb.Cxml.CxmlVector
import SymbianWeb.Cxml.CallbackErrors
import SymbianWeb.Multipart.ContentType
import SymbianWeb.Multipart.BodyDecoding
import SymbianWeb.Multipart.ComposeSize
import SymbianWeb.Multipart.PartUrl
import SymbianWeb.Cod.SizeLimit
import SymbianWeb.Cod.DescriptorLines
import SymbianWeb.Cod.InfoRoundTrip
import SymbianWeb.Cod.TreeDescribes
import SymbianWeb.Cod.DescriptorSetting
import SymbianWeb.Favourites.FilteredRows
import SymbianWeb.Favourites.SavedFiles
import SymbianWeb.WidgetRegistry.SubtreeText
import SymbianWeb.Feeds.OpmlImport
import SymbianWeb.Feeds.MarkupCleanup
import SymbianWeb.Feeds.PackedContainer
import SymbianWeb.Feeds.FolderRuns
import SymbianWeb.MemoryManager.SlabTreeRuns
import SymbianWeb.Cxml.CodePageRegistry
import SymbianWeb.HttpCache.Removals

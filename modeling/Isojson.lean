import Isojson.Calls
import Isojson.RoundTrip
import Isojson.Canonical
import Isojson.Loadable
import Isojson.Substitution
import Isojson.Elements
import Isojson.Instants
import Isojson.ErrorPositions
import Isojson.Lines
import Isojson.Growth
import Isojson.Library.Calendar
import Isojson.Library.IsoTime
import Isojson.DecodeBuild
import Isojson.Library.JsonReader
import Isojson.Library.Utf8
import Isojson.Library.Words
import Isojson.Datetime
import Isojson.Dt64
import Isojson.Out
import Isojson.Swar
import Isojson.Isoformat
import Isojson.NumpyText
import Isojson.Arrays
import Isojson.Containers
import Isojson.DecodeRefs
import Isojson.ErrorProtocol
import Isojson.Indent
import Isojson.RawStores
import Isojson.CacheOwner
import Isojson.NumpyMiss
import Isojson.Termination
import Isojson.NestedList
import Isojson.Reentrancy

import JoeDlna.Confinement
import JoeDlna.RangeHeader
import JoeDlna.Bookmarks.Cancel
import JoeDlna.Bookmarks.Concurrent
import JoeDlna.Bookmarks.Replace
import JoeDlna.Events.Expiry
import JoeDlna.Events.Notify
import JoeDlna.Events.Sequence
import JoeDlna.Catalog.Eligible
import JoeDlna.Scanner.Rescan
import JoeDlna.Scanner.Deadlines
import JoeDlna.Scanner.Fingerprint
import JoeDlna.Scanner.Links
import JoeDlna.Scanner.Validated
import JoeDlna.Scanner.Queue
import JoeDlna.Scanner.Settling
import JoeDlna.Soap.Request
import JoeDlna.Soap.Filter
import JoeDlna.Soap.Resources
import JoeDlna.Soap.UpdateId
import JoeDlna.Serve
import JoeDlna.Events.Variables
import JoeDlna.Soap.Serving

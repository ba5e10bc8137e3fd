import Tomahawk.Qt.Text
import Tomahawk.Qt.Utf8
import Tomahawk.Qt.Url
import Tomahawk.Echonest
import Tomahawk.Manager
import Tomahawk.Commands
import Tomahawk.Routing
import Tomahawk.ShareLinks
import Tomahawk.Playback
import Tomahawk.Bookmarks
import Tomahawk.Cache
import Tomahawk.TrackUrls
import Tomahawk.Handlers
import Tomahawk.Drops
import Tomahawk.Qt.DataStream
import Tomahawk.Session
import Tomahawk.SearchIndex

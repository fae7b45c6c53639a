import Plexio.AddonRoutes
import Plexio.BodyLimit
import Plexio.Browse
import Plexio.CacheBackends
import Plexio.CacheFailures
import Plexio.CacheIsolation
import Plexio.CatalogExtras
import Plexio.CatalogPages
import Plexio.Catalogs
import Plexio.ConfigurationProxy
import Plexio.ConfigureSubmit
import Plexio.Connections
import Plexio.EpisodeNumbers
import Plexio.LegacyUrl
import Plexio.Lib.Effects
import Plexio.OnDeck
import Plexio.PageFetches
import Plexio.PageForm
import Plexio.PlayRoute
import Plexio.PlaybackClose
import Plexio.PlexRequests
import Plexio.PublicLimit
import Plexio.RateLimit
import Plexio.RecentlyAdded
import Plexio.RequestWalk
import Plexio.SessionApi
import Plexio.SessionLinear
import Plexio.SessionReads
import Plexio.SessionRestarts
import Plexio.StreamOrder
import Plexio.TokenScrub
import Plexio.TokenSpelling

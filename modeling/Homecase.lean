import Homecase.Util.Utf8
import Homecase.Util.Json
import Homecase.Util.Crockford
import Homecase.Util.Uuid
import Homecase.Domain.Media
import Homecase.Auth.Token
import Homecase.Repo.Program
import Homecase.Repo.FileSystem
import Homecase.Repo.Glob
import Homecase.Repo.FileLock
import Homecase.Media.Service
import Homecase.Media.Index
import Homecase.Media.Contract
import Homecase.Media.Failure
import Homecase.Image.Service
import Homecase.Image.Http
import Homecase.Image.Upload
import Homecase.Service.Concurrent
import Homecase.Service.LockOrder
import Homecase.Image.Cache
import Homecase.Service.Footprint
import Homecase.Media.Sections
import Homecase.Media.Files
import Homecase.Media.Interleaved
import Homecase.Media.Backrefs
import Homecase.Util.Strconv
import Homecase.Infra.Config
import Homecase.Infra.Logging
import Homecase.Infra.Http
import Homecase.Auth.Http
import Homecase.Image.Routes

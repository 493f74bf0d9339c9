import Dao.Theory.Layer.Depth
import Dao.Theory.Layer.Chain
import Dao.Theory.Layer.Restart
import Dao.Theory.Layer.Deletion
import Dao.Theory.Image.Restart
import Dao.Theory.Xfer.Lifetime
import Dao.Theory.Xfer.Slots
import Dao.Theory.Container.Disk
import Dao.Theory.Container.State
import Dao.Theory.Pkg.IDTools
import Dao.Theory.Pkg.StdCopy
import Dao.Theory.Pkg.JSONLog
import Dao.Theory.Pkg.MultiReader
import Dao.Theory.Pkg.Registrar
import Dao.Theory.Pkg.BytesPipe
import Dao.Theory.Archive.Links
import Dao.Theory.Pkg.Symlink
import Dao.Theory.Archive.Collect
import Dao.Theory.Pkg.TarSum
import Dao.Theory.TarExport.Terminate
import Dao.Theory.TarExport.Ancestry
import Dao.Theory.Download.Blob
import Dao.Theory.Daemon.ImageDelete
import Dao.Theory.Devmapper.DeviceSet
import Dao.Theory.Builder.Label
import Dao.Theory.Builder.Parser
import Dao.Theory.Daemon.Events
import Dao.Theory.Daemon.Stats
import Dao.Theory.GraphDriver.Overlay2Mount
import Dao.Theory.GraphDriver.Overlay2
import Dao.Theory.GraphDriver.Aufs
import Dao.Theory.Libcontainerd.Queue
import Dao.Theory.Libcontainerd.Restore
import Dao.Theory.Registry.Pull
import Dao.Theory.Volume.Mounts
import Dao.Theory.Volume.Store
import Dao.Theory.Daemon.Names
import Dao.Theory.Logger.CloudWatch
import Dao.Theory.Logger.Follow
import Dao.Theory.Archive.Copy
import Dao.Theory.Runconfig.Compare

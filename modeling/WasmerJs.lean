import WasmerJs.Pipe.Eof
import WasmerJs.Pipe.Writers
import WasmerJs.Pipe.Queue
import WasmerJs.Pipe.Ready
import WasmerJs.Pipe.Shutdown
import WasmerJs.Pipe.Ends
import WasmerJs.Pipe.Exhaustion
import WasmerJs.Pipe.Fork
import WasmerJs.Pipe.Drain
import WasmerJs.Pool.Invariant
import WasmerJs.Pool.Dispatch
import WasmerJs.HostExec.Exchange
import WasmerJs.HostExec.Exit
import WasmerJs.HostExec.Park
import WasmerJs.HostExec.Poll
import WasmerJs.HostExec.Readers
import WasmerJs.HostExec.Isolation
import WasmerJs.HostExec.Reentry
import WasmerJs.HostExec.Stdin
import WasmerJs.HostExec.ChildOutput
import WasmerJs.HostExec.Codec
import WasmerJs.HostExec.SessionCheck
import WasmerJs.HostExec.Transcript
import WasmerJs.Pool.PipePools
import WasmerJs.Pool.Closing
import WasmerJs.Pool.Timers
import WasmerJs.Pool.Cache
import WasmerJs.Wire.ForkPipes
import WasmerJs.Wire.SchedulerMessage
import WasmerJs.Wire.TaskWasm
import WasmerJs.Wire.PostMessagePayload
import WasmerJs.Wire.Hops
import WasmerJs.Worker.Bootstrap
import WasmerJs.Run.Environment
import WasmerJs.Task.CopyMemory
import WasmerJs.Stream.Drain
import WasmerJs.Stream.Tty
import WasmerJs.Lib.FileTree
import WasmerJs.Fs.VirtualFs
import WasmerJs.Fs.Mkdir
import WasmerJs.Fs.WriteFile
import WasmerJs.Fs.DirectoryInit
import WasmerJs.Lib.Failing
import WasmerJs.Registry.Upload
import WasmerJs.Registry.Publish
import WasmerJs.Registry.App
import WasmerJs.Registry.JsTree
import WasmerJs.Registry.MemVolumes
import WasmerJs.Registry.Malformed
import WasmerJs.Registry.VolumeTrees
import WasmerJs.Registry.Again
import WasmerJs.Registry.Times
import WasmerJs.Package.Loader
import WasmerJs.Net.Connect
import WasmerJs.Net.Gateway
import WasmerJs.Node.WorkerCreation
import WasmerJs.Fs.Instance

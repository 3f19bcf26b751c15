import ExscapeOS.Kernel.Task.Collect
import ExscapeOS.Kernel.Task.Execve
import ExscapeOS.Kernel.Task.Finished
import ExscapeOS.Kernel.Vmm.Teardown
import ExscapeOS.Kernel.Vmm.Fork
import ExscapeOS.Kernel.Heap.Limit
import ExscapeOS.Kernel.Fpu
import ExscapeOS.Kernel.Getdents
import ExscapeOS.Kernel.Ext2.File
import ExscapeOS.Kernel.Exec.Failure
import ExscapeOS.Kernel.Mutex
import ExscapeOS.Kernel.Pipe.Stream
import ExscapeOS.Kernel.Net.Handler
import ExscapeOS.Kernel.Net.Echo
import ExscapeOS.Kernel.Console.Terminal
import ExscapeOS.Kernel.Heap.Requests
import ExscapeOS.Kernel.Files.Dup2
import ExscapeOS.Kernel.Vmm.Accept
import ExscapeOS.Kernel.Fat.Seek
import ExscapeOS.Kernel.Fat.Bounds
import ExscapeOS.Kernel.Fat.Table
import ExscapeOS.Kernel.Fat.Readdir
import ExscapeOS.Kernel.Path.Basename
import ExscapeOS.Kernel.Fat.Lookup
import ExscapeOS.Kernel.Vfs.Relpath
import ExscapeOS.Kernel.Initrd.Dir
import ExscapeOS.Kernel.Initrd.File
import ExscapeOS.Kernel.Exec.Arguments
import ExscapeOS.Kernel.Task.Kill
import ExscapeOS.Kernel.Task.RoundRobin
import ExscapeOS.Kernel.Exec.Segments
import ExscapeOS.Kernel.Fat.Times
import ExscapeOS.Kernel.Net.Arp
import ExscapeOS.Kernel.Stdio
import ExscapeOS.Kernel.Strings
import ExscapeOS.Kernel.Symbols
import ExscapeOS.Userspace.Ls
import ExscapeOS.Userspace.Shell.CommandLine
import ExscapeOS.Userspace.Shell.Variables
import ExscapeOS.Kernel.Ext2.Inode
import ExscapeOS.Kernel.Fat.ShortName
import ExscapeOS.Kernel.OrderedArray.Slots
import ExscapeOS.Kernel.Pmm.Count

import Yanix.Boot.Ext2
import Yanix.Drivers.Devices
import Yanix.Execute.Elf
import Yanix.Mm.StackHeaps
import Yanix.Proc.Signal
import Yanix.Proofs.AtaAddressing
import Yanix.Proofs.DescriptorCalls
import Yanix.Proofs.DirectoryListing
import Yanix.Proofs.DirectoryStream
import Yanix.Proofs.DirectoryTeardown
import Yanix.Proofs.FilePosition
import Yanix.Proofs.FrameBitmap
import Yanix.Proofs.MappingBounds
import Yanix.Proofs.NodeCreation
import Yanix.Proofs.Rendezvous
import Yanix.Proofs.RingStorage
import Yanix.Proofs.SchedulerLocks
import Yanix.Proofs.Sockets
import Yanix.Proofs.Terminal
import Yanix.Proofs.VfsMirror
import Yanix.Proofs.Wakeups
import Yanix.Sync.Atomic
import Yanix.Users.User

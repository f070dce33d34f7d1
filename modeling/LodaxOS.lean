import LodaxOS.Phys.Complete
import LodaxOS.Virt.Boot
import LodaxOS.Heap.Direct
import LodaxOS.Vma.Runs
import LodaxOS.Virt.Failed
import LodaxOS.Virt.Demand
import LodaxOS.Sched.Recovery
import LodaxOS.Sched.Slots
import LodaxOS.Sched.Declined
import LodaxOS.Sched.Yield
import LodaxOS.Gdf.Names
import LodaxOS.Gdf.Protocol
import LodaxOS.Gdf.Receive
import LodaxOS.Gdf.Restart
import LodaxOS.Gdf.Dma
import LodaxOS.Intr.Ioapic
import LodaxOS.Acpi.Search
import LodaxOS.Intr.Delivery
import LodaxOS.Gdf.Package
import LodaxOS.Boot.Elf
import LodaxOS.Sched.Stacks
import LodaxOS.Smp.Enumerate
import LodaxOS.Virt.UserCopy
import LodaxOS.Ext4.Usable
import LodaxOS.Drivers.Ahci
import LodaxOS.Drivers.Serial
import LodaxOS.Katerm.History
import LodaxOS.Sched.ReadyQueue

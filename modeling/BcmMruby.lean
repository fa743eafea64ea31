import BcmMruby.Core.Run
import BcmMruby.Core.Memory
import BcmMruby.Core.Ring
import BcmMruby.Boot
import BcmMruby.Core.Bytes
import BcmMruby.Core.Prog
import BcmMruby.Core.Chain
import BcmMruby.Core.Circle
import BcmMruby.Core.Xor
import BcmMruby.Core.Crc
import BcmMruby.Core.Recurrence
import BcmMruby.Core.Mips
import BcmMruby.LibQueue
import BcmMruby.Mt19937ar
import BcmMruby.Xprintf.Atoi
import BcmMruby.Xprintf.Format
import BcmMruby.Timer
import BcmMruby.Timer.Watchdog
import BcmMruby.Timer.Alarm
import BcmMruby.Timer.Usleep
import BcmMruby.SbUtils
import BcmMruby.Lwip
import BcmMruby.Udp.Mailbox
import BcmMruby.Udp.Send
import BcmMruby.Dns
import BcmMruby.TcpClient.Basic
import BcmMruby.TcpClient.Window
import BcmMruby.TcpClient.Stream
import BcmMruby.TcpClient.Write
import BcmMruby.TcpClient.Pcb
import BcmMruby.TcpClient.Connect
import BcmMruby.TcpClient.Isolation
import BcmMruby.NetPoll
import BcmMruby.HttpServer.Basic
import BcmMruby.HttpServer.Ownership
import BcmMruby.HttpServer.Response
import BcmMruby.HttpServer.Request
import BcmMruby.HttpServer.Scan
import BcmMruby.HttpServer.Credit
import BcmMruby.HttpServer.Copyreq
import BcmMruby.Sntp.Basic
import BcmMruby.Sntp.Pcb
import BcmMruby.Sntp.Clock
import BcmMruby.Sntp.Read
import BcmMruby.Nvram.Basic
import BcmMruby.Nvram.Chain
import BcmMruby.Nvram.Map
import BcmMruby.Nvram.Bounds
import BcmMruby.Nvram.Commit
import BcmMruby.Nvram.Checksum
import BcmMruby.Image.Writer
import BcmMruby.Image.Loader
import BcmMruby.Image.Format
import BcmMruby.Exception.Vectors
import BcmMruby.Exception.Entry
import BcmMruby.Irq.Basic
import BcmMruby.Irq.Conflict
import BcmMruby.Irq.CriticalSection
import BcmMruby.Irq.Dispatch
import BcmMruby.I2c.Basic
import BcmMruby.I2c.Framing
import BcmMruby.I2c.Program
import BcmMruby.I2c.Frame
import BcmMruby.I2c.Transfer
import BcmMruby.Ether.Hwaddr
import BcmMruby.Ether.Queue
import BcmMruby.Ether.Preempt
import BcmMruby.Mac.Basic
import BcmMruby.Mac.Machine
import BcmMruby.Mac.Ownership
import BcmMruby.Mac.Interrupt
import BcmMruby.Ether.Output
import BcmMruby.Robo.Registers
import BcmMruby.Robo.Vlan

import SsrlApps.Lib.Machine
import SsrlApps.Lib.Table
import SsrlApps.Lib.Ledger
import SsrlApps.Lib.LazyFile
import SsrlApps.Lib.Memory
import SsrlApps.Lib.Chain
import SsrlApps.Telnetd.Pty
import SsrlApps.Telnetd.Nvt
import SsrlApps.Telnetd.Subneg
import SsrlApps.Telnetd.Driver
import SsrlApps.Telnetd.Isolation
import SsrlApps.Telnetd.Passwd
import SsrlApps.Telnetd.Daemon
import SsrlApps.Telnetd.Sessions
import SsrlApps.Telnetd.Auth
import SsrlApps.Telnetd.Start
import SsrlApps.Altivec.Context
import SsrlApps.Altivec.Hooks
import SsrlApps.Altivec.Refine
import SsrlApps.Altivec.Finalize
import SsrlApps.Altivec.VecAlloc
import SsrlApps.Altivec.Realloc
import SsrlApps.Altivec.AllocRuns
import SsrlApps.Lib.OnesSum
import SsrlApps.MiscUtils.Cksum
import SsrlApps.MiscUtils.Mm
import SsrlApps.MiscUtils.Traceroute
import SsrlApps.MiscUtils.Coredump
import SsrlApps.Telnetd.Modes
import SsrlApps.Telnetd.Negotiation
import SsrlApps.Telnetd.Naws
import SsrlApps.Telnetd.Unload
import SsrlApps.Altivec.SaveLoad
import SsrlApps.Altivec.ExtAlloc
import SsrlApps.Altivec.StackCheck
import SsrlApps.Altivec.Restart
import SsrlApps.MiscUtils.Ping
import SsrlApps.MiscUtils.PingReply
import SsrlApps.MiscUtils.PingDeadline
import SsrlApps.MiscUtils.PingBuffers
import SsrlApps.MiscUtils.PingCommand
import SsrlApps.MiscUtils.TraceAnswers
import SsrlApps.MiscUtils.TraceProgress
import SsrlApps.MiscUtils.TraceResult
import SsrlApps.MiscUtils.TraceProbe
import SsrlApps.MiscUtils.TracePath
import SsrlApps.Telnetd.ParserState
import SsrlApps.Telnetd.Prompts
import SsrlApps.MiscUtils.Sockstats
import SsrlApps.Lib.Inet
import SsrlApps.MiscUtils.Rtconf
import SsrlApps.MiscUtils.Ifconf
import SsrlApps.MiscUtils.Getn
import SsrlApps.MiscUtils.Md
import SsrlApps.MiscUtils.Spawn
import SsrlApps.Lib.Feistel
import SsrlApps.Lib.BitRoute
import SsrlApps.Telnetd.Des
import SsrlApps.Telnetd.DesTextbook
import SsrlApps.Telnetd.DesTables
import SsrlApps.Telnetd.DesCipher
import SsrlApps.Telnetd.DesKeys
import SsrlApps.Telnetd.DesContext
import SsrlApps.Telnetd.Crypt
import SsrlApps.Telnetd.Login
import SsrlApps.Lib.SegStream
import SsrlApps.MiscUtils.Ttcp
import SsrlApps.Lib.Tokens
import SsrlApps.MiscUtils.TtcpCommand
import SsrlApps.MiscUtils.TtcpUdp
import SsrlApps.Monitor.Call

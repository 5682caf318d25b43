import UnixNetProg.Icmpd.Owner
import UnixNetProg.Icmpd.Stale
import UnixNetProg.Ifi.Aliases
import UnixNetProg.Key.Overrun
import UnixNetProg.Key.Examine
import UnixNetProg.Libfree.History
import UnixNetProg.Libgai.NameInfo
import UnixNetProg.Route.Attribution
import UnixNetProg.Nonblock.Relay
import UnixNetProg.Nonblock.Web
import UnixNetProg.Readline.Descriptors
import UnixNetProg.Readline.Threads
import UnixNetProg.Rtt.DgCli
import UnixNetProg.Server.Serv05
import UnixNetProg.Server.Serv08
import UnixNetProg.Sigio.Overflow
import UnixNetProg.Tcpcliserv.Poll
import UnixNetProg.Tcpcliserv.SelectBound
import UnixNetProg.Threads.Example03
import UnixNetProg.Threads.StrCliThread2
import UnixNetProg.Threads.Web03
import UnixNetProg.Udpcksum.InCksum
import UnixNetProg.Readline.Return
import UnixNetProg.Readline.Server
import UnixNetProg.Readn.SockWriten
import UnixNetProg.Rtt.Limits
import UnixNetProg.Libgai.ServPort
import UnixNetProg.Traceroute.RecvV4
import UnixNetProg.Traceroute.RecvV6
import UnixNetProg.Sock.LoopTcp
import UnixNetProg.Sock.SourceRoute
import UnixNetProg.Sock.Write
import UnixNetProg.Ipopts.SourceRoute
import UnixNetProg.Advio.StrCliPoll
import UnixNetProg.Common.IotLog
import UnixNetProg.Udpcksum.UdpRead
import UnixNetProg.Arp.ThrFn1
import UnixNetProg.Mysdr.Loop
import UnixNetProg.Sctp.PdapiRecvmsg
import UnixNetProg.Lib.Double
import UnixNetProg.Ssntp.SntpProc
import UnixNetProg.Ping.Proc
import UnixNetProg.Lib.Walk
import UnixNetProg.Libroute.IfNameindex
import UnixNetProg.Libroute.IfMessages
import UnixNetProg.Libroute.AddressList
import UnixNetProg.Libfree.Inet4
import UnixNetProg.Libfree.InetPton6
import UnixNetProg.Libfree.InetNtop6
import UnixNetProg.Libgai.Numeric
import UnixNetProg.Lib.Wakeup
import UnixNetProg.Bcast.Client
import UnixNetProg.Bcast.DgCli
import UnixNetProg.Bcast.Pselect
import UnixNetProg.Bcast.Pipe
import UnixNetProg.Sock.TellWait
import UnixNetProg.Tcpcliserv.SigChld
import UnixNetProg.Select.StrCli02
import UnixNetProg.Tcpcliserv.StrEcho
import UnixNetProg.Tcpcliserv.StrCli
import UnixNetProg.Threads.Counter
import UnixNetProg.Names.TcpConnect
import UnixNetProg.Nonblock.StrCliFork

import Proxinator.Lib.Buffer
import Proxinator.Lib.Utf8
import Proxinator.Lib.Segment
import Proxinator.Lib.Run
import Proxinator.Lib.Transform
import Proxinator.Lib.Cumulative
import Proxinator.Lib.IpText
import Proxinator.Lib.IpForms
import Proxinator.Lib.Subnet
import Proxinator.Lib.Lines
import Proxinator.Lib.Mark
import Proxinator.Lib.Base64
import Proxinator.Lib.Spaced
import Proxinator.Lib.Served
import Proxinator.Lib.Attempts
import Proxinator.Lib.Multiples
import Proxinator.Lib.Ledger
import Proxinator.Lib.Emitter
import Proxinator.Lib.Deadline
import Proxinator.Lib.Acceptor
import Proxinator.Lib.Channel
import Proxinator.Lib.Known
import Proxinator.Sni
import Proxinator.Sni.Reassembly
import Proxinator.Sni.ClientHello
import Proxinator.Sni.Containment
import Proxinator.Tunnel
import Proxinator.Tunnel.HalfClose
import Proxinator.Tunnel.Teardown
import Proxinator.Tunnel.Abort
import Proxinator.Tunnel.Faithful
import Proxinator.Tunnel.Line
import Proxinator.Arguments
import Proxinator.Tunnel.Idle
import Proxinator.Ip
import Proxinator.Ip.Mask
import Proxinator.Ip.Normalize
import Proxinator.Socks5.Wire
import Proxinator.Socks5
import Proxinator.Socks5.Handshake
import Proxinator.Socks5.Approval
import Proxinator.Socks5.Pending
import Proxinator.Socks5.Segmentation
import Proxinator.Socks5.Accounting
import Proxinator.Socks5.Deadline
import Proxinator.Socks5.Shutdown
import Proxinator.Socks5.Delivery
import Proxinator.Socks5.Auth
import Proxinator.Socks5.AuthFailure
import Proxinator.Reverse
import Proxinator.Reverse.WaitSni
import Proxinator.Reverse.Overlap
import Proxinator.Reverse.Settling
import Proxinator.Reverse.Handover
import Proxinator.Reverse.Server
import Proxinator.Forward
import Proxinator.Forward.Response
import Proxinator.Forward.Server
import Proxinator.Tunnel.DownTransform
import Proxinator.ErrorListeners
import Proxinator.TunnelErrors
import Proxinator.Dns
import Proxinator.Dns.Retry
import Proxinator.Dns.Bogus
import Proxinator.Dns.Spellings
import Proxinator.Url
import Proxinator.Url.Parse
import Proxinator.Url.Component
import Proxinator.Forward.Destination
import Proxinator.Socks5.Destination
import Proxinator.Socks5.Address
import Proxinator.Socks5.Session
import Proxinator.Socks5.Agreement
import Proxinator.Socks5.Completion
import Proxinator.Socks5.Transfer
import Proxinator.Client
import Proxinator.Client.Chain
import Proxinator.Client.Nesting
import Proxinator.Client.Cleanup
import Proxinator.Client.Addresses
import Proxinator.Client.Agent
import Proxinator.Client.Connecting
import Proxinator.Client.ConnectTimeout
import Proxinator.Client.Credentials
import Proxinator.Relay
import Proxinator.Forward.Session
import Proxinator.Forward.Transparent
import Proxinator.Forward.Nested
import Proxinator.Forward.Auth
import Proxinator.Obfuscator
import Proxinator.Balancer
import Proxinator.Balancer.Selection
import Proxinator.Balancer.Seeds
import Proxinator.Measure
import Proxinator.Measure.Throttle
import Proxinator.Measure.Slowdown
import Proxinator.Measure.Prompt
import Proxinator.Measure.Bandwidth
import Proxinator.Measure.Speed
import Proxinator.Measure.Listeners
import Proxinator.Measure.Contract

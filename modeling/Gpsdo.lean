import Gpsdo.Sched.Loop
import Gpsdo.Sched.Effect
import Gpsdo.Sched.Wake
import Gpsdo.Sched.Order
import Gpsdo.Sched.Cancel
import Gpsdo.Sched.Wait
import Gpsdo.Ntp.Exchange
import Gpsdo.Ntp.Rebase
import Gpsdo.Ntp.Offsets
import Gpsdo.Ntp.Feeds
import Gpsdo.Ntp.Tasks
import Gpsdo.Clock.Forward
import Gpsdo.Clock.Drift
import Gpsdo.Clock.Convert
import Gpsdo.Net.Delivery
import Gpsdo.Net.Reception
import Gpsdo.Chrony.Bounds
import Gpsdo.Net.Lookup
import Gpsdo.Net.Answers
import Gpsdo.Ntp.MacLaw
import Gpsdo.Snmp.Loads
import Gpsdo.Snmp.History
import Gpsdo.Ntp.Prune
import Gpsdo.Ntp.Interleave
import Gpsdo.Ntp.Coherence
import Gpsdo.Clock.FromRaw
import Gpsdo.Gps.Bounds
import Gpsdo.Gps.Resync
import Gpsdo.Net.DnsMessage
import Gpsdo.Net.Icmp
import Gpsdo.Snmp.Encoding
import Gpsdo.Clock.Frequency
import Gpsdo.Clock.Pps
import Gpsdo.Gps.Epoch
import Gpsdo.Ntp.PulseLabel
import Gpsdo.Chrony.Dispatch
import Gpsdo.Chrony.Float
import Gpsdo.Sched.Sleep
import Gpsdo.Status.Payload
import Gpsdo.Net.DhcpRequest
import Gpsdo.Ntp.FitLinear
import Gpsdo.Ntp.Regression
import Gpsdo.Ntp.Pacing
import Gpsdo.Ptp.Timestamp
import Gpsdo.Format.Hex
import Gpsdo.Clock.Temperature
import Gpsdo.Ptp.FollowUp
import Gpsdo.Ntp.Accuracy
import Gpsdo.Ntp.Discipline
import Gpsdo.Ntp.Curve
import Gpsdo.Ntp.Random
import Gpsdo.Ntp.Compensation
import Gpsdo.Ntp.Filter
import Gpsdo.Net.Registry
import Gpsdo.Net.DhcpLease
import Gpsdo.Net.Lan

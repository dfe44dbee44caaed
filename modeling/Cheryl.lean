import Cheryl.Library.Trace
import Cheryl.Library.Bits
import Cheryl.Library.LongestMatch
import Cheryl.Library.Links
import Cheryl.Library.EarlyWrites
import Cheryl.Library.Ring
import Cheryl.Library.Cyclic
import Cheryl.Library.Numerals
import Cheryl.Library.Replicas
import Cheryl.Library.TokenBucket
import Cheryl.Library.Locks
import Cheryl.Acl.Insert
import Cheryl.Acl.Delete
import Cheryl.Acl.Runs
import Cheryl.Acl.Shape
import Cheryl.Acl.Intact
import Cheryl.Acl.Record
import Cheryl.Acl.Texts
import Cheryl.Acl.Addresses
import Cheryl.Acl.Deletion
import Cheryl.Acl.Syntax
import Cheryl.Filter
import Cheryl.Server.AclReplication
import Cheryl.Balancer.Ring
import Cheryl.Balancer.RoundRobin
import Cheryl.Balancer.Lookup
import Cheryl.Balancer.History
import Cheryl.Balancer.Labels
import Cheryl.Balancer.Members
import Cheryl.ReverseProxy.Config
import Cheryl.ReverseProxy.Gates
import Cheryl.ReverseProxy.Route
import Cheryl.ReverseProxy.Requests
import Cheryl.ReverseProxy.HealthCheck
import Cheryl.ReverseProxy.Liveness
import Cheryl.ReverseProxy.Checkers
import Cheryl.ReverseProxy.Settling
import Cheryl.ReverseProxy.Stickiness
import Cheryl.ReverseProxy.Coverage
import Cheryl.ReverseProxy.Locking
import Cheryl.ReverseProxy.Tokens
import Cheryl.ReverseProxy.FirstRequests
import Cheryl.Server.Changes
import Cheryl.Server.Run
import Cheryl.Server.ApplySafe
import Cheryl.Server.Restore
import Cheryl.Server.AclRestore
import Cheryl.Server.Snapshots
import Cheryl.Server.HttpServer
import Cheryl.Server.Validation
import Cheryl.Server.Admin
import Cheryl.Server.Cluster
import Cheryl.Server.ProxyReplication
import Cheryl.Server.LimiterReplication
import Cheryl.Server.Isolation
import Cheryl.Server.Rates
import Cheryl.Server.Restarts
import Cheryl.Server.Routing
import Cheryl.Server.PointInTime
import Cheryl.Server.Bootstrap
import Cheryl.Server.Startup
import Cheryl.Server.Wire
import Cheryl.Server.FirstStart
import Cheryl.Server.Touches
import Cheryl.Server.Fleet
import Cheryl.Server.Affinity
import Cheryl.Server.Lives
import Cheryl.Server.AclFleet
import Cheryl.Server.Denials
import Cheryl.Server.InFlight
import Cheryl.Server.Locking

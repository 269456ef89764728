import HiredisCluster.Guarantees
import HiredisCluster.Correlation
import HiredisCluster.Reporting
import HiredisCluster.Splitting
import HiredisCluster.FragmentBytes
import HiredisCluster.HashSlot
import HiredisCluster.Streams
import HiredisCluster.Merging
import HiredisCluster.Cluster
import HiredisCluster.Encoding
import HiredisCluster.Generator
import HiredisCluster.Iterator
import HiredisCluster.Traversal
import HiredisCluster.Disposal
import HiredisCluster.Containment
import HiredisCluster.Queries
import HiredisCluster.Shutdown
import HiredisCluster.Fate
import HiredisCluster.Limits
import HiredisCluster.Assignment
import HiredisCluster.Exactness
import HiredisCluster.Selection
import HiredisCluster.Authentication
import HiredisCluster.Preference
import HiredisCluster.Replacing
import HiredisCluster.Rescan
import HiredisCluster.Quoting
import HiredisCluster.Pairing
import HiredisCluster.Agreement
import HiredisCluster.Housing
import HiredisCluster.Replicas
import HiredisCluster.DictSession
import HiredisCluster.AdlistSession
import HiredisCluster.Once
import HiredisCluster.SingleStore

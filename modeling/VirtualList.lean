import VirtualList.Report
import VirtualList.Viewport
import VirtualList.Proofs.Growth
import VirtualList.Proofs.Traversal
import VirtualList.Proofs.Locating
import VirtualList.Proofs.Visiting
import VirtualList.Proofs.TableLookup
import VirtualList.Proofs.ItemsHistory
import VirtualList.Proofs.LinearSearch
import VirtualList.Proofs.Description
import VirtualList.Proofs.Placement
import VirtualList.Proofs.ViewportHistory
import VirtualList.Proofs.Anchoring
import VirtualList.Proofs.Settling
import VirtualList.Proofs.Lockstep
import VirtualList.Proofs.Landing
import VirtualList.Proofs.Turnover
import VirtualList.Proofs.GuardsHold
import VirtualList.Proofs.SharedKeys
import VirtualList.Proofs.Reanchoring
import VirtualList.Proofs.Jumping
import VirtualList.Proofs.PositionalKeys
import VirtualList.Proofs.Questions

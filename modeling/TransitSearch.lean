import TransitSearch.Search
import TransitSearch.SearchConfig.Load
import TransitSearch.Proofs.Mirror.Search
import TransitSearch.Proofs.Transfers
import TransitSearch.Proofs.Pruning
import TransitSearch.Proofs.Journey.Costs
import TransitSearch.Proofs.Journey.Travel
import TransitSearch.Proofs.Collector.Limit
import TransitSearch.Proofs.Collector.Qualify
import TransitSearch.Proofs.Criteria
import TransitSearch.Proofs.Unpriced.Search
import TransitSearch.Proofs.Throttle
import TransitSearch.Proofs.Arena.Stable
import TransitSearch.Proofs.Search.Rounds
import TransitSearch.Proofs.Collector.Observed
import TransitSearch.Proofs.Sooner
import TransitSearch.Proofs.ParetoSet.Offer
import TransitSearch.Proofs.ParetoSet.History
import TransitSearch.Proofs.ParetoSet.Replay
import TransitSearch.Proofs.Journey.Duration
import TransitSearch.Proofs.OpeningHours
import TransitSearch.Proofs.Ordinary.Room
import TransitSearch.Proofs.Collector.Trail
import TransitSearch.Proofs.SearchConfig.Text

import RecoilKeyBindings.Keys
import RecoilKeyBindings.Maps
import RecoilKeyBindings.ChainParser
import RecoilKeyBindings.Store
import RecoilKeyBindings.Invariants
import RecoilKeyBindings.MutatorLaws
import RecoilKeyBindings.TriggerMerge
import RecoilKeyBindings.Resolution
import RecoilKeyBindings.Commands
import RecoilKeyBindings.RoundTrip
import RecoilKeyBindings.ChainSearch
import RecoilKeyBindings.KeyFiles
import RecoilKeyBindings.VectorErase
import RecoilKeyBindings.SortedVector
import RecoilKeyBindings.BindingLog

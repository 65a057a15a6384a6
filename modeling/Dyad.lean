import Dyad.Proofs.ReenterGuard
import Dyad.Proofs.OpenClose
import Dyad.Proofs.PublishLookup
import Dyad.Proofs.LazyFile
import Dyad.Proofs.PoolStop
import Dyad.Proofs.TransferExact
import Dyad.Proofs.TerminalResponse
import Dyad.Proofs.UcxEndpoints
import Dyad.Proofs.RangePaths
import Dyad.Proofs.InitHonest
import Dyad.Proofs.StreamRoutes
import Dyad.Proofs.StreamPublish
import Dyad.Proofs.RangeLocality
import Dyad.Proofs.StoreExact
import Dyad.Proofs.MargoHandles
import Dyad.Proofs.UcxRoundTrip
import Dyad.Proofs.ReplyInside
import Dyad.Proofs.EvictExact
import Dyad.Proofs.RangeExact
import Dyad.Proofs.PathsFit
import Dyad.Proofs.KeyDerivation
import Dyad.Proofs.JoinSplit
import Dyad.Proofs.BothSpellings
import Dyad.Proofs.MkdirMask
import Dyad.Proofs.ConsumeBalance
import Dyad.Proofs.RangeContract
import Dyad.Proofs.ServiceBalance
import Dyad.Proofs.Canonical
import Dyad.Proofs.UnsetContext
import Dyad.Proofs.KeyBytes
import Dyad.Proofs.SingleFlight
import Dyad.Proofs.EvictLocks
import Dyad.Proofs.BitmapMerge
import Dyad.Proofs.ConsumeMirror
import Dyad.Proofs.ServiceMirror
import Dyad.Proofs.PathMirror
import Dyad.Proofs.WrapperMirror

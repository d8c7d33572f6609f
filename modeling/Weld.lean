import Weld.GamepadAgreement
import Weld.HeldInput
import Weld.PresentationClaims
import Weld.RelocatedRoles
import Weld.PairAgreement
import Weld.ThumbnailFreshness
import Weld.PairingTrust
import Weld.FrameAccounting
import Weld.ViewFreshness
import Weld.LocalInputRuns
import Weld.SourceWakeups
import Weld.BitrateConsistency
import Weld.DestinationProgress
import Weld.DecodePoolProtocol
import Weld.FramingRoundTrip
import Weld.PeerDraining
import Weld.LocalSocketDelivery
import Weld.FrameCallbackOwnership
import Weld.WindowResizeHistory
import Weld.ConfigParsing
import Weld.I3Shown
import Weld.InputOutbox
import Weld.TileActivePath
import Weld.TileFloating
import Weld.TileTransferred
import Weld.TilePrunedForest
import Weld.SurfaceTreeInventory
import Weld.SourceCadence
import Weld.EncoderRates
import Weld.FloatStacking
import Weld.ResizeAnchors
import Weld.BitrateFairness
import Weld.ViewInput
import Weld.PointerConfinement
import Weld.ContactSheet
import Weld.AnnexB
import Weld.TileCommands

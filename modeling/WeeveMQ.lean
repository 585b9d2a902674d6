import WeeveMQ.InOrderChannel
import WeeveMQ.Freshness
import WeeveMQ.KeyAgreement
import WeeveMQ.SessionInvariant
import WeeveMQ.Lifetime
import WeeveMQ.Atomicity
import WeeveMQ.Authenticity
import WeeveMQ.Replay
import WeeveMQ.SeBinding
import WeeveMQ.ReceivePaths
import WeeveMQ.BrokerGate
import WeeveMQ.ClientIdBuffer
import WeeveMQ.SeDecoder
import WeeveMQ.SmpRoundTrip
import WeeveMQ.CertFields
import WeeveMQ.ClientRun
import WeeveMQ.MessageSizes
import WeeveMQ.GlobalCreds
import WeeveMQ.CertificateTool
import WeeveMQ.WosMemory
import WeeveMQ.StorageIds
import WeeveMQ.BlockLedger
import WeeveMQ.ReceiveLedger
import WeeveMQ.TransportBuffers
import WeeveMQ.HeapAccount
import WeeveMQ.Subscriptions
import WeeveMQ.ExactlyOnce

import ElectrumLightning.PositionalPairing
import ElectrumLightning.RequestConservation
import ElectrumLightning.WalletConsumers
import ElectrumLightning.ConnectionIsolation
import ElectrumLightning.FlowControl
import ElectrumLightning.ProxyChannel
import ElectrumLightning.SigndescDecoding
import ElectrumLightning.TweakedKeys
import ElectrumLightning.HexText
import ElectrumLightning.ScriptParsing
import ElectrumLightning.WitnessSigning
import ElectrumLightning.WalletSigning
import ElectrumLightning.SignerAgreement
import ElectrumLightning.OneToOneMaps
import ElectrumLightning.PortAllocation
import ElectrumLightning.DistinctPorts
import ElectrumLightning.ChainOwners
import ElectrumLightning.RequestGrammar
import ElectrumLightning.SignerRequests
import ElectrumLightning.BufferedReading
import ElectrumLightning.ReplyParsing
import ElectrumLightning.ReplyFraming
import ElectrumLightning.SavedPorts
import ElectrumLightning.PeerMesh
import ElectrumLightning.FailedAllocation
import ElectrumLightning.StreamBatches
import ElectrumLightning.PipedChild
import ElectrumLightning.ShellWords
import ElectrumLightning.LncliCommand
import ElectrumLightning.Handshake
import ElectrumLightning.LengthFields
import ElectrumLightning.ProxyLifecycle
import ElectrumLightning.QueueMonitor
import ElectrumLightning.ResponseSending
import ElectrumLightning.ScriptRoundTrip
import ElectrumLightning.TransactionEncoding
import ElectrumLightning.WitnessDigest
import ElectrumLightning.PrefixDecoding
import ElectrumLightning.TransactionDecoding
import ElectrumLightning.BitPrefixes
import ElectrumLightning.RevocationSecrets
import ElectrumLightning.DecoderRefinement
import ElectrumLightning.FreeLists
import ElectrumLightning.HubIsolation
import ElectrumLightning.ScriptBuffers
import ElectrumLightning.DecodedEncodings
import ElectrumLightning.JsonStreams
import ElectrumLightning.RemoteSigning
import ElectrumLightning.StreamingUpdates
import ElectrumLightning.FixedFields
import ElectrumLightning.OctalText
import ElectrumLightning.TarHeaders
import ElectrumLightning.TarArchives
import ElectrumLightning.HubCommands
import ElectrumLightning.ConnectAttempts
import ElectrumLightning.Base64Text
import ElectrumLightning.LncliEndpoint

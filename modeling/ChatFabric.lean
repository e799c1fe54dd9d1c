import ChatFabric.ActionData
import ChatFabric.ActionDelivery
import ChatFabric.Authentication
import ChatFabric.BlockPolynomials
import ChatFabric.ByteNumbers
import ChatFabric.ByteOrder
import ChatFabric.ByteStrings
import ChatFabric.CStrings
import ChatFabric.ClearBytes
import ChatFabric.ConfigAccess
import ChatFabric.ConfigFile
import ChatFabric.ConfigRoundTrip
import ChatFabric.ConfigStrings
import ChatFabric.ControlData
import ChatFabric.ControlRanges
import ChatFabric.ControlTable
import ChatFabric.Controller
import ChatFabric.CryptoBuilds
import ChatFabric.Curve25519
import ChatFabric.DataArrival
import ChatFabric.DataPackets
import ChatFabric.DecodeBounds
import ChatFabric.DecodeBuffers
import ChatFabric.DecodeFailure
import ChatFabric.DecodeFields
import ChatFabric.DecodeHistory
import ChatFabric.DecodeOverlay
import ChatFabric.DecodeRuns
import ChatFabric.DecodeTermination
import ChatFabric.DecodeTrace
import ChatFabric.DecodeTurns
import ChatFabric.Destination
import ChatFabric.Device
import ChatFabric.DeviceSteps
import ChatFabric.EncodeLengths
import ChatFabric.EncodeRoom
import ChatFabric.EncryptedFlags
import ChatFabric.EspDevice
import ChatFabric.FieldBytes
import ChatFabric.FieldContract
import ChatFabric.FieldLadder
import ChatFabric.FieldOrder
import ChatFabric.FieldProducts
import ChatFabric.Handshake
import ChatFabric.HandshakeAgreement
import ChatFabric.HandshakeRecovery
import ChatFabric.HandshakeStages
import ChatFabric.HexDump
import ChatFabric.HexText
import ChatFabric.HostCalls
import ChatFabric.ImageParts
import ChatFabric.KeyAgreement
import ChatFabric.KeyConsistency
import ChatFabric.Leftovers
import ChatFabric.Letters
import ChatFabric.LimbNumbers
import ChatFabric.LineEditor
import ChatFabric.LucasTest
import ChatFabric.MachineWords
import ChatFabric.MontgomeryCurve
import ChatFabric.NonceOrigin
import ChatFabric.NonceReuse
import ChatFabric.PacketDecode
import ChatFabric.PacketEncode
import ChatFabric.PacketInit
import ChatFabric.PacketPool
import ChatFabric.PacketRoundTrip
import ChatFabric.PaddingPlaces
import ChatFabric.PairFile
import ChatFabric.PairSteps
import ChatFabric.PairingFlags
import ChatFabric.PairingNetwork
import ChatFabric.PairingOrder
import ChatFabric.PairingRuns
import ChatFabric.PayloadDecode
import ChatFabric.Poly1305
import ChatFabric.Poly1305Tag
import ChatFabric.Poly1305Words32
import ChatFabric.Poly1305Words64
import ChatFabric.Replay
import ChatFabric.ReplyChains
import ChatFabric.Runs
import ChatFabric.Salsa20
import ChatFabric.SavedPasswords
import ChatFabric.SealedSections
import ChatFabric.SectionErrors
import ChatFabric.SectionPlaces
import ChatFabric.Shell
import ChatFabric.StateMachine
import ChatFabric.StoredFiles
import ChatFabric.Structs
import ChatFabric.TableDecode
import ChatFabric.TableOrder
import ChatFabric.TagBounds
import ChatFabric.TagEncoder
import ChatFabric.TagFields
import ChatFabric.TagForgery
import ChatFabric.TagStream
import ChatFabric.TextFormat
import ChatFabric.TwoBuilds
import ChatFabric.Unpairing
import ChatFabric.UnsignedWords
import ChatFabric.UuidText
import ChatFabric.WhileLoop

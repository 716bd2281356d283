import EverscaleLedger.Library.Sha256
import EverscaleLedger.Source.Dispatcher
import EverscaleLedger.Properties.Flows
import EverscaleLedger.Properties.OrdinaryBoc
import EverscaleLedger.Properties.Pruning
import EverscaleLedger.Properties.ReceivedTree
import EverscaleLedger.Properties.Separation
import EverscaleLedger.Properties.AddressHistory
import EverscaleLedger.Properties.AmountLine
import EverscaleLedger.Properties.PrefixBuffer
import EverscaleLedger.Properties.Recipients
import EverscaleLedger.Properties.HonestTransfer
import EverscaleLedger.Properties.PlacedBodies
import EverscaleLedger.Properties.Chunks
import EverscaleLedger.Properties.ExactReads
import EverscaleLedger.Properties.ByteReaders
import EverscaleLedger.Properties.AppendLaw
import EverscaleLedger.Properties.Confirmations
import EverscaleLedger.Properties.FieldLengths
import EverscaleLedger.Properties.DictionaryWalk
import EverscaleLedger.Properties.SignedAccount
import EverscaleLedger.Properties.AddressBinding
import EverscaleLedger.Properties.BocFormat
import EverscaleLedger.Properties.ClientExchange
import EverscaleLedger.Properties.Attribution
import EverscaleLedger.Properties.DistinctScreens
import EverscaleLedger.Properties.MessageLanguage

import ETransfer.EtdRegistry
import ETransfer.EtdLockProtocol
import ETransfer.EtdLockSafety
import ETransfer.EtdRegistryRuns
import ETransfer.EtdDataPath
import ETransfer.EtdHeader
import ETransfer.EtdDataServer
import ETransfer.EtdControl
import ETransfer.EtdRoundTrip
import ETransfer.EtdProxy
import ETransfer.EtdReplyRoundTrip
import ETransfer.EtdLineFraming
import ETransfer.EtdSession
import ETransfer.EtdHeaderGrammar
import ETransfer.EtdDataAddr

import Rsigncode.PeRuns
import Rsigncode.Embed
import Rsigncode.Content
import Rsigncode.VerifySound
import Rsigncode.ChainPath
import Rsigncode.ChainTrust
import Rsigncode.PeChunks
import Rsigncode.EnvelopeCheck
import Rsigncode.Forest
import Rsigncode.Reattach
import Rsigncode.Renormalize
import Rsigncode.CertTable
import Rsigncode.PeArith
import Rsigncode.PeChecksum
import Rsigncode.PeOddCuts
import Rsigncode.PePaths
import Rsigncode.Timestamp
import Rsigncode.Attach
import Rsigncode.TsaResponse
import Rsigncode.SpcContent
import Rsigncode.Remote
import Rsigncode.CliSign
import Rsigncode.Pkcs11
import Rsigncode.CliRemote
import Rsigncode.VerifyEnds
import Rsigncode.TsaRequest
import Rsigncode.Faults

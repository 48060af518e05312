import SrsUE.Lib.SeqNum
import SrsUE.Lib.Framing
import SrsUE.Lib.Memory
import SrsUE.Lib.Dict
import SrsUE.Lib.Run
import SrsUE.Lib.Cuts
import SrsUE.Lib.Fifo
import SrsUE.Lib.Inevitable
import SrsUE.Lib.BitCodec
import SrsUE.Lib.Linked
import SrsUE.Lib.Ring
import SrsUE.Lib.Refine
import SrsUE.Rlc.Common
import SrsUE.Rlc.AmPdu
import SrsUE.Rlc.Am
import SrsUE.Proofs.Rlc.AmDataHeader
import SrsUE.Proofs.Rlc.AmStatusPdu
import SrsUE.Proofs.Rlc.AmSteps
import SrsUE.Proofs.Rlc.AmReceive
import SrsUE.Proofs.Rlc.AmDelivery
import SrsUE.Proofs.Rlc.AmFill
import SrsUE.Proofs.Rlc.AmCodec
import SrsUE.Proofs.Rlc.AmTransmit
import SrsUE.Proofs.Rlc.AmTxWindow
import SrsUE.Proofs.Rlc.AmSegmentKeys
import SrsUE.Proofs.Rlc.AmSegmentSpec
import SrsUE.Proofs.Rlc.AmSegments
import SrsUE.Proofs.Rlc.AmCutSegment
import SrsUE.Proofs.Rlc.AmResegment
import SrsUE.Proofs.Rlc.AmGrant
import SrsUE.Proofs.Rlc.AmStatusExchange
import SrsUE.Proofs.Rlc.AmAgreement
import SrsUE.Proofs.Rlc.AmStatusEffect
import SrsUE.Proofs.Rlc.AmReportValidity
import SrsUE.Proofs.Rlc.AmRetxQueue
import SrsUE.Proofs.Rlc.AmStatusReport
import SrsUE.Proofs.Rlc.AmRxVariables
import SrsUE.Proofs.Rlc.AmReset
import SrsUE.Rlc.AmBuffers
import SrsUE.Proofs.Rlc.AmPoolRoom
import SrsUE.Rlc.Um
import SrsUE.Rlc.UmRx
import SrsUE.Proofs.Rlc.UmTransmit
import SrsUE.Proofs.Rlc.UmWindow
import SrsUE.Proofs.Rlc.UmVariables
import SrsUE.Proofs.Rlc.BufferState
import SrsUE.Proofs.Rlc.UmStall
import SrsUE.Proofs.Rlc.UmReset
import SrsUE.Proofs.Rlc.UmAssembly
import SrsUE.Proofs.Rlc.UmReassembly
import SrsUE.Proofs.Rlc.UmPdus
import SrsUE.Proofs.Rlc.UmLossless
import SrsUE.Proofs.Rlc.UmCodec
import SrsUE.Proofs.Rlc.DescribedSdus
import SrsUE.Proofs.Rlc.LengthIndicators
import SrsUE.Rlc.PduMemory
import SrsUE.Proofs.Rlc.PduMemory
import SrsUE.Proofs.Rlc.Malformed
import SrsUE.Mac.Pdu
import SrsUE.Mac.PduMemory
import SrsUE.Proofs.Mac.SchSpace
import SrsUE.Proofs.Mac.SchWrite
import SrsUE.Proofs.Mac.SchFrame
import SrsUE.Proofs.Mac.SchElements
import SrsUE.Proofs.Mac.SchRoundTrip
import SrsUE.Proofs.Mac.SchAssembly
import SrsUE.Mac.Rar
import SrsUE.Proofs.Mac.RarDecode
import SrsUE.Phy.RntiSearch
import SrsUE.Phy.RarGrant
import SrsUE.Mac.RaProc
import SrsUE.Proofs.Phy.RntiWindow
import SrsUE.Proofs.Phy.RarGrantUse
import SrsUE.Proofs.Mac.RaAttempts
import SrsUE.Mac.UlHarq
import SrsUE.Proofs.Mac.UlHarqRun
import SrsUE.Proofs.Mac.UlHarqTx
import SrsUE.Mac.Bsr
import SrsUE.Proofs.Mac.BsrGrant
import SrsUE.Proofs.Mac.BsrReport
import SrsUE.Proofs.Mac.BufferLevels
import SrsUE.Mac.SrProc
import SrsUE.Proofs.Mac.SrSchedule
import SrsUE.Mac.Mux
import SrsUE.Proofs.Mac.Priorities
import SrsUE.Mac.DlHarq
import SrsUE.Proofs.Mac.DlHarqRun
import SrsUE.Mac.Contention
import SrsUE.Proofs.Mac.ContentionRun
import SrsUE.Mac.PduRead
import SrsUE.Proofs.Mac.CeValues
import SrsUE.Proofs.Mac.MuxAssembly
import SrsUE.Proofs.Mac.MuxLoss
import SrsUE.Proofs.Mac.MuxGrant
import SrsUE.Mac.Msg3
import SrsUE.Proofs.Mac.Msg3Assembly
import SrsUE.Proofs.Mac.Msg3Grants
import SrsUE.Proofs.Mac.ServingOrder
import SrsUE.Proofs.Mac.PduMemory
import SrsUE.Upper.Timers
import SrsUE.Proofs.Upper.TimerIds
import SrsUE.Mac.PduProcess
import SrsUE.Proofs.Mac.PduWakeUp
import SrsUE.Phy.UlOrder
import SrsUE.Phy.PendingAck
import SrsUE.Proofs.Phy.TxOrder
import SrsUE.Phy.UlWorkers
import SrsUE.Proofs.Phy.UlWorkersRefine
import SrsUE.Proofs.Phy.PhichAnswers
import SrsUE.Upper.RadioLink
import SrsUE.Proofs.Upper.SyncCount
import SrsUE.Upper.Usim
import SrsUE.Upper.Nas
import SrsUE.Proofs.Upper.NasCount
import SrsUE.Proofs.Upper.SecurityContext
import SrsUE.Upper.Buffers
import SrsUE.Proofs.Upper.BufferAccount
import SrsUE.Upper.Pdcp
import SrsUE.Proofs.Upper.PdcpNumbering
import SrsUE.Common.ThreadPool
import SrsUE.Common.TimerCalls
import SrsUE.Proofs.Common.ThreadPoolRun
import SrsUE.Proofs.Common.ThreadPoolProgress
import SrsUE.Proofs.Common.TimerExpiry
import SrsUE.Common.BufferPool
import SrsUE.Proofs.Common.FreeList
import SrsUE.Common.MsgQueue
import SrsUE.Proofs.Common.MsgQueueFifo
import SrsUE.Common.Qbuff
import SrsUE.Proofs.Common.QbuffRing
import SrsUE.Proofs.Common.QbuffFifo
import SrsUE.Proofs.Common.QbuffUses
import SrsUE.Rrc.RadioResource
import SrsUE.Rrc.PhysicalConfig
import SrsUE.Rrc.RrConfig
import SrsUE.Rrc.Messages
import SrsUE.Proofs.Rrc.RadioResourceCodec
import SrsUE.Proofs.Rrc.RadioResourceSize
import SrsUE.Proofs.Rrc.ContentionIdentity
import SrsUE.Proofs.Rrc.MessageCodec
import SrsUE.Lib.BinaryField
import SrsUE.Lib.BitBlocks
import SrsUE.Security.Snow3g
import SrsUE.Proofs.Security.Snow3gRecurrence
import SrsUE.Proofs.Security.F9Polynomial
import SrsUE.Lib.Cmac
import SrsUE.Security.Eia2
import SrsUE.Proofs.Security.OctetBlocks
import SrsUE.Proofs.Security.Eia2Cmac
import SrsUE.Security.Rijndael
import SrsUE.Lib.Aes
import SrsUE.Proofs.Security.RijndaelAes
import SrsUE.Lib.Milenage
import SrsUE.Security.Milenage
import SrsUE.Proofs.Security.MilenageSpec
import SrsUE.Security.KeyDerivation
import SrsUE.Proofs.Security.KeySeparation
import SrsUE.Proofs.Security.Authentication

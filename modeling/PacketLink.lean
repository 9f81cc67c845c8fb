import PacketLink.Binary.Format
import PacketLink.Bytes
import PacketLink.Checksum
import PacketLink.Fault
import PacketLink.Fault.Report
import PacketLink.Frame.Buffer
import PacketLink.Frame.Cobs
import PacketLink.IntArg
import PacketLink.MessageId
import PacketLink.MessageType
import PacketLink.MessageType.Wire
import PacketLink.Packet.Basic
import PacketLink.Packet.Build
import PacketLink.Packet.Edit
import PacketLink.Packet.Header
import PacketLink.Scalar
import PacketLink.Stream.Config
import PacketLink.Stream.Decoder
import PacketLink.Stream.Deframer
import PacketLink.Stream.Phase
import PacketLink.Text.CodePoints
import PacketLink.Text.Utf8
import PacketLink.Proofs.Framing
import PacketLink.Proofs.Deframing
import PacketLink.Proofs.PacketCheck
import PacketLink.Proofs.DecoderShape
import PacketLink.Proofs.FrameReading
import PacketLink.Proofs.RoundTrip
import PacketLink.Proofs.Resync
import PacketLink.Proofs.Overflow
import PacketLink.Proofs.SpanLayout
import PacketLink.Proofs.DecodeEffects
import PacketLink.Proofs.BlockCount
import PacketLink.Proofs.FrameCodec
import PacketLink.Proofs.ChecksumSyndrome
import PacketLink.Proofs.ChecksumDetection
import PacketLink.Proofs.FrameDecoding
import PacketLink.Proofs.EditAtomicity
import PacketLink.Proofs.HeaderFields
import PacketLink.Proofs.BuildLayout
import PacketLink.Proofs.StoredFrame
import PacketLink.Proofs.IdentifierOrder
import PacketLink.Proofs.ScalarPayload
import PacketLink.Proofs.Utf8Codec
import PacketLink.Proofs.IdentifierText
import PacketLink.Proofs.IdentifierText

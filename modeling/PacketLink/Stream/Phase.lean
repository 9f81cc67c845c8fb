/-! # Decoder phases

The field of a frame that the streaming decoder expects next. After a delimiter the decoder
waits for the frame's first code byte, then reads the three header bytes, the identifier, the
offset metadata when the header asks for it, the payload and the two checksum bytes.
-/
namespace PacketLink.Stream

/-- The field of the current frame that the next byte belongs to. -/
inductive Phase where
  | frameOffset
  | headerB0
  | headerB1
  | headerB2
  | msgId
  | offsetB0
  | offsetB1
  | payload
  | crcB0
  | crcB1
  deriving DecidableEq, Repr

namespace Phase

def name : Phase → String
  | frameOffset => "frame_offset"
  | headerB0 => "header_b0"
  | headerB1 => "header_b1"
  | headerB2 => "header_b2"
  | msgId => "msg_id"
  | offsetB0 => "offset_b0"
  | offsetB1 => "offset_b1"
  | payload => "payload"
  | crcB0 => "crc_b0"
  | crcB1 => "crc_b1"

end Phase

end PacketLink.Stream

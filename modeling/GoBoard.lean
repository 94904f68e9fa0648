import GoBoard.Clocked.Machine
import GoBoard.Clocked.Log
import GoBoard.Serial.Frame
import GoBoard.Uart.Scan
import GoBoard.Uart.Rx
import GoBoard.Uart.RxSpec
import GoBoard.Uart.Serializer
import GoBoard.Uart.Tx
import GoBoard.Uart.TxSpec
import GoBoard.Uart.Loopback
import GoBoard.Uart.Async
import GoBoard.SevenSeg
import GoBoard.Uart.Echo
import GoBoard.Clocked.Latch
import GoBoard.Vga.Pattern
import GoBoard.Vga.SyncPulse
import GoBoard.Uart.RxByte
import GoBoard.VgaUart.Top
import GoBoard.Switch.Debounce
import GoBoard.Switch.Toggle
import GoBoard.VgaUart.Picture
import GoBoard.VgaSwitches.Top
import GoBoard.VgaSwitches.Picture
import GoBoard.Uart.TxWaveform
import GoBoard.Uart.Rate
import GoBoard.Uart.Recovery
import GoBoard.SevenSegCounter
import GoBoard.Switch.Press
import GoBoard.BlinkLed
import GoBoard.Clocked.Since
import GoBoard.TestPattern.Counters
import GoBoard.TestPattern.SyncToCount
import GoBoard.TestPattern.Gen
import GoBoard.TestPattern.Porch
import GoBoard.Switch.Delay
import GoBoard.Uart.Display
import GoBoard.Uart.TxDone
import GoBoard.Blinky
import GoBoard.Designs
import GoBoard.Uart.Writer
import GoBoard.VgaUart.Serial
import GoBoard.Coding.Crc
import GoBoard.Coding.Packing
import GoBoard.Coding.Parse
import GoBoard.Icepack.Commands
import GoBoard.Icepack.Comments
import GoBoard.Icepack.Integrity
import GoBoard.Icepack.Tiles
import GoBoard.Coding.Text
import GoBoard.Icepack.AsciiAccepted
import GoBoard.Icepack.Pack

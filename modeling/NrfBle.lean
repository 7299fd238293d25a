import NrfBle.Lib.Checked
import NrfBle.Lib.Ring
import NrfBle.Lib.Slots
import NrfBle.Lib.Logged
import NrfBle.Lib.Duplex
import NrfBle.Lib.ShiftRegister
import NrfBle.Lib.Switch
import NrfBle.Lib.Rotation
import NrfBle.Lib.Writes
import NrfBle.Lib.Threading
import NrfBle.Lib.Records
import NrfBle.Lib.BoundedSet
import NrfBle.Ll.Pdu
import NrfBle.Ll.Advertising
import NrfBle.Ll.Reencode
import NrfBle.Ll.ConnectReq
import NrfBle.Ll.Extended
import NrfBle.Ll.Crc
import NrfBle.Ll.Whiten
import NrfBle.Ll.Keystream
import NrfBle.Ll.Addr
import NrfBle.Ll.Totality
import NrfBle.Gap.Ad
import NrfBle.Hw.Radio
import NrfBle.Hw.Drivers
import NrfBle.Hw.Timer
import NrfBle.Hw.Smp
import NrfBle.Hw.SmpKey
import NrfBle.Hw.BondFlash
import NrfBle.Hw.BondStores
import NrfBle.Hw.BondHistory
import NrfBle.Hw.Conn.State
import NrfBle.Hw.Conn.Tx
import NrfBle.Hw.Conn.Att
import NrfBle.Hw.Conn.L2cap
import NrfBle.Hw.Conn.Control
import NrfBle.Hw.Conn.Event
import NrfBle.Hw.Conn.Run
import NrfBle.Hw.Conn.Outcome
import NrfBle.Hw.Conn.Encryption
import NrfBle.Hw.Conn.Sequence
import NrfBle.Hw.Conn.Safety
import NrfBle.Hw.Conn.Slot
import NrfBle.Hw.Conn.Reassembly
import NrfBle.Hw.Conn.Channel
import NrfBle.Hw.Conn.Handshake
import NrfBle.Hw.Conn.Pairing
import NrfBle.Hw.Conn.SmpExchange
import NrfBle.Hw.Conn.Credits
import NrfBle.Hw.Conn.CocTransfer
import NrfBle.Hw.Conn.CocAgreement
import NrfBle.Hw.Conn.Hopping
import NrfBle.Hw.Conn.Fragmentation
import NrfBle.Hw.Conn.Cut
import NrfBle.Hw.Conn.Segments
import NrfBle.Hw.Conn.Discovery
import NrfBle.Hw.Conn.Mtu
import NrfBle.Hw.Conn.Unsolicited
import NrfBle.Hw.Conn.Update
import NrfBle.Hw.Conn.Answering
import NrfBle.Hw.Conn.Correlation
import NrfBle.Hw.Conn.WellFormed
import NrfBle.Hw.Conn.Bounds
import NrfBle.Hw.Conn.DataLink
import NrfBle.Hw.Conn.Conversation
import NrfBle.Hw.Conn.GattSession
import NrfBle.Hw.Conn.Unheard
import NrfBle.Hw.Ble.State
import NrfBle.Hw.Ble.Adv
import NrfBle.Hw.Ble.Listeners
import NrfBle.Hw.Ble.Scan
import NrfBle.Hw.Ble.Link
import NrfBle.Hw.Ble.Calls
import NrfBle.Hw.Ble.Report
import NrfBle.Hw.Ble.Auxiliary
import NrfBle.Hw.Ble.Filter
import NrfBle.Hw.Ble.Run
import NrfBle.Hw.Ble.Lifecycle
import NrfBle.Hw.Ble.Bonds
import NrfBle.Hw.Ble.Initiating
import NrfBle.Hw.Ble.OwnAddress
import NrfBle.Hw.Ble.Queue
import NrfBle.Hw.Ble.Loops
import NrfBle.Hw.Ble.Meeting
import NrfBle.Hw.Ble.Broadcast
import NrfBle.Hw.Ble.Tuning
import NrfBle.Hw.Ble.Unheard
import NrfBle.Host.EventQueue
import NrfBle.Host.H4
import NrfBle.Host.Hci
import NrfBle.Host.Stream
import NrfBle.Host.Enable
import NrfBle.Host.Configure
import NrfBle.Host.Reports
import NrfBle.Host.Replies
import NrfBle.Host.Session
import NrfBle.Sim
import NrfBle.Hwtest

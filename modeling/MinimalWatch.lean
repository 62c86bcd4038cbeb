import MinimalWatch.Lib.Machine
import MinimalWatch.Lib.Loop
import MinimalWatch.Lib.Buffer
import MinimalWatch.Lib.RingBuffer
import MinimalWatch.Lib.Slots
import MinimalWatch.Lib.Kernel
import MinimalWatch.Lib.AddressSpace
import MinimalWatch.Lib.Tree
import MinimalWatch.Lib.IdTable
import MinimalWatch.Lib.Cursor
import MinimalWatch.Lib.Decimal
import MinimalWatch.Lib.DelayableWork
import MinimalWatch.Ble.Types
import MinimalWatch.Ble.Fifo
import MinimalWatch.Ble.Stream
import MinimalWatch.Ble.PacketRx
import MinimalWatch.Ble.RxBounds
import MinimalWatch.Ble.PacketTx
import MinimalWatch.Ble.Fragmentation
import MinimalWatch.Ble.Provenance
import MinimalWatch.Ble.Layout
import MinimalWatch.Ble.RoundTrip
import MinimalWatch.Ble.Connection
import MinimalWatch.Ble.Request
import MinimalWatch.Ble.Weather
import MinimalWatch.Ble.WeatherLayout
import MinimalWatch.Ble.NotificationPayload
import MinimalWatch.Ble.NotificationText
import MinimalWatch.Ble.Response
import MinimalWatch.Ble.Drain
import MinimalWatch.Ble.WholeMessages
import MinimalWatch.Ble.Custody
import MinimalWatch.Ble.Inbox
import MinimalWatch.Ble.Arrival
import MinimalWatch.Ble.PacketFit
import MinimalWatch.Ble.LostNotify
import MinimalWatch.Ble.Misreading
import MinimalWatch.Ble.Sender
import MinimalWatch.Ble.PacketParts
import MinimalWatch.Ble.ContinuationFlag
import MinimalWatch.Notification.Store
import MinimalWatch.Notification.Cards
import MinimalWatch.Notification.StaleCards
import MinimalWatch.Notification.Accessors
import MinimalWatch.Runtime.Types
import MinimalWatch.Runtime.WorkerPool
import MinimalWatch.Runtime.Manager
import MinimalWatch.Runtime.System
import MinimalWatch.Runtime.Moves
import MinimalWatch.Runtime.Transitions
import MinimalWatch.Runtime.Windows
import MinimalWatch.Runtime.Accounting
import MinimalWatch.Runtime.PendingWork
import MinimalWatch.Runtime.CurfewHooks
import MinimalWatch.Runtime.Maintenance
import MinimalWatch.Runtime.EarlySleep
import MinimalWatch.Runtime.Quiescence
import MinimalWatch.Runtime.UserWork
import MinimalWatch.Runtime.GraceEnd
import MinimalWatch.Runtime.UserTasks
import MinimalWatch.Runtime.Timeliness
import MinimalWatch.App.Update
import MinimalWatch.App.Delivery
import MinimalWatch.App.WeatherDates
import MinimalWatch.App.WeatherScreen
import MinimalWatch.App.Clock
import MinimalWatch.Ui.Pages
import MinimalWatch.App.WorkTick
import MinimalWatch.Ui.Routing
import MinimalWatch.App.WeatherQuery
import MinimalWatch.Lib.Heap
import MinimalWatch.Ui.Registry
import MinimalWatch.Ui.Picker
import MinimalWatch.Ui.Focus
import MinimalWatch.Ui.AppKeys
import MinimalWatch.Notification.PageObjs
import MinimalWatch.Notification.CardKeys
import MinimalWatch.Ui.Keypad
import MinimalWatch.Ui.WatchfaceText
import MinimalWatch.Ui.Ticking

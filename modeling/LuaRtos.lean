import LuaRtos.CLib.Basic
import LuaRtos.CLib.Str
import LuaRtos.Lts.Run
import LuaRtos.Lts.Count
import LuaRtos.Sys.List
import LuaRtos.Sys.ListInv
import LuaRtos.Sys.ListOps
import LuaRtos.Sys.ListMap
import LuaRtos.Sys.ListFailure
import LuaRtos.Sys.ListWalk
import LuaRtos.Sys.Mount
import LuaRtos.Sys.MountPath
import LuaRtos.Sys.MountLoop
import LuaRtos.Sys.MountNormal
import LuaRtos.Sys.MountResolve
import LuaRtos.Sys.MountPhysical
import LuaRtos.Sys.MountLogical
import LuaRtos.Sys.MountRoundTrip
import LuaRtos.Sys.MountCanonical
import LuaRtos.Syscalls.Chdir
import LuaRtos.Pthread.Key
import LuaRtos.Pthread.KeyValue
import LuaRtos.Pthread.Cond
import LuaRtos.Pthread.CondMutex
import LuaRtos.Pthread.CondWakeup
import LuaRtos.Pthread.CondCount
import LuaRtos.CLib.Heap
import LuaRtos.CLib.While
import LuaRtos.CLib.Cycle
import LuaRtos.CLib.Window
import LuaRtos.Rtos.Semaphore
import LuaRtos.Pthread.Mutex
import LuaRtos.Pthread.MutexExclusion
import LuaRtos.Pthread.MutexLifetime
import LuaRtos.Lts.Program
import LuaRtos.Lts.Progress
import LuaRtos.Pthread.Join
import LuaRtos.Pthread.Create
import LuaRtos.Pthread.Signal
import LuaRtos.Sys.Driver
import LuaRtos.Drivers.Registry
import LuaRtos.Sys.DriverLock
import LuaRtos.Drivers.Setup
import LuaRtos.Drivers.EspiBuffer
import LuaRtos.Drivers.EspiBus
import LuaRtos.Drivers.EspiThreads
import LuaRtos.Drivers.EspiDevices
import LuaRtos.Drivers.EspiExact
import LuaRtos.Drivers.EspiOwnership
import LuaRtos.Drivers.EspiReconfigure
import LuaRtos.Drivers.EspiSends
import LuaRtos.Drivers.EspiTables
import LuaRtos.Drivers.I2c
import LuaRtos.Drivers.I2cLock
import LuaRtos.Drivers.I2cRequests
import LuaRtos.Drivers.I2cTransactions
import LuaRtos.Drivers.EspiTransfer
import LuaRtos.Drivers.Rollback
import LuaRtos.Drivers.Units
import LuaRtos.Drivers.Devices
import LuaRtos.Drivers.Atomic
import LuaRtos.Drivers.SensorAtomic
import LuaRtos.Lua.DriverError
import LuaRtos.CLib.DList
import LuaRtos.Lua.Cache
import LuaRtos.Lua.CacheList
import LuaRtos.Lua.CacheRun
import LuaRtos.Lua.Rotable
import LuaRtos.Lua.RotableCache
import LuaRtos.Lua.RotableNext
import LuaRtos.CLib.SList
import LuaRtos.Lmic.RunQueue
import LuaRtos.Crypto.BlockMode
import LuaRtos.Lmic.Aes
import LuaRtos.Lmic.RunQueueOrder
import LuaRtos.Lmic.Wakeup
import LuaRtos.Lmic.Irq
import LuaRtos.Lora.Hex
import LuaRtos.Lora.Driver
import LuaRtos.Lora.Module
import LuaRtos.Lora.Calls
import LuaRtos.Lora.System
import LuaRtos.Lora.Uplink
import LuaRtos.Lora.Counter
import LuaRtos.Lora.Lock
import LuaRtos.Lora.Receive
import LuaRtos.Lora.Guard
import LuaRtos.Lora.Config
import LuaRtos.Lora.Events
import LuaRtos.Link.Proc
import LuaRtos.Link.Wire
import LuaRtos.Link.Script
import LuaRtos.CLib.File
import LuaRtos.Lua.FileTransfer
import LuaRtos.CLib.Number
import LuaRtos.CLib.Mem
import LuaRtos.Ymodem.Crc
import LuaRtos.Ymodem.Packet
import LuaRtos.Ymodem.Receive
import LuaRtos.Ymodem.Transmit
import LuaRtos.Ymodem.Build
import LuaRtos.Ymodem.Transfer
import LuaRtos.Ymodem.Written
import LuaRtos.Ymodem.Handshake
import LuaRtos.Ymodem.Start
import LuaRtos.Sys.Status
import LuaRtos.Drivers.Uart
import LuaRtos.Drivers.UartTransfer
import LuaRtos.Drivers.Stepper
import LuaRtos.Drivers.StepperScan
import LuaRtos.Drivers.StepperMove
import LuaRtos.Drivers.StepperMotion
import LuaRtos.Drivers.StepperStart
import LuaRtos.Spiffs.Name
import LuaRtos.Spiffs.Readdir
import LuaRtos.Spiffs.Listing
import LuaRtos.Spiffs.Unlink
import LuaRtos.Spiffs.Files
import LuaRtos.Spiffs.Flash
import LuaRtos.Spiffs.Descriptors
import LuaRtos.Lua.Sensor
import LuaRtos.Bits.Walk
import LuaRtos.CLib.Hex
import LuaRtos.Lua.SensorAddress
import LuaRtos.Drivers.OneWire
import LuaRtos.Drivers.OneWireFinds
import LuaRtos.Lua.Value
import LuaRtos.Lua.Try
import LuaRtos.Lua.TryClean
import LuaRtos.Lua.TryMessage
import LuaRtos.Lua.Unpack
import LuaRtos.CLib.Endian
import LuaRtos.Lua.Nvs
import LuaRtos.Lua.NvsRoundTrip
import LuaRtos.Net.Select
import LuaRtos.Net.SelectSets
import LuaRtos.Http.Message
import LuaRtos.Http.UrlEncode
import LuaRtos.Http.Client
import LuaRtos.Http.Server
import LuaRtos.Http.ServerReply
import LuaRtos.Ymodem.Codec
import LuaRtos.Ymodem.Header
import LuaRtos.Ymodem.HeaderRoundTrip
import LuaRtos.Lua.FileReceive
import LuaRtos.Lua.ReadLine
import LuaRtos.Drivers.UartResponse
import LuaRtos.Lora.HexCodec
import LuaRtos.Lora.HexPad
import LuaRtos.Lora.Tx
import LuaRtos.Pthread.CreateFailure
import LuaRtos.Lua.NewThread
import LuaRtos.Tft.Clip
import LuaRtos.Tft.Draw
import LuaRtos.Tft.Line
import LuaRtos.Tft.Circle
import LuaRtos.Tft.TriangleFill
import LuaRtos.Tft.Ellipse
import LuaRtos.Tft.Font
import LuaRtos.Tft.Print
import LuaRtos.Tft.Advance
import LuaRtos.Tft.FontFile
import LuaRtos.Tft.FontCompile
import LuaRtos.Tft.Touch
import LuaRtos.Lua.Pack
import LuaRtos.Lua.PackRoundTrip
import LuaRtos.Lua.Mqtt
import LuaRtos.Lua.Cam
import LuaRtos.Spiffs.IsDir
import LuaRtos.Drivers.StepperSetup
import LuaRtos.Drivers.StepperTiming
import LuaRtos.Drivers.StepperDrive
import LuaRtos.Drivers.StepperHalt
import LuaRtos.Drivers.StepperRamp
import LuaRtos.Drivers.DispTransfer
import LuaRtos.Drivers.SpiMaster
import LuaRtos.Drivers.Neopixel
import LuaRtos.Drivers.NeopixelSetup
import LuaRtos.Lmic.Mic
import LuaRtos.Lmic.Downlink
import LuaRtos.Lmic.DownlinkCheck
import LuaRtos.Lmic.DownlinkRoundTrip
import LuaRtos.Lmic.DutyCycle
import LuaRtos.Lmic.DutyCycleRun

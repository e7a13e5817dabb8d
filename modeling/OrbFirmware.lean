import OrbFirmware.Storage.PowerLoss
import OrbFirmware.Storage.Partitions
import OrbFirmware.Config.Durability
import OrbFirmware.Dfu.State
import OrbFirmware.Dfu.Step
import OrbFirmware.Dfu.Exclusion
import OrbFirmware.Dfu.Safety
import OrbFirmware.Binary64
import OrbFirmware.CArith
import OrbFirmware.IrCamera.TimerSettings
import OrbFirmware.IrCamera.TimerLimits
import OrbFirmware.IrCamera.Hw
import OrbFirmware.IrCamera.System
import OrbFirmware.IrCamera.EyeSafety
import OrbFirmware.IrCamera.Proximity
import OrbFirmware.Pubsub.Delivery
import OrbFirmware.Pubsub.DirectPath
import OrbFirmware.Storage.PowerRuns
import OrbFirmware.Storage.Wedge
import OrbFirmware.Allocation
import OrbFirmware.Can.Tx
import OrbFirmware.Can.SlabOwnership
import OrbFirmware.Can.IsotpTx
import OrbFirmware.Can.IsotpExclusivity
import OrbFirmware.Can.IsotpReset
import OrbFirmware.Interaction
import OrbFirmware.Runner.Messages
import OrbFirmware.Runner.Handlers
import OrbFirmware.Runner.Acks
import OrbFirmware.Dfu.Sequencing
import OrbFirmware.Dfu.Integrity
import OrbFirmware.Dfu.Completion
import OrbFirmware.Runner.Blocks
import OrbFirmware.Runner.BlockAcks
import OrbFirmware.Runner.Intake
import OrbFirmware.Runner.IntakeExclusion
import OrbFirmware.Incremental
import OrbFirmware.Ring
import OrbFirmware.Uart.Receive
import OrbFirmware.Uart.Frames
import OrbFirmware.Uart.Framing
import OrbFirmware.Uart.Resync
import OrbFirmware.Temperature.Filter
import OrbFirmware.Temperature.FanLaw
import OrbFirmware.Polarizer.Move
import OrbFirmware.Polarizer.Stop
import OrbFirmware.Polarizer.CommandSlot
import OrbFirmware.IrCamera.Sweeps
import OrbFirmware.FrontLeds.PulseWait
import OrbFirmware.Mirror.Angles
import OrbFirmware.Polarizer.Counters
import OrbFirmware.Battery.Watchdog
import OrbFirmware.RgbLeds.OperatorLeds
import OrbFirmware.RgbLeds.FrontLeds
import OrbFirmware.RgbLeds.LastCommand
import OrbFirmware.Boot.Reboot
import OrbFirmware.Ping.McuPing
import OrbFirmware.Ui.Button
import OrbFirmware.Gnss.Nmea
import OrbFirmware.Gnss.Sentences
import OrbFirmware.Gnss.Thread
import OrbFirmware.Voltage.Mapping
import OrbFirmware.Can.IsotpRx
import OrbFirmware.Runner.Calls
import OrbFirmware.RgbLeds.Ring
import OrbFirmware.IrCamera.Requests
import OrbFirmware.Mirror.Commands
import OrbFirmware.Diag.Sync
import OrbFirmware.Dfu.Atomic
import OrbFirmware.Dfu.CheckGate
import OrbFirmware.Dfu.SizeGate
import OrbFirmware.Crc32
import OrbFirmware.Dfu.Check
import OrbFirmware.Loop
import OrbFirmware.Storage.Init
import OrbFirmware.Pubsub.Bounds
import OrbFirmware.IrCamera.Strobe
import OrbFirmware.Polarizer.Ramp
import OrbFirmware.Polarizer.OpenLoop
import OrbFirmware.Polarizer.Profile
import OrbFirmware.Polarizer.ShortestPath
import OrbFirmware.Polarizer.Calibration
import OrbFirmware.IrCamera.Exposures
import OrbFirmware.Polarizer.Homing
import OrbFirmware.Mirror.ReadBack
import OrbFirmware.Polling
import OrbFirmware.Mirror.Homing
import OrbFirmware.RgbLeds.Decoding
import OrbFirmware.RgbLeds.Arc
import OrbFirmware.Runner.CircularRead
import OrbFirmware.Temperature.Sampling
import OrbFirmware.Temperature.Critical
import OrbFirmware.MuxGpio.Selection
import OrbFirmware.Drv8434s.Registers
import OrbFirmware.Tof.ErrorState
import OrbFirmware.Heartbeat.Thread
import OrbFirmware.Dfu.UploadCheck
import OrbFirmware.Uart.Delivery
import OrbFirmware.RgbLeds.SpiStrip
import OrbFirmware.RgbLeds.Ws2812
import OrbFirmware.Boot.ButtonPress
import OrbFirmware.Boot.PowerCycle
import OrbFirmware.Temperature.FanTach
import OrbFirmware.Gnss.Parts
import OrbFirmware.Storage.PowerReads
import OrbFirmware.Config.PowerLoss
import OrbFirmware.Rounding
import OrbFirmware.SingleFloat
import OrbFirmware.LiquidLens.Controller
import OrbFirmware.LiquidLens.Refinement
import OrbFirmware.LiquidLens.Settling
